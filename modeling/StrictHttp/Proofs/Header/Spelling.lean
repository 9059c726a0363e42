import StrictHttp.Proofs.Header.Refusal

/-!
# Spellings of what is given

The same bytes can be given as a byte string of any form, as a sequence of numbers, or, if they are
ASCII, as text. The answer to a request depends on the bytes and not on their spelling.

Text that is not ASCII is refused by coercion, while its bytes in UTF-8 come as far as the grammar.
They are refused there: a character outside ASCII leaves an octet of 0x80 or more behind
(`Text.ascii_utf8_iff`), and no octet of a legal name, value or line is one (`ofBytes_ascii`,
`parseBytes_ascii`), on whichever side of the first colon it stands.
-/

namespace StrictHttp

-- ---------------------------------------------------------------------------
-- Text in UTF-8

def Bytes.IsAscii (s : Bytes) : Prop := ∀ b ∈ s, b < 0x80

namespace Text

def utf8 (text : String) : Bytes := text.toUTF8.data.toList

theorem utf8_eq_flatMap (text : String) :
    utf8 text = text.toList.flatMap String.utf8EncodeChar := by
  rw [utf8, String.toUTF8, ← String.utf8Encode_toList, List.utf8Encode,
    List.toList_data_toByteArray]

theorem utf8EncodeChar_of_ascii {c : Char} (h : c.toNat < 0x80) :
    String.utf8EncodeChar c = [c.toNat.toUInt8] := by
  have hle : c.val.toNat ≤ 127 := Nat.le_of_lt_succ h
  rw [String.utf8EncodeChar, if_pos hle]
  rfl

/-- The first octet of the encoding has its top bit set. -/
theorem exists_high_of_not_ascii {c : Char} (h : ¬c.toNat < 0x80) :
    ∃ b ∈ String.utf8EncodeChar c, ¬b < 0x80 := by
  have hgt : ¬c.val.toNat ≤ 127 := fun hle => h (Nat.lt_succ_of_le hle)
  rw [String.utf8EncodeChar, if_neg hgt]
  -- One case for each longer encoding; in all of them a length mark leads the first octet.
  split_ifs
  all_goals
    refine ⟨_, List.mem_cons_self, ?_⟩
    rw [UInt8.lt_iff_toNat_lt, UInt8.toNat_ofNat', show (0x80 : UInt8).toNat = 128 from rfl]
    omega

theorem ascii_utf8_iff {text : String} : (utf8 text).IsAscii ↔ AllAscii text.toList := by
  simp only [Bytes.IsAscii, utf8_eq_flatMap, List.mem_flatMap]
  constructor
  · intro h c hc
    by_contra hhigh
    obtain ⟨b, hb, hb'⟩ := exists_high_of_not_ascii hhigh
    exact hb' (h b ⟨c, hc, hb⟩)
  · rintro h b ⟨c, hc, hb⟩
    have hascii := h c hc
    rw [utf8EncodeChar_of_ascii hascii, List.mem_singleton] at hb
    subst hb
    rw [UInt8.lt_iff_toNat_lt, Nat.toUInt8, UInt8.toNat_ofNat']
    exact Nat.lt_of_le_of_lt (Nat.mod_le _ _) hascii

theorem toAscii_utf8 {text : String} (h : AllAscii text.toList) :
    toAscii text.toList = .ok (utf8 text) := by
  rw [toAscii_of_allAscii h, utf8_eq_flatMap, List.map_eq_flatMap]
  congr 1
  exact List.flatMap_congr fun c hc => (utf8EncodeChar_of_ascii (h c hc)).symm

end Text

-- ---------------------------------------------------------------------------
-- Spellings of bytes

namespace Value

/-- The value is one of the spellings of these bytes. -/
inductive Spells (s : Bytes) : Value → Prop
  | bytes (form : ByteForm) : Spells s (.bytes form s)
  | list : Spells s (.list (s.map fun b => .int b.toNat))
  | tuple : Spells s (.tuple (s.map fun b => .int b.toNat))
  | text : s.IsAscii → Spells s (.text (String.ofList s.toChars))

theorem toOctet_int (b : UInt8) : (int b.toNat).toOctet = .ok b := by
  have hrange : (0 : Int) ≤ b.toNat ∧ (b.toNat : Int) < 256 := by
    have hb := b.toNat_lt
    omega
  simp [toOctet, int?, hrange]

theorem toOctets_ints (s : Bytes) : toOctets (s.map fun b => .int b.toNat) = .ok s := by
  induction s with
  | nil => rfl
  | cons b s ih =>
    rw [List.map_cons, toOctets, toOctet_int, ih]
    rfl

theorem toAscii_toChars {s : Bytes} (h : s.IsAscii) : Text.toAscii s.toChars = .ok s := by
  have hascii : Text.AllAscii s.toChars := by
    intro c hc
    obtain ⟨b, hb, rfl⟩ := List.mem_map.mp hc
    rw [toNat_char]
    exact h b hb
  rw [Text.toAscii_of_allAscii hascii, Bytes.toChars, List.map_map]
  congr 1
  refine List.map_id'' (fun b => ?_) s
  rw [Function.comp_apply, toNat_char]
  exact UInt8.ofNat_toNat

theorem Spells.toBytes_eq {s : Bytes} {v : Value} (h : Spells s v) : v.toBytes = .ok s := by
  cases h with
  | bytes form => rfl
  | list => exact toOctets_ints s
  | tuple => exact toOctets_ints s
  | text h =>
    rw [toBytes, String.toList_ofList]
    exact toAscii_toChars h

end Value

-- ---------------------------------------------------------------------------
-- Answers alike

/-- Both answers are the same success, or both refuse an invalid header. -/
inductive Alike : Except Fault α → Except Fault α → Prop
  | made (a : α) : Alike (.ok a) (.ok a)
  | refused {f g : Fault} : f.category = .invalidHeader → g.category = .invalidHeader →
      Alike (.error f) (.error g)

theorem Alike.map {e e' : Except Fault α} (h : Alike e e') (g : α → β) :
    Alike (e.map g) (e'.map g) := by
  cases h with
  | made a => exact .made (g a)
  | refused hf hf' => exact .refused hf hf'

/-- An answer that only the grammar refuses is like itself. -/
theorem Alike.refl {e : Except Fault α} (h : ∀ f, e = .error f → ∃ r, f = .rejected r) :
    Alike e e := by
  cases e with
  | ok a => exact .made a
  | error f =>
    obtain ⟨r, rfl⟩ := h f rfl
    exact .refused rfl rfl

namespace Header

open Value (Spells)

section
variable {variant : Variant} {part : Part}

theorem make_spells {n v : Bytes} {name value : Value} (hname : Spells n name)
    (hvalue : Spells v value) : make variant name value = ofBytes variant n v := by
  rw [make, coerce_ok_iff.mpr hname.toBytes_eq, coerce_ok_iff.mpr hvalue.toBytes_eq]
  rfl

theorem parse_spells {s : Bytes} {line : Value} (hline : Spells s line) :
    parse variant line = parseBytes variant s := by
  rw [parse, coerce_ok_iff.mpr hline.toBytes_eq]
  rfl

theorem ofBytes_ascii {name value : Bytes} {h : Header}
    (hh : ofBytes variant name value = .ok h) : name.IsAscii ∧ value.IsAscii := by
  obtain ⟨⟨hname, hvalue⟩, -⟩ := ofBytes_ok_iff.mp hh
  rw [Grammar.isToken_iff] at hname
  rw [Grammar.isFieldValue_trim_iff] at hvalue
  exact ⟨fun b hb => (hname.2 b hb).valueOctet.printable.2.2.2.2,
    fun b hb => (hvalue b hb).printable.2.2.2.2⟩

theorem parseBytes_ascii {line : Bytes} {h : Header} (hh : parseBytes variant line = .ok h) :
    line.IsAscii := by
  obtain ⟨name, rest, ⟨rfl, -⟩, hok⟩ := parseBytes_ok_iff.mp hh
  obtain ⟨hname, hrest⟩ := ofBytes_ascii hok
  intro b hb
  rcases List.mem_append.mp hb with hb | hb
  · exact hname b hb
  · rcases List.mem_cons.mp hb with rfl | hb
    · decide
    · exact hrest b hb

/-- Text goes on as its bytes if it is ASCII. If it is not, the answer for the bytes has to be a
refusal too. -/
theorem coerce_text_alike {text : String} {next : Bytes → Except Fault α} {other : Except Fault α}
    (hascii : Alike (next (Text.utf8 text)) other)
    (hlegal : ∀ a, other = .ok a → (Text.utf8 text).IsAscii)
    (hrejected : ∀ f, other = .error f → ∃ r, f = .rejected r) :
    Alike (coerce part (.text text) >>= next) other := by
  by_cases h : Text.AllAscii text.toList
  · have hbytes : (Value.text text).toBytes = .ok (Text.utf8 text) := Text.toAscii_utf8 h
    rw [coerce_ok_iff.mpr hbytes]
    exact hascii
  · rw [coerce_of_not_ascii h]
    cases other with
    | ok a => exact (h (Text.ascii_utf8_iff.mp (hlegal a rfl))).elim
    | error f =>
      obtain ⟨r, rfl⟩ := hrejected f rfl
      exact .refused rfl rfl

theorem make_text_alike (variant : Variant) (name value : String) :
    Alike (make variant (.text name) (.text value))
      (ofBytes variant (Text.utf8 name) (Text.utf8 value)) := by
  refine coerce_text_alike (coerce_text_alike (.refl ?_) ?_ ?_) ?_ ?_
  · exact fun f => ofBytes_error
  · exact fun h hh => (ofBytes_ascii hh).2
  · exact fun f => ofBytes_error
  · exact fun h hh => (ofBytes_ascii hh).1
  · exact fun f => ofBytes_error

theorem parse_text_alike (variant : Variant) (line : String) :
    Alike (parse variant (.text line)) (parseBytes variant (Text.utf8 line)) := by
  refine coerce_text_alike (.refl ?_) ?_ ?_
  · exact fun f => parseBytes_error
  · exact fun h => parseBytes_ascii
  · exact fun f => parseBytes_error

end

end Header

-- ---------------------------------------------------------------------------
-- Requests

namespace Request

open Value (Spells)

/-- The same bytes are given for each part, in any two spellings. -/
inductive Respelled : Request → Request → Prop
  | ofParts {n v : Bytes} {name name' value value' : Value} : Spells n name → Spells n name' →
      Spells v value → Spells v value' → Respelled (ofParts name value) (ofParts name' value')
  | ofBytes {n v : Bytes} {name name' value value' : Value} : Spells n name → Spells n name' →
      Spells v value → Spells v value' → Respelled (ofBytes name value) (ofBytes name' value')
  | ofLine {s : Bytes} {line line' : Value} : Spells s line → Spells s line' →
      Respelled (ofLine line) (ofLine line')

/-- Text is given for each part, and the bytes of this text in UTF-8. -/
inductive Encoded : Request → Request → Prop
  | ofParts (name value : String) : Encoded (ofParts (.text name) (.text value))
      (ofParts (.bytes .plain (Text.utf8 name)) (.bytes .plain (Text.utf8 value)))
  | ofBytes (name value : String) : Encoded (ofBytes (.text name) (.text value))
      (ofBytes (.bytes .plain (Text.utf8 name)) (.bytes .plain (Text.utf8 value)))
  | ofLine (line : String) : Encoded (ofLine (.text line))
      (ofLine (.bytes .plain (Text.utf8 line)))

section
variable {request request' : Request}

theorem Respelled.answer_eq (h : Respelled request request') (variant : Variant) :
    request.answer variant = request'.answer variant := by
  cases h with
  | ofParts hname hname' hvalue hvalue' =>
    rw [answer, answer, Call.make, Call.make, Header.make_spells hname hvalue,
      Header.make_spells hname' hvalue']
  | ofBytes hname hname' hvalue hvalue' =>
    rw [answer, answer, Call.make, Call.make, Header.make_spells hname hvalue,
      Header.make_spells hname' hvalue']
  | ofLine hline hline' =>
    rw [answer, answer, Call.make, Call.make, Header.parse_spells hline,
      Header.parse_spells hline']

theorem Encoded.answer_alike (h : Encoded request request') (variant : Variant) :
    Alike (request.answer variant) (request'.answer variant) := by
  cases h with
  | ofParts name value => exact (Header.make_text_alike variant name value).map _
  | ofBytes name value => exact (Header.make_text_alike variant name value).map _
  | ofLine line => exact (Header.parse_text_alike variant line).map _

/-- How the bytes of a request are spelled does not change its answer, down to the fault and its log
records. Text of any characters and its bytes in UTF-8 are answered with the same header, or both
are refused as an invalid header. -/
theorem spelling_irrelevant :
    (∀ request request' variant, Respelled request request' →
      request.answer variant = request'.answer variant) ∧
    ∀ request request' variant, Encoded request request' →
      Alike (request.answer variant) (request'.answer variant) :=
  ⟨fun _ _ variant h => h.answer_eq variant, fun _ _ variant h => h.answer_alike variant⟩

end

end Request

end StrictHttp
