import StrictHttp.Proofs.Collection
import StrictHttp.Proofs.Header.Refusal

/-!
# Which headers are equal

Two headers are made apart from each other, each by a request of its own and in either variant. They
are equal exactly when their names agree up to the case of the letters of ASCII and their values
agree once the blanks at the ends are off (`makes_equal_iff`). So a name may be written in any case:
the header stays equal, with the same code and the same slot of a set, and only its own name shows
the difference. A value may not. No letter is a blank, so trimming takes the same blanks off two
values that differ in case (`exists_padding_of_sameLetters`) and leaves the difference in place.
-/

namespace StrictHttp

open Bytes (IsPadding IsCore)
open Value (Holds HasCode consult relate)

-- ---------------------------------------------------------------------------
-- Byte strings that differ in case

/-- The byte strings have the same length and at each place the same octet or letter. -/
abbrev SameLetters : Bytes → Bytes → Prop := List.Forall₂ SameLetter

section
variable {s t : Bytes}

theorem lower_eq_iff : s.lower = t.lower ↔ SameLetters s t := by
  rw [Bytes.lower, Bytes.lower, ← List.forall₂_eq_eq_eq, List.forall₂_map_left_iff,
    List.forall₂_map_right_iff]
  simp only [lowerOctet_eq_iff]

theorem SameLetters.all {P : UInt8 → Prop} (hP : ∀ {b c}, SameLetter b c → P b → P c)
    (h : SameLetters s t) (hs : ∀ b ∈ s, P b) : ∀ c ∈ t, P c := by
  induction h with
  | nil => exact hs
  | cons hbc _ ih =>
    obtain ⟨hb, hs⟩ := List.forall_mem_cons.mp hs
    exact List.forall_mem_cons.mpr ⟨hP hbc hb, ih hs⟩

theorem SameLetters.isToken (h : SameLetters s t) (hs : Grammar.IsToken s) :
    Grammar.IsToken t := by
  rw [Grammar.isToken_iff] at hs ⊢
  refine ⟨?_, h.all SameLetter.nameOctet hs.2⟩
  rintro rfl
  exact hs.1 (List.forall₂_nil_right_iff.mp h)

theorem SameLetters.isFieldValue_trim (h : SameLetters s t)
    (hs : Grammar.IsFieldValue s.trim) : Grammar.IsFieldValue t.trim := by
  rw [Grammar.isFieldValue_trim_iff] at hs ⊢
  exact h.all SameLetter.valueOctet hs

/-- Two byte strings that differ in case begin with the same blanks. -/
theorem exists_lead_of_sameLetters (h : SameLetters s t) :
    ∃ lead, s = lead ++ s.trimStart ∧ t = lead ++ t.trimStart ∧
      SameLetters s.trimStart t.trimStart := by
  induction h with
  | nil => exact ⟨[], rfl, rfl, .nil⟩
  | @cons b c s t hbc hrest ih =>
    by_cases hblank : Bytes.isBlank b = true ∨ Bytes.isBlank c = true
    · obtain rfl := hbc.eq_of_blank hblank
      have hb : Bytes.isBlank b = true := hblank.elim id id
      obtain ⟨lead, hs, ht, hcores⟩ := ih
      refine ⟨b :: lead, ?_, ?_, ?_⟩
      · simpa [Bytes.trimStart, hb] using hs
      · simpa [Bytes.trimStart, hb] using ht
      · simpa [Bytes.trimStart, hb] using hcores
    · simp only [not_or, Bool.not_eq_true] at hblank
      obtain ⟨hb, hc⟩ := hblank
      exact ⟨[], by simp [Bytes.trimStart, hb], by simp [Bytes.trimStart, hc],
        by simpa [Bytes.trimStart, hb, hc] using ⟨hbc, hrest⟩⟩

/-- What the reverse begins with stands behind the byte string itself. -/
theorem eq_trimEnd_append {lead : Bytes} (h : s.reverse = lead ++ Bytes.trimStart s.reverse) :
    s = s.trimEnd ++ lead.reverse := by
  have hreverse := congrArg List.reverse h
  rwa [List.reverse_reverse, List.reverse_append] at hreverse

/-- Two byte strings that differ in case have the same blanks at both ends. -/
theorem exists_padding_of_sameLetters (h : SameLetters s t) :
    ∃ lead trail, s = lead ++ s.trim ++ trail ∧ t = lead ++ t.trim ++ trail := by
  obtain ⟨lead, hs, ht, hcores⟩ := exists_lead_of_sameLetters h
  obtain ⟨trail, hs', ht', -⟩ := exists_lead_of_sameLetters (List.forall₂_reverse_iff.mpr hcores)
  refine ⟨lead, trail.reverse, ?_, ?_⟩
  · rw [List.append_assoc, Bytes.trim, ← eq_trimEnd_append hs']
    exact hs
  · rw [List.append_assoc, Bytes.trim, ← eq_trimEnd_append ht']
    exact ht

theorem SameLetters.eq_of_trim_eq (h : SameLetters s t) (htrim : s.trim = t.trim) : s = t := by
  obtain ⟨lead, trail, hs, ht⟩ := exists_padding_of_sameLetters h
  rw [hs, htrim, ← ht]

end

-- ---------------------------------------------------------------------------
-- Slots

/-- The two values have one code, and a set that has the first does not take the second as a member
of its own. -/
structure SharesSlot (x y : Value) : Prop where
  code (d : Digest) : ∃ c, x.code d = .ok c ∧ y.code d = .ok c
  taken {d : Digest} {items : List Value} : (∀ v ∈ items, HasCode d v) → x ∈ items →
    distinct d (items ++ [y]) = distinct d items

theorem Header.sharesSlot {h k : Header} (hfield : h.field = k.field) (hvalue : h.value = k.value) :
    SharesSlot (.header h) (.header k) where
  code d := ⟨d.atom (.header h.field h.value), rfl, by rw [hfield, hvalue]; rfl⟩
  taken hitems hh :=
    distinct_concat_of_eq hitems ⟨_, rfl⟩ hh
      (Value.holds_eq_header_iff.mpr ⟨k, rfl, hfield, hvalue⟩)

-- ---------------------------------------------------------------------------
-- Headers made of their parts

namespace Request

/-- The request gives this name and this value and is answered with the header. -/
structure Makes (request : Request) (variant : Variant) (name value : Bytes) (h : Header) :
    Prop where
  name : request.Has .name name
  value : request.Has .value value
  answer : request.answer variant = .ok (.header h)

section
variable {request request' : Request} {variant variant' : Variant}
  {name value name' value' : Bytes} {h h' : Header}

theorem Makes.parts (hmade : request.Makes variant name value h) :
    (Grammar.IsToken name ∧ Grammar.IsFieldValue value.trim) ∧ h = ⟨variant, name, value.trim⟩ := by
  have hanswer := hmade.answer
  rw [answer_of_has hmade.name hmade.value] at hanswer
  obtain ⟨k, hk, ⟨⟩⟩ := map_ok.mp hanswer
  exact Header.ofBytes_ok_iff.mp hk

theorem makes_of_legal (hname : request.Has .name name) (hvalue : request.Has .value value)
    (htoken : Grammar.IsToken name) (hlegal : Grammar.IsFieldValue value.trim)
    (variant : Variant) : request.Makes variant name value ⟨variant, name, value.trim⟩ := by
  refine ⟨hname, hvalue, ?_⟩
  rw [answer_of_has hname hvalue, Header.ofBytes_legal htoken hlegal]
  rfl

theorem exists_makes (hanswer : request.answer variant = .ok (.header h)) :
    ∃ value, request.Makes variant h.name value h := by
  have hparts : ∃ name value, request.Has .name name ∧ request.Has .value value := by
    cases request with
    | ofParts name value | ofBytes name value =>
      obtain ⟨k, hk, -⟩ := map_ok.mp hanswer
      obtain ⟨n, v, hn, hv, -⟩ := Header.make_ok_iff.mp hk
      exact ⟨n, v, .given rfl hn, .given rfl hv⟩
    | ofLine line =>
      obtain ⟨k, hk, -⟩ := map_ok.mp hanswer
      obtain ⟨s, hs, hparsed⟩ := Header.parse_ok_iff.mp hk
      obtain ⟨name, rest, hsplit, -⟩ := Header.parseBytes_ok_iff.mp hparsed
      exact ⟨name, rest, .name hs hsplit, .value hs hsplit⟩
  obtain ⟨name, value, hname, hvalue⟩ := hparts
  have hmade : request.Makes variant name value h := ⟨hname, hvalue, hanswer⟩
  obtain ⟨-, rfl⟩ := hmade.parts
  exact ⟨value, hmade⟩

/-- Names up to the case of their letters, values up to the blanks at their ends. -/
theorem makes_equal_iff (hmade : request.Makes variant name value h)
    (hmade' : request'.Makes variant' name' value' h') :
    Holds .eq (.header h) (.header h') ↔
      SameLetters name name' ∧ ∃ core, IsCore value core ∧ IsCore value' core := by
  obtain ⟨-, rfl⟩ := hmade.parts
  obtain ⟨-, rfl⟩ := hmade'.parts
  simp [Value.holds_eq_header_iff, lower_eq_iff, Bytes.isCore_iff]

/-- In another case a name or a value is as legal as before. -/
theorem Makes.recased (hmade : request.Makes variant name value h)
    (hname' : request'.Has .name name') (hvalue' : request'.Has .value value')
    (hnames : SameLetters name name') (hvalues : SameLetters value value') (variant' : Variant) :
    request'.Makes variant' name' value' ⟨variant', name', value'.trim⟩ := by
  obtain ⟨⟨htoken, hlegal⟩, -⟩ := hmade.parts
  exact makes_of_legal hname' hvalue' (hnames.isToken htoken) (hvalues.isFieldValue_trim hlegal)
    variant'

/-- Two headers, made by any requests in any variants, are equal exactly if their names agree up to
the case of letters and their values up to the blanks at the ends. Another case of the name makes an
equal header in the same slot that has its own spelling; another case of the value makes one that
is not equal. -/
theorem headers_equal_by_parts :
    (∀ (request : Request) (variant : Variant) (h : Header),
      request.answer variant = .ok (.header h) →
        ∃ value, request.Makes variant h.name value h) ∧
    (∀ (request request' : Request) (variant variant' : Variant) (name value name' value' : Bytes)
      (h h' : Header),
      request.Makes variant name value h → request'.Makes variant' name' value' h' →
        relate .eq (.header h) (.header h') = consult .eq (.header h) (.header h') ∧
        (Holds .eq (.header h) (.header h') ↔
          SameLetters name name' ∧ ∃ core, IsCore value core ∧ IsCore value' core)) ∧
    (∀ (request request' : Request) (variant variant' : Variant) (name value name' : Bytes)
      (h : Header),
      request.Makes variant name value h → request'.Has .name name' →
      request'.Has .value value → SameLetters name name' →
        ∃ h', request'.Makes variant' name' value h' ∧ h'.name = name' ∧
          Holds .eq (.header h) (.header h') ∧ SharesSlot (.header h) (.header h')) ∧
    ∀ (request request' : Request) (variant variant' : Variant) (name value name' value' : Bytes)
      (h : Header),
      request.Makes variant name value h → request'.Has .name name' →
      request'.Has .value value' → SameLetters name name' → SameLetters value value' →
      value ≠ value' →
        ∃ h', request'.Makes variant' name' value' h' ∧ ¬Holds .eq (.header h) (.header h') := by
  refine ⟨fun _ _ _ => exists_makes, ?_, ?_, ?_⟩
  · intro request request' variant variant' name value name' value' h h' hmade hmade'
    exact ⟨Value.relate_eq_consult _ _ _, makes_equal_iff hmade hmade'⟩
  · intro request request' variant variant' name value name' h hmade hname' hvalue' hnames
    have hmade' := hmade.recased hname' hvalue' hnames
      (List.forall₂_same.mpr fun b _ => .inl rfl) variant'
    obtain ⟨-, rfl⟩ := hmade.parts
    have hslot := Header.sharesSlot (h := ⟨variant, name, value.trim⟩)
      (k := ⟨variant', name', value.trim⟩) (lower_eq_iff.mpr hnames) rfl
    refine ⟨_, hmade', rfl, (makes_equal_iff hmade hmade').mpr ⟨hnames, ?_⟩, hslot⟩
    exact ⟨value.trim, Bytes.isCore_trim value, Bytes.isCore_trim value⟩
  · intro request request' variant variant' name value name' value' h hmade hname' hvalue' hnames
      hvalues hne
    have hmade' := hmade.recased hname' hvalue' hnames hvalues variant'
    refine ⟨_, hmade', fun hequal => ?_⟩
    obtain ⟨-, core, hcore, hcore'⟩ := (makes_equal_iff hmade hmade').mp hequal
    rw [Bytes.isCore_iff] at hcore hcore'
    exact hne (hvalues.eq_of_trim_eq (hcore.symm.trans hcore'))

/-- The line `A^: x` and the parts `a^` and `x` make equal headers. The mark `~`, which differs from
`^` in the bit that tells letters of two cases apart, makes another name. -/
theorem headers_equal_by_parts_mark :
    Holds .eq (.header ⟨.derived, [0x41, 0x5E], [0x78]⟩) (.header ⟨.base, [0x61, 0x5E], [0x78]⟩) ∧
      ¬Holds .eq (.header ⟨.derived, [0x41, 0x5E], [0x78]⟩)
        (.header ⟨.base, [0x61, 0x7E], [0x78]⟩) := by
  have hsplit : Header.IsSplit [0x41, 0x5E, 0x3A, 0x20, 0x78] [0x41, 0x5E] [0x20, 0x78] :=
    ⟨rfl, by decide⟩
  have hline : (ofLine (.bytes .plain [0x41, 0x5E, 0x3A, 0x20, 0x78])).Makes .derived [0x41, 0x5E]
      [0x20, 0x78] ⟨.derived, [0x41, 0x5E], [0x78]⟩ :=
    ⟨.name rfl hsplit, .value rfl hsplit, rfl⟩
  have hcaret : (ofParts (.text "a^") (.text "x")).Makes .base [0x61, 0x5E] [0x78]
      ⟨.base, [0x61, 0x5E], [0x78]⟩ := ⟨.given rfl rfl, .given rfl rfl, rfl⟩
  have htilde : (ofParts (.text "a~") (.text "x")).Makes .base [0x61, 0x7E] [0x78]
      ⟨.base, [0x61, 0x7E], [0x78]⟩ := ⟨.given rfl rfl, .given rfl rfl, rfl⟩
  obtain ⟨-, hequal, -⟩ := headers_equal_by_parts
  constructor
  · refine (hequal _ _ _ _ _ _ _ _ _ _ hline hcaret).2.mpr ⟨?_, [0x78], ?_⟩
    · exact .cons (by decide) (.cons (by decide) .nil)
    · exact ⟨Bytes.isCore_iff.mpr rfl, Bytes.isCore_iff.mpr rfl⟩
  · rw [(hequal _ _ _ _ _ _ _ _ _ _ hline htilde).2]
    rintro ⟨_ | ⟨-, _ | ⟨hmarks, -⟩⟩, -⟩
    exact absurd hmarks (by decide)

end

end Request

end StrictHttp
