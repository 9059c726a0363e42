import StrictHttp.Proofs.Header.Refusal

/-!
# The two segments of a line

A header can be asked for by a line or by its two parts. As long as the name has no colon, the two
ways differ in nothing (`Request.answer_line`), and a name with a colon, which a line would end
sooner, is refused as a part. So both ways lead to the same headers, those of legal names and
trimmed legal values.

Blanks are treated in opposite ways on the two sides of the colon. Around the value they are nothing
(`Header.ofBytes_pad`), in a legal header as in a refused one and its record. In the name one of
them is enough for a refusal, wherever it stands (`refusesName_of_mem`).
-/

namespace StrictHttp

open Header (colon)
open Bytes (IsPadding IsBare)

/-- The answer is the refusal of an illegal name, which is logged as it was given. -/
def RefusesName (answer : Except Fault Value) (name : Bytes) : Prop :=
  ∃ f, answer = .error f ∧ Report.ofFault f = .invalidHeader "illegal header name"
    ["rejecting header: illegal header name: " ++ name.quote]

namespace Header

section
variable {variant : Variant} {name value : Bytes} {b : UInt8}

theorem ofBytes_pad {lead trail : Bytes} (hlead : IsPadding lead) (htrail : IsPadding trail) :
    ofBytes variant name (lead ++ value ++ trail) = ofBytes variant name value := by
  simp only [ofBytes, Bytes.trim_pad hlead htrail]

/-- One octet that no name may have is enough. -/
theorem refusesName_of_mem (hb : b ∈ name) (hnot : ¬IsNameOctet b) :
    RefusesName ((ofBytes variant name value).map .header) name := by
  have hillegal : ¬Grammar.IsToken name := fun h => hnot ((Grammar.isToken_iff.mp h).2 b hb)
  rw [ofBytes_illegalName hillegal]
  exact ⟨_, rfl, rfl⟩

theorem refusesName_of_colon (h : colon ∈ name) :
    RefusesName ((ofBytes variant name value).map .header) name :=
  refusesName_of_mem h fun hcolon => hcolon.unbroken.1 rfl

theorem not_isNameOctet_of_blank (hb : b = 0x20 ∨ b = 0x09) : ¬IsNameOctet b := by
  intro h
  apply h.unbroken.2
  rcases hb with rfl | rfl <;> decide

theorem refusesName_of_padding (before : Bytes) {blanks : Bytes} (after : Bytes)
    (hblanks : IsPadding blanks) (hne : blanks ≠ []) :
    RefusesName ((ofBytes variant (before ++ blanks ++ after) value).map .header)
      (before ++ blanks ++ after) := by
  obtain ⟨b, hb⟩ := List.exists_mem_of_ne_nil blanks hne
  exact refusesName_of_mem (by simp [hb]) (not_isNameOctet_of_blank (hblanks b hb))

end

end Header

namespace Request

section
variable {variant : Variant} {request : Request} {name value rest : Bytes}

theorem answer_bytes (f g : ByteForm) (variant : Variant) (name value : Bytes) :
    (ofParts (.bytes f name) (.bytes g value)).answer variant =
      (Header.ofBytes variant name value).map .header :=
  rfl

theorem answer_line (f : ByteForm) (hname : colon ∉ name) :
    (ofLine (.bytes f (name ++ colon :: rest))).answer variant =
      (Header.ofBytes variant name rest).map .header := by
  rw [← Header.parseBytes_isSplit ⟨rfl, hname⟩]
  rfl

-- ---------------------------------------------------------------------------
-- The headers of both ways

/-- The request is answered with a header of this name and value. -/
def Yields (request : Request) (variant : Variant) (name value : Bytes) : Prop :=
  ∃ h, request.answer variant = .ok (.header h) ∧ h.name = name ∧ h.value = value

theorem answer_wellFormed {h : Header} (hh : request.answer variant = .ok (.header h)) :
    h.WellFormed := by
  cases request with
  | ofParts name value | ofBytes name value =>
    obtain ⟨k, hk, ⟨⟩⟩ := map_ok.mp hh
    exact Header.make_wellFormed hk
  | ofLine line =>
    obtain ⟨k, hk, ⟨⟩⟩ := map_ok.mp hh
    exact Header.parse_wellFormed hk

/-- Requests that can ask for all legal names and values by their bytes yield these and no others. -/
theorem exists_yields_iff (variant : Variant) (name value : Bytes) (ask : ι → Request)
    (hask : Grammar.IsToken name → ∃ i,
      (ask i).answer variant = (Header.ofBytes variant name value).map .header) :
    (∃ i, (ask i).Yields variant name value) ↔
      (name ≠ [] ∧ ∀ b ∈ name, IsNameOctet b) ∧ (∀ b ∈ value, IsValueOctet b) ∧ IsBare value := by
  rw [← Grammar.isToken_iff, ← Grammar.isFieldValue_iff]
  constructor
  · rintro ⟨i, h, hh, rfl, rfl⟩
    exact ⟨(answer_wellFormed hh).name, (answer_wellFormed hh).value⟩
  · rintro ⟨hname, hvalue⟩
    have htrim : value.trim = value := Bytes.trim_of_isBare (Grammar.isFieldValue_iff.mp hvalue).2
    obtain ⟨i, hi⟩ := hask hname
    refine ⟨i, ⟨variant, name, value⟩, ?_, rfl, rfl⟩
    rw [hi, Header.ofBytes_legal hname (htrim.symm ▸ hvalue), htrim]
    rfl

/-- A name without a colon and a value are answered as one line with a colon between them. A name
with a colon is refused as a name, whatever the line would be read as. Both ways yield the same
headers, those of legal names and trimmed legal values. -/
theorem line_and_parts_agree :
    (∀ variant f g k name value, colon ∉ name →
      (ofLine (.bytes f (name ++ colon :: value))).answer variant =
          (ofParts (.bytes g name) (.bytes k value)).answer variant ∧
        (ofLine (.bytes f (name ++ colon :: value))).answer variant =
          (ofBytes (.bytes g name) (.bytes k value)).answer variant) ∧
    (∀ variant g k name value, colon ∈ name →
      RefusesName ((ofParts (.bytes g name) (.bytes k value)).answer variant) name ∧
        RefusesName ((ofBytes (.bytes g name) (.bytes k value)).answer variant) name) ∧
    ∀ variant name value,
      ((∃ n v, (ofParts n v).Yields variant name value) ↔
        ∃ line, (ofLine (.bytes .plain line)).Yields variant name value) ∧
      ((∃ n v, (ofBytes n v).Yields variant name value) ↔
        ∃ line, (ofLine (.bytes .plain line)).Yields variant name value) ∧
      ((∃ line, (ofLine (.bytes .plain line)).Yields variant name value) ↔
        (name ≠ [] ∧ ∀ b ∈ name, IsNameOctet b) ∧ (∀ b ∈ value, IsValueOctet b) ∧
          IsBare value) := by
  refine ⟨?_, ?_, ?_⟩
  · intro variant f g k name value hname
    rw [answer_line f hname]
    exact ⟨rfl, rfl⟩
  · intro variant g k name value hname
    exact ⟨Header.refusesName_of_colon hname, Header.refusesName_of_colon hname⟩
  · intro variant name value
    have hparts := exists_yields_iff variant name value
      (fun given : Value × Value => ofParts given.1 given.2)
      fun _ => ⟨(.bytes .plain name, .bytes .plain value), rfl⟩
    have hbytes := exists_yields_iff variant name value
      (fun given : Value × Value => ofBytes given.1 given.2)
      fun _ => ⟨(.bytes .plain name, .bytes .plain value), rfl⟩
    have hline := exists_yields_iff variant name value
      (fun line => ofLine (.bytes .plain line))
      fun hname => ⟨name ++ colon :: value,
        answer_line .plain (Header.colon_notMem (Grammar.isToken_iff.mp hname).2)⟩
    rw [Prod.exists] at hparts hbytes
    exact ⟨hparts.trans hline.symm, hbytes.trans hline.symm, hline⟩

/-- The line of a name with a colon is read as that of the shorter name before it. -/
example : (ofLine (.bytes .plain [0x61, 0x3A, 0x62, 0x3A, 0x63])).answer .base =
    .ok (.header ⟨.base, [0x61], [0x62, 0x3A, 0x63]⟩) := by
  rfl

-- ---------------------------------------------------------------------------
-- Blanks in the segments

/-- Blanks around a value change nothing in the answer. Blanks around a name, and blanks anywhere
before the colon of a line, are refused as an illegal name, whatever the value is. -/
theorem blanks_in_segments :
    (∀ variant f g f' g' name value lead trail, IsPadding lead → IsPadding trail →
      (ofParts (.bytes f name) (.bytes g (lead ++ value ++ trail))).answer variant =
        (ofParts (.bytes f' name) (.bytes g' value)).answer variant) ∧
    (∀ variant f g name value lead trail, IsPadding lead → IsPadding trail → lead ++ trail ≠ [] →
      RefusesName ((ofParts (.bytes f (lead ++ name ++ trail)) (.bytes g value)).answer variant)
        (lead ++ name ++ trail)) ∧
    (∀ variant f g name rest lead trail, colon ∉ name → IsPadding lead → IsPadding trail →
      (ofLine (.bytes f (name ++ colon :: (lead ++ rest ++ trail)))).answer variant =
        (ofLine (.bytes g (name ++ colon :: rest))).answer variant) ∧
    ∀ variant f before blanks after rest, colon ∉ before ++ after → IsPadding blanks →
      blanks ≠ [] →
        RefusesName
          ((ofLine (.bytes f (before ++ blanks ++ after ++ colon :: rest))).answer variant)
          (before ++ blanks ++ after) := by
  refine ⟨?_, ?_, ?_, ?_⟩
  · intro variant f g f' g' name value lead trail hlead htrail
    rw [answer_bytes, answer_bytes, Header.ofBytes_pad hlead htrail]
  · intro variant f g name value lead trail hlead htrail hne
    rw [answer_bytes]
    by_cases hnil : lead = []
    · subst hnil
      simpa using Header.refusesName_of_padding name [] htrail hne
    · simpa using Header.refusesName_of_padding [] (name ++ trail) hlead hnil
  · intro variant f g name rest lead trail hname hlead htrail
    rw [answer_line f hname, answer_line g hname, Header.ofBytes_pad hlead htrail]
  · intro variant f before blanks after rest hcolon hblanks hne
    have hname : colon ∉ before ++ blanks ++ after := by
      intro h
      simp only [List.mem_append, not_or] at h hcolon
      rcases h with (h | h) | h
      · exact hcolon.1 h
      · exact absurd (hblanks _ h) (by decide)
      · exact hcolon.2 h
    rw [answer_line f hname]
    exact Header.refusesName_of_padding before after hblanks hne

end

end Request

end StrictHttp
