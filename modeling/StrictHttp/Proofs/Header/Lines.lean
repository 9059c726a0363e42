import StrictHttp.Proofs.Session.Headers

/-!
# Lines of headers

A line of a header has its name before the colon and its value behind it, with padding on either
side of the value. Reading such a line gives the header back (`parseBytes_isLineOf`), and a line
that is read is one of its header. No line is one of two headers, since a name holds no colon and
trimming finds the value again (`IsLineOf.unique`). The headers meant are those that some session
holds, which are the well-formed ones (`reachable_iff`).
-/

namespace StrictHttp

/-- The log records of an answer: only a fault can have one. -/
def logged : Except Fault α → List String
  | .ok _ => []
  | .error f => f.record.toList

namespace Header

open Bytes (IsPadding IsBare)

/-- The name, the colon, and the value with padding on either side. -/
def IsLineOf (line name value : Bytes) : Prop :=
  ∃ lead trail, IsPadding lead ∧ IsPadding trail ∧
    line = name ++ colon :: (lead ++ value ++ trail)

/-- Some session holds the header. -/
def Reachable (h : Header) : Prop := ∃ ops, h ∈ (Session.memory ops).headers

section
variable {variant : Variant}

-- ---------------------------------------------------------------------------
-- Headers that can be reached

theorem WellFormed.isBare {h : Header} (hh : h.WellFormed) : IsBare h.value :=
  (Grammar.isFieldValue_iff.mp hh.value).2

theorem WellFormed.ofBytes_eq {h : Header} {rest : Bytes} (hh : h.WellFormed)
    (hrest : rest.trim = h.value) (variant : Variant) :
    ofBytes variant h.name rest = .ok ⟨variant, h.name, h.value⟩ := by
  rw [ofBytes_legal hh.name (hrest ▸ hh.value), hrest]

/-- A well-formed header is built again from what it holds. -/
theorem WellFormed.make_eq {h : Header} (hh : h.WellFormed) (f g : ByteForm) :
    make h.variant (.bytes f h.name) (.bytes g h.value) = .ok h :=
  make_ok_iff.mpr ⟨h.name, h.value, rfl, rfl,
    hh.ofBytes_eq (Bytes.trim_of_isBare hh.isBare) h.variant⟩

/-- The headers of sessions are the well-formed ones: each of these is built from what it holds. -/
theorem reachable_iff {h : Header} : h.Reachable ↔ h.WellFormed := by
  constructor
  · rintro ⟨ops, hops⟩
    exact Memory.wellFormed_iff.mp (Session.memory_wellFormed ops) h hops
  · intro hh
    have hcall : Call.make .header h.variant [.bytes .plain h.name, .bytes .plain h.value] =
        .ok (.header h) := by
      rw [Call.make, hh.make_eq]
      rfl
    refine ⟨[.evaluate (.call .header h.variant
      (.list [.bytes .plain h.name, .bytes .plain h.value]))], ?_⟩
    have hanswer : Operation.perform [] (.evaluate (.call .header h.variant
        (.list [.bytes .plain h.name, .bytes .plain h.value]))) = .ok (.value (.header h)) := by
      simp only [Operation.perform, bind_ok, pure_ok]
      refine ⟨.header h, ?_, rfl⟩
      simp only [Operand.eval, bind_ok]
      exact ⟨_, rfl, _, rfl, hcall⟩
    simp [Session.memory, Session.run, Session.runFrom, hanswer, remembered, Result.toValue,
      Memory.headers, Value.headers]

-- ---------------------------------------------------------------------------
-- Readings of a line

theorem IsLineOf.isSplit {line name value : Bytes} (h : IsLineOf line name value)
    (hname : colon ∉ name) : ∃ rest, IsSplit line name rest ∧ rest.trim = value.trim := by
  obtain ⟨lead, trail, hlead, htrail, rfl⟩ := h
  exact ⟨_, ⟨rfl, hname⟩, Bytes.trim_pad hlead htrail value⟩

theorem IsSplit.isLineOf {line name rest : Bytes} (h : IsSplit line name rest) :
    IsLineOf line name rest.trim := by
  obtain ⟨lead, trail, hlead, htrail, -, hrest⟩ := Bytes.isCore_trim rest
  exact ⟨lead, trail, hlead, htrail, hrest ▸ h.1⟩

/-- The name and what trimming leaves of the value can be read off a line. -/
theorem IsLineOf.unique {line name value name' value' : Bytes} (h : IsLineOf line name value)
    (h' : IsLineOf line name' value') (hname : colon ∉ name) (hname' : colon ∉ name') :
    name = name' ∧ value.trim = value'.trim := by
  obtain ⟨rest, hsplit, hrest⟩ := h.isSplit hname
  obtain ⟨rest', hsplit', hrest'⟩ := h'.isSplit hname'
  obtain ⟨rfl, rfl⟩ := hsplit.unique hsplit'
  exact ⟨rfl, hrest.symm.trans hrest'⟩

theorem colon_notMem {name : Bytes} (h : ∀ b ∈ name, IsNameOctet b) : colon ∉ name :=
  fun hmem => (h colon hmem).unbroken.1 rfl

theorem WellFormed.colon_notMem {h : Header} (hh : h.WellFormed) : colon ∉ h.name :=
  Header.colon_notMem (Grammar.isToken_iff.mp hh.name).2

-- ---------------------------------------------------------------------------
-- Lines that are read

theorem parseBytes_isLineOf {h : Header} {line : Bytes} (hh : h.WellFormed)
    (hline : IsLineOf line h.name h.value) :
    parseBytes variant line = .ok ⟨variant, h.name, h.value⟩ := by
  obtain ⟨rest, hsplit, hrest⟩ := hline.isSplit hh.colon_notMem
  rw [parseBytes_isSplit hsplit, hh.ofBytes_eq (hrest.trans (Bytes.trim_of_isBare hh.isBare))]

theorem isLineOf_of_parseBytes {line : Bytes} {h : Header}
    (hh : parseBytes variant line = .ok h) : IsLineOf line h.name h.value := by
  obtain ⟨name, rest, hsplit, hok⟩ := parseBytes_ok_iff.mp hh
  obtain ⟨-, rfl⟩ := ofBytes_ok_iff.mp hok
  exact hsplit.isLineOf

/-- Two lines that are read have the same name and value exactly when they differ in padding
only. -/
theorem parseBytes_same_iff {variant' : Variant} {line line' : Bytes} {h h' : Header}
    (hh : parseBytes variant line = .ok h) (hh' : parseBytes variant' line' = .ok h') :
    (h.name = h'.name ∧ h.value = h'.value) ↔
      ∃ name value, colon ∉ name ∧ IsLineOf line name value ∧ IsLineOf line' name value := by
  have hline := isLineOf_of_parseBytes hh
  have hline' := isLineOf_of_parseBytes hh'
  have hwf := parseBytes_wellFormed hh
  have hwf' := parseBytes_wellFormed hh'
  constructor
  · rintro ⟨hname, hvalue⟩
    rw [← hname, ← hvalue] at hline'
    exact ⟨h.name, h.value, hwf.colon_notMem, hline, hline'⟩
  · rintro ⟨name, value, hcolon, hboth, hboth'⟩
    obtain ⟨hname, hvalue⟩ := hline.unique hboth hwf.colon_notMem hcolon
    obtain ⟨hname', hvalue'⟩ := hline'.unique hboth' hwf'.colon_notMem hcolon
    rw [Bytes.trim_of_isBare hwf.isBare] at hvalue
    rw [Bytes.trim_of_isBare hwf'.isBare] at hvalue'
    exact ⟨hname.trans hname'.symm, hvalue.trans hvalue'.symm⟩

/-- Reading undoes writing, whatever the padding: each line of a header that a session can hold is
read as a header with the same parts, and nothing is logged. Every line that is read is one of its
header, and of no other name and value. So two lines are read alike exactly when they differ only in
the padding around the value. -/
theorem parse_lines :
    (∀ h : Header, h.Reachable → ∀ variant form line, IsLineOf line h.name h.value →
      ∃ h', parse variant (.bytes form line) = .ok h' ∧
        (h'.name = h.name ∧ h'.field = h.field ∧ h'.value = h.value) ∧
        logged (parse variant (.bytes form line)) = []) ∧
    (∀ variant form line h, parse variant (.bytes form line) = .ok h →
      IsLineOf line h.name h.value) ∧
    (∀ line name value name' value', IsLineOf line name value → IsLineOf line name' value' →
      (∀ b ∈ name ++ name', IsNameOctet b) → IsBare value → IsBare value' →
        name = name' ∧ value = value') ∧
    ∀ variant form line h variant' form' line' h',
      parse variant (.bytes form line) = .ok h → parse variant' (.bytes form' line') = .ok h' →
        ((h.name = h'.name ∧ h.value = h'.value) ↔
          ∃ name value, colon ∉ name ∧ IsLineOf line name value ∧ IsLineOf line' name value) := by
  refine ⟨?_, ?_, ?_, ?_⟩
  · intro h hh variant form line hline
    have hok : parseBytes variant line = .ok ⟨variant, h.name, h.value⟩ :=
      parseBytes_isLineOf (reachable_iff.mp hh) hline
    refine ⟨⟨variant, h.name, h.value⟩, hok, ⟨rfl, rfl, rfl⟩, ?_⟩
    rw [parse_bytes, hok]
    rfl
  · intro variant form line h hh
    exact isLineOf_of_parseBytes hh
  · intro line name value name' value' h h' hnames hvalue hvalue'
    obtain ⟨hname, hname'⟩ := List.forall_mem_append.mp hnames
    obtain ⟨hsame, htrim⟩ := h.unique h' (colon_notMem hname) (colon_notMem hname')
    rw [Bytes.trim_of_isBare hvalue, Bytes.trim_of_isBare hvalue'] at htrim
    exact ⟨hsame, htrim⟩
  · intro variant form line h variant' form' line' h' hh hh'
    exact parseBytes_same_iff hh hh'

end

end Header

end StrictHttp
