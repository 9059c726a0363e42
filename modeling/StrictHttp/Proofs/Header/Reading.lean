import Mathlib.Data.List.Forall2
import Mathlib.Data.List.TakeDrop
import StrictHttp.Header.Construction
import StrictHttp.Proofs.FieldGrammar
import StrictHttp.Proofs.Stages

/-!
# Reading headers

Each stage of building a header, read as the rule it decides: `ofBytes_ok_iff` for a name and a
value, `parseBytes_isSplit` and `parseBytes_of_not_mem` for a line with and without a colon. From
these follows which lines are read, what their headers hold, and how all other lines are refused.
-/

namespace StrictHttp

namespace Header

section
variable {variant : Variant}

-- ---------------------------------------------------------------------------
-- The parts of a header

theorem isLowered_field (h : Header) : List.Forall₂ IsLowered h.name h.field := by
  rw [field, Bytes.lower, List.forall₂_map_right_iff, List.forall₂_same]
  exact fun b _ => isLowered_lowerOctet b

/-- What the parts of a header may hold, octet by octet. -/
structure Strict (h : Header) : Prop where
  name : h.name ≠ [] ∧ ∀ b ∈ h.name, IsNameOctet b
  lowered : List.Forall₂ IsLowered h.name h.field
  field : h.field ≠ [] ∧ ∀ b ∈ h.field, IsNameOctet b ∧ ¬IsCapital b
  value : (∀ b ∈ h.value, IsValueOctet b) ∧ Bytes.IsBare h.value
  /-- No carriage return, line feed, NUL, DEL or octet beyond ASCII anywhere. -/
  ascii : ∀ b ∈ h.name ++ h.field ++ h.value,
    b ≠ 0x0D ∧ b ≠ 0x0A ∧ b ≠ 0x00 ∧ b ≠ 0x7F ∧ b < 0x80
  /-- No colon and no white space in the name, as given or lowered. -/
  unbroken : ∀ b ∈ h.name ++ h.field, b ≠ colon ∧ ¬(b = 0x20 ∨ (0x09 ≤ b ∧ b ≤ 0x0D))

theorem WellFormed.strict {h : Header} (hh : h.WellFormed) : h.Strict := by
  have hname := Grammar.isToken_iff.mp hh.name
  have hvalue := Grammar.isFieldValue_iff.mp hh.value
  have hfield : ∀ b ∈ h.field, IsNameOctet b ∧ ¬IsCapital b := by
    intro b hb
    obtain ⟨c, hc, rfl⟩ := List.mem_map.mp hb
    exact ⟨(isNameOctet_lowerOctet c).mpr (hname.2 c hc), not_isCapital_lowerOctet c⟩
  refine ⟨hname, isLowered_field h, ⟨?_, hfield⟩, hvalue, ?_, ?_⟩
  · simpa [Header.field, Bytes.lower] using hname.1
  · intro b hb
    simp only [List.mem_append] at hb
    rcases hb with (hb | hb) | hb
    · exact (hname.2 b hb).valueOctet.printable
    · exact (hfield b hb).1.valueOctet.printable
    · exact (hvalue.1 b hb).printable
  · intro b hb
    rcases List.mem_append.mp hb with hb | hb
    · exact (hname.2 b hb).unbroken
    · exact (hfield b hb).1.unbroken

-- ---------------------------------------------------------------------------
-- Names and values

theorem ofBytes_illegalName {name : Bytes} (hname : ¬Grammar.IsToken name) (value : Bytes) :
    ofBytes variant name value = .error (.rejected ⟨.illegalName, name⟩) := by
  have hrefused : Grammar.fieldName.accepts name = false := by
    rwa [← Bool.not_eq_true, Grammar.accepts_fieldName_iff]
  simp [ofBytes, hrefused]

theorem ofBytes_illegalValue {name value : Bytes} (hname : Grammar.IsToken name)
    (hvalue : ¬Grammar.IsFieldValue value.trim) :
    ofBytes variant name value = .error (.rejected ⟨.illegalValue, value.trim⟩) := by
  have hrefused : Grammar.fieldValue.accepts value.trim = false := by
    rwa [← Bool.not_eq_true, Grammar.accepts_fieldValue_iff]
  simp [ofBytes, Grammar.accepts_fieldName_iff.mpr hname, hrefused]

theorem ofBytes_legal {name value : Bytes} (hname : Grammar.IsToken name)
    (hvalue : Grammar.IsFieldValue value.trim) :
    ofBytes variant name value = .ok ⟨variant, name, value.trim⟩ := by
  simp [ofBytes, Grammar.accepts_fieldName_iff.mpr hname,
    Grammar.accepts_fieldValue_iff.mpr hvalue]

theorem ofBytes_ok_iff {name value : Bytes} {h : Header} :
    ofBytes variant name value = .ok h ↔
      (Grammar.IsToken name ∧ Grammar.IsFieldValue value.trim) ∧
        h = ⟨variant, name, value.trim⟩ := by
  by_cases hname : Grammar.IsToken name
  · by_cases hvalue : Grammar.IsFieldValue value.trim
    · simp [ofBytes_legal hname hvalue, hname, hvalue, eq_comm]
    · simp [ofBytes_illegalValue hname hvalue, hvalue]
  · simp [ofBytes_illegalName hname, hname]

theorem ofBytes_error {name value : Bytes} {f : Fault}
    (h : ofBytes variant name value = .error f) : ∃ r, f = .rejected r := by
  by_cases hname : Grammar.IsToken name
  · by_cases hvalue : Grammar.IsFieldValue value.trim
    · simp [ofBytes_legal hname hvalue] at h
    · rw [ofBytes_illegalValue hname hvalue] at h
      exact ⟨_, (Except.error.inj h).symm⟩
  · rw [ofBytes_illegalName hname] at h
    exact ⟨_, (Except.error.inj h).symm⟩

theorem ofBytes_wellFormed {name value : Bytes} {h : Header}
    (hh : ofBytes variant name value = .ok h) : h.WellFormed := by
  obtain ⟨⟨hname, hvalue⟩, rfl⟩ := ofBytes_ok_iff.mp hh
  exact ⟨hname, hvalue⟩

-- ---------------------------------------------------------------------------
-- Coercion

theorem coerce_ok_iff {v : Value} {s : Bytes} : coerce part v = .ok s ↔ v.toBytes = .ok s := by
  unfold coerce
  split
  · rename_i hv
    simp [hv]
  · rfl

theorem make_ok_iff {name value : Value} {h : Header} :
    make variant name value = .ok h ↔
      ∃ n v, name.toBytes = .ok n ∧ value.toBytes = .ok v ∧ ofBytes variant n v = .ok h := by
  simp only [make, bind_ok, coerce_ok_iff]
  constructor
  · rintro ⟨n, hn, v, hv, hh⟩
    exact ⟨n, v, hn, hv, hh⟩
  · rintro ⟨n, v, hn, hv, hh⟩
    exact ⟨n, hn, v, hv, hh⟩

theorem make_wellFormed {name value : Value} {h : Header}
    (hh : make variant name value = .ok h) : h.WellFormed := by
  obtain ⟨n, v, -, -, hok⟩ := make_ok_iff.mp hh
  exact ofBytes_wellFormed hok

theorem parse_ok_iff {line : Value} {h : Header} :
    parse variant line = .ok h ↔
      ∃ s, line.toBytes = .ok s ∧ parseBytes variant s = .ok h := by
  simp only [parse, bind_ok, coerce_ok_iff]

@[simp] theorem parse_bytes (variant : Variant) (form : ByteForm) (line : Bytes) :
    parse variant (.bytes form line) = parseBytes variant line := rfl

-- ---------------------------------------------------------------------------
-- Lines

/-- The name is all that stands before the first colon of the line, the rest all behind it. -/
def IsSplit (line name rest : Bytes) : Prop := line = name ++ colon :: rest ∧ colon ∉ name

theorem exists_isSplit {line : Bytes} (h : colon ∈ line) : ∃ name rest, IsSplit line name rest :=
  List.eq_append_cons_of_mem h

theorem IsSplit.span_eq {line name rest : Bytes} (h : IsSplit line name rest) :
    line.span (· != colon) = (name, colon :: rest) := by
  obtain ⟨rfl, hname⟩ := h
  have hbefore : ∀ b ∈ name, (b != colon) = true := by
    intro b hb
    simpa using ne_of_mem_of_not_mem hb hname
  rw [List.span_eq_takeWhile_dropWhile, List.takeWhile_append_of_pos hbefore,
    List.dropWhile_append_of_pos hbefore]
  simp

theorem IsSplit.unique {line name rest name' rest' : Bytes} (h : IsSplit line name rest)
    (h' : IsSplit line name' rest') : name = name' ∧ rest = rest' := by
  simpa using h.span_eq.symm.trans h'.span_eq

theorem parseBytes_isSplit {line name rest : Bytes} (h : IsSplit line name rest) :
    parseBytes variant line = ofBytes variant name rest := by
  rw [parseBytes, h.span_eq]

theorem parseBytes_of_not_mem {line : Bytes} (h : colon ∉ line) :
    parseBytes variant line = .error (.rejected ⟨.noColon, line⟩) := by
  have hall : ∀ b ∈ line, (b != colon) = true := by
    intro b hb
    simpa using ne_of_mem_of_not_mem hb h
  rw [parseBytes, List.span_eq_takeWhile_dropWhile, List.dropWhile_eq_nil_iff.mpr hall]

theorem parseBytes_ok_iff {line : Bytes} {h : Header} :
    parseBytes variant line = .ok h ↔
      ∃ name rest, IsSplit line name rest ∧ ofBytes variant name rest = .ok h := by
  constructor
  · intro hh
    by_cases hline : colon ∈ line
    · obtain ⟨name, rest, hsplit⟩ := exists_isSplit hline
      exact ⟨name, rest, hsplit, parseBytes_isSplit hsplit ▸ hh⟩
    · simp [parseBytes_of_not_mem hline] at hh
  · rintro ⟨name, rest, hsplit, hh⟩
    rw [parseBytes_isSplit hsplit, hh]

theorem parseBytes_error {line : Bytes} {f : Fault} (h : parseBytes variant line = .error f) :
    ∃ r, f = .rejected r := by
  by_cases hline : colon ∈ line
  · obtain ⟨name, rest, hsplit⟩ := exists_isSplit hline
    rw [parseBytes_isSplit hsplit] at h
    exact ofBytes_error h
  · rw [parseBytes_of_not_mem hline] at h
    exact ⟨_, (Except.error.inj h).symm⟩

theorem parseBytes_wellFormed {line : Bytes} {h : Header}
    (hh : parseBytes variant line = .ok h) : h.WellFormed := by
  obtain ⟨name, rest, -, hok⟩ := parseBytes_ok_iff.mp hh
  exact ofBytes_wellFormed hok

theorem parse_wellFormed {line : Value} {h : Header}
    (hh : parse variant line = .ok h) : h.WellFormed := by
  obtain ⟨s, -, hs⟩ := parse_ok_iff.mp hh
  exact parseBytes_wellFormed hs

/-- A line of bytes is read exactly when name octets, at least one, stand before its first colon and
value octets behind it. The header then holds the name as it was given, its lowered form, and the
value without the blanks at its ends. Every other line is refused as an invalid header. -/
theorem parse_exact (variant : Variant) (form : ByteForm) (line : Bytes) :
    ((∃ h, parse variant (.bytes form line) = .ok h) ↔
      ∃ name rest, IsSplit line name rest ∧ (name ≠ [] ∧ ∀ b ∈ name, IsNameOctet b) ∧
        ∀ b ∈ rest, IsValueOctet b) ∧
    (∀ h, parse variant (.bytes form line) = .ok h →
      h.variant = variant ∧ ∃ rest, IsSplit line h.name rest ∧
        List.Forall₂ IsLowered h.name h.field ∧ Bytes.IsCore rest h.value) ∧
    ∀ f, parse variant (.bytes form line) = .error f →
      f.category = .invalidHeader ∧ f.hint = some 400 := by
  rw [parse_bytes]
  refine ⟨?_, ?_, ?_⟩
  · simp only [parseBytes_ok_iff, ofBytes_ok_iff, Grammar.isFieldValue_trim_iff,
      Grammar.isToken_iff]
    constructor
    · rintro ⟨h, name, rest, hsplit, hlegal, -⟩
      exact ⟨name, rest, hsplit, hlegal⟩
    · rintro ⟨name, rest, hsplit, hlegal⟩
      exact ⟨_, name, rest, hsplit, hlegal, rfl⟩
  · intro h hh
    obtain ⟨name, rest, hsplit, hok⟩ := parseBytes_ok_iff.mp hh
    obtain ⟨-, rfl⟩ := ofBytes_ok_iff.mp hok
    exact ⟨rfl, rest, hsplit, isLowered_field _, Bytes.isCore_trim rest⟩
  · intro f hf
    obtain ⟨r, rfl⟩ := parseBytes_error hf
    exact ⟨rfl, rfl⟩

end

end Header

end StrictHttp
