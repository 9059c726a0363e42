import StrictHttp.Proofs.DottedNumerals
import StrictHttp.Proofs.Header.Refusal

/-!
# Exact matches

A byte string of any form matches a pattern as a whole, and then its groups are the answer, or else
the error class that was asked for is raised (`validate_ok_iff`, `isMismatch_iff`). What is reported
of that error depends on the class and the message and not on the data (`ErrorClass.raises_fault`).
For two numerals with a full stop between them the answer is their split, of which there is only
one, and a further octet at either end is a mismatch unless it is a digit (`validate_dotted_exact`).
-/

namespace StrictHttp

open Grammar (dotted isDigit IsDotted matches_dotted_iff read?_dotted_iff)

-- ---------------------------------------------------------------------------
-- Raised errors

/-- What is reported of an error class that is raised with a message. The general class of protocol
errors has no errors of its own, so raising it is an error of type. An error of another class goes
by its name and has the text of the message, and a protocol error suggests the status 400. Nothing
is logged. -/
inductive ErrorClass.Raises : ErrorClass → Value → Report → Prop
  | general {message} : Raises .anyProtocol message
      ⟨.type, "tried to directly instantiate ProtocolError", none, []⟩
  | protocol {error category message} : error.isProtocol = true → category.name = error.name →
      Raises (.concrete error) message ⟨category, message.display, some 400, []⟩
  | plain {error category message} : error.isProtocol = false → category.name = error.name →
      Raises (.concrete error) message ⟨category, message.display, none, []⟩

theorem ErrorClass.raises_fault (errorClass : ErrorClass) (message : Value) :
    errorClass.Raises message (.ofFault (errorClass.fault message)) := by
  cases errorClass with
  | anyProtocol => exact .general
  | concrete error =>
    cases error with
    | invalidHeader | otherProtocol => exact .protocol rfl rfl
    | plainValue => exact .plain rfl rfl

/-- The data are refused, and the error class is raised with the message. -/
def IsMismatch (p : Pattern) (data message : Value) (errorClass : ErrorClass) : Prop :=
  ∃ f, validate p data message errorClass = .error f ∧ errorClass.Raises message (.ofFault f)

section
variable {p : Pattern} {form : ByteForm} {s : Bytes} {message : Value} {errorClass : ErrorClass}

theorem validate_ok_iff {groups : Groups} :
    validate p (.bytes form s) message errorClass = .ok groups ↔ p.read? s = some groups := by
  cases hread : p.read? s <;> simp [validate, hread]

/-- Whether the data are refused is a matter of the pattern alone. -/
theorem isMismatch_iff : IsMismatch p (.bytes form s) message errorClass ↔ ¬p.Matches s := by
  rw [← Pattern.isSome_read?]
  cases hread : p.read? s with
  | some groups => simp [IsMismatch, validate, hread]
  | none =>
    refine iff_of_true ⟨errorClass.fault message, ?_, errorClass.raises_fault message⟩ (by simp)
    simp [validate, hread]

end

-- ---------------------------------------------------------------------------
-- Two numerals

/-- The decimal digits. -/
def IsDigitOctet (b : UInt8) : Prop := 0x30 ≤ b ∧ b ≤ 0x39

instance (b : UInt8) : Decidable (IsDigitOctet b) := inferInstanceAs (Decidable (_ ∧ _))

def IsNumeral (s : Bytes) : Prop := s ≠ [] ∧ ∀ b ∈ s, IsDigitOctet b

/-- The byte string is a numeral, a full stop and another numeral. This is said by the numbers of
the octets, without the classes of the pattern. -/
structure IsNumeralPair (s g h : Bytes) : Prop where
  split : s = g ++ 0x2E :: h
  first : IsNumeral g
  second : IsNumeral h

section
variable {s g h g' h' : Bytes}

theorem isRun_isDigit_iff : IsRun isDigit s ↔ IsNumeral s := by
  simp [IsRun, IsNumeral, IsDigitOctet, isDigit]

theorem isDotted_iff : IsDotted s g h ↔ IsNumeralPair s g h := by
  constructor
  · rintro ⟨hs, hg, hh⟩
    exact ⟨hs, isRun_isDigit_iff.mp hg, isRun_isDigit_iff.mp hh⟩
  · rintro ⟨hs, hg, hh⟩
    exact ⟨hs, isRun_isDigit_iff.mpr hg, isRun_isDigit_iff.mpr hh⟩

/-- It is a numeral that stands at either end, so the octets there are digits. -/
theorem IsNumeralPair.ends (hs : IsNumeralPair s g h) :
    (∀ b ∈ s.head?, IsDigitOctet b) ∧ ∀ b ∈ s.getLast?, IsDigitOctet b := by
  obtain ⟨rfl, ⟨hg, hgdigits⟩, hh, hhdigits⟩ := hs
  constructor
  · intro b hb
    rw [List.head?_append_of_ne_nil g hg] at hb
    exact hgdigits b (List.mem_of_mem_head? hb)
  · intro b hb
    rw [List.getLast?_append_of_ne_nil g (by simp), List.getLast?_cons_of_ne_nil hh] at hb
    exact hhdigits b (List.mem_of_getLast? hb)

theorem isMismatch_dotted_iff {form : ByteForm} {message : Value} {errorClass : ErrorClass} :
    IsMismatch dotted (.bytes form s) message errorClass ↔ ∀ g h, ¬IsNumeralPair s g h := by
  simp only [isMismatch_iff, matches_dotted_iff, isDotted_iff, not_exists]

end

/-- Matching two numerals with a full stop between them, in any form, answers the two numerals, and
no byte string is two numerals in two ways. Every other byte string raises the error class with the
message. So does whatever has an octet that is no digit at its beginning or at its end, even if it
would be matched without that octet. -/
theorem validate_dotted_exact (form : ByteForm) (s : Bytes) (message : Value)
    (errorClass : ErrorClass) :
    (∀ groups, validate dotted (.bytes form s) message errorClass = .ok groups ↔
      ∃ g h, groups = [("group1", some g), ("group2", some h)] ∧ IsNumeralPair s g h) ∧
    (∀ g h g' h', IsNumeralPair s g h → IsNumeralPair s g' h' → g = g' ∧ h = h') ∧
    (IsMismatch dotted (.bytes form s) message errorClass ↔ ∀ g h, ¬IsNumeralPair s g h) ∧
    ∀ b, ¬IsDigitOctet b →
      IsMismatch dotted (.bytes form (b :: s)) message errorClass ∧
        IsMismatch dotted (.bytes form (s ++ [b])) message errorClass := by
  refine ⟨?_, ?_, isMismatch_dotted_iff, ?_⟩
  · intro groups
    simp only [validate_ok_iff, read?_dotted_iff, isDotted_iff]
  · intro g h g' h' hs hs'
    exact (isDotted_iff.mpr hs).unique (isDotted_iff.mpr hs')
  · -- The octet added would be the first or the last one of a numeral.
    intro b hb
    constructor
    · refine isMismatch_dotted_iff.mpr fun g h hs => hb ?_
      exact hs.ends.1 b (by simp)
    · refine isMismatch_dotted_iff.mpr fun g h hs => hb ?_
      exact hs.ends.2 b (by simp)

/-- A view of `11.0` is matched, and no longer so with a newline behind it. -/
theorem validate_dotted_exact_newline :
    (IsNumeralPair [0x31, 0x31, 0x2E, 0x30] [0x31, 0x31] [0x30] ∧ ¬IsDigitOctet 0x0A) ∧
    validate dotted (.bytes .view [0x31, 0x31, 0x2E, 0x30]) (.text "oops")
        (.concrete (.otherProtocol "BadVersion")) =
      .ok [("group1", some [0x31, 0x31]), ("group2", some [0x30])] ∧
    IsMismatch dotted (.bytes .view [0x31, 0x31, 0x2E, 0x30, 0x0A]) (.text "oops")
      (.concrete (.otherProtocol "BadVersion")) := by
  have hs : IsNumeralPair [0x31, 0x31, 0x2E, 0x30] [0x31, 0x31] [0x30] :=
    ⟨rfl, by simp [IsNumeral, IsDigitOctet], by simp [IsNumeral, IsDigitOctet]⟩
  have hb : ¬IsDigitOctet 0x0A := by decide
  obtain ⟨hok, -, -, hends⟩ := validate_dotted_exact .view [0x31, 0x31, 0x2E, 0x30] (.text "oops")
    (.concrete (.otherProtocol "BadVersion"))
  exact ⟨⟨hs, hb⟩, (hok _).mpr ⟨_, _, rfl, hs⟩, (hends _ hb).2⟩

end StrictHttp
