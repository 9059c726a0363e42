import Mathlib.Data.List.Basic
import StrictHttp.Proofs.DottedNumerals
import StrictHttp.Proofs.Value.Coercion
import StrictHttp.Proofs.Value.Equivalence

/-!
# Reading the text of a version

The text of a version of integers has one full stop, since the numeral of an integer has none. So
the two numbers can be read off it: versions with the same text are equal
(`display_integers_inj`). If neither number is negative the text is ASCII and its bytes are dotted
numerals (`toBytes_display`), whose groups write the two numbers, with no digit of the one in the
group of the other.
-/

namespace StrictHttp

open Grammar (IsDotted fullStop isDigit)
open Value (Holds)

-- ---------------------------------------------------------------------------
-- Numerals

/-- The byte string consists of decimal digits, at least one, and this is their number. -/
structure Writes (s : Bytes) (n : Nat) : Prop where
  digits : IsRun isDigit s
  value : Nat.ofDigitChars 10 s.toChars 0 = n

/-- The octets of the decimal numeral of a number. -/
def numeral (n : Nat) : Bytes := (Nat.toDigits 10 n).map fun c => c.toNat.toUInt8

theorem digit_bounds {n : Nat} {c : Char} (h : c ∈ Nat.toDigits 10 n) :
    0x30 ≤ c.toNat ∧ c.toNat ≤ 0x39 :=
  Char.isDigit_iff_toNat.mp (Nat.isDigit_of_mem_toDigits (by decide) (by decide) h)

theorem notMem_toDigits {c : Char} (hc : c.isDigit = false) (n : Nat) : c ∉ Nat.toDigits 10 n := by
  intro h
  rw [Nat.isDigit_of_mem_toDigits (by decide) (by decide) h] at hc
  cases hc

theorem toNat_octet {n : Nat} {c : Char} (h : c ∈ Nat.toDigits 10 n) :
    c.toNat.toUInt8.toNat = c.toNat := by
  have hc := digit_bounds h
  have hsize : c.toNat < UInt8.size := by
    rw [show UInt8.size = 256 from rfl]
    omega
  exact UInt8.toNat_ofNat_of_lt' hsize

theorem toChars_numeral (n : Nat) : (numeral n).toChars = Nat.toDigits 10 n := by
  rw [numeral, Bytes.toChars, List.map_map]
  refine (List.map_congr_left fun c hc => ?_).trans (List.map_id _)
  rw [Function.comp_apply, toNat_octet hc, Char.ofNat_toNat, id]

theorem isRun_numeral (n : Nat) : IsRun isDigit (numeral n) := by
  refine ⟨by simp [numeral, Nat.toDigits_ne_nil], ?_⟩
  intro b hb
  obtain ⟨c, hc, rfl⟩ := List.mem_map.mp hb
  have hbounds := digit_bounds hc
  rw [← toNat_octet hc] at hbounds
  simpa [isDigit, UInt8.le_iff_toNat_le] using hbounds

theorem writes_numeral (n : Nat) : Writes (numeral n) n where
  digits := isRun_numeral n
  value := by rw [toChars_numeral, Nat.ofDigitChars_ten_toDigits]

theorem toDigits_injective : Function.Injective (Nat.toDigits 10) := by
  intro m n h
  calc
    m = Nat.ofDigitChars 10 (Nat.toDigits 10 m) 0 := Nat.ofDigitChars_ten_toDigits.symm
    _ = Nat.ofDigitChars 10 (Nat.toDigits 10 n) 0 := by rw [h]
    _ = n := Nat.ofDigitChars_ten_toDigits

-- ---------------------------------------------------------------------------
-- Numerals of integers

theorem toList_repr_ofNat (m : Nat) : (Int.ofNat m).repr.toList = Nat.toDigits 10 m :=
  Nat.toList_repr

theorem toList_repr_negSucc (m : Nat) :
    (Int.negSucc m).repr.toList = '-' :: Nat.toDigits 10 (m + 1) := by
  change ("-" ++ (m + 1).repr).toList = _
  rw [String.toList_append, Nat.toList_repr]
  rfl

/-- The numeral of an integer consists of digits and perhaps a minus sign. -/
theorem fullStop_notMem_repr (n : Int) : '.' ∉ n.repr.toList := by
  cases n with
  | ofNat m =>
    rw [toList_repr_ofNat]
    exact notMem_toDigits rfl m
  | negSucc m =>
    rw [toList_repr_negSucc]
    simp [notMem_toDigits]

/-- A minus sign is no digit, so the sign can be told from the first character of the numeral. The
digits give the rest. -/
theorem toList_repr_inj {a b : Int} : a.repr.toList = b.repr.toList ↔ a = b := by
  have hsign : ∀ m s, Nat.toDigits 10 m ≠ '-' :: s := fun m s h =>
    notMem_toDigits (c := '-') rfl m (h ▸ List.mem_cons_self)
  refine ⟨fun h => ?_, fun h => h ▸ rfl⟩
  cases a with
  | ofNat m =>
    rw [toList_repr_ofNat] at h
    cases b with
    | ofNat n =>
      rw [toList_repr_ofNat] at h
      rw [toDigits_injective h]
    | negSucc n =>
      rw [toList_repr_negSucc] at h
      exact (hsign m _ h).elim
  | negSucc m =>
    rw [toList_repr_negSucc] at h
    cases b with
    | ofNat n =>
      rw [toList_repr_ofNat] at h
      exact (hsign n _ h.symm).elim
    | negSucc n =>
      rw [toList_repr_negSucc, List.cons.injEq] at h
      rw [Nat.succ.inj (toDigits_injective h.2)]

-- ---------------------------------------------------------------------------
-- Versions of integers

section
variable {variant variant' : Variant} {a b c d : Int}

theorem display_integers (variant : Variant) (a b : Int) :
    (Value.version variant (.int a) (.int b)).display.toList =
      a.repr.toList ++ '.' :: b.repr.toList := by
  simp [Value.display, Value.literal, String.toList_append]

theorem display_integers_inj : (Value.version variant (.int a) (.int b)).display =
    (Value.version variant' (.int c) (.int d)).display ↔ a = c ∧ b = d := by
  rw [← String.toList_inj, display_integers, display_integers,
    List.append_cons_inj_of_notMem (fullStop_notMem_repr _) (fullStop_notMem_repr _),
    toList_repr_inj, toList_repr_inj, eq_self, true_and]

theorem holds_eq_integers : Holds .eq (.version variant (.int a) (.int b))
    (.version variant' (.int c) (.int d)) ↔ a = c ∧ b = d := by
  simp [Value.holds_eq_iff, Value.denote]

theorem toBytes_display (variant : Variant) (m n : Nat) :
    (Value.text (Value.version variant (.int m) (.int n)).display).toBytes =
      .ok (numeral m ++ fullStop :: numeral n) := by
  have hchars : (Value.version variant (.int m) (.int n)).display.toList =
      Nat.toDigits 10 m ++ '.' :: Nat.toDigits 10 n := by
    rw [display_integers]
    exact congrArg₂ (· ++ '.' :: ·) (toList_repr_ofNat m) (toList_repr_ofNat n)
  have hascii : Text.AllAscii (Nat.toDigits 10 m ++ '.' :: Nat.toDigits 10 n) := by
    intro c hc
    simp only [List.mem_append, List.mem_cons] at hc
    rcases hc with hc | rfl | hc
    · have hbounds := digit_bounds hc
      omega
    · decide
    · have hbounds := digit_bounds hc
      omega
  rw [Value.toBytes, hchars, Text.toAscii_of_allAscii hascii, List.map_append, List.map_cons]
  rfl

theorem isDotted_numerals (m n : Nat) :
    IsDotted (numeral m ++ fullStop :: numeral n) (numeral m) (numeral n) :=
  ⟨rfl, isRun_numeral m, isRun_numeral n⟩

end

/-- Two versions of integers, in any variants, have the same text exactly if they are equal. If no
number is negative the bytes of the text match as dotted numerals, and the groups write the numbers
of the version. -/
theorem version_text_decodes :
    (∀ variant variant' (a b c d : Int),
      (Value.version variant (.int a) (.int b)).display =
          (Value.version variant' (.int c) (.int d)).display ↔
        Holds .eq (.version variant (.int a) (.int b)) (.version variant' (.int c) (.int d))) ∧
    ∀ variant (m n : Nat), ∃ s g h,
      (Value.text (Value.version variant (.int m) (.int n)).display).toBytes = .ok s ∧
      (∀ message errorClass, validate Grammar.dotted (.bytes .plain s) message errorClass =
        .ok [("group1", some g), ("group2", some h)]) ∧
      Writes g m ∧ Writes h n := by
  constructor
  · intro variant variant' a b c d
    rw [display_integers_inj, holds_eq_integers]
  · intro variant m n
    exact ⟨_, _, _, toBytes_display variant m n,
      Grammar.validate_dotted (isDotted_numerals m n) .plain, writes_numeral m, writes_numeral n⟩

end StrictHttp
