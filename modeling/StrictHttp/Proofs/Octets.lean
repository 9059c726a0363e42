import StrictHttp.Grammar

/-!
# Octets of names and values

The classes of octets that headers are made of, each said once more without the tests that the
grammar runs: the octets of a name are the letters and digits of ASCII and the fifteen marks, the
octets of a value are the range from 0x21 to 0x7E, the space and the tab. Lowering maps the octets
of names to octets of names that are no capitals, and neither class has a control but the tab. Two
octets are lowered to one exactly if they are the same octet or the same letter
(`lowerOctet_eq_iff`).
-/

namespace StrictHttp

/-- What is checked of the numbers below 256 holds of all octets. -/
theorem forall_octet {P : UInt8 → Prop} (h : ∀ n : Nat, n < 256 → P (UInt8.ofNat n)) (b : UInt8) :
    P b := by
  have hb := h b.toNat (UInt8.toNat_lt b)
  rwa [UInt8.ofNat_toNat] at hb

/-- All octets are the numbers of characters. -/
theorem toNat_char (b : UInt8) : (Char.ofNat b.toNat).toNat = b.toNat := by
  revert b
  apply forall_octet
  decide +kernel

-- ---------------------------------------------------------------------------
-- The classes by their members

/-- The characters other than letters and digits that a name may have. -/
def nameMarks : List Char :=
  ['!', '#', '$', '%', '&', '\x27', '*', '+', '-', '.', '^', '_', '\x60', '|', '~']

def IsNameOctet (b : UInt8) : Prop :=
  (Char.ofNat b.toNat).isAlphanum = true ∨ Char.ofNat b.toNat ∈ nameMarks

instance (b : UInt8) : Decidable (IsNameOctet b) := inferInstanceAs (Decidable (_ ∨ _))

def IsValueOctet (b : UInt8) : Prop := (0x21 ≤ b ∧ b ≤ 0x7E) ∨ b = 0x20 ∨ b = 0x09

instance (b : UInt8) : Decidable (IsValueOctet b) := inferInstanceAs (Decidable (_ ∨ _))

def IsCapital (b : UInt8) : Prop := 0x41 ≤ b ∧ b ≤ 0x5A

instance (b : UInt8) : Decidable (IsCapital b) := inferInstanceAs (Decidable (_ ∧ _))

/-- The octet `c` is `b`, made small if it is a capital. -/
def IsLowered (b c : UInt8) : Prop := if IsCapital b then c.toNat = b.toNat + 0x20 else c = b

instance (b c : UInt8) : Decidable (IsLowered b c) := inferInstanceAs (Decidable (ite ..))

theorem isTokenOctet_iff (b : UInt8) : Grammar.isTokenOctet b = true ↔ IsNameOctet b := by
  revert b
  apply forall_octet
  decide +kernel

theorem isBlank_iff (b : UInt8) : Bytes.isBlank b = true ↔ b = 0x20 ∨ b = 0x09 := by
  simp [Bytes.isBlank, Bytes.space, Bytes.tab]

theorem isValueOctet_iff (b : UInt8) :
    IsValueOctet b ↔ Grammar.isVisible b = true ∨ Bytes.isBlank b = true := by
  simp [IsValueOctet, Grammar.isVisible, isBlank_iff]

theorem isVisible_eq_false_of_isBlank {b : UInt8} (h : Bytes.isBlank b = true) :
    Grammar.isVisible b = false := by
  rcases (isBlank_iff b).mp h with rfl | rfl <;> rfl

theorem isBlank_eq_false_of_isVisible {b : UInt8} (h : Grammar.isVisible b = true) :
    Bytes.isBlank b = false := by
  cases hb : Bytes.isBlank b with
  | false => rfl
  | true => simp [isVisible_eq_false_of_isBlank hb] at h

-- ---------------------------------------------------------------------------
-- What the classes leave out

theorem IsNameOctet.visible {b : UInt8} (h : IsNameOctet b) : Grammar.isVisible b = true := by
  revert b
  apply forall_octet
  decide +kernel

/-- Names have no colon, and no space or control that counts as white space. -/
theorem IsNameOctet.unbroken {b : UInt8} (h : IsNameOctet b) :
    b ≠ 0x3A ∧ ¬(b = 0x20 ∨ (0x09 ≤ b ∧ b ≤ 0x0D)) := by
  revert b
  apply forall_octet
  decide +kernel

theorem IsNameOctet.valueOctet {b : UInt8} (h : IsNameOctet b) : IsValueOctet b :=
  (isValueOctet_iff b).mpr (.inl h.visible)

/-- Values have no carriage return, line feed, NUL or DEL, and nothing beyond ASCII. -/
theorem IsValueOctet.printable {b : UInt8} (h : IsValueOctet b) :
    b ≠ 0x0D ∧ b ≠ 0x0A ∧ b ≠ 0x00 ∧ b ≠ 0x7F ∧ b < 0x80 := by
  revert b
  apply forall_octet
  decide +kernel

-- ---------------------------------------------------------------------------
-- Letter case

theorem isLowered_lowerOctet (b : UInt8) : IsLowered b (Bytes.lowerOctet b) := by
  revert b
  apply forall_octet
  decide +kernel

theorem not_isCapital_lowerOctet (b : UInt8) : ¬IsCapital (Bytes.lowerOctet b) := by
  revert b
  apply forall_octet
  decide +kernel

theorem isNameOctet_lowerOctet (b : UInt8) :
    IsNameOctet (Bytes.lowerOctet b) ↔ IsNameOctet b := by
  revert b
  apply forall_octet
  decide +kernel

theorem isValueOctet_lowerOctet (b : UInt8) :
    IsValueOctet (Bytes.lowerOctet b) ↔ IsValueOctet b := by
  revert b
  apply forall_octet
  decide +kernel

/-- The same octet, or the same letter of ASCII once as a capital and once as a small one. -/
def SameLetter (b c : UInt8) : Prop :=
  b = c ∨ (IsCapital b ∧ c.toNat = b.toNat + 0x20) ∨ (IsCapital c ∧ b.toNat = c.toNat + 0x20)

instance (b c : UInt8) : Decidable (SameLetter b c) := inferInstanceAs (Decidable (_ ∨ _))

theorem lowerOctet_eq_iff {b c : UInt8} :
    Bytes.lowerOctet b = Bytes.lowerOctet c ↔ SameLetter b c := by
  have hb := isLowered_lowerOctet b
  have hc := isLowered_lowerOctet c
  simp only [IsLowered, SameLetter, IsCapital, UInt8.le_iff_toNat_le, ← UInt8.toNat_inj,
    UInt8.reduceToNat] at hb hc ⊢
  split at hb <;> split at hc <;> omega

theorem SameLetter.nameOctet {b c : UInt8} (h : SameLetter b c) (hb : IsNameOctet b) :
    IsNameOctet c := by
  rwa [← isNameOctet_lowerOctet, ← lowerOctet_eq_iff.mpr h, isNameOctet_lowerOctet]

theorem SameLetter.valueOctet {b c : UInt8} (h : SameLetter b c) (hb : IsValueOctet b) :
    IsValueOctet c := by
  rwa [← isValueOctet_lowerOctet, ← lowerOctet_eq_iff.mpr h, isValueOctet_lowerOctet]

/-- Blanks are no letters. -/
theorem SameLetter.eq_of_blank {b c : UInt8} (h : SameLetter b c)
    (hbc : Bytes.isBlank b = true ∨ Bytes.isBlank c = true) : b = c := by
  simp only [isBlank_iff, SameLetter, IsCapital, UInt8.le_iff_toNat_le, ← UInt8.toNat_inj,
    UInt8.reduceToNat] at h hbc ⊢
  omega

end StrictHttp
