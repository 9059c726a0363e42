import Mathlib.Tactic.SplitIfs
import StrictHttp.Proofs.Octets
import StrictHttp.Text.Quoted

/-!
# Reading quoted text back

A quoted text has one reading, whatever stands behind it. Each character of it can be read back and
the place found where it ends (`unescape_escape`), and none begins with the mark that is guarded, so
the first mark that no backslash guards is the end of the text. The mark itself is read off the
front. For byte strings this is `Bytes.quoteChars_append_inj`. Quoted byte strings consist of
printable ASCII, so neither a line end nor any other control is in them.
-/

namespace StrictHttp

namespace Text

/-- The marks that a text can stand between. -/
def IsMark (c : Char) : Prop := c = apostrophe ∨ c = quotationMark

theorem isMark_markFor (text : List Char) : IsMark (markFor text) := by
  rw [markFor]
  split
  · exact .inr rfl
  · exact .inl rfl

-- ---------------------------------------------------------------------------
-- One character

def hexValue (digit : Char) : Nat := "0123456789abcdef".toList.idxOf digit

theorem hexValue_digitChar {n : Nat} (h : n < 16) : hexValue n.digitChar = n := by
  revert n
  decide +kernel

/-- Reads what stands behind a backslash, and what is left. -/
def unescapeGuarded : List Char → Option (Char × List Char)
  | 't' :: rest => some ('\t', rest)
  | 'n' :: rest => some ('\n', rest)
  | 'r' :: rest => some ('\r', rest)
  | 'x' :: high :: low :: rest => some (Char.ofNat (16 * hexValue high + hexValue low), rest)
  | c :: rest => some (c, rest)
  | [] => none

/-- Reads one character of a quoted text, and what is left. -/
def unescape : List Char → Option (Char × List Char)
  | [] => none
  | c :: rest => if c = backslash then unescapeGuarded rest else some (c, rest)

@[simp] theorem unescape_backslash (rest : List Char) :
    unescape (backslash :: rest) = unescapeGuarded rest := rfl

theorem unescape_numbered {c : Char} (h : c.toNat < 0x100) (rest : List Char) :
    unescape (numbered c ++ rest) = some (c, rest) := by
  have hdigits : hexDigits 2 c.toNat =
      [(c.toNat / 16 % 16).digitChar, (c.toNat % 16).digitChar] := rfl
  have hnumber : 16 * (c.toNat / 16 % 16) + c.toNat % 16 = c.toNat := by omega
  rw [numbered, if_pos h, hdigits]
  simp only [List.cons_append, List.nil_append, unescape_backslash, unescapeGuarded]
  rw [hexValue_digitChar (Nat.mod_lt _ (by decide)), hexValue_digitChar (Nat.mod_lt _ (by decide)),
    hnumber, Char.ofNat_toNat]

theorem unescape_escape {printable : Char → Bool} {guarded c : Char} (hguarded : IsMark guarded)
    (hc : c.toNat < 0x100) (rest : List Char) :
    unescape (escape printable guarded c ++ rest) = some (c, rest) := by
  rw [escape]
  split_ifs with hmarked htab hfeed hreturn hprintable
  · obtain rfl | rfl := hmarked
    · obtain rfl | rfl := hguarded <;> rfl
    · rfl
  · rw [htab]
    rfl
  · rw [hfeed]
    rfl
  · rw [hreturn]
    rfl
  · rw [not_or] at hmarked
    simp [unescape, hmarked.2]
  · exact unescape_numbered hc rest

/-- The mark that is guarded stands behind a backslash where it belongs to the text. -/
theorem exists_escape_cons (printable : Char → Bool) {guarded : Char} (hguarded : IsMark guarded)
    (c : Char) : ∃ first rest, escape printable guarded c = first :: rest ∧ first ≠ guarded := by
  have hbackslash : backslash ≠ guarded := by
    obtain rfl | rfl := hguarded <;> decide
  rw [escape]
  split_ifs with hmarked
  · exact ⟨_, _, rfl, hbackslash⟩
  · exact ⟨_, _, rfl, hbackslash⟩
  · exact ⟨_, _, rfl, hbackslash⟩
  · exact ⟨_, _, rfl, hbackslash⟩
  · rw [not_or] at hmarked
    exact ⟨_, _, rfl, hmarked.1⟩
  · rw [numbered]
    split_ifs <;> exact ⟨_, _, rfl, hbackslash⟩

-- ---------------------------------------------------------------------------
-- Whole texts

/-- All characters of the text are those of an octet. -/
def IsOctets (text : List Char) : Prop := ∀ c ∈ text, c.toNat < 0x100

section
variable {printable : Char → Bool} {guarded : Char} {s t r r' : List Char}

/-- By induction on the first text. Where only one of the two has come to its end, the other goes on
with a character and not with the mark. -/
theorem escaped_append_inj (hguarded : IsMark guarded) (hs : IsOctets s) (ht : IsOctets t)
    (h : s.flatMap (escape printable guarded) ++ guarded :: r =
      t.flatMap (escape printable guarded) ++ guarded :: r') : s = t ∧ r = r' := by
  induction s generalizing t with
  | nil =>
    cases t with
    | nil => exact ⟨rfl, (List.cons.inj h).2⟩
    | cons d t =>
      obtain ⟨first, rest, hd, hfirst⟩ := exists_escape_cons printable hguarded d
      rw [List.flatMap_cons, hd] at h
      exact (hfirst (List.cons.inj h).1.symm).elim
  | cons c s ih =>
    obtain ⟨hc, hs⟩ := List.forall_mem_cons.mp hs
    cases t with
    | nil =>
      obtain ⟨first, rest, hc, hfirst⟩ := exists_escape_cons printable hguarded c
      rw [List.flatMap_cons, hc] at h
      exact (hfirst (List.cons.inj h).1).elim
    | cons d t =>
      obtain ⟨hd, htail⟩ := List.forall_mem_cons.mp ht
      rw [List.flatMap_cons, List.flatMap_cons, List.append_assoc, List.append_assoc] at h
      have hread := congrArg unescape h
      rw [unescape_escape hguarded hc, unescape_escape hguarded hd, Option.some.injEq,
        Prod.mk.injEq] at hread
      obtain ⟨rfl, hrest⟩ := hread
      obtain ⟨rfl, hr⟩ := ih hs htail hrest
      exact ⟨rfl, hr⟩

theorem quoteWith_append_inj (hs : IsOctets s) (ht : IsOctets t)
    (h : quoteWith printable s ++ r = quoteWith printable t ++ r') : s = t ∧ r = r' := by
  simp only [quoteWith, enclose, List.cons_append, List.append_assoc, List.nil_append,
    List.cons.injEq] at h
  obtain ⟨hmark, hinner⟩ := h
  rw [← hmark] at hinner
  exact escaped_append_inj (isMark_markFor s) hs ht hinner

end

-- ---------------------------------------------------------------------------
-- Printable characters

/-- All characters of the text are printable ones of ASCII. -/
def AllPrintable (text : List Char) : Prop := ∀ c ∈ text, isPrintableAscii c = true

instance (text : List Char) : Decidable (AllPrintable text) := List.decidableBAll _ text

section
variable {s t : List Char} {c : Char}

@[simp] theorem allPrintable_nil : AllPrintable [] := nofun

@[simp] theorem allPrintable_cons :
    AllPrintable (c :: s) ↔ isPrintableAscii c = true ∧ AllPrintable s := List.forall_mem_cons

@[simp] theorem allPrintable_append :
    AllPrintable (s ++ t) ↔ AllPrintable s ∧ AllPrintable t := List.forall_mem_append

theorem isPrintableAscii_iff : isPrintableAscii c = true ↔ 0x20 ≤ c.toNat ∧ c.toNat ≤ 0x7E := by
  simp only [isPrintableAscii, Bool.and_eq_true, decide_eq_true_eq]
  omega

theorem IsMark.printable (h : IsMark c) : isPrintableAscii c = true := by
  obtain rfl | rfl := h <;> rfl

theorem printable_hexDigits (width n : Nat) : AllPrintable (hexDigits width n) := by
  have hdigit : ∀ m < 16, isPrintableAscii m.digitChar = true := by decide
  induction width generalizing n with
  | zero => exact allPrintable_nil
  | succ width ih => simp [hexDigits, ih, hdigit (n % 16) (Nat.mod_lt _ (by decide))]

theorem printable_numbered (c : Char) : AllPrintable (numbered c) := by
  rw [numbered]
  split_ifs <;> simp [printable_hexDigits] <;> decide

theorem printable_escape {guarded : Char} (hguarded : IsMark guarded) (c : Char) :
    AllPrintable (escape isPrintableAscii guarded c) := by
  have hpair {x : Char} (hx : isPrintableAscii x = true) : AllPrintable [backslash, x] := by
    simp [hx, show isPrintableAscii backslash = true from rfl]
  rw [escape]
  split_ifs with hmarked htab hfeed hreturn hprintable
  · obtain rfl | rfl := hmarked
    · exact hpair hguarded.printable
    · exact hpair rfl
  · exact hpair rfl
  · exact hpair rfl
  · exact hpair rfl
  · simpa using hprintable
  · exact printable_numbered c

theorem printable_quoteWith (s : List Char) : AllPrintable (quoteWith isPrintableAscii s) := by
  have hmark := isMark_markFor s
  have hinner : AllPrintable (s.flatMap (escape isPrintableAscii (markFor s))) := by
    intro x hx
    obtain ⟨c, -, hx⟩ := List.mem_flatMap.mp hx
    exact printable_escape hmark c x hx
  simp [quoteWith, enclose, hmark.printable, hinner]

end

end Text

-- ---------------------------------------------------------------------------
-- Byte strings

namespace Bytes

open Text (IsOctets AllPrintable)

theorem isOctets_toChars (s : Bytes) : IsOctets s.toChars := by
  intro c hc
  obtain ⟨b, -, rfl⟩ := List.mem_map.mp hc
  rw [toNat_char]
  exact b.toNat_lt

theorem toChars_inj {s t : Bytes} : s.toChars = t.toChars ↔ s = t := by
  refine List.map_inj_right fun b c h => ?_
  rw [← UInt8.toNat_inj, ← toNat_char b, ← toNat_char c, h]

theorem toList_quote (s : Bytes) : s.quote.toList = s.quoteChars := String.toList_ofList

/-- A quoted byte string has one reading and one end, whatever stands behind it. -/
theorem quoteChars_append_inj {s t : Bytes} {r r' : List Char} :
    s.quoteChars ++ r = t.quoteChars ++ r' ↔ s = t ∧ r = r' := by
  constructor
  · intro h
    obtain ⟨hs, hr⟩ := Text.quoteWith_append_inj (isOctets_toChars s) (isOctets_toChars t)
      (List.cons.inj h).2
    exact ⟨toChars_inj.mp hs, hr⟩
  · rintro ⟨rfl, rfl⟩
    rfl

theorem quoteChars_inj {s t : Bytes} : s.quoteChars = t.quoteChars ↔ s = t := by
  rw [← List.append_nil s.quoteChars, ← List.append_nil t.quoteChars, quoteChars_append_inj]
  exact and_iff_left rfl

theorem printable_quoteChars (s : Bytes) : AllPrintable s.quoteChars :=
  List.forall_mem_cons.mpr ⟨rfl, Text.printable_quoteWith s.toChars⟩

/-- An octet outside ASCII, a line feed and the two characters that would show one. -/
example : quote [0xFF, 0x0A, 0x5C, 0x6E, 0x27] = "b\"\\xff\\n\\\\n'\"" := by decide

end Bytes

end StrictHttp
