import Mathlib.Data.List.TakeWhile
import StrictHttp.Proofs.Stages
import StrictHttp.Value.Coercion

/-!
# What coercion refuses

Text is coerced exactly if it is ASCII, character by character, and refused as text outside ASCII
otherwise. No other value is refused in this way: its fault is one of type or of range.
-/

namespace StrictHttp

namespace Text

def AllAscii (text : List Char) : Prop := ∀ c ∈ text, c.toNat < 0x80

section
variable {text : List Char}

theorem isAscii_iff (c : Char) : isAscii c = true ↔ c.toNat < 0x80 := by
  simp [isAscii]

theorem toAscii_of_allAscii (h : AllAscii text) :
    toAscii text = .ok (text.map fun c => c.toNat.toUInt8) := by
  have hnone : text.dropWhile isAscii = [] :=
    List.dropWhile_eq_nil_iff.mpr fun c hc => (isAscii_iff c).mpr (h c hc)
  rw [toAscii, hnone]

theorem toAscii_of_not_allAscii (h : ¬AllAscii text) :
    ∃ start run, toAscii text = .error (.nonAscii start run) := by
  have hsome : text.dropWhile isAscii ≠ [] := by
    intro hnil
    refine h fun c hc => (isAscii_iff c).mp ?_
    exact List.dropWhile_eq_nil_iff.mp hnil c hc
  obtain ⟨c, rest, hrest⟩ := List.exists_cons_of_ne_nil hsome
  exact ⟨_, _, by rw [toAscii, hrest]⟩

end

end Text

namespace Value

theorem toOctet_error {v : Value} {f : Fault} (h : v.toOctet = .error f) :
    f.category = .type ∨ f.category = .value := by
  unfold toOctet at h
  split at h
  · cases h
    exact .inl rfl
  · split at h
    · cases h
    · cases h
      exact .inr rfl

theorem toOctets_error {items : List Value} {f : Fault} (h : toOctets items = .error f) :
    f.category = .type ∨ f.category = .value := by
  induction items with
  | nil => cases h
  | cons item items ih =>
    rw [toOctets] at h
    cases hitem : item.toOctet with
    | error g =>
      rw [hitem] at h
      cases h
      exact toOctet_error hitem
    | ok b =>
      cases hitems : toOctets items with
      | error g =>
        rw [hitem, hitems] at h
        cases h
        exact ih hitems
      | ok rest =>
        rw [hitem, hitems] at h
        cases h

theorem toBytes_error {v : Value} {f : Fault} (hv : ∀ s, v ≠ text s)
    (h : v.toBytes = .error f) : f.category = .type ∨ f.category = .value := by
  cases v with
  | null => cases h; exact .inl rfl
  | bool b => cases h; exact .inl rfl
  | int n => cases h; exact .inl rfl
  | text s => exact (hv s rfl).elim
  | bytes form data => cases h
  | list items => exact toOctets_error h
  | tuple items => exact toOctets_error h
  | header k => cases h; exact .inl rfl
  | version variant major minor => exact toOctets_error h
  | dictionary names values => exact toOctets_error h

end Value

end StrictHttp
