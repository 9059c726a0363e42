import Mathlib.Data.List.DropRight
import StrictHttp.Proofs.Octets

/-!
# Padding and trimming

Padding is a byte string of spaces and tabs. Trimming takes the padding off both ends: what is left
begins and ends without a blank, and it is the only such part that padding completes to the whole
(`isCore_iff`). So padding that is put around a byte string does not change what trimming leaves.
-/

namespace StrictHttp.Bytes

def IsPadding (w : Bytes) : Prop := ∀ b ∈ w, b = 0x20 ∨ b = 0x09

/-- The first and the last octet, if there are any, are no blanks. -/
structure IsBare (s : Bytes) : Prop where
  first : ∀ b ∈ s.head?, b ≠ 0x20 ∧ b ≠ 0x09
  last : ∀ b ∈ s.getLast?, b ≠ 0x20 ∧ b ≠ 0x09

/-- What is left of `s` when the longest runs of blanks at its two ends are taken off. -/
def IsCore (s core : Bytes) : Prop :=
  ∃ lead trail, IsPadding lead ∧ IsPadding trail ∧ IsBare core ∧ s = lead ++ core ++ trail

theorem isPadding_iff {w : Bytes} : IsPadding w ↔ ∀ b ∈ w, isBlank b = true := by
  simp [IsPadding, isBlank_iff]

theorem isBlank_eq_false_iff (b : UInt8) : isBlank b = false ↔ b ≠ 0x20 ∧ b ≠ 0x09 := by
  rw [← Bool.not_eq_true, isBlank_iff, not_or]

-- ---------------------------------------------------------------------------
-- Padding does not matter

theorem trimStart_append {w : Bytes} (hw : IsPadding w) (s : Bytes) :
    trimStart (w ++ s) = trimStart s :=
  List.dropWhile_append_of_pos (isPadding_iff.mp hw)

theorem trimEnd_eq_rdropWhile (s : Bytes) : trimEnd s = s.rdropWhile isBlank := rfl

theorem trimEnd_append {w : Bytes} (hw : IsPadding w) (s : Bytes) :
    trimEnd (s ++ w) = trimEnd s := by
  have hreverse : ∀ b ∈ w.reverse, isBlank b = true := by
    simpa using isPadding_iff.mp hw
  simp only [trimEnd, List.reverse_append]
  rw [List.dropWhile_append_of_pos hreverse]

theorem trim_pad {lead trail : Bytes} (hlead : IsPadding lead) (htrail : IsPadding trail)
    (s : Bytes) : trim (lead ++ s ++ trail) = trim s := by
  rw [List.append_assoc, trim, trimStart_append hlead, trim]
  -- The start of `s ++ trail` ends inside `s`, unless all of `s` is padding.
  by_cases hs : trimStart s = []
  · have htrail' : trimStart trail = [] :=
      List.dropWhile_eq_nil_iff.mpr (isPadding_iff.mp htrail)
    have hboth : trimStart (s ++ trail) = [] := by
      simp only [trimStart, List.dropWhile_append] at hs htrail' ⊢
      simp [hs, htrail']
    rw [hboth, hs]
  · have hboth : trimStart (s ++ trail) = trimStart s ++ trail := by
      simp only [trimStart, List.dropWhile_append] at hs ⊢
      rw [if_neg (by simpa using hs)]
    rw [hboth, trimEnd_append htrail]

theorem trim_of_isBare {s : Bytes} (hs : IsBare s) : trim s = s := by
  have hstart : trimStart s = s := by
    cases s with
    | nil => rfl
    | cons b rest =>
      have hb : isBlank b = false := (isBlank_eq_false_iff b).mpr (hs.first b rfl)
      simp [trimStart, hb]
  rw [trim, hstart, trimEnd_eq_rdropWhile, List.rdropWhile_eq_self_iff]
  intro hne
  have hlast := hs.last (s.getLast hne) (List.getLast?_eq_some_getLast hne)
  simpa using (isBlank_eq_false_iff _).mpr hlast

-- ---------------------------------------------------------------------------
-- What trimming leaves

theorem exists_padding_trimStart (s : Bytes) : ∃ lead, IsPadding lead ∧ s = lead ++ trimStart s :=
  ⟨s.takeWhile isBlank, isPadding_iff.mpr fun _ hb => List.mem_takeWhile_imp hb,
    (List.takeWhile_append_dropWhile).symm⟩

theorem exists_padding_trimEnd (s : Bytes) : ∃ trail, IsPadding trail ∧ s = trimEnd s ++ trail :=
  ⟨s.rtakeWhile isBlank, isPadding_iff.mpr fun _ hb => List.mem_rtakeWhile_imp hb,
    (List.rdropWhile_append_rtakeWhile).symm⟩

theorem isBare_trim (s : Bytes) : IsBare s.trim := by
  constructor
  · intro b hb
    obtain ⟨trail, -, hs⟩ := exists_padding_trimEnd s.trimStart
    have hfirst : (s.dropWhile isBlank).head? = some b := by
      change s.trimStart.head? = some b
      rw [hs, List.head?_append, show s.trimStart.trimEnd.head? = some b from hb]
      rfl
    have hnot := List.head?_dropWhile_not isBlank s
    rw [hfirst] at hnot
    exact (isBlank_eq_false_iff b).mp (by simpa using hnot)
  · intro b hb
    have hne : s.trimStart.rdropWhile isBlank ≠ [] := by
      intro hnil
      simp [trim, trimEnd_eq_rdropWhile, hnil] at hb
    have hlast := List.rdropWhile_last_not isBlank s.trimStart hne
    have hb' : (s.trimStart.rdropWhile isBlank).getLast hne = b :=
      (List.getLast_eq_iff_getLast?_eq_some hne).mpr hb
    rw [hb'] at hlast
    exact (isBlank_eq_false_iff b).mp (by simpa using hlast)

theorem isCore_trim (s : Bytes) : IsCore s s.trim := by
  obtain ⟨lead, hlead, hs⟩ := exists_padding_trimStart s
  obtain ⟨trail, htrail, hstart⟩ := exists_padding_trimEnd s.trimStart
  refine ⟨lead, trail, hlead, htrail, isBare_trim s, ?_⟩
  rw [List.append_assoc, trim, ← hstart, ← hs]

/-- Trimming is the one way to take off all blanks at the ends. -/
theorem isCore_iff {s core : Bytes} : IsCore s core ↔ core = s.trim := by
  constructor
  · rintro ⟨lead, trail, hlead, htrail, hcore, rfl⟩
    rw [trim_pad hlead htrail, trim_of_isBare hcore]
  · rintro rfl
    exact isCore_trim s

end StrictHttp.Bytes
