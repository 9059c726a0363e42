import StrictHttp.Proofs.Padding
import StrictHttp.Proofs.PatternLanguage

/-!
# What the field patterns accept

The pattern of names accepts tokens and that of values accepts field values, both as the predicates
of the grammar say it octet by octet. For values this takes two readings of a byte string: from its
runs to its octets (`isFieldValue_of_runs`), and from its octets to its runs, built from the back
(`exists_runs`). `isFieldValue_trim_iff` then moves the test of values from the trimmed byte string
to the untrimmed one.
-/

namespace StrictHttp.Grammar

open Pattern

theorem isToken_iff {s : Bytes} : IsToken s ↔ s ≠ [] ∧ ∀ b ∈ s, IsNameOctet b := by
  simp only [IsToken, isTokenOctet_iff]

theorem accepts_fieldName_iff {s : Bytes} : fieldName.accepts s = true ↔ IsToken s := by
  rw [accepts_iff, fieldName, token, matches_run_iff, IsRun, IsToken]

-- ---------------------------------------------------------------------------
-- Runs of a field value

/-- What stands after the first visible run of a value: rounds of a blank and a visible run. -/
def gaps : Pattern := .many (.seq (.run Bytes.isBlank) (.run isVisible))

theorem matches_fieldContent_iff {s : Bytes} :
    fieldContent.Matches s ↔ ∃ v t, s = v ++ t ∧ IsRun isVisible v ∧ gaps.Matches t := by
  rw [fieldContent, matches_seq_iff]
  simp only [matches_run_iff, gaps]

theorem gaps_round {u v t : Bytes} (hu : IsRun Bytes.isBlank u) (hv : IsRun isVisible v)
    (ht : gaps.Matches t) : gaps.Matches (u ++ v ++ t) :=
  .round (.seq (.run hu) (.run hv)) ht

theorem gaps_induction {motive : Bytes → Prop} (nil : motive [])
    (round : ∀ u v t, IsRun Bytes.isBlank u → IsRun isVisible v → gaps.Matches t → motive t →
      motive (u ++ v ++ t))
    {t : Bytes} (h : gaps.Matches t) : motive t := by
  generalize hp : gaps = p at h
  induction h with
  | one | run | seq | skip | take | group => simp [gaps] at hp
  | done => exact nil
  | @round inner s t hs ht _ iht =>
    obtain rfl : .seq (.run Bytes.isBlank) (.run isVisible) = inner := by simpa [gaps] using hp
    obtain ⟨u, v, rfl, hu, hv⟩ := matches_seq_iff.mp hs
    exact round u v t (matches_run_iff.mp hu) (matches_run_iff.mp hv) ht (iht hp)

-- ---------------------------------------------------------------------------
-- From runs to octets

/-- The octets of a byte string are visible or blank, and the last one is visible. -/
def EndsVisible (s : Bytes) : Prop :=
  (∀ b ∈ s, isVisible b = true ∨ Bytes.isBlank b = true) ∧ ∀ b ∈ s.getLast?, isVisible b = true

theorem endsVisible_append {v t : Bytes} (hv : IsRun isVisible v) (ht : EndsVisible t) :
    EndsVisible (v ++ t) := by
  refine ⟨?_, ?_⟩
  · intro b hb
    rcases List.mem_append.mp hb with hb | hb
    · exact .inl (hv.2 b hb)
    · exact ht.1 b hb
  · intro b hb
    rw [List.getLast?_append] at hb
    cases hlast : t.getLast? with
    | none =>
      rw [hlast] at hb
      exact hv.2 b (List.mem_of_getLast? hb)
    | some c =>
      rw [hlast] at hb
      obtain rfl : c = b := Option.some.inj hb
      exact ht.2 c hlast

theorem gaps_endsVisible {t : Bytes} (h : gaps.Matches t) : EndsVisible t := by
  refine gaps_induction ?_ ?_ h
  · simp [EndsVisible]
  · intro u v t hu hv _ ih
    have hvt := endsVisible_append hv ih
    have hne : v ++ t ≠ [] := by simp [hv.1]
    rw [List.append_assoc]
    refine ⟨?_, ?_⟩
    · intro b hb
      rcases List.mem_append.mp hb with hb | hb
      · exact .inr (hu.2 b hb)
      · exact hvt.1 b hb
    · intro b hb
      rw [List.getLast?_append_of_ne_nil u hne] at hb
      exact hvt.2 b hb

theorem isFieldValue_of_runs {v t : Bytes} (hv : IsRun isVisible v) (ht : gaps.Matches t) :
    IsFieldValue (v ++ t) := by
  obtain ⟨hall, hlast⟩ := endsVisible_append hv (gaps_endsVisible ht)
  refine ⟨hall, ?_, fun b hb => isBlank_eq_false_of_isVisible (hlast b hb)⟩
  intro b hb
  rw [List.head?_append_of_ne_nil v hv.1] at hb
  exact isBlank_eq_false_of_isVisible (hv.2 b (List.mem_of_mem_head? hb))

-- ---------------------------------------------------------------------------
-- From octets to runs

/-- Built from the back: a visible octet joins the run behind it or starts a new one, and so does a
blank one. -/
theorem exists_runs {s : Bytes} (hne : s ≠ [])
    (hall : ∀ b ∈ s, isVisible b = true ∨ Bytes.isBlank b = true)
    (hlast : ∀ b ∈ s.getLast?, Bytes.isBlank b = false) :
    (∃ v t, s = v ++ t ∧ IsRun isVisible v ∧ gaps.Matches t) ∨
      ∃ u v t, s = u ++ v ++ t ∧ IsRun Bytes.isBlank u ∧ IsRun isVisible v ∧ gaps.Matches t := by
  induction s with
  | nil => exact absurd rfl hne
  | cons b s ih =>
    obtain ⟨hb, hs⟩ := List.forall_mem_cons.mp hall
    by_cases hnil : s = []
    · subst hnil
      have hb' : isVisible b = true := by
        rcases hb with hb | hb
        · exact hb
        · simp [hb] at hlast
      exact .inl ⟨[b], [], rfl, ⟨by simp, by simpa using hb'⟩, .done⟩
    · have hlast' : ∀ c ∈ s.getLast?, Bytes.isBlank c = false := by
        intro c hc
        apply hlast c
        rwa [List.getLast?_cons_of_ne_nil hnil]
      rcases hb with hb | hb
      · rcases ih hnil hs hlast' with ⟨v, t, rfl, hv, ht⟩ | ⟨u, v, t, rfl, hu, hv, ht⟩
        · exact .inl ⟨b :: v, t, rfl, hv.cons hb, ht⟩
        · exact .inl ⟨[b], u ++ v ++ t, rfl, .single hb, gaps_round hu hv ht⟩
      · rcases ih hnil hs hlast' with ⟨v, t, rfl, hv, ht⟩ | ⟨u, v, t, rfl, hu, hv, ht⟩
        · exact .inr ⟨[b], v, t, rfl, .single hb, hv, ht⟩
        · exact .inr ⟨b :: u, v, t, rfl, hu.cons hb, hv, ht⟩

theorem exists_runs_of_isFieldValue {s : Bytes} (h : IsFieldValue s) (hne : s ≠ []) :
    ∃ v t, s = v ++ t ∧ IsRun isVisible v ∧ gaps.Matches t := by
  obtain ⟨hall, hfirst, hlast⟩ := h
  rcases exists_runs hne hall hlast with hruns | ⟨u, v, t, rfl, hu, -, -⟩
  · exact hruns
  · obtain ⟨b, u', rfl⟩ := List.exists_cons_of_ne_nil hu.1
    have hb : Bytes.isBlank b = false := hfirst b rfl
    simp [hu.2 b (by simp)] at hb

theorem accepts_fieldValue_iff {s : Bytes} : fieldValue.accepts s = true ↔ IsFieldValue s := by
  rw [accepts_iff, fieldValue, matches_maybe_iff, matches_fieldContent_iff]
  constructor
  · rintro (rfl | ⟨v, t, rfl, hv, ht⟩)
    · simp [IsFieldValue]
    · exact isFieldValue_of_runs hv ht
  · intro h
    by_cases hne : s = []
    · exact .inl hne
    · exact .inr (exists_runs_of_isFieldValue h hne)

-- ---------------------------------------------------------------------------
-- Trimmed and untrimmed values

theorem isFieldValue_iff {s : Bytes} :
    IsFieldValue s ↔ (∀ b ∈ s, IsValueOctet b) ∧ Bytes.IsBare s := by
  simp only [IsFieldValue, isValueOctet_iff, Bytes.isBlank_eq_false_iff]
  exact and_congr_right fun _ => ⟨fun h => ⟨h.1, h.2⟩, fun h => ⟨h.1, h.2⟩⟩

/-- The test of the trimmed value is a test of every octet of the value as it was given. -/
theorem isFieldValue_trim_iff {s : Bytes} : IsFieldValue s.trim ↔ ∀ b ∈ s, IsValueOctet b := by
  rw [isFieldValue_iff]
  obtain ⟨lead, trail, hlead, htrail, hbare, hs⟩ := Bytes.isCore_trim s
  constructor
  · rintro ⟨hall, -⟩ b hb
    rw [hs] at hb
    simp only [List.mem_append] at hb
    rcases hb with (hb | hb) | hb
    · exact .inr (hlead b hb)
    · exact hall b hb
    · exact .inr (htrail b hb)
  · intro hall
    refine ⟨fun b hb => hall b ?_, hbare⟩
    rw [hs]
    simp [hb]

end StrictHttp.Grammar
