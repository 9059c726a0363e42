import StrictHttp.Proofs.FieldGrammar
import StrictHttp.Proofs.PatternReadings

/-!
# The runs of a field value

A field value that is not empty falls into runs of visible octets and runs of blanks in turn, and
its pattern reads it run by run. No octet is of both classes, so a run ends where the class changes
and nowhere else (`append_stops_inj`). This makes every round of the repetition the only possible
one (`gaps_unambiguous`): no byte string has a second reading that a walk would have to try, and the
pieces of the one reading are the runs.
-/

namespace StrictHttp

namespace Grammar

open Pattern

-- ---------------------------------------------------------------------------
-- Readings of the pattern of values

section
variable {s : Bytes} {r : Reading} {runs : List Bytes}

theorem gaps_reads_iff : gaps.Reads r ↔ r = .done ∨ ∃ u v rest,
    r = .round (.seq (.run u) (.run v)) rest ∧ IsRun Bytes.isBlank u ∧ IsRun isVisible v ∧
      gaps.Reads rest := by
  constructor
  · intro h
    obtain rfl | ⟨_, rest, rfl, hround, hrest⟩ := reads_many_iff.mp h
    · exact .inl rfl
    · simp only [reads_seq_iff, reads_run_iff] at hround
      obtain ⟨_, _, rfl, ⟨u, rfl, hu⟩, v, rfl, hv⟩ := hround
      exact .inr ⟨u, v, rest, rfl, hu, hv, hrest⟩
  · rintro (rfl | ⟨u, v, rest, rfl, hu, hv, hrest⟩)
    · exact .done
    · exact .round (.seq (.run hu) (.run hv)) hrest

theorem fieldContent_reads_iff : fieldContent.Reads r ↔
    ∃ v rest, r = .seq (.run v) rest ∧ IsRun isVisible v ∧ gaps.Reads rest := by
  rw [fieldContent, reads_seq_iff]
  constructor
  · rintro ⟨_, rest, rfl, hvisible, hrest⟩
    obtain ⟨v, rfl, hv⟩ := reads_run_iff.mp hvisible
    exact ⟨v, rest, rfl, hv, hrest⟩
  · rintro ⟨v, rest, rfl, hv, hrest⟩
    exact ⟨_, rest, rfl, .run hv, hrest⟩

/-- Behind a visible run stands a blank or nothing. -/
theorem stops_of_gaps_reads (h : gaps.Reads r) : Stops isVisible r.bytes := by
  obtain rfl | ⟨u, v, rest, rfl, hu, -, -⟩ := gaps_reads_iff.mp h
  · exact stops_nil
  · simp only [Reading.bytes, List.append_assoc]
    exact hu.stops (fun _ => isVisible_eq_false_of_isBlank) _

theorem bytes_ne_nil_of_round {u v : Bytes} {rest : Reading} (hu : IsRun Bytes.isBlank u) :
    (Reading.round (.seq (.run u) (.run v)) rest).bytes ≠ [] := by
  simp [Reading.bytes, hu.1]

/-- By induction on the first reading: the runs at the front are the same, and behind them the
rounds that are left are read alike. -/
theorem gaps_unambiguous : gaps.Unambiguous := by
  intro r
  induction r with
  | done =>
    intro r' _ hr' h
    obtain rfl | ⟨u, v, rest, rfl, hu, -, -⟩ := gaps_reads_iff.mp hr'
    · rfl
    · exact absurd h.symm (bytes_ne_nil_of_round hu)
  | round first rest _ ih =>
    intro r' hr hr' h
    obtain hdone | ⟨u, v, _, hround, hu, hv, hrest⟩ := gaps_reads_iff.mp hr
    · cases hdone
    cases hround
    obtain rfl | ⟨u', v', rest', rfl, hu', hv', hrest'⟩ := gaps_reads_iff.mp hr'
    · exact absurd h (bytes_ne_nil_of_round hu)
    simp only [Reading.bytes, List.append_assoc] at h
    have hvisible : ∀ b, isVisible b = true → Bytes.isBlank b = false :=
      fun _ => isBlank_eq_false_of_isVisible
    obtain ⟨rfl, hbehind⟩ := append_stops_inj hu.2 hu'.2 (hv.stops hvisible _)
      (hv'.stops hvisible _) h
    obtain ⟨rfl, hbytes⟩ := append_stops_inj hv.2 hv'.2 (stops_of_gaps_reads hrest)
      (stops_of_gaps_reads hrest') hbehind
    rw [ih _ hrest hrest' hbytes]
  | _ =>
    intro _ hr
    obtain h | ⟨u, v, rest, h, -⟩ := gaps_reads_iff.mp hr <;> cases h

theorem fieldContent_unambiguous : fieldContent.Unambiguous := by
  intro r r' hr hr' h
  obtain ⟨v, rest, rfl, hv, hrest⟩ := fieldContent_reads_iff.mp hr
  obtain ⟨v', rest', rfl, hv', hrest'⟩ := fieldContent_reads_iff.mp hr'
  obtain ⟨rfl, hbytes⟩ := append_stops_inj hv.2 hv'.2 (stops_of_gaps_reads hrest)
    (stops_of_gaps_reads hrest') h
  rw [gaps_unambiguous _ _ hrest hrest' hbytes]

theorem fieldContent_bytes_ne_nil (h : fieldContent.Reads r) : r.bytes ≠ [] := by
  obtain ⟨v, rest, rfl, hv, -⟩ := fieldContent_reads_iff.mp h
  simp [Reading.bytes, hv.1]

theorem fieldValue_unambiguous : fieldValue.Unambiguous := by
  intro r r' hr hr' h
  obtain rfl | ⟨r, rfl, hcontent⟩ := reads_maybe_iff.mp hr
  · obtain rfl | ⟨r', rfl, hcontent'⟩ := reads_maybe_iff.mp hr'
    · rfl
    · rw [Reading.bytes_take] at h
      exact absurd h.symm (fieldContent_bytes_ne_nil hcontent')
  · obtain rfl | ⟨r', rfl, hcontent'⟩ := reads_maybe_iff.mp hr'
    · rw [Reading.bytes_take] at h
      exact absurd h (fieldContent_bytes_ne_nil hcontent)
    · rw [fieldContent_unambiguous _ _ hcontent hcontent' h]

-- ---------------------------------------------------------------------------
-- Runs in turn

/-- Runs of visible octets and runs of blanks in turn, visible ones first and last. -/
inductive Alternates : List Bytes → Prop
  | last {v} : IsRun isVisible v → Alternates [v]
  | more {v u runs} : IsRun isVisible v → IsRun Bytes.isBlank u → Alternates runs →
      Alternates (v :: u :: runs)

theorem Alternates.exists_reads (h : Alternates runs) :
    ∃ r, fieldContent.Reads r ∧ r.pieces = runs := by
  induction h with
  | @last v hv => exact ⟨.seq (.run v) .done, .seq (.run hv) .done, rfl⟩
  | @more v u runs hv hu _ ih =>
    obtain ⟨r, hr, rfl⟩ := ih
    obtain ⟨v', rest, rfl, hv', hrest⟩ := fieldContent_reads_iff.mp hr
    exact ⟨.seq (.run v) (.round (.seq (.run u) (.run v')) rest),
      .seq (.run hv) (.round (.seq (.run hu) (.run hv')) hrest), rfl⟩

theorem alternates_of_reads (h : fieldContent.Reads r) : Alternates r.pieces := by
  obtain ⟨v, rest, rfl, hv, hrest⟩ := fieldContent_reads_iff.mp h
  induction rest generalizing v with
  | done => exact .last hv
  | round first rest _ ih =>
    obtain hdone | ⟨u, v', _, hround, hu, hv', hrest'⟩ := gaps_reads_iff.mp hrest
    · cases hdone
    cases hround
    exact .more hv hu (ih v' (.seq (.run hv') hrest') hv' hrest')
  | _ => obtain h | ⟨u, v, rest, h, -⟩ := gaps_reads_iff.mp hrest <;> cases h

theorem existsUnique_runs (hne : s ≠ []) (h : fieldValue.accepts s = true) :
    ∃! runs, Alternates runs ∧ runs.flatten = s := by
  obtain ⟨r, hr, rfl⟩ := matches_iff_reads.mp (accepts_iff.mp h)
  obtain rfl | ⟨r, rfl, hcontent⟩ := reads_maybe_iff.mp hr
  · exact absurd rfl hne
  · refine ⟨r.pieces, ⟨alternates_of_reads hcontent, r.flatten_pieces⟩, ?_⟩
    rintro runs ⟨hruns, hflatten⟩
    obtain ⟨r', hcontent', rfl⟩ := hruns.exists_reads
    rw [Reading.flatten_pieces] at hflatten
    rw [fieldContent_unambiguous _ _ hcontent' hcontent hflatten]

-- ---------------------------------------------------------------------------
-- The pattern by its octets

theorem isVisible_iff (b : UInt8) : isVisible b = true ↔ 0x21 ≤ b ∧ b ≤ 0x7E := by
  simp [isVisible]

theorem not_blank_of_visible {b : UInt8} (h : 0x21 ≤ b ∧ b ≤ 0x7E) : b ≠ 0x20 ∧ b ≠ 0x09 :=
  (Bytes.isBlank_eq_false_iff b).mp (isBlank_eq_false_of_isVisible ((isVisible_iff b).mpr h))

/-- Where nothing but visible octets and blanks is allowed, what is no blank is visible. -/
theorem isFieldValue_ends_iff : IsFieldValue s ↔ s = [] ∨ (∀ b ∈ s, IsValueOctet b) ∧
    ∃ first last, (s.head? = some first ∧ s.getLast? = some last) ∧
      (0x21 ≤ first ∧ first ≤ 0x7E) ∧ 0x21 ≤ last ∧ last ≤ 0x7E := by
  rw [isFieldValue_iff]
  constructor
  · rintro ⟨hall, hbare⟩
    by_cases hne : s = []
    · exact .inl hne
    · have hfirst := List.head?_eq_some_head hne
      have hlast := List.getLast?_eq_some_getLast hne
      refine .inr ⟨hall, _, _, ⟨hfirst, hlast⟩, ?_, ?_⟩
      · exact (hall _ (List.head_mem hne)).resolve_right (not_or.mpr (hbare.first _ hfirst))
      · exact (hall _ (List.getLast_mem hne)).resolve_right (not_or.mpr (hbare.last _ hlast))
  · rintro (rfl | ⟨hall, first, last, ⟨hfirst, hlast⟩, hvisible, hvisible'⟩)
    · exact ⟨nofun, nofun, nofun⟩
    · refine ⟨hall, ?_, ?_⟩
      · intro b hb
        obtain rfl := Option.some.inj (hfirst.symm.trans hb)
        exact not_blank_of_visible hvisible
      · intro b hb
        obtain rfl := Option.some.inj (hlast.symm.trans hb)
        exact not_blank_of_visible hvisible'

/-- The pattern of values accepts the empty byte string, and visible octets and blanks that begin
and end with a visible one. An accepted byte string that is not empty is in one way only a list of
runs in turn, and the pattern has one reading for it, whose pieces are these runs. -/
theorem fieldValue_reading_unique :
    (∀ s, fieldValue.accepts s = true ↔ s = [] ∨ (∀ b ∈ s, IsValueOctet b) ∧
      ∃ first last, (s.head? = some first ∧ s.getLast? = some last) ∧
        (0x21 ≤ first ∧ first ≤ 0x7E) ∧ 0x21 ≤ last ∧ last ≤ 0x7E) ∧
    (∀ s, s ≠ [] → fieldValue.accepts s = true →
      ∃! runs, Alternates runs ∧ runs.flatten = s) ∧
    ∀ s, fieldValue.accepts s = true →
      (∃! r, fieldValue.Reads r ∧ r.bytes = s) ∧
        ∀ r, fieldValue.Reads r → r.bytes = s → s ≠ [] → Alternates r.pieces := by
  refine ⟨?_, ?_, ?_⟩
  · intro s
    rw [accepts_fieldValue_iff, isFieldValue_ends_iff]
  · intro s hne h
    exact existsUnique_runs hne h
  · intro s h
    refine ⟨fieldValue_unambiguous.existsUnique h, ?_⟩
    rintro r hr rfl hne
    obtain rfl | ⟨r, rfl, hcontent⟩ := reads_maybe_iff.mp hr
    · exact absurd rfl hne
    · rw [Reading.pieces_take]
      exact alternates_of_reads hcontent

/-- Single visible octets with blanks on both sides: `a b` and a tab before `c`. -/
theorem fieldValue_reading_unique_single :
    ([0x61, 0x20, 0x62, 0x09, 0x63] ≠ ([] : Bytes) ∧
      fieldValue.accepts [0x61, 0x20, 0x62, 0x09, 0x63] = true) ∧
    (∃! runs, Alternates runs ∧ runs.flatten = [0x61, 0x20, 0x62, 0x09, 0x63]) ∧
    (∃! r, fieldValue.Reads r ∧ r.bytes = [0x61, 0x20, 0x62, 0x09, 0x63]) ∧
    Alternates [[0x61], [0x20], [0x62], [0x09], [0x63]] := by
  have hne : [0x61, 0x20, 0x62, 0x09, 0x63] ≠ ([] : Bytes) := by decide
  have haccepted : fieldValue.accepts [0x61, 0x20, 0x62, 0x09, 0x63] = true := by decide
  have hreads : fieldValue.Reads (.take (.seq (.run [0x61])
      (.round (.seq (.run [0x20]) (.run [0x62]))
        (.round (.seq (.run [0x09]) (.run [0x63])) .done)))) :=
    .take (.seq (.run (.single rfl)) (.round (.seq (.run (.single rfl)) (.run (.single rfl)))
      (.round (.seq (.run (.single rfl)) (.run (.single rfl))) .done)))
  obtain ⟨-, hruns, hreadings⟩ := fieldValue_reading_unique
  obtain ⟨hunique, hpieces⟩ := hreadings _ haccepted
  exact ⟨⟨hne, haccepted⟩, hruns _ hne haccepted, hunique, hpieces _ hreads rfl hne⟩

end

end Grammar

end StrictHttp
