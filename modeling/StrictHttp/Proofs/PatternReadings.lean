import Mathlib.Logic.ExistsUnique
import StrictHttp.Proofs.PatternLanguage
import StrictHttp.Proofs.Spans

/-!
# The readings of a pattern

A reading says how a pattern takes a byte string: what each of its classes takes, which options are
taken and how many rounds each repetition goes. The octets of a reading are those of its parts in
order, and the captures are the octets behind its groups. A walk that succeeds has gone along a
reading and asked the goal behind it (`walk_reads`), so the captures of a full match are those of a
reading of the whole byte string (`fullMatch_reads`). A pattern is unambiguous when no byte string
has two readings; a walk has then nothing to choose from.
-/

namespace StrictHttp

theorem IsRun.stops {accepts other : UInt8 → Bool} {s : Bytes} (hs : IsRun accepts s)
    (hclasses : ∀ b, accepts b = true → other b = false) (t : Bytes) : Stops other (s ++ t) := by
  obtain ⟨b, s, rfl⟩ := List.exists_cons_of_ne_nil hs.1
  exact stops_cons.mpr (hclasses b (hs.2 b (by simp)))

-- ---------------------------------------------------------------------------
-- Readings

/-- How a pattern takes a byte string, with one constructor for each way to match. -/
inductive Reading where
  | one (b : UInt8)
  | run (s : Bytes)
  | seq (first second : Reading)
  | skip
  | take (inner : Reading)
  | done
  | round (first rest : Reading)
  | group (name : String) (inner : Reading)

namespace Reading

def bytes : Reading → Bytes
  | one b => [b]
  | run s => s
  | seq first second | round first second => first.bytes ++ second.bytes
  | skip | done => []
  | take inner | group _ inner => inner.bytes

@[simp] theorem bytes_take (inner : Reading) : (take inner).bytes = inner.bytes := rfl

/-- What the classes take, one piece after the other. -/
def pieces : Reading → List Bytes
  | one b => [[b]]
  | run s => [s]
  | seq first second | round first second => first.pieces ++ second.pieces
  | skip | done => []
  | take inner | group _ inner => inner.pieces

@[simp] theorem pieces_take (inner : Reading) : (take inner).pieces = inner.pieces := rfl

@[simp] theorem flatten_pieces (r : Reading) : r.pieces.flatten = r.bytes := by
  induction r with
  | one b => rfl
  | run s => simp [pieces, bytes]
  | skip => rfl
  | done => rfl
  | seq first second ih ih' | round first second ih ih' => simp [pieces, bytes, ih, ih']
  | take inner ih | group name inner ih => exact ih

/-- What the groups have taken when the reading is over and `rest` is left, on top of what was found
before. -/
def capture : Reading → (rest : Bytes) → Captures → Captures
  | one _, _, found | run _, _, found | skip, _, found | done, _, found => found
  | seq first second, rest, found | round first second, rest, found =>
    second.capture rest (first.capture (second.bytes ++ rest) found)
  | take inner, rest, found => inner.capture rest found
  | group name inner, rest, found =>
    ⟨name, inner.bytes ++ rest, rest⟩ :: inner.capture rest found

end Reading

namespace Pattern

/-- The readings of a pattern. -/
inductive Reads : Pattern → Reading → Prop
  | one {accepts b} : accepts b = true → Reads (.one accepts) (.one b)
  | run {accepts s} : IsRun accepts s → Reads (.run accepts) (.run s)
  | seq {first second r r'} : Reads first r → Reads second r' →
      Reads (.seq first second) (.seq r r')
  | skip {inner} : Reads (.maybe inner) .skip
  | take {inner r} : Reads inner r → Reads (.maybe inner) (.take r)
  | done {inner} : Reads (.many inner) .done
  | round {inner r r'} : Reads inner r → Reads (.many inner) r' →
      Reads (.many inner) (.round r r')
  | group {name inner r} : Reads inner r → Reads (.group name inner) (.group name r)

/-- No byte string has two readings. -/
def Unambiguous (p : Pattern) : Prop :=
  ∀ r r', p.Reads r → p.Reads r' → r.bytes = r'.bytes → r = r'

section
variable {p inner first second : Pattern} {accepts : UInt8 → Bool} {name : String} {s : Bytes}
  {r : Reading}

theorem reads_one_iff : (one accepts).Reads r ↔ ∃ b, r = .one b ∧ accepts b = true := by
  constructor
  · rintro ⟨hb⟩
    exact ⟨_, rfl, hb⟩
  · rintro ⟨b, rfl, hb⟩
    exact .one hb

theorem reads_run_iff : (run accepts).Reads r ↔ ∃ s, r = .run s ∧ IsRun accepts s := by
  constructor
  · intro h
    cases h with
    | run hs => exact ⟨_, rfl, hs⟩
  · rintro ⟨s, rfl, hs⟩
    exact .run hs

theorem reads_seq_iff : (seq first second).Reads r ↔
    ∃ r₁ r₂, r = .seq r₁ r₂ ∧ first.Reads r₁ ∧ second.Reads r₂ := by
  constructor
  · intro h
    cases h with
    | seq h₁ h₂ => exact ⟨_, _, rfl, h₁, h₂⟩
  · rintro ⟨r₁, r₂, rfl, h₁, h₂⟩
    exact .seq h₁ h₂

theorem reads_maybe_iff :
    (maybe inner).Reads r ↔ r = .skip ∨ ∃ r', r = .take r' ∧ inner.Reads r' := by
  constructor
  · intro h
    cases h with
    | skip => exact .inl rfl
    | take h => exact .inr ⟨_, rfl, h⟩
  · rintro (rfl | ⟨r', rfl, h⟩)
    · exact .skip
    · exact .take h

theorem reads_many_iff : (many inner).Reads r ↔
    r = .done ∨ ∃ r₁ r₂, r = .round r₁ r₂ ∧ inner.Reads r₁ ∧ (many inner).Reads r₂ := by
  constructor
  · intro h
    cases h with
    | done => exact .inl rfl
    | round h₁ h₂ => exact .inr ⟨_, _, rfl, h₁, h₂⟩
  · rintro (rfl | ⟨r₁, r₂, rfl, h₁, h₂⟩)
    · exact .done
    · exact .round h₁ h₂

theorem reads_group_iff :
    (group name inner).Reads r ↔ ∃ r', r = .group name r' ∧ inner.Reads r' := by
  constructor
  · intro h
    cases h with
    | group h => exact ⟨_, rfl, h⟩
  · rintro ⟨r', rfl, h⟩
    exact .group h

/-- A pattern describes the byte strings of its readings. -/
theorem matches_iff_reads : p.Matches s ↔ ∃ r, p.Reads r ∧ r.bytes = s := by
  constructor
  · intro h
    induction h with
    | one hb => exact ⟨_, .one hb, rfl⟩
    | run hs => exact ⟨_, .run hs, rfl⟩
    | skip => exact ⟨_, .skip, rfl⟩
    | done => exact ⟨_, .done, rfl⟩
    | seq _ _ ih ih' =>
      obtain ⟨r, hr, rfl⟩ := ih
      obtain ⟨r', hr', rfl⟩ := ih'
      exact ⟨_, .seq hr hr', rfl⟩
    | round _ _ ih ih' =>
      obtain ⟨r, hr, rfl⟩ := ih
      obtain ⟨r', hr', rfl⟩ := ih'
      exact ⟨_, .round hr hr', rfl⟩
    | take _ ih =>
      obtain ⟨r, hr, rfl⟩ := ih
      exact ⟨_, .take hr, rfl⟩
    | group _ ih =>
      obtain ⟨r, hr, rfl⟩ := ih
      exact ⟨_, .group hr, rfl⟩
  · rintro ⟨r, hr, rfl⟩
    induction hr with
    | one hb => exact .one hb
    | run hs => exact .run hs
    | skip => exact .skip
    | done => exact .done
    | seq _ _ ih ih' => exact .seq ih ih'
    | round _ _ ih ih' => exact .round ih ih'
    | take _ ih => exact .take ih
    | group _ ih => exact .group ih

/-- Each byte string that an unambiguous pattern accepts has exactly one reading. -/
theorem Unambiguous.existsUnique (hp : p.Unambiguous) (h : p.accepts s = true) :
    ∃! r, p.Reads r ∧ r.bytes = s := by
  obtain ⟨r, hr, hbytes⟩ := matches_iff_reads.mp (accepts_iff.mp h)
  refine ⟨r, ⟨hr, hbytes⟩, ?_⟩
  rintro r' ⟨hr', hbytes'⟩
  exact hp r' r hr' hr (hbytes'.trans hbytes.symm)

-- ---------------------------------------------------------------------------
-- The walk goes along a reading

theorem orElse_some {x y : Option α} {a : α} (h : (x <|> y) = some a) :
    x = some a ∨ y = some a := by
  cases x with
  | some b => exact .inl h
  | none => exact .inr (by simpa using h)

theorem walkRun_some {goal : Bytes → Option α} {a : α} (h : walkRun accepts goal s = some a) :
    ∃ t rest, s = t ++ rest ∧ IsRun accepts t ∧ goal rest = some a := by
  induction s with
  | nil => simp [walkRun] at h
  | cons b s ih =>
    rw [walkRun] at h
    split at h
    · rename_i hb
      rcases orElse_some h with h | h
      · obtain ⟨t, rest, rfl, ht, hrest⟩ := ih h
        exact ⟨b :: t, rest, rfl, ht.cons hb, hrest⟩
      · exact ⟨[b], s, rfl, .single hb, h⟩
    · cases h

/-- The step stands at a reading of the inner pattern whenever it asks its goal. -/
def StepReads (inner : Pattern) (step : Bytes → Captures → Goal α → Option α) : Prop :=
  ∀ s found goal a, step s found goal = some a →
    ∃ r rest, inner.Reads r ∧ s = r.bytes ++ rest ∧ goal rest (r.capture rest found) = some a

theorem walkMany_reads {step : Bytes → Captures → Goal α → Option α} (hstep : StepReads inner step)
    {goal : Goal α} {a : α} {budget : Bytes} {found : Captures}
    (h : walkMany step goal budget s found = some a) :
    ∃ r rest, (many inner).Reads r ∧ s = r.bytes ++ rest ∧
      goal rest (r.capture rest found) = some a := by
  induction budget generalizing s found with
  | nil => exact ⟨.done, s, .done, rfl, h⟩
  | cons _ budget ih =>
    rcases orElse_some h with h | h
    · obtain ⟨r, _, hr, rfl, hnext⟩ := hstep _ _ _ _ h
      obtain ⟨r', rest, hr', rfl, hgoal⟩ := ih hnext
      exact ⟨.round r r', rest, .round hr hr', by simp [Reading.bytes], hgoal⟩
    · exact ⟨.done, s, .done, rfl, h⟩

/-- By induction on the pattern, one way to match after the other. -/
theorem walk_reads (p : Pattern) : StepReads (α := α) p p.walk := by
  intro s found goal a h
  induction p generalizing s found goal a with
  | one accepts =>
    cases s with
    | nil => simp [walk] at h
    | cons b s =>
      simp only [walk] at h
      split at h
      · rename_i hb
        exact ⟨.one b, s, .one hb, rfl, h⟩
      · cases h
  | run accepts =>
    obtain ⟨t, rest, rfl, ht, hgoal⟩ := walkRun_some h
    exact ⟨.run t, rest, .run ht, rfl, hgoal⟩
  | seq first second ihFirst ihSecond =>
    obtain ⟨r, _, hr, rfl, hnext⟩ := ihFirst _ _ _ _ h
    obtain ⟨r', rest, hr', rfl, hgoal⟩ := ihSecond _ _ _ _ hnext
    exact ⟨.seq r r', rest, .seq hr hr', by simp [Reading.bytes], hgoal⟩
  | maybe inner ih =>
    rcases orElse_some h with h | h
    · obtain ⟨r, rest, hr, rfl, hgoal⟩ := ih _ _ _ _ h
      exact ⟨.take r, rest, .take hr, rfl, hgoal⟩
    · exact ⟨.skip, s, .skip, rfl, h⟩
  | many inner ih => exact walkMany_reads ih h
  | group name inner ih =>
    obtain ⟨r, rest, hr, rfl, hgoal⟩ := ih _ _ _ _ h
    exact ⟨.group name r, rest, .group hr, rfl, hgoal⟩

/-- The captures of a full match are those of a reading of the whole byte string. -/
theorem fullMatch_reads {found : Captures} (h : p.fullMatch s = some found) :
    ∃ r, p.Reads r ∧ r.bytes = s ∧ found = r.capture [] [] := by
  obtain ⟨r, rest, hr, rfl, hgoal⟩ := walk_reads p _ _ _ _ h
  cases rest with
  | nil => exact ⟨r, hr, by simp, (Option.some.inj hgoal).symm⟩
  | cons b rest => cases hgoal

/-- The reading of a full match, where there is only one. -/
theorem Unambiguous.fullMatch_eq (hp : p.Unambiguous) (hr : p.Reads r) :
    p.fullMatch r.bytes = some (r.capture [] []) := by
  have haccepted : (p.fullMatch r.bytes).isSome = true :=
    accepts_iff.mpr (matches_iff_reads.mpr ⟨r, hr, rfl⟩)
  obtain ⟨found, hfound⟩ := Option.isSome_iff_exists.mp haccepted
  obtain ⟨r', hr', hbytes, rfl⟩ := fullMatch_reads hfound
  rw [hfound, hp r' r hr' hr hbytes]

end

end Pattern

end StrictHttp
