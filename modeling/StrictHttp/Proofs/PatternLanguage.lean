import StrictHttp.Pattern

/-!
# The language of a pattern

`Pattern.Matches` says which byte strings a pattern describes, with no order of preference and no
backtracking. `accepts_iff` shows that a full match succeeds on these byte strings and on no others:
`isSome_walk` follows the walk constructor by constructor, for any goal whose success depends on the
octets that are left and not on the captures.
-/

namespace StrictHttp

/-- One or more octets of a class. -/
def IsRun (accepts : UInt8 → Bool) (s : Bytes) : Prop := s ≠ [] ∧ ∀ b ∈ s, accepts b = true

theorem IsRun.single {accepts : UInt8 → Bool} {b : UInt8} (h : accepts b = true) :
    IsRun accepts [b] :=
  ⟨by simp, by simpa using h⟩

theorem IsRun.cons {accepts : UInt8 → Bool} {b : UInt8} {s : Bytes} (hs : IsRun accepts s)
    (h : accepts b = true) : IsRun accepts (b :: s) :=
  ⟨by simp, by simpa using ⟨h, hs.2⟩⟩

namespace Pattern

/-- The byte strings that a pattern describes. -/
inductive Matches : Pattern → Bytes → Prop
  | one {accepts b} : accepts b = true → Matches (.one accepts) [b]
  | run {accepts s} : IsRun accepts s → Matches (.run accepts) s
  | seq {first second s t} : Matches first s → Matches second t →
      Matches (.seq first second) (s ++ t)
  | skip {inner} : Matches (.maybe inner) []
  | take {inner s} : Matches inner s → Matches (.maybe inner) s
  | done {inner} : Matches (.many inner) []
  | round {inner s t} : Matches inner s → Matches (.many inner) t → Matches (.many inner) (s ++ t)
  | group {name inner s} : Matches inner s → Matches (.group name inner) s

section
variable {accepts : UInt8 → Bool} {inner first second : Pattern} {s : Bytes}

theorem matches_one_iff : (one accepts).Matches s ↔ ∃ b, s = [b] ∧ accepts b = true := by
  constructor
  · rintro ⟨h⟩
    exact ⟨_, rfl, h⟩
  · rintro ⟨b, rfl, h⟩
    exact .one h

theorem matches_run_iff : (run accepts).Matches s ↔ IsRun accepts s := by
  constructor
  · rintro ⟨⟩
    assumption
  · exact .run

theorem matches_seq_iff :
    (seq first second).Matches s ↔ ∃ t u, s = t ++ u ∧ first.Matches t ∧ second.Matches u := by
  constructor
  · rintro ⟨⟩
    exact ⟨_, _, rfl, by assumption, by assumption⟩
  · rintro ⟨t, u, rfl, ht, hu⟩
    exact .seq ht hu

theorem matches_maybe_iff : (maybe inner).Matches s ↔ s = [] ∨ inner.Matches s := by
  constructor
  · rintro (_ | h)
    · exact .inl rfl
    · exact .inr (by assumption)
  · rintro (rfl | h)
    · exact .skip
    · exact .take h

theorem matches_group_iff : (group name inner).Matches s ↔ inner.Matches s := by
  constructor
  · rintro ⟨⟩
    assumption
  · exact .group

-- ---------------------------------------------------------------------------
-- Repetition

/-- The byte strings of at most `n` rounds of a pattern. -/
def Rounds (inner : Pattern) : Nat → Bytes → Prop
  | 0, s => s = []
  | n + 1, s => s = [] ∨ ∃ t u, s = t ++ u ∧ inner.Matches t ∧ Rounds inner n u

theorem Rounds.nil (n : Nat) : Rounds inner n [] := by
  cases n with
  | zero => rfl
  | succ n => exact .inl rfl

theorem Rounds.matches {n : Nat} (h : Rounds inner n s) : (many inner).Matches s := by
  induction n generalizing s with
  | zero =>
    obtain rfl : s = [] := h
    exact .done
  | succ n ih =>
    rcases h with rfl | ⟨t, u, rfl, ht, hu⟩
    · exact .done
    · exact .round ht (ih hu)

/-- Rounds that take nothing can be left out, so there are enough with one for each octet. -/
theorem Matches.rounds (h : (many inner).Matches s) {n : Nat} (hn : s.length ≤ n) :
    Rounds inner n s := by
  generalize hp : many inner = p at h
  induction h generalizing n with
  | one | run | seq | skip | take | group => simp at hp
  | done => exact .nil n
  | @round inner' t u ht _ _ ihu =>
    obtain rfl : inner = inner' := by simpa using hp
    cases t with
    | nil => exact ihu hn rfl
    | cons b t =>
      cases n with
      | zero => simp at hn
      | succ n =>
        have hu : u.length ≤ n := by
          simp only [List.length_append, List.length_cons] at hn
          omega
        exact .inr ⟨b :: t, u, rfl, ht, ihu hu rfl⟩

-- ---------------------------------------------------------------------------
-- The walk finds a reading if there is one

theorem isSome_orElse {x y : Option α} :
    (x <|> y).isSome = true ↔ x.isSome = true ∨ y.isSome = true := by
  cases x <;> simp

theorem isSome_walkRun (goal : Bytes → Option α) (s : Bytes) :
    (walkRun accepts goal s).isSome = true ↔
      ∃ t rest, s = t ++ rest ∧ IsRun accepts t ∧ (goal rest).isSome = true := by
  induction s with
  | nil =>
    constructor
    · intro h
      simp [walkRun] at h
    · rintro ⟨t, rest, hs, ht, -⟩
      exact absurd (List.append_eq_nil_iff.mp hs.symm).1 ht.1
  | cons b s ih =>
    rw [walkRun]
    split
    · rename_i hb
      rw [isSome_orElse, ih]
      constructor
      · rintro (⟨t, rest, rfl, ht, hrest⟩ | hrest)
        · exact ⟨b :: t, rest, rfl, ht.cons hb, hrest⟩
        · exact ⟨[b], s, rfl, .single hb, hrest⟩
      · rintro ⟨t, rest, hs, ht, hrest⟩
        obtain ⟨c, t, rfl⟩ := List.exists_cons_of_ne_nil ht.1
        obtain ⟨rfl, rfl⟩ := List.cons.inj hs
        cases t with
        | nil => exact .inr hrest
        | cons d t =>
          exact .inl ⟨d :: t, rest, rfl, ⟨by simp, (List.forall_mem_cons.mp ht.2).2⟩, hrest⟩
    · rename_i hb
      constructor
      · intro h
        simp at h
      · rintro ⟨t, rest, hs, ht, -⟩
        obtain ⟨c, t, rfl⟩ := List.exists_cons_of_ne_nil ht.1
        obtain ⟨rfl, -⟩ := List.cons.inj hs
        exact absurd (ht.2 b (by simp)) hb

/-- How a step that finds the readings of `inner` repeats. -/
theorem isSome_walkMany {step : Bytes → Captures → Goal α → Option α}
    (hstep : ∀ (goal : Goal α) (P : Bytes → Prop),
      (∀ rest found, (goal rest found).isSome = true ↔ P rest) → ∀ s found,
        ((step s found goal).isSome = true ↔ ∃ t rest, s = t ++ rest ∧ inner.Matches t ∧ P rest))
    {goal : Goal α} {P : Bytes → Prop}
    (hgoal : ∀ rest found, (goal rest found).isSome = true ↔ P rest)
    (budget s : Bytes) (found : Captures) :
    (walkMany step goal budget s found).isSome = true ↔
      ∃ t rest, s = t ++ rest ∧ Rounds inner budget.length t ∧ P rest := by
  induction budget generalizing s found with
  | nil =>
    rw [walkMany, hgoal]
    constructor
    · intro h
      exact ⟨[], s, rfl, rfl, h⟩
    · rintro ⟨t, rest, rfl, ht, hrest⟩
      obtain rfl : t = [] := ht
      exact hrest
  | cons _ budget ih =>
    rw [walkMany, isSome_orElse, hgoal, hstep _ _ fun rest found => ih rest found]
    constructor
    · rintro (⟨t, _, rfl, ht, u, rest, rfl, hu, hrest⟩ | hrest)
      · exact ⟨t ++ u, rest, by simp, .inr ⟨t, u, rfl, ht, hu⟩, hrest⟩
      · exact ⟨[], s, rfl, .nil _, hrest⟩
    · rintro ⟨_, rest, rfl, rfl | ⟨t, u, rfl, ht, hu⟩, hrest⟩
      · exact .inr hrest
      · exact .inl ⟨t, u ++ rest, by simp, ht, u, rest, rfl, hu, hrest⟩

/-- The walk succeeds where the pattern describes a beginning of `s` whose rest satisfies the
goal. -/
theorem isSome_walk (p : Pattern) {goal : Goal α} {P : Bytes → Prop}
    (hgoal : ∀ rest found, (goal rest found).isSome = true ↔ P rest)
    (s : Bytes) (found : Captures) :
    (p.walk s found goal).isSome = true ↔ ∃ t rest, s = t ++ rest ∧ p.Matches t ∧ P rest := by
  induction p generalizing goal P s found with
  | one accepts =>
    cases s with
    | nil =>
      constructor
      · intro h
        simp [walk] at h
      · rintro ⟨_, rest, hs, h, -⟩
        obtain ⟨b, rfl, -⟩ := matches_one_iff.mp h
        simp at hs
    | cons b s =>
      simp only [walk, matches_one_iff]
      split
      · rename_i hb
        rw [hgoal]
        constructor
        · intro h
          exact ⟨[b], s, rfl, ⟨b, rfl, hb⟩, h⟩
        · rintro ⟨_, rest, hs, ⟨c, rfl, -⟩, hrest⟩
          obtain ⟨-, rfl⟩ := List.cons.inj hs
          exact hrest
      · rename_i hb
        constructor
        · intro h
          simp at h
        · rintro ⟨_, rest, hs, ⟨c, rfl, hc⟩, -⟩
          obtain ⟨rfl, -⟩ := List.cons.inj hs
          exact absurd hc hb
  | run accepts =>
    rw [walk, isSome_walkRun]
    simp only [matches_run_iff, hgoal]
  | seq first second ihFirst ihSecond =>
    rw [walk, ihFirst fun rest found => ihSecond hgoal rest found]
    constructor
    · rintro ⟨t, _, rfl, ht, u, rest, rfl, hu, hrest⟩
      exact ⟨t ++ u, rest, by simp, .seq ht hu, hrest⟩
    · rintro ⟨_, rest, rfl, h, hrest⟩
      obtain ⟨t, u, rfl, ht, hu⟩ := matches_seq_iff.mp h
      exact ⟨t, u ++ rest, by simp, ht, u, rest, rfl, hu, hrest⟩
  | maybe inner ih =>
    rw [walk, isSome_orElse, ih hgoal, hgoal]
    constructor
    · rintro (⟨t, rest, rfl, ht, hrest⟩ | hrest)
      · exact ⟨t, rest, rfl, .take ht, hrest⟩
      · exact ⟨[], s, rfl, .skip, hrest⟩
    · rintro ⟨t, rest, rfl, h, hrest⟩
      rcases matches_maybe_iff.mp h with rfl | ht
      · exact .inr hrest
      · exact .inl ⟨t, rest, rfl, ht, hrest⟩
  | many inner ih =>
    rw [walk, isSome_walkMany (fun goal P hgoal => ih hgoal) hgoal]
    constructor
    · rintro ⟨t, rest, rfl, ht, hrest⟩
      exact ⟨t, rest, rfl, ht.matches, hrest⟩
    · rintro ⟨t, rest, rfl, ht, hrest⟩
      exact ⟨t, rest, rfl, ht.rounds (by simp), hrest⟩
  | group name inner ih =>
    rw [walk, ih fun rest found => hgoal rest _]
    simp only [matches_group_iff]

/-- A full match succeeds on the byte strings that the pattern describes. -/
theorem accepts_iff {p : Pattern} {s : Bytes} : p.accepts s = true ↔ p.Matches s := by
  have hgoal : ∀ (rest : Bytes) (found : Captures),
      (if rest.isEmpty then some found else none).isSome = true ↔ rest = [] := by
    intro rest found
    cases rest <;> simp
  rw [accepts, fullMatch, isSome_walk p hgoal]
  constructor
  · rintro ⟨t, _, rfl, ht, rfl⟩
    simpa using ht
  · intro h
    exact ⟨s, [], by simp, h, rfl⟩

theorem isSome_read? {p : Pattern} : (p.read? s).isSome = true ↔ p.Matches s := by
  rw [read?, Option.isSome_map]
  exact accepts_iff

end

end Pattern

end StrictHttp
