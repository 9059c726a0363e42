import Mathlib.Order.Basic
import StrictHttp.Proofs.Stages
import StrictHttp.Proofs.Value.Denotation
import StrictHttp.Value.Order

/-!
# The rules of order

`Stands x y o` is the order of values as rules, without operands being asked and without faults.
Turned round, the rules give the swapped order (`Stands.swap`), and they agree with equality
(`Stands.eq_iff`). `Value.weigh` is sound and complete for them (`weigh_ok_iff`): whatever the
relation that is asked for, an answer is one that the rules give, and what the rules give is
answered. All other pairs of values are refused in the same way (`stands_or_unordered`).
-/

namespace StrictHttp

theorem ByteForm.ordersWith_symm (f g : ByteForm) : f.ordersWith g = g.ordersWith f := by
  cases f <;> cases g <;> rfl

namespace Value

-- ---------------------------------------------------------------------------
-- Atoms

theorem denote_of_int? {x : Value} {n : Int} (h : x.int? = some n) :
    x.denote = .atom (.int n) := by
  cases x <;> simp_all [int?, denote]

/-- What has an order by itself: numbers, texts, and byte strings of forms that go together. -/
theorem compareAtoms?_inv {x y : Value} {o : Ordering} (h : compareAtoms? x y = some o) :
    (∃ m n, x.int? = some m ∧ y.int? = some n ∧ o = compare m n) ∨
    (∃ s t, x = text s ∧ y = text t ∧ o = compare s t) ∨
    ∃ f g s t, x = bytes f s ∧ y = bytes g t ∧ f.ordersWith g = true ∧ o = compare s t := by
  unfold compareAtoms? at h
  split at h
  · rename_i m n hm hn
    exact .inl ⟨m, n, hm, hn, (Option.some.inj h).symm⟩
  · split at h
    · exact .inr (.inl ⟨_, _, rfl, rfl, (Option.some.inj h).symm⟩)
    · split at h
      · exact .inr (.inr ⟨_, _, _, _, rfl, rfl, ‹_›, (Option.some.inj h).symm⟩)
      · cases h
    · cases h

theorem compareAtoms?_swap {x y : Value} {o : Ordering} (h : compareAtoms? x y = some o) :
    compareAtoms? y x = some o.swap := by
  obtain ⟨m, n, hx, hy, rfl⟩ | ⟨s, t, rfl, rfl, rfl⟩ | ⟨f, g, s, t, rfl, rfl, hforms, rfl⟩ :=
    compareAtoms?_inv h
  · simp only [compareAtoms?, hx, hy]
    rw [Std.OrientedOrd.eq_swap (a := n)]
  · simp only [compareAtoms?, int?]
    rw [Std.OrientedOrd.eq_swap (a := t)]
  · rw [ByteForm.ordersWith_symm] at hforms
    simp only [compareAtoms?, int?, hforms, if_true]
    rw [Std.OrientedOrd.eq_swap (a := t)]

theorem compareAtoms?_eq_iff {x y : Value} {o : Ordering} (h : compareAtoms? x y = some o) :
    o = .eq ↔ x.same y = true := by
  rw [same_iff]
  obtain ⟨m, n, hx, hy, rfl⟩ | ⟨s, t, rfl, rfl, rfl⟩ | ⟨f, g, s, t, rfl, rfl, -, rfl⟩ :=
    compareAtoms?_inv h
  · simp [denote_of_int? hx, denote_of_int? hy]
  · simp [denote]
  · simp [denote]

theorem weigh_atoms {x y : Value} {o : Ordering} (h : compareAtoms? x y = some o)
    (relation : OrderRelation) : weigh relation x y = .ok o := by
  obtain ⟨m, n, hx, hy, -⟩ | ⟨s, t, rfl, rfl, -⟩ | ⟨f, g, s, t, rfl, rfl, -, -⟩ :=
    compareAtoms?_inv h
  · cases x <;> cases y <;> simp_all [weigh, int?]
  · simp [weigh, h]
  · simp [weigh, h]

-- ---------------------------------------------------------------------------
-- The rules

mutual
/-- How the first value stands to the second, when there is an order between them. -/
inductive Stands : Value → Value → Ordering → Prop where
  | atoms {x y o} : compareAtoms? x y = some o → Stands x y o
  | lists {xs ys o} : StandAll xs ys o → Stands (list xs) (list ys) o
  | tuples {xs ys o} : StandAll xs ys o → Stands (tuple xs) (tuple ys) o
  /-- Pairs may be tuples or versions on either side. -/
  | pairs {x y a b c d o} : x.pair? = some (a, b) → y.pair? = some (c, d) →
      StandAll [a, b] [c, d] o → Stands x y o
/-- By the first items that are not the same, then by length. -/
inductive StandAll : List Value → List Value → Ordering → Prop where
  | nil : StandAll [] [] .eq
  | shorter {y ys} : StandAll [] (y :: ys) .lt
  | longer {x xs} : StandAll (x :: xs) [] .gt
  | same {x y xs ys o} : x.same y = true → StandAll xs ys o → StandAll (x :: xs) (y :: ys) o
  | first {x y xs ys o} : x.same y = false → Stands x y o → StandAll (x :: xs) (y :: ys) o
end

mutual
theorem Stands.swap {x y : Value} {o : Ordering} : Stands x y o → Stands y x o.swap
  | .atoms h => .atoms (compareAtoms?_swap h)
  | .lists h => .lists h.swap
  | .tuples h => .tuples h.swap
  | .pairs hx hy h => .pairs hy hx h.swap

theorem StandAll.swap {xs ys : List Value} {o : Ordering} :
    StandAll xs ys o → StandAll ys xs o.swap
  | .nil => .nil
  | .shorter => .longer
  | .longer => .shorter
  | .same h hrest => .same (by rwa [same_symm]) hrest.swap
  | .first h hfirst => .first (by rwa [same_symm]) hfirst.swap
end

mutual
theorem Stands.eq_iff {x y : Value} {o : Ordering} :
    Stands x y o → (o = .eq ↔ x.same y = true)
  | .atoms h => compareAtoms?_eq_iff h
  | .lists h => by
    rw [h.eq_iff, same]
  | .tuples h => by
    rw [h.eq_iff, same]
  | .pairs hx hy h => by
    rw [h.eq_iff, same_of_pairs hx hy]

theorem StandAll.eq_iff {xs ys : List Value} {o : Ordering} :
    StandAll xs ys o → (o = .eq ↔ sameAll xs ys = true)
  | .nil => by simp [sameAll]
  | .shorter => by simp [sameAll]
  | .longer => by simp [sameAll]
  | .same h hrest => by simp [sameAll, h, hrest.eq_iff]
  | .first h hfirst => by simp [sameAll, h, hfirst.eq_iff]
end

-- ---------------------------------------------------------------------------
-- Weighing by the rules

/-- An order of which `P` holds, or the fault of values that have none. -/
def Meets (P : Ordering → Prop) : Except Fault Ordering → Prop
  | .ok o => P o
  | .error f => ∃ asked left right, f = .unordered asked left right

theorem Meets.imp {P Q : Ordering → Prop} {e : Except Fault Ordering} (h : Meets P e)
    (hPQ : ∀ o, P o → Q o) : Meets Q e := by
  cases e with
  | ok o => exact hPQ o h
  | error f => exact h

theorem Meets.swap {P Q : Ordering → Prop} {e : Except Fault Ordering} (h : Meets P e)
    (hPQ : ∀ o, P o → Q o.swap) : Meets Q (e.map Ordering.swap) := by
  cases e with
  | ok o => exact hPQ o h
  | error f => exact h

mutual
theorem weigh_meets (relation : OrderRelation) (x y : Value) :
    Meets (Stands x y) (weigh relation x y) := by
  unfold weigh
  split
  -- Two pairs, one of which is a version: the operand that is asked may be the second.
  · exact (weighPair_meets _ _ _ _).swap fun _ h => .pairs rfl rfl h.swap
  · exact (weighPair_meets _ _ _ _).imp fun _ h => .pairs rfl rfl h
  · exact (weighPair_meets _ _ _ _).imp fun _ h => .pairs rfl rfl h
  · exact (weighPair_meets _ _ _ _).swap fun _ h => .pairs rfl rfl h.swap
  -- A version and no pair.
  · exact ⟨_, _, _, rfl⟩
  · exact ⟨_, _, _, rfl⟩
  · exact (weighAll_meets relation _ _).imp fun _ h => .lists h
  · exact (weighAll_meets relation _ _).imp fun _ h => .tuples h
  · split
    · exact .atoms ‹_›
    · exact ⟨_, _, _, rfl⟩
termination_by sizeOf x + sizeOf y

theorem weighPair_meets (a b c d : Value) :
    Meets (StandAll [a, b] [c, d]) (weighPair a b c d) := by
  unfold weighPair
  split
  · rename_i hac
    exact (weigh_meets .gt a c).imp fun _ h => .first (by simpa using hac) h
  · rename_i hac
    split
    · rename_i hbd
      refine (weigh_meets .gt b d).imp fun _ h => ?_
      exact .same (by simpa using hac) (.first (by simpa using hbd) h)
    · rename_i hbd
      exact .same (by simpa using hac) (.same (by simpa using hbd) .nil)
termination_by sizeOf a + sizeOf b + sizeOf c + sizeOf d + 1

theorem weighAll_meets (relation : OrderRelation) (xs ys : List Value) :
    Meets (StandAll xs ys) (weighAll relation xs ys) := by
  unfold weighAll
  split
  · exact .nil
  · exact .shorter
  · exact .longer
  · split
    · exact (weighAll_meets relation _ _).imp fun _ h => .same ‹_› h
    · rename_i hxy
      exact (weigh_meets relation _ _).imp fun _ h => .first (by simpa using hxy) h
termination_by sizeOf xs + sizeOf ys
end

theorem Meets.of_ok {P : Ordering → Prop} {e : Except Fault Ordering} (h : Meets P e)
    (he : e = .ok o) : P o := by
  rwa [he] at h

theorem Meets.of_error {P : Ordering → Prop} {e : Except Fault Ordering} (h : Meets P e)
    (he : e = .error f) : ∃ asked left right, f = .unordered asked left right := by
  rwa [he] at h

theorem map_swap_ok {e : Except Fault Ordering} {o : Ordering} (h : e = .ok o.swap) :
    e.map Ordering.swap = .ok o :=
  map_ok.mpr ⟨o.swap, h, Ordering.swap_swap⟩

mutual
theorem Stands.weigh_eq {x y : Value} {o : Ordering} (h : Stands x y o)
    (relation : OrderRelation) : weigh relation x y = .ok o := by
  cases h with
  | atoms h => exact weigh_atoms h relation
  | lists h =>
    rw [weigh]
    exact h.weighAll_eq relation
  | tuples h =>
    rw [weigh]
    exact h.weighAll_eq relation
  | pairs hx hy h =>
    obtain rfl | ⟨left, rfl⟩ := pair?_inv hx
    · obtain rfl | ⟨right, rfl⟩ := pair?_inv hy
      · rw [weigh]
        exact h.weighAll_eq relation
      · rw [weigh]
        exact map_swap_ok h.swap.weighPair_eq
    · obtain rfl | ⟨right, rfl⟩ := pair?_inv hy
      · rw [weigh]
        exact h.weighPair_eq
      · by_cases hlater : left = .base ∧ right = .derived
        · obtain ⟨rfl, rfl⟩ := hlater
          rw [weigh]
          exact map_swap_ok h.swap.weighPair_eq
        · rw [weigh]
          · exact h.weighPair_eq
          · exact fun hleft hright => hlater ⟨hleft, hright⟩
termination_by sizeOf x + sizeOf y

theorem StandAll.weighPair_eq {a b c d : Value} {o : Ordering}
    (h : StandAll [a, b] [c, d] o) : weighPair a b c d = .ok o := by
  cases h with
  | first hac hfirst => simp [weighPair, hac, hfirst.weigh_eq .gt]
  | same hac hrest =>
    cases hrest with
    | first hbd hfirst => simp [weighPair, hac, hbd, hfirst.weigh_eq .gt]
    | same hbd hnil =>
      cases hnil
      simp [weighPair, hac, hbd]
termination_by sizeOf a + sizeOf b + sizeOf c + sizeOf d + 1

theorem StandAll.weighAll_eq {xs ys : List Value} {o : Ordering} (h : StandAll xs ys o)
    (relation : OrderRelation) : weighAll relation xs ys = .ok o := by
  cases h with
  | nil => simp [weighAll]
  | shorter => simp [weighAll]
  | longer => simp [weighAll]
  | same h hrest => simp [weighAll, h, hrest.weighAll_eq relation]
  | first h hfirst => simp [weighAll, h, hfirst.weigh_eq relation]
termination_by sizeOf xs + sizeOf ys
end

theorem weigh_ok_iff {x y : Value} {relation : OrderRelation} {o : Ordering} :
    weigh relation x y = .ok o ↔ Stands x y o :=
  ⟨(weigh_meets relation x y).of_ok, fun h => h.weigh_eq relation⟩

theorem weighAll_ok_iff {xs ys : List Value} {relation : OrderRelation} {o : Ordering} :
    weighAll relation xs ys = .ok o ↔ StandAll xs ys o :=
  ⟨(weighAll_meets relation xs ys).of_ok, fun h => h.weighAll_eq relation⟩

/-- No relation of order is refused where another one is answered. -/
theorem stands_or_unordered (x y : Value) :
    (∃ o, Stands x y o) ∨
      ∀ relation, ∃ f, weigh relation x y = .error f ∧ f.category = .type := by
  by_cases hstands : ∃ o, Stands x y o
  · exact .inl hstands
  · refine .inr fun relation => ?_
    cases hw : weigh relation x y with
    | ok o => exact (hstands ⟨o, weigh_ok_iff.mp hw⟩).elim
    | error f =>
      obtain ⟨asked, left, right, rfl⟩ := (weigh_meets relation x y).of_error hw
      exact ⟨_, rfl, rfl⟩

end Value

end StrictHttp
