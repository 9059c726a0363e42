import StrictHttp.Proofs.Value.Standing

/-!
# One order behind the order of values

Whether two values stand in an order depends on their sorts at every depth, but how they stand does
not: any two denotations are ranked by their labels and then by their items (`Denotation.rank`), and
where there is an order of two values it is the rank of what they denote (`Stands.rank_eq`). Ranks
chain (`Denotation.rank_chains`), so orders do, wherever in the values the first difference lies and
whatever stands beside it (`Stands.chains`).
-/

namespace StrictHttp

-- ---------------------------------------------------------------------------
-- Chains of orderings

/-- The third ordering is one that the first, with the second put behind it, admits: beside `eq`
the other one decides, and two that agree decide together. -/
def Chains (o₁ o₂ o₃ : Ordering) : Prop :=
  (o₁ = .eq → o₃ = o₂) ∧ (o₂ = .eq → o₃ = o₁) ∧ (o₁ = o₂ → o₃ = o₁)

instance (o₁ o₂ o₃ : Ordering) : Decidable (Chains o₁ o₂ o₃) :=
  inferInstanceAs (Decidable (_ ∧ _ ∧ _))

theorem Chains.then : ∀ {o₁ o₂ o₃ p₁ p₂ p₃ : Ordering}, Chains o₁ o₂ o₃ → Chains p₁ p₂ p₃ →
    Chains (o₁.then p₁) (o₂.then p₂) (o₃.then p₃) := by
  decide

theorem Chains.laws : ∀ {o₁ o₂ o₃ : Ordering}, Chains o₁ o₂ o₃ →
    (o₁.isLT = true → o₂.isLT = true → o₃.isLT = true) ∧
    (o₁.isLE = true → o₂.isLE = true → o₃.isLE = true) ∧
    (o₁.isEq = true → o₂.isLT = true → o₃.isLT = true) ∧
    (o₁.isLT = true → o₂.isEq = true → o₃.isLT = true) := by
  decide

theorem chains_lt : ∀ o : Ordering, Chains .lt o .lt := by
  decide

theorem chains_gt : ∀ o : Ordering, Chains o .gt .gt := by
  decide

theorem chains_open : ∀ o : Ordering, Chains .gt .lt o := by
  decide

theorem chains_of_transCmp {cmp : α → α → Ordering} [Std.TransCmp cmp] (x y z : α) :
    Chains (cmp x y) (cmp y z) (cmp x z) := by
  refine ⟨Std.TransCmp.congr_left, fun hyz => (Std.TransCmp.congr_right hyz).symm, fun h => ?_⟩
  cases hxy : cmp x y with
  | eq => rw [Std.TransCmp.congr_left hxy, ← h, hxy]
  | lt => exact Std.TransCmp.lt_trans hxy (h.symm.trans hxy)
  | gt => exact Std.TransCmp.gt_trans hxy (h.symm.trans hxy)

-- ---------------------------------------------------------------------------
-- Ranks

/-- What tells denotations apart, their items aside. -/
structure Label where
  sort : Nat
  number : Int
  texts : List String
  data : List Bytes

def Label.rank : Label → Label → Ordering :=
  compareLex (compareOn sort) <|
    compareLex (compareOn number) <| compareLex (compareOn texts) (compareOn data)

instance : Std.TransCmp Label.rank :=
  inferInstanceAs (Std.TransCmp (compareLex (compareOn Label.sort) _))

namespace Denotation

def label : Denotation → Label
  | atom .null => ⟨0, 0, [], []⟩
  | atom (.int n) => ⟨1, n, [], []⟩
  | atom (.text s) => ⟨2, 0, [s], []⟩
  | atom (.bytes s) => ⟨3, 0, [], [s]⟩
  | atom (.header field value) => ⟨4, 0, [], [field, value]⟩
  | list _ => ⟨5, 0, [], []⟩
  | tuple _ => ⟨6, 0, [], []⟩
  | dictionary names _ => ⟨7, 0, names, []⟩

def items : Denotation → List Denotation
  | atom _ => []
  | list items | tuple items | dictionary _ items => items

theorem sizeOf_items_lt (x : Denotation) : sizeOf x.items < sizeOf x := by
  cases x with
  | atom a => cases a <;> simp +arith [items]
  | _ => simp +arith [items]

mutual
/-- By the labels, then by the first items that differ, then by their number. -/
def rank (x y : Denotation) : Ordering := (x.label.rank y.label).then (rankAll x.items y.items)
termination_by sizeOf x
decreasing_by exact sizeOf_items_lt x

def rankAll : List Denotation → List Denotation → Ordering
  | [], [] => .eq
  | [], _ :: _ => .lt
  | _ :: _, [] => .gt
  | x :: xs, y :: ys => (x.rank y).then (rankAll xs ys)
termination_by xs => sizeOf xs
end

theorem rank_of_items_nil {x y : Denotation} (hx : x.items = []) (hy : y.items = []) :
    x.rank y = x.label.rank y.label := by
  rw [rank, hx, hy, rankAll, Ordering.then_eq]

theorem rank_int (m n : Int) : (atom (.int m)).rank (atom (.int n)) = compare m n := by
  rw [rank_of_items_nil rfl rfl]
  simp [label, Label.rank, compareLex, compareOn]

theorem rank_text (s t : String) : (atom (.text s)).rank (atom (.text t)) = compare s t := by
  rw [rank_of_items_nil rfl rfl]
  simp [label, Label.rank, compareLex, compareOn]

theorem rank_bytes (s t : Bytes) : (atom (.bytes s)).rank (atom (.bytes t)) = compare s t := by
  rw [rank_of_items_nil rfl rfl]
  simp [label, Label.rank, compareLex, compareOn]

theorem rank_lists (xs ys : List Denotation) : (list xs).rank (list ys) = rankAll xs ys := by
  rw [rank]
  rfl

theorem rank_tuples (xs ys : List Denotation) : (tuple xs).rank (tuple ys) = rankAll xs ys := by
  rw [rank]
  rfl

mutual
theorem rank_self (x : Denotation) : x.rank x = .eq := by
  rw [rank, rankAll_self x.items, @Std.ReflCmp.compare_self _ Label.rank]
  rfl
termination_by sizeOf x
decreasing_by exact sizeOf_items_lt x

theorem rankAll_self (xs : List Denotation) : rankAll xs xs = .eq := by
  cases xs with
  | nil => rw [rankAll]
  | cons x xs =>
    rw [rankAll, rank_self x, rankAll_self xs]
    rfl
termination_by sizeOf xs
end

mutual
theorem rank_chains (x y z : Denotation) : Chains (x.rank y) (y.rank z) (x.rank z) := by
  rw [rank, rank, rank]
  exact (chains_of_transCmp x.label y.label z.label).then (rankAll_chains x.items y.items z.items)
termination_by sizeOf x
decreasing_by exact sizeOf_items_lt x

theorem rankAll_chains (xs ys zs : List Denotation) :
    Chains (rankAll xs ys) (rankAll ys zs) (rankAll xs zs) := by
  match xs, ys, zs with
  | [], [], [] | [], [], _ :: _ | [], _ :: _, [] | _ :: _, [], [] =>
    simp only [rankAll]
    decide
  | [], y :: ys, z :: zs =>
    simp only [rankAll]
    exact chains_lt _
  | x :: xs, [], z :: zs =>
    simp only [rankAll]
    exact chains_open _
  | x :: xs, y :: ys, [] =>
    simp only [rankAll]
    exact chains_gt _
  | x :: xs, y :: ys, z :: zs =>
    rw [rankAll, rankAll, rankAll]
    exact (rank_chains x y z).then (rankAll_chains xs ys zs)
termination_by sizeOf xs
end

end Denotation

-- ---------------------------------------------------------------------------
-- Orders are ranks

namespace Value

open Denotation

theorem rank_of_compareAtoms? {x y : Value} {o : Ordering} (h : compareAtoms? x y = some o) :
    x.denote.rank y.denote = o := by
  obtain ⟨m, n, hx, hy, rfl⟩ | ⟨s, t, rfl, rfl, rfl⟩ | ⟨f, g, s, t, rfl, rfl, -, rfl⟩ :=
    compareAtoms?_inv h
  · rw [denote_of_int? hx, denote_of_int? hy, rank_int]
  · rw [denote, denote, rank_text]
  · rw [denote, denote, rank_bytes]

mutual
theorem Stands.rank_eq {x y : Value} {o : Ordering} :
    Stands x y o → x.denote.rank y.denote = o
  | .atoms h => rank_of_compareAtoms? h
  | .lists h => by
    rw [denote, denote, rank_lists, h.rank_eq]
  | .tuples h => by
    rw [denote, denote, rank_tuples, h.rank_eq]
  | .pairs hx hy h => by
    rw [denote_of_pair? hx, denote_of_pair? hy, rank_tuples, h.rank_eq]

theorem StandAll.rank_eq {xs ys : List Value} {o : Ordering} :
    StandAll xs ys o → rankAll (denoteAll xs) (denoteAll ys) = o
  | .nil => by simp [denoteAll, rankAll]
  | .shorter => by simp [denoteAll, rankAll]
  | .longer => by simp [denoteAll, rankAll]
  | .same h hrest => by
    rw [denoteAll, denoteAll, (same_iff _ _).mp h, rankAll, rank_self, hrest.rank_eq]
    rfl
  | .first h hfirst => by
    -- Items that are not the same stand before or behind each other, and so decide.
    have hne : o ≠ .eq := fun ho => by simp [hfirst.eq_iff.mp ho] at h
    rw [denoteAll, denoteAll, rankAll, hfirst.rank_eq]
    cases o with
    | eq => exact (hne rfl).elim
    | lt => rfl
    | gt => rfl
end

theorem Stands.chains {x y z : Value} {o₁ o₂ o₃ : Ordering} (hxy : Stands x y o₁)
    (hyz : Stands y z o₂) (hxz : Stands x z o₃) : Chains o₁ o₂ o₃ := by
  rw [← hxy.rank_eq, ← hyz.rank_eq, ← hxz.rank_eq]
  exact rank_chains _ _ _

end Value

end StrictHttp
