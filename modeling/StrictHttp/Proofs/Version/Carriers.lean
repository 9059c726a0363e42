import StrictHttp.Proofs.Value.Consultation

/-!
# Versions compare as their pairs

A pair of components is carried by a tuple or by a version of either variant. Whatever carries the
two sides of a comparison, its outcome is that of the plain tuples, although the operand that is
asked differs from case to case: by the rules of order only the components count
(`stands_pairs_iff`).
-/

namespace StrictHttp

open Value

inductive Carrier where
  | plain
  | version (variant : Variant)

def Carrier.carry : Carrier → Value → Value → Value
  | plain, a, b => .tuple [a, b]
  | version variant, a, b => .version variant a b

/-- Refused as a comparison of types that have no order. -/
def Refused (e : Except Fault α) : Prop := ∃ f, e = .error f ∧ f.category = .type

/-- Exactly one of less, equal and greater holds, and the other relations follow from these. -/
structure Trichotomy (x y : Value) (lt eq gt : Bool) : Prop where
  one : [lt, eq, gt].count true = 1
  less : relate (.order .lt) x y = .ok lt
  equal : relate .eq x y = .ok eq
  greater : relate (.order .gt) x y = .ok gt
  atMost : relate (.order .le) x y = .ok (lt || eq)
  atLeast : relate (.order .ge) x y = .ok (gt || eq)
  lessReversed : relate (.order .gt) y x = .ok lt
  greaterReversed : relate (.order .lt) y x = .ok gt

/-- The values `x` and `y` compare as the pair of `a` and `b` with the pair of `c` and `d`. -/
structure ComparesAs (a b c d x y : Value) : Prop where
  consulted (r : Relation) : relate r x y = consult r x y
  equality : ∃ same,
    (relate .eq x y = .ok same ∧ relate .ne x y = .ok !same) ∧
      relate .eq (.tuple [a, b]) (.tuple [c, d]) = .ok same ∧
      relate .ne (.tuple [a, b]) (.tuple [c, d]) = .ok !same
  refused : Refused (relate (.order .gt) (.tuple [a, b]) (.tuple [c, d])) →
    (∀ r, Refused (relate (.order r) x y)) ∧ Refused (Version.compareToPair (a, b) y)
  ordered : ¬Refused (relate (.order .gt) (.tuple [a, b]) (.tuple [c, d])) →
    (∀ r, ∃ holds, relate (.order r) x y = .ok holds ∧
      relate (.order r) (.tuple [a, b]) (.tuple [c, d]) = .ok holds) ∧
    ∃ lt eq gt, Trichotomy x y lt eq gt ∧
      Version.compareToPair (a, b) y = .ok (if lt then -1 else if eq then 0 else 1)

section
variable {a b c d : Value}

theorem pair?_carry (k : Carrier) (a b : Value) : (k.carry a b).pair? = some (a, b) := by
  cases k <;> rfl

theorem stands_pairs_iff {x y : Value} (hx : x.pair? = some (a, b)) (hy : y.pair? = some (c, d))
    {o : Ordering} : Stands x y o ↔ StandAll [a, b] [c, d] o := by
  constructor
  · intro h
    cases h with
    | atoms ho =>
      -- What has an order by itself is no pair.
      obtain ⟨m, n, hm, -, -⟩ | ⟨s, t, rfl, -, -⟩ | ⟨f, g, s, t, rfl, -, -, -⟩ :=
        compareAtoms?_inv ho
      · obtain ⟨b, rfl⟩ | rfl := int?_inv hm
        · cases hx
        · cases hx
      · cases hx
      · cases hx
    | lists h => cases hx
    | tuples h =>
      obtain hx | ⟨variant, hx⟩ := pair?_inv hx
      · obtain hy | ⟨variant, hy⟩ := pair?_inv hy
        · cases hx
          cases hy
          exact h
        · cases hy
      · cases hx
    | pairs hx' hy' h =>
      rw [hx] at hx'
      rw [hy] at hy'
      cases hx'
      cases hy'
      exact h
  · exact .pairs hx hy

theorem refused_iff {x y : Value} {relation : OrderRelation} :
    Refused (relate (.order relation) x y) ↔ ∀ o, ¬Stands x y o := by
  constructor
  · rintro ⟨f, hf, -⟩ o ho
    rw [relate_of_stands ho] at hf
    cases hf
  · intro h
    obtain ⟨o, ho⟩ | hfault := stands_or_unordered x y
    · exact (h o ho).elim
    · obtain ⟨f, hf, hcategory⟩ := hfault relation
      exact ⟨f, by rw [relate, hf, Except.map], hcategory⟩

theorem compareToPair_of_pair {y : Value} (hy : y.pair? = some (c, d)) :
    Version.compareToPair (a, b) y = comparePairs a b c d := by
  rw [comparePairs_eq, Version.compareToPair, hy]

theorem refused_compareToPair {y : Value} (hy : y.pair? = some (c, d))
    (h : ∀ o, ¬StandAll [a, b] [c, d] o) : Refused (Version.compareToPair (a, b) y) := by
  rw [compareToPair_of_pair hy, comparePairs_eq]
  cases hw : weighPair a b c d with
  | ok o => exact (h o ((weighPair_meets a b c d).of_ok hw)).elim
  | error f =>
    obtain ⟨asked, left, right, rfl⟩ := (weighPair_meets a b c d).of_error hw
    exact ⟨_, rfl, rfl⟩

theorem trichotomy_of_stands {x y : Value} {o : Ordering} (h : Stands x y o) :
    Trichotomy x y o.isLT o.isEq o.isGT where
  one := by cases o <;> rfl
  less := relate_of_stands h _
  equal := relate_of_stands h _
  greater := relate_of_stands h _
  atMost := by
    rw [relate_of_stands h]
    cases o <;> rfl
  atLeast := by
    rw [relate_of_stands h]
    cases o <;> rfl
  lessReversed := by
    rw [relate_of_stands h.swap]
    cases o <;> rfl
  greaterReversed := by
    rw [relate_of_stands h.swap]
    cases o <;> rfl

/-- A pair compares to a pair in one way only, whatever carries the two. -/
theorem compares_carry (left right : Carrier) (a b c d : Value) :
    ComparesAs a b c d (left.carry a b) (right.carry c d) := by
  have hleft := pair?_carry left a b
  have hright := pair?_carry right c d
  have hplain : ∀ o, Stands (.tuple [a, b]) (.tuple [c, d]) o ↔ StandAll [a, b] [c, d] o :=
    fun _ => stands_pairs_iff rfl rfl
  have hcarried : ∀ o, Stands (left.carry a b) (right.carry c d) o ↔ StandAll [a, b] [c, d] o :=
    fun _ => stands_pairs_iff hleft hright
  have hsame : (tuple [a, b]).same (tuple [c, d]) = (left.carry a b).same (right.carry c d) := by
    rw [same_of_pairs hleft hright, same]
  refine ⟨fun r => relate_eq_consult r _ _, ⟨_, ⟨rfl, rfl⟩, ?_, ?_⟩, ?_, ?_⟩
  · rw [relate, hsame]
  · rw [relate, hsame]
  · intro h
    simp only [refused_iff, hplain] at h
    refine ⟨fun r => ?_, refused_compareToPair hright h⟩
    simpa only [refused_iff, hcarried] using h
  · intro h
    simp only [refused_iff, hplain, not_forall, not_not] at h
    obtain ⟨o, ho⟩ := h
    have hxy := (hcarried o).mpr ho
    refine ⟨fun r => ?_, o.isLT, o.isEq, o.isGT, trichotomy_of_stands hxy, ?_⟩
    · exact ⟨_, relate_of_stands hxy _, relate_of_stands ((hplain o).mpr ho) _⟩
    · rw [compareToPair_of_pair hright, comparePairs_eq, ho.weighPair_eq]
      cases o <;> rfl

end

end StrictHttp
