import StrictHttp.Proofs.Value.Equivalence
import StrictHttp.Proofs.Value.Ranking

/-!
# The order of versions

Versions may hold any values, and then some comparisons are refused. Where none of the three
comparisons among `x`, `y` and `z` is refused, the order is transitive and does not tell equal
values apart, although `x` and `y` may differ at another depth than `y` and `z` do
(`orderLaws_of_comparable`, which holds of all values). Versions of numbers are never refused, so
among them the order is total up to equality (`numbered_strictTotal`).
-/

namespace StrictHttp.Value

/-- No relation of order between the two is refused. -/
def Comparable (x y : Value) : Prop :=
  ∀ relation, ∃ holds, relate (.order relation) x y = .ok holds

/-- The order is transitive from `x` over `y` to `z`, and values equal to its sides may stand in for
them. -/
structure OrderLaws (x y z : Value) : Prop where
  lt_trans : Holds (.order .lt) x y → Holds (.order .lt) y z → Holds (.order .lt) x z
  le_trans : Holds (.order .le) x y → Holds (.order .le) y z → Holds (.order .le) x z
  lt_of_eq_of_lt : Holds .eq x y → Holds (.order .lt) y z → Holds (.order .lt) x z
  lt_of_lt_of_eq : Holds (.order .lt) x y → Holds .eq y z → Holds (.order .lt) x z

/-- Among the values with the property no comparison is refused, and the order is a strict total one
up to equality. -/
structure StrictTotal (P : Value → Prop) : Prop where
  comparable {x y} : P x → P y → Comparable x y
  laws {x y z} : P x → P y → P z → OrderLaws x y z
  irrefl {x} : P x → ¬Holds (.order .lt) x x
  total {x y} : P x → P y → Holds (.order .lt) x y ∨ Holds .eq x y ∨ Holds (.order .lt) y x
  exclusive {x y} : P x → P y → Holds (.order .lt) x y →
    ¬Holds .eq x y ∧ ¬Holds (.order .lt) y x
  antisymm {x y} : P x → P y → Holds (.order .le) x y → Holds (.order .le) y x → Holds .eq x y

section
variable {x y z : Value}

theorem comparable_iff : Comparable x y ↔ ∃ o, Stands x y o := by
  constructor
  · intro h
    obtain ho | hfault := stands_or_unordered x y
    · exact ho
    · obtain ⟨holds, hholds⟩ := h .lt
      obtain ⟨f, hf, -⟩ := hfault .lt
      rw [relate, hf] at hholds
      cases hholds
  · rintro ⟨o, ho⟩ relation
    exact ⟨_, relate_of_stands ho _⟩

theorem Stands.holds_iff {o : Ordering} (h : Stands x y o) (r : Relation) :
    Holds r x y ↔ r.test o = true := by
  rw [Holds, relate_of_stands h, Except.ok.injEq]

theorem orderLaws_of_comparable (hxy : Comparable x y) (hyz : Comparable y z)
    (hxz : Comparable x z) : OrderLaws x y z := by
  obtain ⟨o₁, h₁⟩ := comparable_iff.mp hxy
  obtain ⟨o₂, h₂⟩ := comparable_iff.mp hyz
  obtain ⟨o₃, h₃⟩ := comparable_iff.mp hxz
  obtain ⟨hlt, hle, heqlt, hlteq⟩ := (h₁.chains h₂ h₃).laws
  constructor <;> rw [h₁.holds_iff, h₂.holds_iff, h₃.holds_iff]
  · exact hlt
  · exact hle
  · exact heqlt
  · exact hlteq

-- ---------------------------------------------------------------------------
-- Versions of numbers

/-- A version of which both components count as numbers. -/
def IsNumbered (x : Value) : Prop :=
  ∃ variant a b m n, x = version variant a b ∧ a.int? = some m ∧ b.int? = some n

theorem stands_numbers {a b : Value} {m n : Int} (ha : a.int? = some m) (hb : b.int? = some n) :
    Stands a b (compare m n) := by
  apply Stands.atoms
  simp only [compareAtoms?, ha, hb]

/-- Items that are numbers are ordered by these, and equal ones leave the order to the rest. -/
theorem standAll_cons_numbers {a c : Value} {m n : Int} (ha : a.int? = some m)
    (hc : c.int? = some n) {xs ys : List Value} {o : Ordering} (h : StandAll xs ys o) :
    StandAll (a :: xs) (c :: ys) ((compare m n).then o) := by
  have hstands := stands_numbers ha hc
  cases hac : a.same c with
  | true =>
    rw [hstands.eq_iff.mpr hac]
    exact .same hac h
  | false =>
    have hne : compare m n ≠ .eq := fun heq => by simp [hstands.eq_iff.mp heq] at hac
    have hthen : (compare m n).then o = compare m n := by
      cases hmn : compare m n with
      | eq => exact (hne hmn).elim
      | lt | gt => rfl
    rw [hthen]
    exact .first hac hstands

theorem IsNumbered.comparable (hx : IsNumbered x) (hy : IsNumbered y) : Comparable x y := by
  obtain ⟨_, a, b, _, _, rfl, ha, hb⟩ := hx
  obtain ⟨_, c, d, _, _, rfl, hc, hd⟩ := hy
  have hpairs := standAll_cons_numbers ha hc (standAll_cons_numbers hb hd .nil)
  exact comparable_iff.mpr ⟨_, .pairs rfl rfl hpairs⟩

theorem IsNumbered.exists_stands (hx : IsNumbered x) (hy : IsNumbered y) : ∃ o, Stands x y o :=
  comparable_iff.mp (hx.comparable hy)

theorem numbered_strictTotal : StrictTotal IsNumbered where
  comparable := IsNumbered.comparable
  laws hx hy hz :=
    orderLaws_of_comparable (hx.comparable hy) (hy.comparable hz) (hx.comparable hz)
  irrefl hx hlt := by
    obtain ⟨o, ho⟩ := hx.exists_stands hx
    obtain rfl := ho.eq_iff.mpr ((same_iff _ _).mpr rfl)
    rw [ho.holds_iff] at hlt
    cases hlt
  total hx hy := by
    obtain ⟨o, ho⟩ := hx.exists_stands hy
    rw [ho.holds_iff, ho.holds_iff, ho.swap.holds_iff]
    cases o <;> decide
  exclusive hx hy := by
    obtain ⟨o, ho⟩ := hx.exists_stands hy
    rw [ho.holds_iff, ho.holds_iff, ho.swap.holds_iff]
    cases o <;> decide
  antisymm hx hy := by
    obtain ⟨o, ho⟩ := hx.exists_stands hy
    rw [ho.holds_iff, ho.holds_iff, ho.swap.holds_iff]
    cases o <;> decide

/-- Versions of any components: where no comparison is refused, the order is transitive and respects
equality. Versions of numbers: no comparison is refused, and the order is total. -/
theorem version_order_laws :
    (∀ (u v w : Variant) (a b c d e f : Value),
      Comparable (version u a b) (version v c d) → Comparable (version v c d) (version w e f) →
      Comparable (version u a b) (version w e f) →
        OrderLaws (version u a b) (version v c d) (version w e f)) ∧
    StrictTotal IsNumbered :=
  ⟨fun _ _ _ _ _ _ _ _ _ => orderLaws_of_comparable, numbered_strictTotal⟩

end

end StrictHttp.Value
