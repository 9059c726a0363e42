import StrictHttp.Proofs.Value.Consultation

/-!
# Equality is an equivalence

Equality is decided by asking the operands, each of which knows only some kinds of others, and it is
decided anew at every depth. Still it sorts all values into classes: two values are equal exactly
when they denote the same (`holds_eq_iff`), so equality is reflexive, symmetric and transitive, and
inequality, which is asked for separately, is its negation. A version is in the class of the pairs
with equal components and a header in that of the headers with the same field and value, whatever
else there is.
-/

namespace StrictHttp.Value

/-- The relation is asked for and the answer is yes. -/
def Holds (r : Relation) (x y : Value) : Prop := relate r x y = .ok true

section
variable {x y : Value}

theorem holds_eq_iff : Holds .eq x y ↔ x.denote = y.denote := by
  rw [Holds, relate, Except.ok.injEq, same_iff]

theorem holds_ne_iff : Holds .ne x y ↔ ¬Holds .eq x y := by
  rw [Holds, Holds, relate, relate, Except.ok.injEq, Except.ok.injEq, Bool.not_eq_true']
  exact (Bool.not_eq_true _).symm.to_iff

theorem holds_eq_equivalence : Equivalence (Holds .eq) where
  refl _ := holds_eq_iff.mpr rfl
  symm h := holds_eq_iff.mpr (holds_eq_iff.mp h).symm
  trans h h' := holds_eq_iff.mpr ((holds_eq_iff.mp h).trans (holds_eq_iff.mp h'))

/-- Equality does not tell equal values apart. -/
theorem holds_eq_congr_left {z : Value} (h : Holds .eq x y) : Holds .eq x z ↔ Holds .eq y z := by
  rw [holds_eq_iff, holds_eq_iff, holds_eq_iff.mp h]

theorem holds_eq_congr_right {z : Value} (h : Holds .eq x y) : Holds .eq z x ↔ Holds .eq z y := by
  rw [holds_eq_iff, holds_eq_iff, holds_eq_iff.mp h]

/-- Of what denotes a tuple of two, both components can be read. -/
theorem pair?_of_denote {d e : Denotation} (h : y.denote = .tuple [d, e]) :
    ∃ a b, y.pair? = some (a, b) ∧ a.denote = d ∧ b.denote = e := by
  cases y with
  | tuple items =>
    match items with
    | [a, b] =>
      simp only [denote, denoteAll, Denotation.tuple.injEq, List.cons.injEq] at h
      exact ⟨a, b, rfl, h.1, h.2.1⟩
    | [] | [_] | _ :: _ :: _ :: _ => simp [denote, denoteAll] at h
  | version variant a b =>
    simp only [denote, Denotation.tuple.injEq, List.cons.injEq] at h
    exact ⟨a, b, rfl, h.1, h.2.1⟩
  | _ => simp [denote] at h

theorem holds_eq_version_iff {variant : Variant} {a b : Value} :
    Holds .eq (version variant a b) y ↔
      ∃ c d, y.pair? = some (c, d) ∧ Holds .eq a c ∧ Holds .eq b d := by
  simp only [holds_eq_iff]
  constructor
  · intro h
    rw [denote] at h
    obtain ⟨c, d, hy, hc, hd⟩ := pair?_of_denote h.symm
    exact ⟨c, d, hy, hc.symm, hd.symm⟩
  · rintro ⟨c, d, hy, hc, hd⟩
    rw [denote_of_pair? hy, denote, hc, hd]
    rfl

theorem holds_eq_header_iff {h : Header} :
    Holds .eq (header h) y ↔ ∃ k, y = header k ∧ h.field = k.field ∧ h.value = k.value := by
  rw [holds_eq_iff]
  constructor
  · intro hy
    cases y with
    | header k =>
      simp only [denote, Denotation.atom.injEq, Atom.header.injEq] at hy
      exact ⟨k, rfl, hy⟩
    | _ => simp [denote] at hy
  · rintro ⟨k, rfl, hfield, hvalue⟩
    rw [denote, denote, hfield, hvalue]

end

/-- Whatever two values are compared, and whichever of them is asked, equality and inequality have
answers that are each other's negation. Equality is an equivalence. A version equals the pairs with
equal components, as tuple or as version, and nothing else; a header equals the headers with the
same field and value, and nothing else. -/
theorem equality_laws :
    (∀ x y, ∃ same, (consult .eq x y = .ok same ∧ consult .ne x y = .ok !same) ∧
      relate .eq x y = .ok same ∧ relate .ne x y = .ok !same) ∧
    (∀ x, Holds .eq x x) ∧
    (∀ x y, relate .eq x y = relate .eq y x) ∧
    (∀ x y z, Holds .eq x y → Holds .eq y z → Holds .eq x z) ∧
    (∀ x y, Holds .ne x y ↔ ¬Holds .eq x y) ∧
    (∀ variant a b y, Holds .eq (version variant a b) y ↔
      ∃ c d, (y = tuple [c, d] ∨ ∃ other, y = version other c d) ∧
        Holds .eq a c ∧ Holds .eq b d) ∧
    ∀ h y, Holds .eq (header h) y ↔
      ∃ k, y = header k ∧ h.field = k.field ∧ h.value = k.value := by
  refine ⟨?_, holds_eq_equivalence.refl, ?_, ?_, fun _ _ => holds_ne_iff, ?_, ?_⟩
  · intro x y
    rw [← relate_eq_consult, ← relate_eq_consult]
    exact ⟨x.same y, ⟨rfl, rfl⟩, rfl, rfl⟩
  · intro x y
    rw [relate, relate, same_symm]
  · intro x y z
    exact holds_eq_equivalence.trans
  · intro variant a b y
    rw [holds_eq_version_iff]
    constructor
    · rintro ⟨c, d, hy, hcomponents⟩
      exact ⟨c, d, pair?_inv hy, hcomponents⟩
    · rintro ⟨c, d, rfl | ⟨other, rfl⟩, hcomponents⟩
      · exact ⟨c, d, rfl, hcomponents⟩
      · exact ⟨c, d, rfl, hcomponents⟩
  · intro h y
    exact holds_eq_header_iff

end StrictHttp.Value
