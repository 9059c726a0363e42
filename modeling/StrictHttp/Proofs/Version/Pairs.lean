import StrictHttp.Proofs.Value.Equivalence
import StrictHttp.Proofs.Value.Writing
import StrictHttp.Proofs.Version.Carriers

/-!
# Versions go with pairs and with nothing else

All that takes a pair in place of a version takes the same values: tuples of two and versions. Of
those a version is made that has the same components (`exists_converted`), and all others are
refused, be it for a conversion or for a comparison (`excluded`). A version is a tuple as well, and
tuples of different lengths have an order, but a version never stands in it: whichever operand is
asked, the answer comes from the version. Only equality tells a version apart from such a tuple
without a fault. The relations of order name the kinds of the operands, so their refusal is an error
of type whatever the operands are. The two refusals that show the value are so only if it is legible
(`refuse_shows`); of an integer with 4301 digits they fail to be (`long_integer_shown`).
-/

namespace StrictHttp

open Value

/-- The value is a tuple of these two components or a version with them. -/
inductive IsPair : (x a b : Value) → Prop
  | tuple {a b} : IsPair (.tuple [a, b]) a b
  | version {variant a b} : IsPair (.version variant a b) a b

/-- A value of the first kind is an instance of the second. -/
def Kind.IsInstance (k l : Kind) : Prop := k = l ∨ k.isBelow l = true

/-- What the conversion of a pair answers. -/
structure Converted (wanted : Variant) (x a b v : Value) : Prop where
  components : Version.toPair v = .ok (.tuple [a, b])
  /-- An instance of the wanted variant is kept, with the kind it has. -/
  kept : x.kind.IsInstance (.version wanted) → v = x
  made : ¬x.kind.IsInstance (.version wanted) → v.kind = .version wanted
  again : Version.ofPair wanted v = .ok v

/-- The fault is the answer, and it is one of type. -/
def RefusedFor (answer : Except Fault α) (f : Fault) : Prop :=
  answer = .error f ∧ f.category = .type

/-- The answer refuses `x` and shows it. That is an error of type if `x` is legible; if it is not,
the attempt to write it is an error of value. -/
structure RefusedShowing (answer : Except Fault α) (x : Value) : Prop where
  legible : x.IsLegible → RefusedFor answer (.notPair x.literal)
  illegible : ¬x.IsLegible → answer = .error .longNumeral ∧ Fault.longNumeral.category = .value

/-- No version is made of `x`, and it stands in no order with the version of `a` and `b`, from
neither side. The two are not equal, which is no fault. -/
structure Excluded (variant : Variant) (a b x : Value) : Prop where
  conversion (wanted : Variant) : RefusedShowing (Version.ofPair wanted x) x
  comparison : RefusedShowing (Version.compareToPair (a, b) x) x
  order (r : OrderRelation) : RefusedFor (relate (.order r) (.version variant a b) x)
    (.unordered r (.version variant) x.kind)
  orderFromLeft (r : OrderRelation) : RefusedFor (relate (.order r) x (.version variant a b))
    (.unordered r.swap (.version variant) x.kind)
  unequal : relate .eq (.version variant a b) x = .ok false ∧
    relate .eq x (.version variant a b) = .ok false
  different : relate .ne (.version variant a b) x = .ok true ∧
    relate .ne x (.version variant a b) = .ok true
  /-- All this is what the operands answer when they are asked in turn. -/
  consulted (r : Relation) :
    relate r (.version variant a b) x = consult r (.version variant a b) x ∧
      relate r x (.version variant a b) = consult r x (.version variant a b)

section
variable {variant wanted : Variant} {x a b : Value}

theorem isPair_iff : IsPair x a b ↔ x.pair? = some (a, b) := by
  constructor
  · rintro (_ | _)
    · rfl
    · rfl
  · intro h
    obtain rfl | ⟨variant, rfl⟩ := pair?_inv h
    · exact .tuple
    · exact .version

theorem pair?_eq_none (h : ∀ a b, ¬IsPair x a b) : x.pair? = none := by
  cases hx : x.pair? with
  | none => rfl
  | some pair => exact (h pair.1 pair.2 (isPair_iff.mpr hx)).elim

-- ---------------------------------------------------------------------------
-- Conversion

theorem isInstance_version_iff {given : Variant} :
    (Kind.version given).IsInstance (.version wanted) ↔ Version.isA given wanted = true := by
  cases given <;> cases wanted <;> simp [Kind.IsInstance, Kind.isBelow, Version.isA]

theorem isA_self (variant : Variant) : Version.isA variant variant = true := by
  cases variant <;> rfl

theorem ofPair_own (variant : Variant) (a b : Value) :
    Version.ofPair variant (.version variant a b) = .ok (.version variant a b) := by
  simp [Version.ofPair, isA_self]

theorem exists_converted (wanted : Variant) (h : IsPair x a b) :
    ∃ v, Version.ofPair wanted x = .ok v ∧ Converted wanted x a b v := by
  cases h with
  | tuple =>
    refine ⟨.version wanted a b, rfl, rfl, ?_, fun _ => rfl, ofPair_own wanted a b⟩
    rintro (h | h) <;> cases h
  | @version given =>
    by_cases hgiven : Version.isA given wanted = true
    · have hown : Version.ofPair wanted (.version given a b) = .ok (.version given a b) := by
        simp [Version.ofPair, hgiven]
      refine ⟨.version given a b, hown, rfl, fun _ => rfl, ?_, hown⟩
      exact fun hnot => (hnot (isInstance_version_iff.mpr hgiven)).elim
    · refine ⟨.version wanted a b, by simp [Version.ofPair, hgiven], rfl, ?_, fun _ => rfl,
        ofPair_own wanted a b⟩
      exact fun hinstance => (hgiven (isInstance_version_iff.mp hinstance)).elim

theorem ofPair_notPair (h : x.pair? = none) (wanted : Variant) :
    Version.ofPair wanted x = Version.refuse x := by
  unfold Version.ofPair
  split
  · cases h
  · cases h
  · rfl

-- ---------------------------------------------------------------------------
-- Refusal

theorem refuse_shows (x : Value) : RefusedShowing (Version.refuse x : Except Fault α) x where
  legible h := by
    refine ⟨?_, rfl⟩
    rw [Version.refuse, write_of_isLegible h]
    rfl
  illegible h := by
    refine ⟨?_, rfl⟩
    rw [Version.refuse, write_of_not_isLegible h]
    rfl

theorem RefusedShowing.not_type {answer : Except Fault α} (h : RefusedShowing answer x)
    (hx : ¬x.IsLegible) : ¬∃ f, answer = .error f ∧ f.category = .type := by
  rintro ⟨f, hf, htype⟩
  obtain ⟨hanswer, hvalue⟩ := h.illegible hx
  obtain rfl := Except.error.inj (hanswer.symm.trans hf)
  cases hvalue.symm.trans htype

-- ---------------------------------------------------------------------------
-- Comparison

theorem same_version_notPair (h : x.pair? = none) (variant : Variant) (a b : Value) :
    (version variant a b).same x = false := by
  by_contra hsame
  rw [Bool.not_eq_false, same_iff, ← holds_eq_iff, holds_eq_version_iff, h] at hsame
  obtain ⟨c, d, hpair, -⟩ := hsame
  cases hpair

theorem excluded (variant : Variant) (a b : Value) (h : x.pair? = none) :
    Excluded variant a b x where
  conversion wanted := by
    rw [ofPair_notPair h]
    exact refuse_shows x
  comparison := by
    rw [Version.compareToPair, h]
    exact refuse_shows x
  order r := ⟨by rw [relate, weigh_version_notPair h, Except.map], rfl⟩
  orderFromLeft r := ⟨by rw [relate, weigh_notPair_version h, Except.map], rfl⟩
  unequal := by
    simp [relate, same_symm x, same_version_notPair h]
  different := by
    simp [relate, same_symm x, same_version_notPair h]
  consulted r := ⟨relate_eq_consult r _ _, relate_eq_consult r _ _⟩

/-- Every pair is converted to a version with its components, and a conversion changes nothing once
it is done. What is no pair is refused by the conversion and by every relation of order to a version
of any components, on either side; it just does not equal the version. -/
theorem versions_take_pairs_only (variant wanted : Variant) (a b x : Value) :
    (∀ c d, IsPair x c d →
      ∃ v, Version.ofPair wanted x = .ok v ∧ Converted wanted x c d v) ∧
    ((∀ c d, ¬IsPair x c d) → Excluded variant a b x) :=
  ⟨fun _ _ h => exists_converted wanted h, fun h => excluded variant a b (pair?_eq_none h)⟩

/-- Ten to the power of 4300 has 4301 digits. It is no pair, but neither the conversion nor the
comparison refuses it by an error of type. -/
theorem long_integer_shown :
    (∀ c d, ¬IsPair (int (Nat.pow 10 4300)) c d) ∧
    (∀ wanted, ¬∃ f, Version.ofPair wanted (int (Nat.pow 10 4300)) = .error f ∧
      f.category = .type) ∧
    ¬∃ f, Version.compareToPair (int 1, int 1) (int (Nat.pow 10 4300)) = .error f ∧
      f.category = .type := by
  -- The exponent becomes a variable, so that nothing computes the power.
  generalize hk : 4300 = k
  have hlong : ¬(int (Nat.pow 10 k)).IsLegible := not_isLegible_pow_ten (Nat.le_of_eq hk)
  have hexcluded := excluded .base (int 1) (int 1) (x := int (Nat.pow 10 k)) rfl
  refine ⟨nofun, ?_, hexcluded.comparison.not_type hlong⟩
  intro wanted
  exact (hexcluded.conversion wanted).not_type hlong

end

end StrictHttp
