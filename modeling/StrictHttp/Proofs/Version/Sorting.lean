import Mathlib.Data.Prod.Lex
import StrictHttp.Proofs.Sorting.ByKey
import StrictHttp.Proofs.Version.Carriers
import StrictHttp.Proofs.Version.Order

/-!
# Sorting versions among pairs

In a list of versions and plain pairs each comparison may ask another operand. All of them come to
one order, that of the numbers (`less_value`, `greater_value`), so a sort does not fail, it is the
stable sort by the numbers, and what carries a pair has no influence on its place. In descending
order, too, items of the same numbers stay as they came. A selection answers the first item that has
the numbers at the end of the sorted list.
-/

namespace StrictHttp

open Value

/-- A pair of numbers and what carries it. -/
structure NumberPair where
  carrier : Carrier
  major : Int
  minor : Int

namespace NumberPair

def value (x : NumberPair) : Value := x.carrier.carry (.int x.major) (.int x.minor)

/-- Ordered by the first number and then by the second. -/
def numbers (x : NumberPair) : Int ×ₗ Int := toLex (x.major, x.minor)

theorem stands (x y : NumberPair) :
    Stands x.value y.value ((compare x.major y.major).then (compare x.minor y.minor)) := by
  have hpairs := standAll_cons_numbers (a := .int x.major) (c := .int y.major) rfl rfl
    (standAll_cons_numbers (a := .int x.minor) (c := .int y.minor) rfl rfl .nil)
  rw [Ordering.then_eq] at hpairs
  exact .pairs (pair?_carry _ _ _) (pair?_carry _ _ _) hpairs

theorem isLT_iff (x y : NumberPair) :
    ((compare x.major y.major).then (compare x.minor y.minor)).isLT = true ↔
      x.numbers < y.numbers := by
  rw [Ordering.isLT_iff_eq_lt, Ordering.then_eq_lt, Std.compare_eq_lt, Std.compare_eq_lt,
    Std.compare_eq_iff_eq, numbers, numbers, Prod.Lex.toLex_lt_toLex]

/-- Whatever carries the two, they compare as their numbers, also when the other one is asked. -/
theorem less_value (x y : NumberPair) :
    less x.value y.value = .ok (decide (x.numbers < y.numbers)) := by
  rw [less, (trichotomy_of_stands (stands x y)).less, Except.ok.injEq, Bool.eq_iff_iff, isLT_iff,
    decide_eq_true_iff]

theorem greater_value (x y : NumberPair) :
    greater x.value y.value = .ok (decide (y.numbers < x.numbers)) := by
  rw [greater, (trichotomy_of_stands (stands y x)).lessReversed, Except.ok.injEq, Bool.eq_iff_iff,
    isLT_iff, decide_eq_true_iff]

-- ---------------------------------------------------------------------------
-- Sorts

/-- How the numbers of a sorted list follow each other. -/
def direction : (descending : Bool) → Int ×ₗ Int → Int ×ₗ Int → Prop
  | false => (· ≤ ·)
  | true => (· ≥ ·)

instance (descending : Bool) : Std.Antisymm (direction descending) where
  antisymm k l hkl hlk := by
    cases descending with
    | false => exact le_antisymm hkl hlk
    | true => exact le_antisymm hlk hkl

theorem sort_arranged (descending : Bool) (items : List NumberPair) :
    ∃ sorted, sort descending (items.map value) = .ok (sorted.map value) ∧
      Arranged (direction descending) numbers items sorted := by
  cases descending with
  | false =>
    obtain ⟨sorted, hsorted, harranged⟩ := stableSort_arranged less_value items
    refine ⟨sorted, ?_, harranged⟩
    rw [sort, if_neg Bool.false_ne_true, stableSort_map, hsorted, Except.map]
  | true =>
    obtain ⟨sorted, hsorted, harranged⟩ := stableSort_arranged less_value items.reverse
    have hreverse := harranged.reverse
    rw [List.reverse_reverse] at hreverse
    refine ⟨sorted.reverse, ?_, hreverse⟩
    rw [sort, if_pos rfl, ← List.map_reverse, stableSort_map, hsorted, Except.map, Except.map,
      List.map_reverse]

-- ---------------------------------------------------------------------------
-- Selections

/-- The item of a sorted list that the selection goes by. -/
def endOf : Extreme → List α → Option α
  | .max, sorted => sorted.getLast?
  | .min, sorted => sorted.head?

/-- No numbers in the list are beyond these. -/
def Bounds : Extreme → List NumberPair → Int ×ₗ Int → Prop
  | .max, items, k => ∀ x ∈ items, x.numbers ≤ k
  | .min, items, k => ∀ x ∈ items, k ≤ x.numbers

theorem Bounds.of_perm {extreme : Extreme} {items items' : List NumberPair} {k : Int ×ₗ Int}
    (h : Bounds extreme items k) (hitems : items.Perm items') : Bounds extreme items' k := by
  cases extreme with
  | max => exact fun x hx => h x (hitems.mem_iff.mpr hx)
  | min => exact fun x hx => h x (hitems.mem_iff.mpr hx)

theorem Bounds.unique {extreme : Extreme} {items : List NumberPair} {x y : NumberPair}
    (h : Bounds extreme items x.numbers) (h' : Bounds extreme items y.numbers) (hx : x ∈ items)
    (hy : y ∈ items) : x.numbers = y.numbers := by
  cases extreme with
  | max => exact le_antisymm (h' x hx) (h y hy)
  | min => exact le_antisymm (h y hy) (h' x hx)

theorem select_isFirst (extreme : Extreme) (first : NumberPair) (rest : List NumberPair) :
    ∃ x, select extreme ((first :: rest).map value) = .ok x.value ∧
      Bounds extreme (first :: rest) x.numbers ∧
      IsFirst numbers x.numbers (first :: rest) x := by
  cases extreme with
  | max =>
    obtain ⟨x, hx, hmax, hfirst⟩ := champion_isFirst greater_value first rest
    refine ⟨x, ?_, hmax, hfirst⟩
    rw [List.map_cons, select, champion_map, hx, Except.map]
  | min =>
    -- The least numbers are the greatest of the reversed order.
    have hkey : ∀ x y : NumberPair, less x.value y.value =
        .ok (decide (OrderDual.toDual y.numbers < OrderDual.toDual x.numbers)) := less_value
    obtain ⟨x, hx, hmin, hfirst⟩ := champion_isFirst hkey first rest
    refine ⟨x, ?_, hmin, hfirst⟩
    rw [List.map_cons, select, champion_map, hx, Except.map]

theorem bounds_endOf {extreme : Extreme} {sorted : List NumberPair} {e : NumberPair}
    (hsorted : sorted.Pairwise fun x y => x.numbers ≤ y.numbers)
    (he : endOf extreme sorted = some e) : Bounds extreme sorted e.numbers := by
  cases extreme with
  | max =>
    obtain ⟨before, rfl⟩ := List.getLast?_eq_some_iff.mp he
    obtain ⟨-, -, hbefore⟩ := List.pairwise_append.mp hsorted
    intro x hx
    rcases List.mem_append.mp hx with hx | hx
    · exact hbefore x hx e List.mem_cons_self
    · exact (List.mem_singleton.mp hx ▸ le_rfl : x.numbers ≤ e.numbers)
  | min =>
    obtain ⟨after, rfl⟩ := List.head?_eq_some_iff.mp he
    obtain ⟨hafter, -⟩ := List.pairwise_cons.mp hsorted
    intro x hx
    rcases List.mem_cons.mp hx with rfl | hx
    · exact le_rfl
    · exact hafter x hx

theorem exists_endOf (extreme : Extreme) {sorted : List α} (hne : sorted ≠ []) :
    ∃ e ∈ sorted, endOf extreme sorted = some e := by
  cases extreme with
  | max => exact ⟨_, List.getLast_mem hne, List.getLast?_eq_some_getLast hne⟩
  | min => exact ⟨_, List.head_mem hne, List.head?_eq_some_head hne⟩

/-- What is selected is the first item with the numbers at the end of the sorted list. -/
theorem select_endOf (extreme : Extreme) {first : NumberPair} {rest sorted : List NumberPair}
    (hsorted : Arranged (direction false) numbers (first :: rest) sorted) :
    ∃ e x, endOf extreme sorted = some e ∧
      select extreme ((first :: rest).map value) = .ok x.value ∧
      IsFirst numbers e.numbers (first :: rest) x := by
  have hne : sorted ≠ [] := by
    rintro rfl
    exact absurd hsorted.perm.nil_eq (List.cons_ne_nil first rest).symm
  obtain ⟨e, he, hend⟩ := exists_endOf extreme hne
  obtain ⟨x, hx, hbounds, hfirst⟩ := select_isFirst extreme first rest
  have hx' : x ∈ first :: rest := by
    obtain ⟨before, after, hitems, -, -⟩ := hfirst
    simp [hitems]
  have hbounds' := (bounds_endOf hsorted.ordered hend).of_perm hsorted.perm
  refine ⟨e, x, hend, hx, ?_⟩
  rwa [hbounds'.unique hbounds (hsorted.perm.mem_iff.mp he) hx']

-- ---------------------------------------------------------------------------
-- Lists of versions and pairs

/-- Versions of both variants and plain pairs are compared by their numbers alone, whichever operand
is asked. So a list of them, in any mix, has one stable sort in either direction, which is what
sorting answers, and its numbers are the same for every order of the items. What is selected is the
first item with the numbers at the end of the list that is sorted upwards. -/
theorem sorting_by_numbers :
    (∀ x y : NumberPair,
      (less x.value y.value = consult (.order .lt) x.value y.value ∧
        less x.value y.value = .ok (decide (x.numbers < y.numbers))) ∧
      greater x.value y.value = consult (.order .gt) x.value y.value ∧
        greater x.value y.value = .ok (decide (y.numbers < x.numbers))) ∧
    (∀ (descending : Bool) (items : List NumberPair), ∃ sorted : List NumberPair,
      sort descending (items.map value) = .ok (sorted.map value) ∧ sorted.Perm items ∧
        Arranged (direction descending) numbers items sorted ∧
        ∀ other, Arranged (direction descending) numbers items other → other = sorted) ∧
    (∀ (descending : Bool) (items items' : List NumberPair), items.Perm items' →
      ∃ sorted sorted' : List NumberPair,
        sort descending (items.map value) = .ok (sorted.map value) ∧
        sort descending (items'.map value) = .ok (sorted'.map value) ∧
        sorted.map numbers = sorted'.map numbers) ∧
    ∀ (extreme : Extreme) (first : NumberPair) (rest : List NumberPair),
      ∃ (sorted : List NumberPair) (e x : NumberPair),
        sort false ((first :: rest).map value) = .ok (sorted.map value) ∧
        endOf extreme sorted = some e ∧
        select extreme ((first :: rest).map value) = .ok x.value ∧
        IsFirst numbers e.numbers (first :: rest) x := by
  refine ⟨?_, ?_, ?_, ?_⟩
  · intro x y
    exact ⟨⟨relate_eq_consult _ _ _, less_value x y⟩, relate_eq_consult _ _ _, greater_value x y⟩
  · intro descending items
    obtain ⟨sorted, hsorted, harranged⟩ := sort_arranged descending items
    exact ⟨sorted, hsorted, harranged.perm, harranged, fun _ hother => hother.unique harranged⟩
  · intro descending items items' hitems
    obtain ⟨sorted, hsorted, harranged⟩ := sort_arranged descending items
    obtain ⟨sorted', hsorted', harranged'⟩ := sort_arranged descending items'
    exact ⟨sorted, sorted', hsorted, hsorted', harranged.map_key_eq hitems harranged'⟩
  · intro extreme first rest
    obtain ⟨sorted, hsorted, harranged⟩ := sort_arranged false (first :: rest)
    obtain ⟨e, x, hend, hx, hfirst⟩ := select_endOf extreme harranged
    exact ⟨sorted, e, x, hsorted, hend, hx, hfirst⟩

end NumberPair

end StrictHttp
