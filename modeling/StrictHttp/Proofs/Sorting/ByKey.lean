import Mathlib.Data.List.Count
import Mathlib.Order.Lattice
import Mathlib.Order.OrderDual
import StrictHttp.Proofs.Sorting

/-!
# Sorting by keys

Where items precede each other as their keys do, a comparison never fails, and neither does a sort
or a selection. `Arranged` says what a stable sort makes of its items: their keys are in order, and
the items of any one key are those that there were, in the order in which they came. There is only
one such list (`Arranged.unique`), so every stable sort by the same comparisons makes it, and its
keys do not depend on the order of the items at all (`Arranged.map_key_eq`). `insertBack_arranged` is
the step of sorting by insertion, and `stableSort_arranged` its run; `champion_isFirst` is the run of
a selection.
-/

namespace StrictHttp

-- ---------------------------------------------------------------------------
-- Items behind a map

section
variable {precedes : β → β → Except ε Bool} {f : α → β}

theorem insertBack_map (x : α) (xs : List α) :
    insertBack precedes (f x) (xs.map f) =
      (insertBack (fun x y => precedes (f x) (f y)) x xs).map (List.map f) := by
  induction xs with
  | nil => rfl
  | cons y ys ih =>
    simp only [List.map_cons, insertBack, ih]
    cases precedes (f x) (f y) with
    | error e => rfl
    | ok before =>
      cases before with
      | false => rfl
      | true => cases insertBack (fun x y => precedes (f x) (f y)) x ys <;> rfl

theorem insertAll_map (sorted xs : List α) :
    insertAll precedes (sorted.map f) (xs.map f) =
      (insertAll (fun x y => precedes (f x) (f y)) sorted xs).map (List.map f) := by
  induction xs generalizing sorted with
  | nil => rfl
  | cons x xs ih =>
    simp only [List.map_cons, insertAll, insertBack_map]
    cases insertBack (fun x y => precedes (f x) (f y)) x sorted with
    | error e => rfl
    | ok next => exact ih next

theorem stableSort_map (xs : List α) :
    stableSort precedes (xs.map f) =
      (stableSort (fun x y => precedes (f x) (f y)) xs).map (List.map f) := by
  rw [stableSort, stableSort, ← List.map_nil (f := f), insertAll_map]
  cases insertAll (fun x y => precedes (f x) (f y)) [] xs with
  | error e => rfl
  | ok back => simp [Except.map]

theorem champion_map (best : α) (xs : List α) :
    champion precedes (f best) (xs.map f) =
      (champion (fun x y => precedes (f x) (f y)) best xs).map f := by
  induction xs generalizing best with
  | nil => rfl
  | cons x xs ih =>
    simp only [List.map_cons, champion]
    cases precedes (f x) (f best) with
    | error e => rfl
    | ok wins =>
      cases wins with
      | false => exact ih best
      | true => exact ih x

end

-- ---------------------------------------------------------------------------
-- Arrangements

/-- The keys stand in the order `r`, and items of one key as they came. -/
structure Arranged [DecidableEq κ] (r : κ → κ → Prop) (key : α → κ) (items sorted : List α) :
    Prop where
  ordered : sorted.Pairwise fun x y => r (key x) (key y)
  stable (k : κ) : sorted.filter (key · = k) = items.filter (key · = k)

namespace Arranged

section
variable [DecidableEq κ] {r : κ → κ → Prop} {key : α → κ} {items items' sorted sorted' : List α}

theorem perm (h : Arranged r key items sorted) : sorted.Perm items := by
  classical
  refine List.perm_iff_count.mpr fun x => ?_
  have hcount := congrArg (List.count x) (h.stable (key x))
  rwa [List.count_filter (by simp), List.count_filter (by simp)] at hcount

theorem reverse (h : Arranged r key items sorted) :
    Arranged (fun k l => r l k) key items.reverse sorted.reverse where
  ordered := List.pairwise_reverse.mpr h.ordered
  stable k := by rw [List.filter_reverse, List.filter_reverse, h.stable k]

/-- By induction on the arrangement: its first item and that of the items have the same key, so they
are the same item, the first of its class. -/
theorem eq_of_pairwise [Std.Antisymm r] (h : Arranged r key items sorted)
    (hitems : items.Pairwise fun x y => r (key x) (key y)) : sorted = items := by
  induction sorted generalizing items with
  | nil => exact h.perm.nil_eq
  | cons x xs ih =>
    cases items with
    | nil => exact h.perm.eq_nil
    | cons y ys =>
      obtain ⟨hx, hxs⟩ := List.pairwise_cons.mp h.ordered
      obtain ⟨hy, hys⟩ := List.pairwise_cons.mp hitems
      have hkey : key x = key y := by
        rcases List.mem_cons.mp (h.perm.mem_iff.mp List.mem_cons_self) with rfl | hxmem
        · rfl
        rcases List.mem_cons.mp (h.perm.mem_iff.mpr List.mem_cons_self) with rfl | hymem
        · rfl
        exact Std.Antisymm.antisymm _ _ (hx y hymem) (hy x hxmem)
      have hclass := h.stable (key y)
      obtain ⟨rfl, -⟩ : x = y ∧ _ := by simpa [hkey] using hclass
      have hrest : Arranged r key ys xs := by
        refine ⟨hxs, fun k => ?_⟩
        by_cases hk : key x = k <;> simpa [hk] using h.stable k
      rw [ih hrest hys]

theorem unique [Std.Antisymm r] (h : Arranged r key items sorted)
    (h' : Arranged r key items sorted') : sorted = sorted' :=
  eq_of_pairwise ⟨h.ordered, fun k => (h.stable k).trans (h'.stable k).symm⟩ h'.ordered

theorem map_key_eq [Std.Antisymm r] (hitems : items.Perm items')
    (h : Arranged r key items sorted) (h' : Arranged r key items' sorted') :
    sorted.map key = sorted'.map key := by
  have hperm : sorted.Perm sorted' := h.perm.trans (hitems.trans h'.perm.symm)
  refine (hperm.map key).eq_of_pairwise ?_ (List.pairwise_map.mpr h.ordered)
    (List.pairwise_map.mpr h'.ordered)
  exact fun k l _ _ => Std.Antisymm.antisymm k l

end

end Arranged

-- ---------------------------------------------------------------------------
-- Sorts and selections by a key

/-- The item is the first of the list that has the key. -/
def IsFirst (key : α → κ) (k : κ) (items : List α) (x : α) : Prop :=
  ∃ before after, items = before ++ x :: after ∧ key x = k ∧ ∀ y ∈ before, key y ≠ k

section
variable [LinearOrder κ] {key : α → κ} {precedes : α → α → Except ε Bool}

/-- An item goes behind the last one that it does not precede, which stands first in a list from the
back. -/
theorem insertBack_arranged (hkey : ∀ x y, precedes x y = .ok (decide (key x < key y))) (x : α)
    {xs : List α} (hxs : xs.Pairwise fun a b => key a ≥ key b) :
    ∃ next, insertBack precedes x xs = .ok next ∧ Arranged (· ≥ ·) key (x :: xs) next := by
  induction xs with
  | nil => exact ⟨[x], rfl, by simp, fun _ => rfl⟩
  | cons y ys ih =>
    obtain ⟨hy, hys⟩ := List.pairwise_cons.mp hxs
    by_cases hxy : key x < key y
    · obtain ⟨rest, hrest, harranged⟩ := ih hys
      refine ⟨y :: rest, ?_, List.pairwise_cons.mpr ⟨?_, harranged.ordered⟩, fun k => ?_⟩
      · rw [insertBack, hkey, decide_eq_true hxy, hrest]
        rfl
      · intro z hz
        rcases List.mem_cons.mp (harranged.perm.mem_iff.mp hz) with rfl | hz
        · exact hxy.le
        · exact hy z hz
      · -- The two that change places have different keys.
        have hclass := harranged.stable k
        by_cases hk : key y = k
        · have hne : key x ≠ k := fun hx => hxy.ne (hx.trans hk.symm)
          simpa [hk, hne] using hclass
        · simpa [List.filter_cons, hk] using hclass
    · refine ⟨x :: y :: ys, ?_, List.pairwise_cons.mpr ⟨?_, hxs⟩, fun _ => rfl⟩
      · rw [insertBack, hkey, decide_eq_false hxy]
        rfl
      · intro z hz
        rcases List.mem_cons.mp hz with rfl | hz
        · exact not_lt.mp hxy
        · exact (hy z hz).trans (not_lt.mp hxy)

theorem insertAll_arranged (hkey : ∀ x y, precedes x y = .ok (decide (key x < key y)))
    {items back : List α} (hback : Arranged (· ≥ ·) key items back) (xs : List α) :
    ∃ all, insertAll precedes back xs = .ok all ∧
      Arranged (· ≥ ·) key (xs.reverse ++ items) all := by
  induction xs generalizing items back with
  | nil => exact ⟨back, rfl, hback⟩
  | cons x xs ih =>
    obtain ⟨next, hnext, harranged⟩ := insertBack_arranged hkey x hback.ordered
    have hstep : Arranged (· ≥ ·) key (x :: items) next := by
      refine ⟨harranged.ordered, fun k => ?_⟩
      rw [harranged.stable, List.filter_cons, List.filter_cons, hback.stable]
    obtain ⟨all, hall, harranged'⟩ := ih hstep
    refine ⟨all, ?_, by simpa using harranged'⟩
    rw [insertAll, hnext]
    exact hall

theorem stableSort_arranged (hkey : ∀ x y, precedes x y = .ok (decide (key x < key y)))
    (xs : List α) :
    ∃ sorted, stableSort precedes xs = .ok sorted ∧ Arranged (· ≤ ·) key xs sorted := by
  have hnil : Arranged (· ≥ ·) key ([] : List α) [] := ⟨.nil, fun _ => rfl⟩
  obtain ⟨back, hback, harranged⟩ := insertAll_arranged hkey hnil xs
  refine ⟨back.reverse, by rw [stableSort, hback, Except.map], ?_⟩
  simpa using harranged.reverse

/-- The item that is chosen has the greatest key. An item is only given up for a greater one, so no
earlier item has this key. -/
theorem champion_isFirst {beats : α → α → Except ε Bool}
    (hkey : ∀ x y, beats x y = .ok (decide (key y < key x))) (best : α) (xs : List α) :
    ∃ x, champion beats best xs = .ok x ∧ (∀ y ∈ best :: xs, key y ≤ key x) ∧
      IsFirst key (key x) (best :: xs) x := by
  induction xs generalizing best with
  | nil => exact ⟨best, rfl, by simp, [], [], rfl, rfl, by simp⟩
  | cons x xs ih =>
    by_cases hbest : key best < key x
    · obtain ⟨v, hv, hmax, before, after, hitems, hkeyv, hbefore⟩ := ih x
      have hlt : key best < key v := hbest.trans_le (hmax x List.mem_cons_self)
      refine ⟨v, ?_, List.forall_mem_cons.mpr ⟨hlt.le, hmax⟩, best :: before, after, ?_, hkeyv,
        List.forall_mem_cons.mpr ⟨hlt.ne, hbefore⟩⟩
      · rw [champion, hkey, decide_eq_true hbest]
        exact hv
      · rw [hitems, List.cons_append]
    · obtain ⟨v, hv, hmax, before, after, hitems, hkeyv, hbefore⟩ := ih best
      obtain ⟨hbestv, hxs⟩ := List.forall_mem_cons.mp hmax
      have hx : key x ≤ key best := not_lt.mp hbest
      refine ⟨v, ?_, ?_, ?_⟩
      · rw [champion, hkey, decide_eq_false hbest]
        exact hv
      · simpa using ⟨hbestv, hx.trans hbestv, by simpa using hxs⟩
      · cases before with
        | nil =>
          obtain ⟨rfl, rfl⟩ := List.cons.inj hitems
          exact ⟨[], x :: xs, rfl, rfl, by simp⟩
        | cons b before =>
          obtain ⟨rfl, rfl⟩ := List.cons.inj hitems
          obtain ⟨hne, hbefore⟩ := List.forall_mem_cons.mp hbefore
          have hlt : key x < key v := hx.trans_lt (lt_of_le_of_ne hbestv hne)
          refine ⟨best :: x :: before, after, rfl, hkeyv, ?_⟩
          simpa using ⟨hne, hlt.ne, by simpa using hbefore⟩

end

end StrictHttp
