import StrictHttp.Proofs.Stages
import StrictHttp.Sorting

/-!
# What sorting and selecting keep

A sort that ends answers its items in another order, whatever the comparison says, and a selection
answers one of its items.
-/

namespace StrictHttp

section
variable {precedes : α → α → Except ε Bool} {x best a : α} {xs sorted result : List α}

theorem insertBack_perm (h : insertBack precedes x xs = .ok result) : result.Perm (x :: xs) := by
  induction xs generalizing result with
  | nil =>
    obtain rfl : [x] = result := by simpa [insertBack] using h
    exact .refl _
  | cons y ys ih =>
    simp only [insertBack, bind_ok] at h
    obtain ⟨before, -, h⟩ := h
    cases before with
    | false =>
      obtain rfl : x :: y :: ys = result := by simpa [pure_ok] using h
      exact .refl _
    | true =>
      simp only [↓reduceIte, bind_ok, pure_ok] at h
      obtain ⟨rest, hrest, rfl⟩ := h
      exact ((ih hrest).cons y).trans (.swap x y ys)

theorem insertAll_perm (h : insertAll precedes sorted xs = .ok result) :
    result.Perm (xs ++ sorted) := by
  induction xs generalizing sorted with
  | nil =>
    obtain rfl : sorted = result := by simpa [insertAll] using h
    exact .refl _
  | cons x xs ih =>
    simp only [insertAll, bind_ok] at h
    obtain ⟨next, hnext, h⟩ := h
    calc result
      List.Perm _ (xs ++ next) := ih h
      List.Perm _ (xs ++ x :: sorted) := (insertBack_perm hnext).append_left xs
      List.Perm _ (x :: xs ++ sorted) := List.perm_middle

theorem stableSort_perm (h : stableSort precedes xs = .ok result) : result.Perm xs := by
  simp only [stableSort, map_ok] at h
  obtain ⟨back, hback, rfl⟩ := h
  simpa using (List.reverse_perm back).trans (insertAll_perm hback)

theorem champion_mem (h : champion precedes best xs = .ok a) : a ∈ best :: xs := by
  induction xs generalizing best with
  | nil =>
    obtain rfl : best = a := by simpa [champion] using h
    simp
  | cons x xs ih =>
    simp only [champion, bind_ok] at h
    obtain ⟨wins, -, h⟩ := h
    cases wins with
    | false =>
      rcases List.mem_cons.mp (ih h) with rfl | ha
      · simp
      · simp [ha]
    | true =>
      exact List.mem_cons_of_mem _ (ih h)

end

namespace Value

theorem sort_perm {items sorted : List Value} (h : sort descending items = .ok sorted) :
    sorted.Perm items := by
  unfold sort at h
  split at h
  · obtain ⟨back, hback, rfl⟩ := map_ok.mp h
    exact (List.reverse_perm back).trans ((stableSort_perm hback).trans (List.reverse_perm items))
  · exact stableSort_perm h

theorem select_mem {items : List Value} {v : Value} (h : select extreme items = .ok v) :
    v ∈ items := by
  cases items with
  | nil => simp [select] at h
  | cons x xs =>
    cases extreme with
    | max => exact champion_mem h
    | min => exact champion_mem h

end Value

end StrictHttp
