import Mathlib.Data.List.TakeWhile

/-!
# Where a class ends

A list may begin with members of a class and go on with something else. It falls into two such parts
in one way only, which is the way of `takeWhile` and `dropWhile` (`append_stops_inj`).
-/

namespace StrictHttp

/-- The list does not begin with a member of the class. -/
def Stops (accepts : α → Bool) (s : List α) : Prop := ∀ a ∈ s.head?, accepts a = false

section
variable {accepts : α → Bool} {s t s' t' : List α}

@[simp] theorem stops_nil : Stops accepts [] := nofun

@[simp] theorem stops_cons {a : α} : Stops accepts (a :: s) ↔ accepts a = false := by
  simp [Stops]

theorem stops_dropWhile (accepts : α → Bool) (s : List α) :
    Stops accepts (s.dropWhile accepts) := by
  intro a ha
  have hnot := List.head?_dropWhile_not accepts s
  rw [ha] at hnot
  simpa using hnot

theorem takeWhile_append_stops (hs : ∀ a ∈ s, accepts a = true) (ht : Stops accepts t) :
    (s ++ t).takeWhile accepts = s := by
  rw [List.takeWhile_append_of_pos hs]
  cases t with
  | nil => simp
  | cons a t => simp [stops_cons.mp ht]

theorem dropWhile_append_stops (hs : ∀ a ∈ s, accepts a = true) (ht : Stops accepts t) :
    (s ++ t).dropWhile accepts = t := by
  rw [List.dropWhile_append_of_pos hs]
  cases t with
  | nil => rfl
  | cons a t => simp [stops_cons.mp ht]

theorem append_stops_inj (hs : ∀ a ∈ s, accepts a = true) (hs' : ∀ a ∈ s', accepts a = true)
    (ht : Stops accepts t) (ht' : Stops accepts t') (h : s ++ t = s' ++ t') : s = s' ∧ t = t' := by
  constructor
  · rw [← takeWhile_append_stops hs ht, h, takeWhile_append_stops hs' ht']
  · rw [← dropWhile_append_stops hs ht, h, dropWhile_append_stops hs' ht']

end

end StrictHttp
