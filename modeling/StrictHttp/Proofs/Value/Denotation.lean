import StrictHttp.Value.Equality

/-!
# What equality sees

Equality does not see the variant of a version or header, the form of a byte string, the letter case
of a name, or whether a number is a truth value. `Value.denote` leaves all this out, and values are
the same exactly when they denote the same (`same_iff`). So sameness is an equivalence.
-/

namespace StrictHttp

/-- What equality sees of a value. -/
inductive Denotation where
  | atom (a : Atom)
  | list (items : List Denotation)
  | tuple (items : List Denotation)
  | dictionary (names : List String) (values : List Denotation)

namespace Value

mutual
def denote : Value → Denotation
  | null => .atom .null
  | bool b => .atom (.int b.toInt)
  | int n => .atom (.int n)
  | text s => .atom (.text s)
  | bytes _ data => .atom (.bytes data)
  | header h => .atom (.header h.field h.value)
  | list items => .list (denoteAll items)
  | tuple items => .tuple (denoteAll items)
  | version _ major minor => .tuple [major.denote, minor.denote]
  | dictionary names values => .dictionary names (denoteAll values)
def denoteAll : List Value → List Denotation
  | [] => []
  | item :: items => item.denote :: denoteAll items
end

mutual
theorem same_iff (x y : Value) : x.same y = true ↔ x.denote = y.denote := by
  cases x with
  | list xs =>
    cases y with
    | list ys => simpa [same, denote] using sameAll_iff xs ys
    | _ => simp [same, sameAtom, atom?, denote]
  | tuple xs =>
    cases y with
    | tuple ys => simpa [same, denote] using sameAll_iff xs ys
    | version _ c d => simpa [same, denote, denoteAll] using sameAll_iff xs [c, d]
    | _ => simp [same, sameAtom, atom?, denote]
  | version _ a b =>
    have ha := same_iff a
    have hb := same_iff b
    cases y with
    | tuple ys =>
      match ys with
      | [c, d] => simp [same, denote, denoteAll, ha, hb]
      | [] | [_] | _ :: _ :: _ :: _ => simp [same, denote, denoteAll, sameAtom, atom?]
    | version _ c d => simp [same, denote, ha, hb]
    | _ => simp [same, sameAtom, atom?, denote]
  | dictionary ns xs =>
    cases y with
    | dictionary ms ys => simp [same, denote, sameAll_iff xs ys]
    | _ => simp [same, sameAtom, atom?, denote]
  -- Two atoms, or an atom and a sequence.
  | _ => cases y <;> simp [same, sameAtom, atom?, denote]

theorem sameAll_iff (xs ys : List Value) :
    sameAll xs ys = true ↔ denoteAll xs = denoteAll ys := by
  cases xs with
  | nil => cases ys <;> simp [sameAll, denoteAll]
  | cons x xs =>
    cases ys with
    | nil => simp [sameAll, denoteAll]
    | cons y ys => simp [sameAll, denoteAll, same_iff x y, sameAll_iff xs ys]
end

theorem same_symm (x y : Value) : x.same y = y.same x := by
  rw [Bool.eq_iff_iff, same_iff, same_iff, eq_comm]

-- ---------------------------------------------------------------------------
-- Atoms

theorem int?_inv {x : Value} {n : Int} (h : x.int? = some n) : (∃ b, x = bool b) ∨ x = int n := by
  unfold int? at h
  split at h
  · exact .inl ⟨_, rfl⟩
  · cases h
    exact .inr rfl
  · cases h

theorem atom?_inv {x : Value} {a : Atom} (h : x.atom? = some a) :
    match a with
    | .null => x = null
    | .int n => x.int? = some n
    | .text s => x = text s
    | .bytes s => ∃ form, x = bytes form s
    | .header _ _ => ∃ k, x = header k := by
  unfold atom? at h
  split at h
  · cases h
    rfl
  · cases h
    rfl
  · cases h
    rfl
  · cases h
    rfl
  · cases h
    exact ⟨_, rfl⟩
  · cases h
    exact ⟨_, rfl⟩
  all_goals cases h

theorem sameAtom_inv {x y : Value} (h : sameAtom x y = true) :
    ∃ a, x.atom? = some a ∧ y.atom? = some a := by
  unfold sameAtom at h
  split at h
  · rename_i a b hx hy
    obtain rfl := of_decide_eq_true h
    exact ⟨a, hx, hy⟩
  · cases h

-- ---------------------------------------------------------------------------
-- Pairs

theorem pair?_inv {x a b : Value} (h : x.pair? = some (a, b)) :
    x = tuple [a, b] ∨ ∃ variant, x = version variant a b := by
  unfold pair? at h
  split at h
  · cases h
    exact .inl rfl
  · cases h
    exact .inr ⟨_, rfl⟩
  · cases h

theorem denote_of_pair? {x a b : Value} (h : x.pair? = some (a, b)) :
    x.denote = .tuple (denoteAll [a, b]) := by
  obtain rfl | ⟨variant, rfl⟩ := pair?_inv h
  · rfl
  · rfl

theorem same_of_pairs {x y a b c d : Value} (hx : x.pair? = some (a, b))
    (hy : y.pair? = some (c, d)) : x.same y = sameAll [a, b] [c, d] := by
  rw [Bool.eq_iff_iff, same_iff, sameAll_iff, denote_of_pair? hx, denote_of_pair? hy,
    Denotation.tuple.injEq]

end Value

end StrictHttp
