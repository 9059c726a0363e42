import StrictHttp.Proofs.Stages
import StrictHttp.Proofs.Value.Denotation
import StrictHttp.Value.Hash

/-!
# Codes respect equality

Lists, dictionaries and buffers can be changed and have no code. Nor has a value in which one of
them is reached through tuples and versions, and the first one that is met is then the fault
(`decided_code`). A code is put together level by level, for headers in another way than for tuples
and versions, but nothing enters it that equality does not see: it is the code of what the value
denotes (`code_denote`). So values that are the same have the same code (`code_eq_of_same`),
whatever the codes of their atoms are and however these are put together.
-/

namespace StrictHttp

-- ---------------------------------------------------------------------------
-- Which values have a code

namespace Value

mutual
/-- What is met in a value on the way through tuples and versions, from left to right and inwards
first. -/
def reached : Value → List Value
  | tuple items => reachedAll items
  | version _ major minor => major.reached ++ minor.reached
  | value => [value]
def reachedAll : List Value → List Value
  | [] => []
  | item :: items => item.reached ++ reachedAll items
end

/-- A value that can be changed, and the fault of asking for its code. -/
inductive Unhashable : Value → Fault → Prop
  | list {items} : Unhashable (list items) (.unhashable .list)
  | buffer {data} : Unhashable (bytes .buffer data) (.unhashable (.bytes .buffer))
  | dictionary {names values} : Unhashable (dictionary names values) (.unhashable .dictionary)

def HasCode (d : Digest) (v : Value) : Prop := ∃ code, v.code d = .ok code

theorem Unhashable.unique (v : Value) (f f' : Fault) (h : Unhashable v f)
    (h' : Unhashable v f') : f = f' := by
  cases h <;> cases h' <;> rfl

theorem decided_hashable {v : Value} (hv : ∀ f, ¬Unhashable v f) (a : α) :
    Decided Unhashable id [v] (.ok a : Except Fault α) :=
  .pass hv fun _ h => nomatch h

mutual
theorem decided_code (d : Digest) (x : Value) : Decided Unhashable id x.reached (x.code d) := by
  cases x with
  | tuple items =>
    rw [reached, code]
    exact (decided_codes d items).map _
  | version variant major minor =>
    rw [reached, code]
    refine (decided_code d major).bind fun a => ?_
    rw [bind_pure_comp]
    exact (decided_code d minor).map _
  | list items => exact .fail .list
  | dictionary names values => exact .fail .dictionary
  | bytes form data =>
    cases form with
    | buffer => exact .fail .buffer
    | plain | view =>
      simp only [reached, code, atom?]
      exact decided_hashable (by rintro _ ⟨⟩) _
  | _ =>
    simp only [reached, code, atom?]
    exact decided_hashable (by rintro _ ⟨⟩) _

theorem decided_codes (d : Digest) (items : List Value) :
    Decided Unhashable id (reachedAll items) (codes d items) := by
  cases items with
  | nil => exact fun _ h => nomatch h
  | cons item items =>
    rw [reachedAll, codes]
    refine (decided_code d item).bind fun a => ?_
    rw [bind_pure_comp]
    exact (decided_codes d items).map _
end

theorem code_error_iff {d : Digest} {x : Value} {f : Fault} :
    x.code d = .error f ↔ ∃ v, FirstFailure Unhashable x.reached v f := by
  rw [← (decided_code d x).error_iff Unhashable.unique]
  simp

end Value

-- ---------------------------------------------------------------------------
-- Codes of denotations

namespace Denotation

mutual
/-- The code of every value that denotes this and has one. -/
def code? (d : Digest) : Denotation → Option UInt64
  | atom a => some (d.atom a)
  | tuple items => (codes? d items).map d.sequence
  | list _ | dictionary _ _ => none
def codes? (d : Digest) : List Denotation → Option (List UInt64)
  | [] => some []
  | x :: xs => do
    let a ← x.code? d
    let rest ← codes? d xs
    return a :: rest
end

end Denotation

namespace Value

section
variable {d : Digest}

mutual
theorem code_denote : (x : Value) → {c : UInt64} → x.code d = .ok c →
    x.denote.code? d = some c
  | tuple items, c, h => by
    obtain ⟨cs, hcs, rfl⟩ := map_ok.mp h
    simp [denote, Denotation.code?, codes_denote items hcs]
  | version _ major minor, c, h => by
    simp only [code, bind_ok, pure_ok] at h
    obtain ⟨a, ha, b, hb, rfl⟩ := h
    simp [denote, Denotation.code?, Denotation.codes?, code_denote major ha, code_denote minor hb]
  | null, c, h | bool _, c, h | int _, c, h | text _, c, h | header _, c, h
  | bytes .plain _, c, h | bytes .view _, c, h => by
    simp only [code, atom?, Except.ok.injEq] at h
    simp [denote, Denotation.code?, h]

theorem codes_denote : (items : List Value) → {cs : List UInt64} → codes d items = .ok cs →
    Denotation.codes? d (denoteAll items) = some cs
  | [], cs, h => by
    cases h
    rfl
  | item :: items, cs, h => by
    simp only [codes, bind_ok, pure_ok] at h
    obtain ⟨a, ha, rest, hrest, rfl⟩ := h
    simp [denoteAll, Denotation.codes?, code_denote item ha, codes_denote items hrest]
end

theorem code_eq_of_same {x y : Value} {c c' : UInt64} (hx : x.code d = .ok c)
    (hy : y.code d = .ok c') (h : x.same y = true) : c = c' := by
  have hcode := code_denote x hx
  rw [(same_iff x y).mp h, code_denote y hy] at hcode
  exact (Option.some.inj hcode).symm

end

end Value

end StrictHttp
