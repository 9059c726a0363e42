import StrictHttp.Value.Hash

/-!
# Sets and tables of values

Members and keys are found by their hash code first and by equality among those of equal code. Of
the members that are the same, a set keeps the first, and a table keeps the slot of the first with
the position of the last. Plain membership in a list uses equality alone, so it also takes values
that have no code.
-/

namespace StrictHttp

/-- A member with its code. -/
structure Slot where
  code : UInt64
  member : Value

def Slot.holds (s : Slot) (code : UInt64) (v : Value) : Bool := s.code == code && s.member.same v

def distinctFrom (d : Digest) (seen : List Slot) : List Value → Except Fault (List Value)
  | [] => .ok []
  | v :: vs => do
    let code ← v.code d
    if seen.any (·.holds code v) then distinctFrom d seen vs
    else
      let rest ← distinctFrom d (⟨code, v⟩ :: seen) vs
      return v :: rest

/-- The members of the set of the items, in the order in which they first came. -/
def distinct (d : Digest) (items : List Value) : Except Fault (List Value) :=
  distinctFrom d [] items

/-- Keys with their positions, in the order in which the keys first came. -/
abbrev Table := List (Slot × Nat)

namespace Table

/-- A key that is the same as one in the table keeps the slot of that one and takes the new
position. -/
def put (code : UInt64) (key : Value) (n : Nat) : Table → Table
  | [] => [(⟨code, key⟩, n)]
  | entry :: rest =>
    if entry.1.holds code key then (entry.1, n) :: rest else entry :: put code key n rest

/-- Enters the items from position `n` on. -/
def enter (d : Digest) (t : Table) (n : Nat) : List Value → Except Fault Table
  | [] => .ok t
  | v :: vs => do
    let code ← v.code d
    enter d (t.put code v n) (n + 1) vs

def ofList (d : Digest) (items : List Value) : Except Fault Table := enter d [] 0 items

def find? (t : Table) (code : UInt64) (key : Value) : Option Nat :=
  (List.find? (fun entry => entry.1.holds code key) t).map Prod.snd

/-- The last position at which the key was entered. -/
def position? (t : Table) (d : Digest) (key : Value) : Except Fault (Option Nat) := do
  let code ← key.code d
  return t.find? code key

end Table

def contains (items : List Value) (key : Value) : Bool := items.any (·.same key)

end StrictHttp
