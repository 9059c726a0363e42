import StrictHttp.Bytes

/-!
# Patterns of byte strings

A pattern describes byte strings by runs of octet classes, sequence, option, repetition and named
groups. `Pattern.fullMatch` reads a whole byte string, longest runs first, and gives the octets that
each group took; it backtracks, so it succeeds on every byte string that some reading fits.
-/

namespace StrictHttp

inductive Pattern where
  /-- One octet of a class. -/
  | one (accepts : UInt8 → Bool)
  /-- One or more octets of a class. -/
  | run (accepts : UInt8 → Bool)
  | seq (first second : Pattern)
  /-- The inner pattern or nothing; the inner pattern is tried first. -/
  | maybe (inner : Pattern)
  /-- The inner pattern any number of times, as often as possible first. -/
  | many (inner : Pattern)
  | group (name : String) (inner : Pattern)

/-- What a group took: the octets from `start` on, up to where `rest` is left. -/
structure Capture where
  group : String
  start : Bytes
  rest : Bytes

def Capture.taken (c : Capture) : Bytes := c.start.take (c.start.length - c.rest.length)

theorem Capture.taken_append (group : String) (s rest : Bytes) :
    (Capture.mk group (s ++ rest) rest).taken = s := by
  simp [Capture.taken]

/-- What the groups have taken so far, the latest first. -/
abbrev Captures := List Capture

def Captures.find? (found : Captures) (group : String) : Option Bytes :=
  (List.find? (fun c => c.group == group) found).map Capture.taken

namespace Pattern

/-- What is asked of a position: the octets that are left and the captures on the way to it. -/
abbrev Goal (α : Type) := Bytes → Captures → Option α

/-- Takes at least one octet of the class and prefers to take more. -/
def walkRun (accepts : UInt8 → Bool) (goal : Bytes → Option α) : Bytes → Option α
  | [] => none
  | b :: rest => if accepts b then walkRun accepts goal rest <|> goal rest else none

/-- Takes rounds of `step`, as many as possible first. The list `budget` bounds their number:
one round for each of its members. -/
def walkMany (step : Bytes → Captures → Goal α → Option α) (goal : Goal α) :
    (budget s : Bytes) → Captures → Option α
  | [], s, found => goal s found
  | _ :: budget, s, found =>
    (step s found fun rest found => walkMany step goal budget rest found) <|> goal s found

/-- Reads the pattern at the front of `s` and asks the goal of each position reached, in order of
preference, until one answers. A repetition gets as many rounds as there are octets left. -/
def walk : Pattern → Bytes → Captures → Goal α → Option α
  | .one _, [], _, _ => none
  | .one accepts, b :: rest, found, goal => if accepts b then goal rest found else none
  | .run accepts, s, found, goal => walkRun accepts (goal · found) s
  | .seq first second, s, found, goal =>
    first.walk s found fun rest found => second.walk rest found goal
  | .maybe inner, s, found, goal => inner.walk s found goal <|> goal s found
  | .many inner, s, found, goal => walkMany inner.walk goal s s found
  | .group name inner, s, found, goal =>
    inner.walk s found fun rest found => goal rest (⟨name, s, rest⟩ :: found)

/-- The captures of the preferred reading of all of `s`. -/
def fullMatch (p : Pattern) (s : Bytes) : Option Captures :=
  p.walk s [] fun rest found => if rest.isEmpty then some found else none

def accepts (p : Pattern) (s : Bytes) : Bool := (p.fullMatch s).isSome

/-- The names of the groups, in the order in which they open. -/
def groups : Pattern → List String
  | .one _ | .run _ => []
  | .seq first second => first.groups ++ second.groups
  | .maybe inner | .many inner => inner.groups
  | .group name inner => name :: inner.groups

/-- Every group of the pattern with what it took; a group that took no part has no bytes. -/
def read? (p : Pattern) (s : Bytes) : Option (List (String × Option Bytes)) :=
  (p.fullMatch s).map fun found => p.groups.map fun name => (name, found.find? name)

end Pattern

end StrictHttp
