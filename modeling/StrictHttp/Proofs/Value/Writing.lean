import StrictHttp.Value.Writing

/-!
# What is legible

`Value.Shows` says which integers are in the text of a value, and a value is legible when the
numerals of all of them keep to the limit. The check before a value is written decides this
(`isWritable_iff`), so what is not legible cannot be written and all else can.
-/

namespace StrictHttp.Value

/-- The values directly inside a value, whose texts are parts of its own. -/
def parts : Value → List Value
  | list items | tuple items => items
  | version _ major minor => [major, minor]
  | dictionary _ values => values
  | _ => []

/-- The integer is written where the value is. -/
inductive Shows : Value → Int → Prop
  | int {n} : Shows (.int n) n
  | part {v part n} : part ∈ v.parts → Shows part n → Shows v n

/-- Every integer in the text of the value has 4300 digits at most. -/
def IsLegible (v : Value) : Prop := ∀ n, v.Shows n → n.natAbs.repr.length ≤ 4300

section
variable {v : Value} {n : Int}

theorem isLegible_int_iff : (int n).IsLegible ↔ n.natAbs.repr.length ≤ digitLimit := by
  constructor
  · intro h
    exact h n .int
  · intro h m hm
    cases hm with
    | int => exact h
    | part hpart => cases hpart

/-- A power of ten has one digit more than its exponent. -/
theorem not_isLegible_pow_ten {k : Nat} (h : digitLimit ≤ k) : ¬(int (Nat.pow 10 k)).IsLegible := by
  have hpos : 0 < k := Nat.lt_of_lt_of_le (by decide) h
  rw [isLegible_int_iff, Int.natAbs_natCast]
  intro hshort
  exact Nat.lt_irrefl _ ((Nat.length_repr_le_iff hpos).mp (Nat.le_trans hshort h))

/-- Only an integer shows an integer by itself. -/
theorem isLegible_iff_parts (h : ∀ n, v ≠ int n) :
    v.IsLegible ↔ ∀ part ∈ v.parts, part.IsLegible := by
  constructor
  · intro hv part hpart n hn
    exact hv n (.part hpart hn)
  · intro hparts n hn
    cases hn with
    | int => exact absurd rfl (h n)
    | part hpart hn => exact hparts _ hpart n hn

mutual
theorem isWritable_iff : (v : Value) → (v.isWritable = true ↔ v.IsLegible)
  | .int n => by
    rw [isLegible_int_iff, isWritable, decide_eq_true_iff]
  | .list items | .tuple items | .dictionary _ items => by
    rw [isLegible_iff_parts (by nofun), isWritable]
    exact allWritable_iff items
  | .version _ major minor => by
    rw [isLegible_iff_parts (by nofun), isWritable, Bool.and_eq_true, isWritable_iff major,
      isWritable_iff minor]
    simp [parts]
  | .null | .bool _ | .text _ | .bytes _ _ | .header _ => by
    rw [isLegible_iff_parts (by nofun)]
    simp [isWritable, parts]
theorem allWritable_iff : (items : List Value) →
    (allWritable items = true ↔ ∀ item ∈ items, item.IsLegible)
  | [] => by simp [allWritable]
  | item :: items => by
    rw [allWritable, Bool.and_eq_true, isWritable_iff item, allWritable_iff items,
      List.forall_mem_cons]
end

theorem write_of_isLegible (h : v.IsLegible) (form : Value → String) :
    v.write form = .ok (form v) := by
  rw [write, if_pos ((isWritable_iff v).mpr h)]

theorem write_of_not_isLegible (h : ¬v.IsLegible) (form : Value → String) :
    v.write form = .error .longNumeral := by
  rw [write, if_neg (mt (isWritable_iff v).mp h)]

end

end StrictHttp.Value
