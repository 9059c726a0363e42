import StrictHttp.Proofs.Value.Standing
import StrictHttp.Version

/-!
# Which operand is asked

A relation of two values is decided by asking one of them how it stands to the other. Each kind of
value answers for itself, and may have no answer; then the other operand is asked for the swapped
relation. The right operand is asked first if its kind is below that of the left one. Where both
have no answer, the values are not equal and not in any order.

`relate_eq_consult`: this is what `Value.relate` decides, with the same faults. The items of
sequences are related in the same way, so the rule holds at every depth.
-/

namespace StrictHttp

namespace Relation

def swap : Relation → Relation
  | order relation => order relation.swap
  | eq => eq
  | ne => ne

def test : Relation → Ordering → Bool
  | order relation, o => relation.holds o
  | eq, o => o.isEq
  | ne, o => o.isNe

end Relation

/-- A value of the first kind also counts as one of the second. -/
def Kind.isBelow : Kind → Kind → Bool
  | bool, int => true
  | version _, tuple => true
  | version .derived, version .base => true
  | header .derived, header .base => true
  | _, _ => false

namespace Value

-- ---------------------------------------------------------------------------
-- Answers

/-- The first items that are not equal decide for two sequences, and else their lengths. -/
def compareItems (r : Relation) : List Value → List Value → Except Fault Bool
  | x :: xs, y :: ys => do
    if ← relate .eq x y then compareItems r xs ys else relate r x y
  | xs, ys => .ok (r.test (compare xs.length ys.length))

/-- The answer of a value that knows equality but no order. -/
def equalityAnswer? (same : Bool) : Relation → Option (Except Fault Bool)
  | .eq => some (.ok same)
  | .ne => some (.ok !same)
  | .order _ => none

/-- The number -1, 0 or 1 that says how two pairs of components compare as tuples. -/
def comparePairs (a b c d : Value) : Except Fault Int := do
  let greater ← compareItems (.order .gt) [a, b] [c, d]
  let less ← compareItems (.order .lt) [a, b] [c, d]
  return greater.toInt - less.toInt

/-- A version compares its components to those of a pair. Asked for a relation of order, it tests
the number of the comparison, and what is no pair is at fault. -/
def versionAnswer? (variant : Variant) (a b other : Value) (r : Relation) :
    Option (Except Fault Bool) :=
  match r, other.pair? with
  | .order relation, some (c, d) =>
    some ((comparePairs a b c d).map fun n => relation.holds (compare n 0))
  | .order relation, none => some (.error (.unordered relation (.version variant) other.kind))
  | r, pair => pair.map fun (c, d) => compareItems r [a, b] [c, d]

/-- A plain byte string knows only its own form, and a view no order. -/
def bytesAnswer? (form other : ByteForm) (s t : Bytes) (r : Relation) :
    Option (Except Fault Bool) :=
  match form, other with
  | .plain, .plain | .buffer, _ => some (.ok (r.test (compare s t)))
  | .plain, _ => none
  | .view, _ => equalityAnswer? (s == t) r

/-- What the first value answers when it is asked for its relation to the second. -/
def answer? (r : Relation) : Value → Value → Option (Except Fault Bool)
  | version variant a b, other => versionAnswer? variant a b other r
  | tuple xs, tuple ys | list xs, list ys => some (compareItems r xs ys)
  | tuple xs, version _ c d => some (compareItems r xs [c, d])
  | text s, text t => some (.ok (r.test (compare s t)))
  | bytes form s, bytes other t => bytesAnswer? form other s t r
  | header h, header k => equalityAnswer? (h.field == k.field && h.value == k.value) r
  | null, null => equalityAnswer? true r
  | dictionary ns xs, dictionary ms ys => equalityAnswer? (ns == ms && sameAll xs ys) r
  | x, y =>
    match x.int?, y.int? with
    | some m, some n => some (.ok (r.test (compare m n)))
    | _, _ => none

/-- Two values of which neither has an answer. -/
def unanswered (x y : Value) : Relation → Except Fault Bool
  | .eq => .ok false
  | .ne => .ok true
  | .order relation => .error (.unordered relation x.kind y.kind)

def consult (r : Relation) (x y : Value) : Except Fault Bool :=
  let left := answer? r x y
  let right := answer? r.swap y x
  let answer := if y.kind.isBelow x.kind then right <|> left else left <|> right
  answer.getD (unanswered x y r)

theorem relate_of_stands {x y : Value} {o : Ordering} (h : Stands x y o) (r : Relation) :
    relate r x y = .ok (r.test o) := by
  have hsame : x.same y = o.isEq := by
    rw [Bool.eq_iff_iff, ← h.eq_iff]
    cases o <;> simp
  cases r with
  | order relation => rw [relate, h.weigh_eq relation, Except.map, Relation.test]
  | eq => rw [relate, hsame, Relation.test]
  | ne =>
    rw [relate, hsame, Relation.test]
    cases o <;> rfl

-- ---------------------------------------------------------------------------
-- Items and components

theorem relate_tuple_cons (r : Relation) (x y : Value) (xs ys : List Value) :
    relate r (tuple (x :: xs)) (tuple (y :: ys)) =
      if x.same y then relate r (tuple xs) (tuple ys) else relate r x y := by
  cases hxy : x.same y <;> cases r <;> simp [relate, same, sameAll, weigh, weighAll, hxy]

theorem compareItems_eq_relate (r : Relation) (xs ys : List Value) :
    compareItems r xs ys = relate r (tuple xs) (tuple ys) := by
  induction xs generalizing ys with
  | nil =>
    cases ys with
    | nil => exact (relate_of_stands (.tuples .nil) r).symm
    | cons y ys =>
      have hlength : compare 0 (ys.length + 1) = .lt := Nat.compare_eq_lt.mpr (by omega)
      rw [relate_of_stands (.tuples .shorter), ← hlength]
      rfl
  | cons x xs ih =>
    cases ys with
    | nil =>
      have hlength : compare (xs.length + 1) 0 = .gt := Nat.compare_eq_gt.mpr (by omega)
      rw [relate_of_stands (.tuples .longer), ← hlength]
      rfl
    | cons y ys =>
      rw [relate_tuple_cons, ← ih]
      rfl

theorem relate_lists (r : Relation) (xs ys : List Value) :
    relate r (list xs) (list ys) = relate r (tuple xs) (tuple ys) := by
  cases r <;> simp [relate, same, weigh]

theorem weighPair_eq_weighAll (a b c d : Value) :
    weighPair a b c d = weighAll .gt [a, b] [c, d] := by
  cases hac : a.same c <;> cases hbd : b.same d <;> simp [weighPair, weighAll, hac, hbd]

theorem comparePairs_eq (a b c d : Value) :
    comparePairs a b c d = (weighPair a b c d).map Version.sign := by
  simp only [comparePairs, compareItems_eq_relate, relate, weigh, weighPair_eq_weighAll]
  cases hgt : weighAll .gt [a, b] [c, d] with
  | error f => rfl
  | ok o =>
    have hlt : weighAll .lt [a, b] [c, d] = .ok o :=
      weighAll_ok_iff.mpr (weighAll_ok_iff.mp hgt)
    rw [hlt]
    cases o <;> rfl

/-- The number of the comparison decides every relation of order. -/
theorem holds_of_comparePairs (relation : OrderRelation) (a b c d : Value) :
    (comparePairs a b c d).map (fun n => relation.holds (compare n 0)) =
      (weighPair a b c d).map relation.holds := by
  rw [comparePairs_eq]
  cases weighPair a b c d with
  | error f => rfl
  | ok o => cases o <;> rfl

-- ---------------------------------------------------------------------------
-- What is answered is right

theorem relate_of_equalityAnswer {x y : Value} {r : Relation} {same : Bool}
    {e : Except Fault Bool} (h : equalityAnswer? same r = some e) (hsame : x.same y = same) :
    relate r x y = e := by
  cases r with
  | order relation => cases h
  | eq =>
    cases h
    rw [relate, hsame]
  | ne =>
    cases h
    rw [relate, hsame]

theorem relate_of_bytesAnswer {form other : ByteForm} {s t : Bytes} {r : Relation}
    {e : Except Fault Bool} (h : bytesAnswer? form other s t r = some e) :
    relate r (bytes form s) (bytes other t) = e := by
  unfold bytesAnswer? at h
  split at h
  · cases h
    exact relate_of_stands (.atoms rfl) r
  · cases h
    refine relate_of_stands (.atoms ?_) r
    cases other <;> rfl
  · cases h
  · refine relate_of_equalityAnswer h ?_
    rw [Bool.eq_iff_iff, same_iff]
    simp [denote]

-- ---------------------------------------------------------------------------
-- Versions

theorem weigh_version_notPair {right : Value} (h : right.pair? = none) (relation : OrderRelation)
    (variant : Variant) (a b : Value) :
    weigh relation (version variant a b) right =
      .error (.unordered relation (.version variant) right.kind) := by
  have hversion : ∀ other c d, right ≠ version other c d := by
    rintro other c d rfl
    cases h
  have htuple : ∀ c d, right ≠ tuple [c, d] := by
    rintro c d rfl
    cases h
  rw [weigh]
  · exact fun c d hright => (hversion _ c d hright).elim
  · exact hversion
  · exact htuple

theorem weigh_notPair_version {left : Value} (h : left.pair? = none) (relation : OrderRelation)
    (variant : Variant) (c d : Value) :
    weigh relation left (version variant c d) =
      .error (.unordered relation.swap (.version variant) left.kind) := by
  have hversion : ∀ other a b, left ≠ version other a b := by
    rintro other a b rfl
    cases h
  have htuple : ∀ a b, left ≠ tuple [a, b] := by
    rintro a b rfl
    cases h
  rw [weigh]
  · exact fun a b hleft => (hversion _ a b hleft).elim
  · exact hversion
  · exact htuple

/-- A derived version on the right of a base one is asked before it, any other pair after. -/
theorem weigh_version_pair {right c d : Value} (hright : right.pair? = some (c, d))
    {variant : Variant} (hfirst : right.kind.isBelow (.version variant) = false)
    (relation : OrderRelation) (a b : Value) :
    weigh relation (version variant a b) right = weighPair a b c d := by
  obtain rfl | ⟨other, rfl⟩ := pair?_inv hright
  · rw [weigh]
  · rw [weigh]
    rintro rfl rfl
    cases hfirst

theorem version_of_isBelow {right : Value} {variant : Variant}
    (h : right.kind.isBelow (.version variant) = true) : ∃ other c d, right = version other c d := by
  cases right with
  | version other c d => exact ⟨other, c, d, rfl⟩
  | _ => simp [kind, Kind.isBelow] at h

/-- A version answers whatever order it is asked for. -/
theorem answer?_version_order (relation : OrderRelation) (variant : Variant) (a b other : Value) :
    answer? (.order relation) (version variant a b) other ≠ none := by
  cases hother : other.pair? <;> simp [answer?, versionAnswer?, hother]

theorem relate_of_versionAnswer {variant : Variant} {a b right : Value} {r : Relation}
    {e : Except Fault Bool} (h : versionAnswer? variant a b right r = some e)
    (hfirst : right.kind.isBelow (.version variant) = true →
      answer? r.swap right (version variant a b) = none) :
    relate r (version variant a b) right = e := by
  cases hright : right.pair? with
  | none =>
    cases r with
    | order relation =>
      simp only [versionAnswer?, hright, Option.some.injEq] at h
      rw [relate, weigh_version_notPair hright, Except.map, ← h]
    | eq => simp [versionAnswer?, hright] at h
    | ne => simp [versionAnswer?, hright] at h
  | some pair =>
    obtain ⟨c, d⟩ := pair
    have hsame : (version variant a b).same right = (tuple [a, b]).same (tuple [c, d]) := by
      rw [same_of_pairs rfl hright, same]
    cases r with
    | order relation =>
      have hnot : right.kind.isBelow (.version variant) = false := by
        by_contra hbelow
        rw [Bool.not_eq_false] at hbelow
        obtain ⟨other, c', d', rfl⟩ := version_of_isBelow hbelow
        exact answer?_version_order relation.swap _ _ _ _ (hfirst hbelow)
      simp only [versionAnswer?, hright, Option.some.injEq, holds_of_comparePairs] at h
      rw [relate, weigh_version_pair hright hnot, h]
    | eq =>
      simp only [versionAnswer?, hright, Option.map_some, Option.some.injEq] at h
      rw [← h, compareItems_eq_relate, relate, relate, hsame]
    | ne =>
      simp only [versionAnswer?, hright, Option.map_some, Option.some.injEq] at h
      rw [← h, compareItems_eq_relate, relate, relate, hsame]

/-- Whoever answers, and is not passed over by one that is asked before, is right. -/
theorem relate_of_answer {x y : Value} {r : Relation} {e : Except Fault Bool}
    (h : answer? r x y = some e)
    (hfirst : y.kind.isBelow x.kind = true → answer? r.swap y x = none) : relate r x y = e := by
  unfold answer? at h
  split at h
  · exact relate_of_versionAnswer h hfirst
  · cases h
    exact (compareItems_eq_relate r _ _).symm
  · cases h
    rw [relate_lists, compareItems_eq_relate]
  · rename_i xs variant c d
    cases r with
    | order relation => exact (answer?_version_order relation.swap _ _ _ _ (hfirst rfl)).elim
    | eq =>
      cases h
      rw [compareItems_eq_relate, relate, relate, same, same]
    | ne =>
      cases h
      rw [compareItems_eq_relate, relate, relate, same, same]
  · cases h
    exact relate_of_stands (.atoms rfl) r
  · exact relate_of_bytesAnswer h
  · refine relate_of_equalityAnswer h ?_
    rw [Bool.eq_iff_iff, same_iff]
    simp [denote]
  · exact relate_of_equalityAnswer h rfl
  · refine relate_of_equalityAnswer h ?_
    rw [same]
  · split at h
    · rename_i hm hn
      cases h
      refine relate_of_stands (.atoms ?_) r
      simp only [compareAtoms?, hm, hn]
    · cases h

-- ---------------------------------------------------------------------------
-- The second operand

/-- A version that is asked from the right decides, also in its fault. -/
theorem weigh_reflected {left c d : Value} {variant : Variant} {relation : OrderRelation}
    (hfirst : (Kind.version variant).isBelow left.kind = true ∨
      answer? (.order relation) left (version variant c d) = none) :
    weigh relation left (version variant c d) =
      (weigh relation.swap (version variant c d) left).map Ordering.swap := by
  cases hleft : left.pair? with
  | none =>
    rw [weigh_notPair_version hleft, weigh_version_notPair hleft]
    rfl
  | some pair =>
    obtain ⟨a, b⟩ := pair
    obtain rfl | ⟨other, rfl⟩ := pair?_inv hleft
    · rw [weigh, weigh]
    · rcases hfirst with hfirst | hfirst
      · cases variant <;> cases other <;> cases hfirst
        rw [weigh, weigh]
        exact fun h => nomatch h
      · exact (answer?_version_order _ _ _ _ _ hfirst).elim

theorem isBelow_asymm {k l : Kind} (h : k.isBelow l = true) : l.isBelow k = false := by
  unfold Kind.isBelow at h
  split at h <;> first | rfl | cases h

/-- Only versions and sequences answer with a fault, and sequences only to what answers too. -/
theorem version_of_faulty_answer {x y : Value} {relation : OrderRelation} {f : Fault}
    (h : answer? (.order relation) y x = some (.error f)) :
    (∃ variant c d, y = version variant c d) ∨
      y.kind.isBelow x.kind = false ∧ ∀ asked, answer? (.order asked) x y ≠ none := by
  unfold answer? at h
  split at h
  · exact .inl ⟨_, _, _, rfl⟩
  · exact .inr ⟨rfl, fun asked => by simp [answer?]⟩
  · exact .inr ⟨rfl, fun asked => by simp [answer?]⟩
  · exact .inr ⟨rfl, fun asked => answer?_version_order asked _ _ _ _⟩
  · cases h
  · unfold bytesAnswer? at h
    split at h <;> cases h
  · cases h
  · cases h
  · cases h
  · split at h <;> cases h

theorem relate_of_reflected {x y : Value} {r : Relation} {e : Except Fault Bool}
    (h : answer? r.swap y x = some e)
    (hfirst : y.kind.isBelow x.kind = true ∨ answer? r x y = none) : relate r x y = e := by
  have hright : relate r.swap y x = e := by
    refine relate_of_answer h fun hbelow => ?_
    rcases hfirst with hfirst | hfirst
    · simp [isBelow_asymm hfirst] at hbelow
    · cases r with
      | order relation =>
        rw [Relation.swap, Relation.swap, OrderRelation.swap_swap]
        exact hfirst
      | eq => exact hfirst
      | ne => exact hfirst
  rw [← hright]
  cases r with
  | eq => rw [relate, Relation.swap, relate, same_symm]
  | ne => rw [relate, Relation.swap, relate, same_symm]
  | order relation =>
    rw [relate, Relation.swap, relate]
    cases hw : weigh relation.swap y x with
    | ok o =>
      have hstands : Stands x y o.swap := (weigh_ok_iff.mp hw).swap
      rw [weigh_ok_iff.mpr hstands, Except.map, Except.map, ← OrderRelation.holds_swap,
        Ordering.swap_swap]
    | error f =>
      rw [← hright, Relation.swap, relate, hw] at h
      obtain ⟨variant, c, d, rfl⟩ | ⟨hbelow, hanswer⟩ := version_of_faulty_answer h
      · rw [weigh_reflected hfirst, hw]
        rfl
      · rcases hfirst with hfirst | hfirst
        · simp [hbelow] at hfirst
        · exact (hanswer relation hfirst).elim

-- ---------------------------------------------------------------------------
-- Both operands

theorem equalityAnswer?_ne_none {r : Relation} (hr : ∀ relation, r ≠ .order relation)
    (same : Bool) : equalityAnswer? same r ≠ none := by
  cases r with
  | order relation => exact (hr relation rfl).elim
  | eq => exact Option.some_ne_none _
  | ne => exact Option.some_ne_none _

theorem versionAnswer?_pair_ne_none {variant : Variant} {a b right c d : Value}
    (hright : right.pair? = some (c, d)) (r : Relation) :
    versionAnswer? variant a b right r ≠ none := by
  cases r <;> simp [versionAnswer?, hright]

/-- Of two byte strings one at least knows equality. -/
theorem bytesAnswer?_or_ne_none {r : Relation} (hr : ∀ relation, r ≠ .order relation)
    {form other : ByteForm} {s t : Bytes} (h : bytesAnswer? form other s t r = none) :
    bytesAnswer? other form t s r ≠ none := by
  cases form with
  | plain =>
    cases other with
    | plain => cases h
    | buffer => exact Option.some_ne_none _
    | view => exact equalityAnswer?_ne_none hr _
  | buffer => cases h
  | view => exact (equalityAnswer?_ne_none hr _ h).elim

theorem answer?_numbers {x y : Value} {m n : Int} (hx : x.int? = some m) (hy : y.int? = some n)
    (r : Relation) : answer? r x y ≠ none := by
  obtain ⟨b, rfl⟩ | rfl := int?_inv hx
  · obtain ⟨b', rfl⟩ | rfl := int?_inv hy
    · exact Option.some_ne_none _
    · exact Option.some_ne_none _
  · obtain ⟨b', rfl⟩ | rfl := int?_inv hy
    · exact Option.some_ne_none _
    · exact Option.some_ne_none _

theorem answer?_of_sameAtom {x y : Value} {r : Relation} (hr : ∀ relation, r ≠ .order relation)
    (hsame : sameAtom x y = true) (h : answer? r x y = none) : answer? r y x ≠ none := by
  obtain ⟨a, hxa, hya⟩ := sameAtom_inv hsame
  cases a with
  | null =>
    obtain rfl : x = null := atom?_inv hxa
    obtain rfl : y = null := atom?_inv hya
    exact (equalityAnswer?_ne_none hr _ h).elim
  | int n => exact (answer?_numbers (atom?_inv hxa) (atom?_inv hya) r h).elim
  | text s =>
    obtain rfl : x = text s := atom?_inv hxa
    obtain rfl : y = text s := atom?_inv hya
    cases h
  | bytes s =>
    obtain ⟨form, rfl⟩ : ∃ form, x = bytes form s := atom?_inv hxa
    obtain ⟨other, rfl⟩ : ∃ other, y = bytes other s := atom?_inv hya
    exact bytesAnswer?_or_ne_none hr h
  | header field value =>
    obtain ⟨k, rfl⟩ : ∃ k, x = header k := atom?_inv hxa
    obtain ⟨l, rfl⟩ : ∃ l, y = header l := atom?_inv hya
    exact (equalityAnswer?_ne_none hr _ h).elim

theorem answer?_of_same {x y : Value} {r : Relation} (hr : ∀ relation, r ≠ .order relation)
    (hsame : x.same y = true) (h : answer? r x y = none) : answer? r y x ≠ none := by
  unfold same at hsame
  split at hsame
  · cases h
  · cases h
  · cases h
  · exact (versionAnswer?_pair_ne_none rfl r h).elim
  · exact (versionAnswer?_pair_ne_none rfl r h).elim
  · exact (equalityAnswer?_ne_none hr _ h).elim
  · exact answer?_of_sameAtom hr hsame h

theorem answer?_of_compareAtoms {x y : Value} {o : Ordering} {r : Relation}
    (ho : compareAtoms? x y = some o) (h : answer? r x y = none) (asked : Relation) :
    answer? asked y x ≠ none := by
  obtain ⟨m, n, hx, hy, -⟩ | ⟨s, t, rfl, rfl, -⟩ | ⟨form, other, s, t, rfl, rfl, hforms, -⟩ :=
    compareAtoms?_inv ho
  · exact (answer?_numbers hx hy r h).elim
  · cases h
  · cases form with
    | plain =>
      cases other with
      | plain => cases h
      | buffer => exact Option.some_ne_none _
      | view => cases hforms
    | buffer => cases h
    | view =>
      cases other with
      | plain => cases hforms
      | buffer => exact Option.some_ne_none _
      | view => cases hforms

theorem weigh_of_unanswered {x y : Value} {relation : OrderRelation}
    (h : answer? (.order relation) x y = none)
    (h' : answer? (.order relation.swap) y x = none) :
    weigh relation x y = .error (.unordered relation x.kind y.kind) := by
  unfold weigh
  split
  · exact (answer?_version_order _ _ _ _ _ h).elim
  · exact (answer?_version_order _ _ _ _ _ h).elim
  · exact (answer?_version_order _ _ _ _ _ h).elim
  · exact (answer?_version_order _ _ _ _ _ h').elim
  · exact (answer?_version_order _ _ _ _ _ h).elim
  · exact (answer?_version_order _ _ _ _ _ h').elim
  · cases h
  · cases h
  · split
    · exact (answer?_of_compareAtoms ‹_› h _ h').elim
    · rfl

theorem relate_of_unanswered {x y : Value} {r : Relation} (h : answer? r x y = none)
    (h' : answer? r.swap y x = none) : relate r x y = unanswered x y r := by
  have hdifferent : (∀ relation, r ≠ .order relation) → r.swap = r → x.same y = false := by
    intro hr hswap
    rw [hswap] at h'
    by_contra hsame
    rw [Bool.not_eq_false] at hsame
    exact answer?_of_same hr hsame h h'
  cases r with
  | order relation => rw [relate, weigh_of_unanswered h h', Except.map, unanswered]
  | eq => rw [relate, hdifferent nofun rfl, unanswered]
  | ne =>
    rw [relate, hdifferent nofun rfl, unanswered]
    rfl

theorem relate_eq_consult (r : Relation) (x y : Value) : relate r x y = consult r x y := by
  unfold consult
  cases hleft : answer? r x y with
  | none =>
    cases hright : answer? r.swap y x with
    | none => simpa using relate_of_unanswered hleft hright
    | some e => simpa using relate_of_reflected hright (.inr hleft)
  | some e =>
    cases hbelow : y.kind.isBelow x.kind with
    | false =>
      have hfirst := relate_of_answer hleft (by simp [hbelow])
      simpa using hfirst
    | true =>
      cases hright : answer? r.swap y x with
      | none => simpa using relate_of_answer hleft fun _ => hright
      | some e' => simpa using relate_of_reflected hright (.inl hbelow)

end Value

end StrictHttp
