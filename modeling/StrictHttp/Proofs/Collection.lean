import Mathlib.Data.List.Induction
import StrictHttp.Collection
import StrictHttp.Proofs.Value.Codes
import StrictHttp.Proofs.Value.Equivalence

/-!
# Sets and tables agree with scans

Sets and tables compare codes before they compare members. Since codes respect equality, a slot
holds a value exactly if its member equals it (`Slot.holds_iff`), so the codes leave no trace: a
table answers the position that a scan of all items by equality finds last
(`Table.find?_put_of_eq` and `Table.find?_put_of_ne` are the step), and a set keeps the items that a
scan meets for the first time (`distinctFrom_firstSeen`).
-/

namespace StrictHttp

open Value (Holds HasCode Unhashable)

-- ---------------------------------------------------------------------------
-- Scans by equality

/-- The position of the last item that equals the key. -/
inductive LastPosition (key : Value) : List Value → Option Nat → Prop
  | found {before v after} : Holds .eq v key → (∀ w ∈ after, ¬Holds .eq w key) →
      LastPosition key (before ++ v :: after) (some before.length)
  | missed {items} : (∀ w ∈ items, ¬Holds .eq w key) → LastPosition key items none

/-- The items that equal none of those before them. -/
inductive FirstSeen : List Value → List Value → Prop
  | nil : FirstSeen [] []
  | first {items members v} : FirstSeen items members → (∀ w ∈ items, ¬Holds .eq w v) →
      FirstSeen (items ++ [v]) (members ++ [v])
  | again {items members v w} : FirstSeen items members → w ∈ items → Holds .eq w v →
      FirstSeen (items ++ [v]) members

section
variable {d : Digest} {items members : List Value} {key v : Value} {c : UInt64}

theorem LastPosition.concat_of_eq (h : Holds .eq v key) :
    LastPosition key (items ++ [v]) (some items.length) :=
  .found h nofun

theorem LastPosition.concat_of_ne {p : Option Nat} (h : LastPosition key items p)
    (hv : ¬Holds .eq v key) : LastPosition key (items ++ [v]) p := by
  cases h with
  | found hw hafter =>
    rw [List.append_assoc, List.cons_append]
    refine .found hw ?_
    simpa [or_imp, forall_and] using ⟨hafter, hv⟩
  | missed hnone =>
    refine .missed ?_
    simpa [or_imp, forall_and] using ⟨hnone, hv⟩

/-- The same is found as by plain membership. -/
theorem LastPosition.isSome_eq {p : Option Nat} (h : LastPosition key items p) :
    p.isSome = contains items key := by
  have hsame : ∀ w : Value, w.same key = true ↔ Holds .eq w key := fun w => by
    rw [Value.holds_eq_iff, Value.same_iff]
  cases h with
  | found hw hafter => simp [contains, (hsame _).mpr hw]
  | missed hnone => simpa [contains, ← Bool.not_eq_true, hsame] using hnone

/-- A scan loses no class of equal items. -/
theorem FirstSeen.exists_iff (h : FirstSeen items members) (v : Value) :
    (∃ w ∈ members, Holds .eq w v) ↔ ∃ w ∈ items, Holds .eq w v := by
  induction h with
  | nil => rfl
  | first _ _ ih => simp [or_and_right, exists_or, ih]
  | @again items members u w _ hw hwu ih =>
    simp only [ih, List.mem_append, List.mem_singleton, or_and_right, exists_or, exists_eq_left]
    refine ⟨.inl, ?_⟩
    rintro (hv | hv)
    · exact hv
    · exact ⟨w, hw, (Value.holds_eq_congr_left hwu).mpr hv⟩

/-- What a scan made of its last item. -/
theorem FirstSeen.concat_inv (h : FirstSeen (items ++ [v]) members) :
    (∃ before, members = before ++ [v] ∧ FirstSeen items before ∧ ∀ w ∈ items, ¬Holds .eq w v) ∨
      (FirstSeen items members ∧ ∃ w ∈ items, Holds .eq w v) := by
  generalize hall : items ++ [v] = all at h
  cases h with
  | nil => simp at hall
  | first h hnew =>
    obtain ⟨rfl, ⟨⟩⟩ := List.append_inj' hall rfl
    exact .inl ⟨_, rfl, h, hnew⟩
  | again h hw hwv =>
    obtain ⟨rfl, ⟨⟩⟩ := List.append_inj' hall rfl
    exact .inr ⟨h, _, hw, hwv⟩

/-- A scan has one outcome. -/
theorem FirstSeen.unique {members' : List Value} (h : FirstSeen items members)
    (h' : FirstSeen items members') : members = members' := by
  induction h generalizing members' with
  | nil =>
    generalize hall : [] = all at h'
    cases h' with
    | nil => rfl
    | first _ _ => simp at hall
    | again _ _ _ => simp at hall
  | first _ hnew ih =>
    obtain ⟨before, rfl, hbefore, -⟩ | ⟨-, w, hw, hwv⟩ := h'.concat_inv
    · rw [ih hbefore]
    · exact (hnew w hw hwv).elim
  | again _ hw hwv ih =>
    obtain ⟨-, -, -, hnew⟩ | ⟨h', -⟩ := h'.concat_inv
    · exact (hnew _ hw hwv).elim
    · exact ih h'

-- ---------------------------------------------------------------------------
-- Slots

/-- The slot has the code of its member. -/
def Slot.Sound (d : Digest) (s : Slot) : Prop := s.member.code d = .ok s.code

theorem Slot.sound_mk (hv : v.code d = .ok c) : Slot.Sound d ⟨c, v⟩ := hv

theorem Slot.holds_iff {s : Slot} (hs : s.Sound d) (hv : v.code d = .ok c) :
    s.holds c v = true ↔ Holds .eq s.member v := by
  rw [Value.holds_eq_iff, ← Value.same_iff, Slot.holds, Bool.and_eq_true, beq_iff_eq]
  exact ⟨And.right, fun hsame => ⟨Value.code_eq_of_same hs hv hsame, hsame⟩⟩

-- ---------------------------------------------------------------------------
-- Tables

namespace Table

def Sound (d : Digest) (t : Table) : Prop := ∀ entry ∈ t, entry.1.Sound d

variable {t : Table} {n : Nat} {code : UInt64}

theorem find?_cons (entry : Slot × Nat) (t : Table) :
    find? (entry :: t) c v = if entry.1.holds c v then some entry.2 else t.find? c v := by
  cases h : entry.1.holds c v <;> simp [find?, h]

theorem Sound.put (ht : t.Sound d) (hkey : key.code d = .ok code) :
    (t.put code key n).Sound d := by
  induction t with
  | nil => simpa [Table.put, Sound] using Slot.sound_mk hkey
  | cons entry t ih =>
    obtain ⟨hentry, ht⟩ := List.forall_mem_cons.mp ht
    rw [Table.put]
    split
    · exact List.forall_mem_cons.mpr ⟨hentry, ht⟩
    · exact List.forall_mem_cons.mpr ⟨hentry, ih ht⟩

theorem find?_put_of_eq (ht : t.Sound d) (hkey : key.code d = .ok code) (hv : v.code d = .ok c)
    (h : Holds .eq key v) : (t.put code key n).find? c v = some n := by
  induction t with
  | nil =>
    have hnew : Slot.holds ⟨code, key⟩ c v = true := (Slot.holds_iff (Slot.sound_mk hkey) hv).mpr h
    simp [Table.put, find?_cons, hnew]
  | cons entry t ih =>
    obtain ⟨hentry, ht⟩ := List.forall_mem_cons.mp ht
    -- The first entry holds both or neither of the two.
    have hboth : entry.1.holds code key = entry.1.holds c v := by
      rw [Bool.eq_iff_iff, Slot.holds_iff hentry hkey, Slot.holds_iff hentry hv]
      exact Value.holds_eq_congr_right h
    cases hholds : entry.1.holds c v <;> simp [Table.put, find?_cons, hboth, hholds, ih ht]

theorem find?_put_of_ne (ht : t.Sound d) (hkey : key.code d = .ok code) (hv : v.code d = .ok c)
    (h : ¬Holds .eq key v) : (t.put code key n).find? c v = t.find? c v := by
  induction t with
  | nil =>
    have hnew : Slot.holds ⟨code, key⟩ c v = false := by
      rw [← Bool.not_eq_true, Slot.holds_iff (Slot.sound_mk hkey) hv]
      exact h
    simp [Table.put, find?_cons, hnew]
  | cons entry t ih =>
    obtain ⟨hentry, ht⟩ := List.forall_mem_cons.mp ht
    rw [Table.put]
    split
    · rename_i hholds
      -- The entry that takes the new position is none of `v`.
      have hother : entry.1.holds c v = false := by
        rw [Slot.holds_iff hentry hkey] at hholds
        rw [← Bool.not_eq_true, Slot.holds_iff hentry hv, Value.holds_eq_congr_left hholds]
        exact h
      simp [find?_cons, hother]
    · simp [find?_cons, ih ht]

theorem enter_concat {t' : Table} (h : enter d t n items = .ok t') (hv : v.code d = .ok c) :
    enter d t n (items ++ [v]) = .ok (t'.put c v (n + items.length)) := by
  induction items generalizing t n with
  | nil =>
    obtain rfl : t = t' := by simpa [enter] using h
    simp [enter, hv]
    rfl
  | cons item items ih =>
    simp only [enter, bind_ok] at h
    obtain ⟨code, hcode, h⟩ := h
    simp only [List.cons_append, enter, hcode]
    rw [List.length_cons, Nat.add_comm items.length, ← Nat.add_assoc]
    exact ih h

theorem exists_ofList (hitems : ∀ v ∈ items, HasCode d v) :
    ∃ t, ofList d items = .ok t ∧ t.Sound d ∧
      ∀ key c, key.code d = .ok c → LastPosition key items (t.find? c key) := by
  induction items using List.reverseRecOn with
  | nil => exact ⟨[], rfl, nofun, fun key c _ => .missed nofun⟩
  | append_singleton items v ih =>
    obtain ⟨hitems, hlast⟩ := List.forall_mem_append.mp hitems
    obtain ⟨c, hc⟩ := hlast v (List.mem_singleton_self v)
    obtain ⟨t, ht, hsound, hfind⟩ := ih hitems
    refine ⟨_, enter_concat ht hc, hsound.put hc, fun key c' hkey => ?_⟩
    by_cases hv : Holds .eq v key
    · rw [find?_put_of_eq hsound hc hkey hv, Nat.zero_add]
      exact .concat_of_eq hv
    · rw [find?_put_of_ne hsound hc hkey hv]
      exact (hfind key c' hkey).concat_of_ne hv

end Table

-- ---------------------------------------------------------------------------
-- Sets

/-- What a set has seen are the members so far, so the rest of the items is sifted as by a scan that
goes on. -/
theorem distinctFrom_firstSeen {before kept : List Value} (seen : List Slot)
    (hbefore : FirstSeen before kept) (hseen : ∀ v, v ∈ kept ↔ ∃ s ∈ seen, s.member = v)
    (hsound : ∀ s ∈ seen, s.Sound d) (hitems : ∀ v ∈ items, HasCode d v) :
    ∃ rest, distinctFrom d seen items = .ok rest ∧ FirstSeen (before ++ items) (kept ++ rest) := by
  induction items generalizing before kept seen with
  | nil => exact ⟨[], rfl, by simpa using hbefore⟩
  | cons v items ih =>
    obtain ⟨⟨c, hc⟩, hitems⟩ := List.forall_mem_cons.mp hitems
    have hany : seen.any (·.holds c v) = true ↔ ∃ w ∈ before, Holds .eq w v := by
      rw [← hbefore.exists_iff, List.any_eq_true]
      constructor
      · rintro ⟨s, hs, hholds⟩
        exact ⟨s.member, (hseen _).mpr ⟨s, hs, rfl⟩, (Slot.holds_iff (hsound s hs) hc).mp hholds⟩
      · rintro ⟨w, hw, hwv⟩
        obtain ⟨s, hs, rfl⟩ := (hseen w).mp hw
        exact ⟨s, hs, (Slot.holds_iff (hsound s hs) hc).mpr hwv⟩
    by_cases hold : seen.any (·.holds c v) = true
    · obtain ⟨w, hw, hwv⟩ := hany.mp hold
      obtain ⟨rest, hrest, hscan⟩ := ih seen (hbefore.again hw hwv) hseen hsound hitems
      refine ⟨rest, ?_, by simpa using hscan⟩
      simp only [distinctFrom, bind_ok]
      exact ⟨c, hc, by rw [if_pos hold, hrest]⟩
    · have hnew : ∀ w ∈ before, ¬Holds .eq w v := fun w hw hwv => hold (hany.mpr ⟨w, hw, hwv⟩)
      obtain ⟨rest, hrest, hscan⟩ := ih (⟨c, v⟩ :: seen) (hbefore.first hnew)
        (by simp [hseen, or_comm, eq_comm]) (List.forall_mem_cons.mpr ⟨Slot.sound_mk hc, hsound⟩) hitems
      refine ⟨v :: rest, ?_, by simpa using hscan⟩
      simp only [distinctFrom, bind_ok]
      refine ⟨c, hc, ?_⟩
      rw [if_neg hold, hrest]
      rfl

theorem exists_distinct (hitems : ∀ v ∈ items, HasCode d v) :
    ∃ members, distinct d items = .ok members ∧ FirstSeen items members := by
  obtain ⟨members, hmembers, hscan⟩ :=
    distinctFrom_firstSeen [] .nil (by simp) (by simp) hitems
  exact ⟨members, hmembers, by simpa using hscan⟩

/-- An item that equals one of the set finds its slot taken. -/
theorem distinct_concat_of_eq {w : Value} (hitems : ∀ u ∈ items, HasCode d u) (hv : HasCode d v)
    (hw : w ∈ items) (hwv : Holds .eq w v) :
    distinct d (items ++ [v]) = distinct d items := by
  obtain ⟨members, hmembers, hscan⟩ := exists_distinct hitems
  have hall : ∀ u ∈ items ++ [v], HasCode d u := by
    simpa [or_imp, forall_and] using ⟨hitems, hv⟩
  obtain ⟨members', hmembers', hscan'⟩ := exists_distinct hall
  rw [hmembers, hmembers', hscan'.unique (hscan.again hw hwv)]

end

-- ---------------------------------------------------------------------------
-- Codes, sets and tables against equality

/-- Codes made in this way respect equality, and so what is found by them is what equality finds. -/
structure Digest.Respectful (d : Digest) : Prop where
  /-- A value has a code unless one that can be changed is reached in it. -/
  coded (x : Value) : HasCode d x ↔ ∀ v ∈ x.reached, ∀ f, ¬Unhashable v f
  /-- Else the first such value that is met is the fault, and its kind is named. -/
  refused (x : Value) (f : Fault) :
    x.code d = .error f ↔ ∃ v, FirstFailure Unhashable x.reached v f
  named {v : Value} {f : Fault} : Unhashable v f →
    f.category = .type ∧ f.message = "unhashable type: '" ++ v.kind.name ++ "'"
  same {x y : Value} {c c' : UInt64} : x.code d = .ok c → y.code d = .ok c' →
    Holds .eq x y → c = c'
  table {items : List Value} {key : Value} : (∀ v ∈ items, HasCode d v) → HasCode d key →
    ∃ t p, Table.ofList d items = .ok t ∧ t.position? d key = .ok p ∧
      LastPosition key items p ∧ p.isSome = contains items key
  set {items : List Value} : (∀ v ∈ items, HasCode d v) →
    ∃ members, distinct d items = .ok members ∧ FirstSeen items members

/-- Whatever the codes of atoms are and however they are put together, equal values with codes have
equal codes, and sets and tables agree with scans by equality alone. -/
theorem digest_respectful (d : Digest) : d.Respectful where
  coded x := (Value.decided_code d x).ok_iff
  refused x f := Value.code_error_iff
  named h := by
    cases h <;> exact ⟨rfl, rfl⟩
  same hx hy h := Value.code_eq_of_same hx hy ((Value.same_iff _ _).mpr (Value.holds_eq_iff.mp h))
  table hitems hkey := by
    obtain ⟨t, ht, -, hfind⟩ := Table.exists_ofList hitems
    obtain ⟨c, hc⟩ := hkey
    refine ⟨t, t.find? c _, ht, ?_, hfind _ c hc, (hfind _ c hc).isSome_eq⟩
    simp only [Table.position?, bind_ok, pure_ok]
    exact ⟨c, hc, rfl⟩
  set hitems := exists_distinct hitems

end StrictHttp
