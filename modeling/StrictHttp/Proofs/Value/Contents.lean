import StrictHttp.Collection
import StrictHttp.Proofs.Header.Reading
import StrictHttp.Sorting
import StrictHttp.Value.Access
import StrictHttp.Value.Duplicate
import StrictHttp.Version

/-!
# The headers inside values

`Value.headers` lists the headers that a value holds at any depth, and a value is well formed when
all of them are. Whatever takes values apart, puts them together, copies, sorts or selects them
gives well-formed values for well-formed ones; new headers only come from the constructor.
-/

namespace StrictHttp

mutual
def Value.headers : Value → List Header
  | .header h => [h]
  | .list items | .tuple items => headersOfAll items
  | .version _ major minor => major.headers ++ minor.headers
  | .dictionary _ values => headersOfAll values
  | _ => []
def headersOfAll : List Value → List Header
  | [] => []
  | item :: items => item.headers ++ headersOfAll items
end

theorem headersOfAll_eq_flatMap (items : List Value) :
    headersOfAll items = items.flatMap Value.headers := by
  induction items with
  | nil => simp [headersOfAll]
  | cons item items ih => simp [headersOfAll, ih]

namespace Value

def WellFormed (v : Value) : Prop := ∀ h ∈ v.headers, h.WellFormed

section
variable {v : Value} {items : List Value}

@[simp] theorem wellFormed_null : null.WellFormed := by simp [WellFormed, headers]

@[simp] theorem wellFormed_bool {b : Bool} : (bool b).WellFormed := by simp [WellFormed, headers]

@[simp] theorem wellFormed_int : (int n).WellFormed := by simp [WellFormed, headers]

@[simp] theorem wellFormed_text : (text s).WellFormed := by simp [WellFormed, headers]

@[simp] theorem wellFormed_bytes : (bytes form data).WellFormed := by simp [WellFormed, headers]

@[simp] theorem wellFormed_header {h : Header} : (header h).WellFormed ↔ h.WellFormed := by
  simp [WellFormed, headers]

theorem wellFormed_headersOfAll :
    (∀ h ∈ headersOfAll items, h.WellFormed) ↔ ∀ v ∈ items, v.WellFormed := by
  rw [headersOfAll_eq_flatMap]
  constructor
  · intro hall v hv h hh
    exact hall h (List.mem_flatMap.mpr ⟨v, hv, hh⟩)
  · intro hall h hh
    obtain ⟨v, hv, hh⟩ := List.mem_flatMap.mp hh
    exact hall v hv h hh

@[simp] theorem wellFormed_list : (list items).WellFormed ↔ ∀ v ∈ items, v.WellFormed :=
  wellFormed_headersOfAll

@[simp] theorem wellFormed_tuple : (tuple items).WellFormed ↔ ∀ v ∈ items, v.WellFormed :=
  wellFormed_headersOfAll

@[simp] theorem wellFormed_dictionary :
    (dictionary names items).WellFormed ↔ ∀ v ∈ items, v.WellFormed :=
  wellFormed_headersOfAll

@[simp] theorem wellFormed_version {variant : Variant} {major minor : Value} :
    (version variant major minor).WellFormed ↔ major.WellFormed ∧ minor.WellFormed := by
  simp only [WellFormed, headers, List.mem_append]
  constructor
  · intro hall
    exact ⟨fun h hh => hall h (.inl hh), fun h hh => hall h (.inr hh)⟩
  · rintro ⟨hmajor, hminor⟩ h (hh | hh)
    · exact hmajor h hh
    · exact hminor h hh

end

-- ---------------------------------------------------------------------------
-- Parts

theorem items_wellFormed {v : Value} {xs : List Value} (hv : v.WellFormed)
    (h : v.items = .ok xs) : ∀ x ∈ xs, x.WellFormed := by
  cases v with
  | text s =>
    obtain rfl := Except.ok.inj h
    simp
  | bytes form data =>
    obtain rfl := Except.ok.inj h
    simp
  | list items =>
    obtain rfl := Except.ok.inj h
    exact wellFormed_list.mp hv
  | tuple items =>
    obtain rfl := Except.ok.inj h
    exact wellFormed_tuple.mp hv
  | version variant major minor =>
    obtain rfl := Except.ok.inj h
    simpa using hv
  | header k =>
    obtain rfl := Except.ok.inj h
    simp
  | dictionary names values =>
    obtain rfl := Except.ok.inj h
    simp
  | _ => simp [items] at h

theorem named?_wellFormed {v a : Value} (hv : v.WellFormed) (h : v.named? name = some a) :
    a.WellFormed := by
  unfold named? at h
  split at h
  case h_7 =>
    obtain rfl := Option.some.inj h
    exact (wellFormed_version.mp hv).1
  case h_8 =>
    obtain rfl := Option.some.inj h
    exact (wellFormed_version.mp hv).2
  case h_9 => simp at h
  all_goals
    obtain rfl := Option.some.inj h
    simp

theorem readNamed_wellFormed {v a : Value} (hv : v.WellFormed) (h : v.readNamed name = .ok a) :
    a.WellFormed := by
  unfold readNamed at h
  split at h
  · rename_i b hb
    obtain rfl := Except.ok.inj h
    exact named?_wellFormed hv hb
  · simp at h

-- ---------------------------------------------------------------------------
-- Copies

theorem rebuild_wellFormed {h k : Header} (hk : h.rebuild = .ok k) : k.WellFormed :=
  Header.make_wellFormed hk

mutual
theorem deepCopy_wellFormed {method : CopyMethod} : (v : Value) → {w : Value} → v.WellFormed →
    v.deepCopy method = .ok w → w.WellFormed
  | .header k, w, _, h => by
    simp only [deepCopy, map_ok] at h
    obtain ⟨k', hk', rfl⟩ := h
    exact wellFormed_header.mpr (rebuild_wellFormed hk')
  | .bytes form data, w, _, h => by
    cases form <;> simp [deepCopy] at h <;> subst h <;> exact wellFormed_bytes
  | .list items, w, hv, h => by
    simp only [deepCopy, map_ok] at h
    obtain ⟨copies, hcopies, rfl⟩ := h
    exact wellFormed_list.mpr (deepCopies_wellFormed items (wellFormed_list.mp hv) hcopies)
  | .tuple items, w, hv, h => by
    simp only [deepCopy, map_ok] at h
    obtain ⟨copies, hcopies, rfl⟩ := h
    exact wellFormed_tuple.mpr (deepCopies_wellFormed items (wellFormed_tuple.mp hv) hcopies)
  | .version variant major minor, w, hv, h => by
    simp only [deepCopy, bind_ok, pure_ok] at h
    obtain ⟨a, ha, b, hb, rfl⟩ := h
    obtain ⟨hmajor, hminor⟩ := wellFormed_version.mp hv
    exact wellFormed_version.mpr
      ⟨deepCopy_wellFormed major hmajor ha, deepCopy_wellFormed minor hminor hb⟩
  | .dictionary names values, w, hv, h => by
    simp only [deepCopy, map_ok] at h
    obtain ⟨copies, hcopies, rfl⟩ := h
    exact wellFormed_dictionary.mpr
      (deepCopies_wellFormed values (wellFormed_dictionary.mp hv) hcopies)
  | .null, w, hv, h | .bool _, w, hv, h | .int _, w, hv, h | .text _, w, hv, h => by
    simp only [deepCopy, Except.ok.injEq] at h
    exact h ▸ hv

theorem deepCopies_wellFormed {method : CopyMethod} : (items : List Value) → {copies : List Value} →
    (∀ v ∈ items, v.WellFormed) → deepCopies method items = .ok copies →
      ∀ v ∈ copies, v.WellFormed
  | [], copies, _, h => by
    simp only [deepCopies, Except.ok.injEq] at h
    simp [← h]
  | item :: items, copies, hitems, h => by
    simp only [deepCopies, bind_ok, pure_ok] at h
    obtain ⟨a, ha, rest, hrest, rfl⟩ := h
    obtain ⟨hitem, hitems⟩ := List.forall_mem_cons.mp hitems
    exact List.forall_mem_cons.mpr
      ⟨deepCopy_wellFormed item hitem ha, deepCopies_wellFormed items hitems hrest⟩
end

theorem shallowCopy_wellFormed {v w : Value} (hv : v.WellFormed) (h : v.shallowCopy = .ok w) :
    w.WellFormed := by
  unfold shallowCopy at h
  split at h
  · obtain ⟨k, hk, rfl⟩ := map_ok.mp h
    exact wellFormed_header.mpr (rebuild_wellFormed hk)
  · simp at h
  · obtain rfl := Except.ok.inj h
    exact hv

theorem copy_wellFormed {method : CopyMethod} {v w : Value} (hv : v.WellFormed)
    (h : v.copy method = .ok w) : w.WellFormed := by
  cases method with
  | shallow => exact shallowCopy_wellFormed hv h
  | deep => exact deepCopy_wellFormed v hv h
  | archive format => exact deepCopy_wellFormed v hv h

end Value

-- ---------------------------------------------------------------------------
-- Pairs and sets

theorem Version.ofPair_wellFormed {wanted : Variant} {v w : Value} (hv : v.WellFormed)
    (h : ofPair wanted v = .ok w) : w.WellFormed := by
  unfold ofPair at h
  split at h
  · obtain rfl := Except.ok.inj h
    simpa using hv
  · obtain rfl := Except.ok.inj h
    simpa using hv
  · simp [refuse, bind_ok] at h

theorem Version.toPair_wellFormed {v w : Value} (hv : v.WellFormed) (h : toPair v = .ok w) :
    w.WellFormed := by
  simp only [toPair, bind_ok, pure_ok] at h
  obtain ⟨⟨a, b⟩, hab, rfl⟩ := h
  cases v with
  | version variant major minor =>
    obtain ⟨rfl, rfl⟩ : major = a ∧ minor = b := by simpa [components] using hab
    simpa using hv
  | _ => simp [components] at hab

theorem distinctFrom_subset {d : Digest} {seen : List Slot} {items members : List Value}
    (h : distinctFrom d seen items = .ok members) : members ⊆ items := by
  induction items generalizing seen members with
  | nil =>
    obtain rfl : [] = members := by simpa [distinctFrom] using h
    exact List.Subset.refl _
  | cons v vs ih =>
    simp only [distinctFrom, bind_ok] at h
    obtain ⟨code, -, h⟩ := h
    split at h
    · exact List.subset_cons_of_subset v (ih h)
    · simp only [bind_ok, pure_ok] at h
      obtain ⟨rest, hrest, rfl⟩ := h
      exact List.cons_subset_cons v (ih hrest)

end StrictHttp
