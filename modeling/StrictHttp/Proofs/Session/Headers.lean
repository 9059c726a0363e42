import StrictHttp.Proofs.Sorting
import StrictHttp.Proofs.Value.Contents
import StrictHttp.Session

/-!
# Every header of a session is well formed

A session can build headers in every way there is, copy them, put them into versions and sequences,
and try to change them. `perform_wellFormed` is the step: from a memory of well-formed values, an
operation answers a well-formed value or a fault. `memory_wellFormed` is the run: whatever the
operations, all headers in the memory of a session keep to the rules of names and values.
-/

namespace StrictHttp

/-- The headers that the remembered values hold. -/
def Memory.headers (m : Memory) : List Header := m.flatMap fun v => v.elim [] Value.headers

def Memory.WellFormed (m : Memory) : Prop := ∀ v, some v ∈ m → v.WellFormed

theorem Memory.wellFormed_iff {m : Memory} :
    m.WellFormed ↔ ∀ h ∈ m.headers, h.WellFormed := by
  constructor
  · intro hm h hh
    obtain ⟨entry, hentry, hh⟩ := List.mem_flatMap.mp hh
    cases entry with
    | none => simp at hh
    | some v => exact hm v hentry h hh
  · intro hm v hv h hh
    exact hm h (List.mem_flatMap.mpr ⟨some v, hv, hh⟩)

theorem Memory.recall_wellFormed {m : Memory} {v : Value} (hm : m.WellFormed)
    (h : m.recall step = .ok v) : v.WellFormed := by
  unfold Memory.recall at h
  split at h
  · rename_i w hw
    obtain rfl := Except.ok.inj h
    exact hm w (List.mem_of_getElem? hw)
  · simp at h

-- ---------------------------------------------------------------------------
-- Operands

theorem Call.make_wellFormed {call : Call} {arguments : List Value} {v : Value}
    (hargs : ∀ a ∈ arguments, a.WellFormed) (h : call.make variant arguments = .ok v) :
    v.WellFormed := by
  unfold Call.make at h
  split at h
  · obtain ⟨k, hk, rfl⟩ := map_ok.mp h
    exact Value.wellFormed_header.mpr (Header.make_wellFormed hk)
  · obtain ⟨k, hk, rfl⟩ := map_ok.mp h
    exact Value.wellFormed_header.mpr (Header.make_wellFormed hk)
  · obtain ⟨k, hk, rfl⟩ := map_ok.mp h
    exact Value.wellFormed_header.mpr (Header.parse_wellFormed hk)
  · obtain rfl := Except.ok.inj h
    simpa using hargs
  · simp at h

theorem Version.Named.value_wellFormed (v : Version.Named) : v.value.WellFormed := by
  cases v <;> simp [Version.Named.value]

section
variable {m : Memory}

mutual
theorem eval_wellFormed (hm : m.WellFormed) : (operand : Operand) → {v : Value} →
    operand.eval m = .ok v → v.WellFormed
  | .null, v, h | .bool _, v, h | .int _, v, h | .text _, v, h | .bytes _ _, v, h => by
    simp only [Operand.eval, Except.ok.injEq] at h
    simp [← h]
  | .list items, v, h => by
    simp only [Operand.eval, map_ok] at h
    obtain ⟨values, hvalues, rfl⟩ := h
    exact Value.wellFormed_list.mpr (evalAll_wellFormed hm items hvalues)
  | .tuple items, v, h => by
    simp only [Operand.eval, map_ok] at h
    obtain ⟨values, hvalues, rfl⟩ := h
    exact Value.wellFormed_tuple.mpr (evalAll_wellFormed hm items hvalues)
  | .call callee variant arguments, v, h => by
    simp only [Operand.eval, bind_ok] at h
    obtain ⟨w, hw, args, hargs, hmade⟩ := h
    exact Call.make_wellFormed (Value.items_wellFormed (eval_wellFormed hm arguments hw) hargs) hmade
  | .named name, v, h => by
    simp only [Operand.eval, Except.ok.injEq] at h
    exact h ▸ name.value_wellFormed
  | .result step, v, h => by
    simp only [Operand.eval] at h
    exact Memory.recall_wellFormed hm h

theorem evalAll_wellFormed (hm : m.WellFormed) : (operands : List Operand) → {vs : List Value} →
    evalAll m operands = .ok vs → ∀ v ∈ vs, v.WellFormed
  | [], vs, h => by
    simp only [evalAll, Except.ok.injEq] at h
    simp [← h]
  | operand :: operands, vs, h => by
    simp only [evalAll, bind_ok, pure_ok] at h
    obtain ⟨v, hv, rest, hrest, rfl⟩ := h
    exact List.forall_mem_cons.mpr
      ⟨eval_wellFormed hm operand hv, evalAll_wellFormed hm operands hrest⟩
end

theorem Operand.items_wellFormed {operand : Operand} {vs : List Value} (hm : m.WellFormed)
    (h : operand.items m = .ok vs) : ∀ v ∈ vs, v.WellFormed := by
  simp only [Operand.items, bind_ok] at h
  obtain ⟨v, hv, hvs⟩ := h
  exact Value.items_wellFormed (eval_wellFormed hm operand hv) hvs

-- ---------------------------------------------------------------------------
-- Results that hold no headers

theorem Groups.toValue_wellFormed (groups : Groups) : groups.toValue.WellFormed := by
  simp only [Groups.toValue, Value.wellFormed_dictionary, List.mem_map]
  rintro _ ⟨⟨name, taken⟩, -, rfl⟩
  cases taken <;> simp

theorem verdicts_wellFormed (answers : List (Relation × Except Fault Bool)) :
    (Result.verdicts answers).toValue.WellFormed := by
  simp only [Result.toValue, Value.wellFormed_dictionary, List.mem_map]
  rintro _ ⟨⟨relation, answer⟩, -, rfl⟩
  cases answer <;> simp [verdictValue]

theorem Catalogue.toValue_wellFormed (c : Catalogue) : c.toValue.WellFormed := by
  simp [Catalogue.toValue]

theorem ErrorClass.report_wellFormed {errorClass : ErrorClass} {message hint : Value}
    {r : ErrorReport} (hhint : hint.WellFormed) (h : errorClass.report message hint = .ok r) :
    r.toValue.WellFormed := by
  cases errorClass with
  | anyProtocol => simp [ErrorClass.report] at h
  | concrete error =>
    simp only [ErrorClass.report, bind_ok, pure_ok] at h
    obtain ⟨text, -, rfl⟩ := h
    simp [ErrorReport.toValue, hhint]

-- ---------------------------------------------------------------------------
-- Operations

theorem perform_wellFormed {op : Operation} {r : Result} (hm : m.WellFormed)
    (h : op.perform m = .ok r) : r.toValue.WellFormed := by
  cases op with
  | versionOfPair variant pair =>
    simp only [Operation.perform, bind_ok, pure_ok] at h
    obtain ⟨v, hv, w, hw, rfl⟩ := h
    exact Version.ofPair_wellFormed (eval_wellFormed hm pair hv) hw
  | toPair subject =>
    simp only [Operation.perform, bind_ok, pure_ok] at h
    obtain ⟨v, hv, w, hw, rfl⟩ := h
    exact Version.toPair_wellFormed (eval_wellFormed hm subject hv) hw
  | evaluate subject =>
    simp only [Operation.perform, bind_ok, pure_ok] at h
    obtain ⟨v, hv, rfl⟩ := h
    exact eval_wellFormed hm subject hv
  | relateAll left right =>
    simp only [Operation.perform, bind_ok, pure_ok] at h
    obtain ⟨x, -, y, -, rfl⟩ := h
    exact verdicts_wellFormed _
  | validate pattern data message errorClass =>
    simp only [Operation.perform, bind_ok, pure_ok] at h
    obtain ⟨_, -, _, -, groups, -, rfl⟩ := h
    exact Groups.toValue_wellFormed groups
  | makeError errorClass message hint =>
    simp only [Operation.perform, bind_ok, pure_ok] at h
    obtain ⟨_, -, v, hv, report, hreport, rfl⟩ := h
    exact ErrorClass.report_wellFormed (eval_wellFormed hm _ hv) hreport
  | read subject name =>
    simp only [Operation.perform, bind_ok, pure_ok] at h
    obtain ⟨v, hv, a, ha, rfl⟩ := h
    exact Value.readNamed_wellFormed (eval_wellFormed hm subject hv) ha
  | set subject name value =>
    simp [Operation.perform, bind_ok] at h
  | delete subject name =>
    simp [Operation.perform, bind_ok] at h
  | iterate subject =>
    simp only [Operation.perform, bind_ok, pure_ok] at h
    obtain ⟨vs, hvs, rfl⟩ := h
    exact Value.wellFormed_list.mpr (Operand.items_wellFormed hm hvs)
  | copy method subject =>
    simp only [Operation.perform, bind_ok, pure_ok] at h
    obtain ⟨v, hv, w, hw, rfl⟩ := h
    exact Value.copy_wellFormed (eval_wellFormed hm subject hv) hw
  | distinct items =>
    simp only [Operation.perform, bind_ok, pure_ok] at h
    obtain ⟨vs, hvs, members, hmembers, rfl⟩ := h
    refine Value.wellFormed_list.mpr fun v hv => ?_
    exact Operand.items_wellFormed hm hvs v (distinctFrom_subset hmembers hv)
  | lookup items key =>
    simp only [Operation.perform, bind_ok] at h
    obtain ⟨_, -, _, -, _, -, position, -, h⟩ := h
    cases position with
    | none => simp [← pure_ok.mp h, Result.toValue]
    | some n => simp [← pure_ok.mp h, Result.toValue]
  | sort descending items =>
    simp only [Operation.perform, bind_ok, pure_ok] at h
    obtain ⟨vs, hvs, sorted, hsorted, rfl⟩ := h
    refine Value.wellFormed_list.mpr fun v hv => ?_
    exact Operand.items_wellFormed hm hvs v ((Value.sort_perm hsorted).mem_iff.mp hv)
  | select extreme items =>
    simp only [Operation.perform, bind_ok, pure_ok] at h
    obtain ⟨vs, hvs, v, hv, rfl⟩ := h
    exact Operand.items_wellFormed hm hvs v (Value.select_mem hv)
  | catalogue =>
    simp only [Operation.perform, pure_ok] at h
    exact h ▸ Catalogue.toValue_wellFormed _
  -- What is left answers a number, a truth value, a text or a byte string.
  | compareToPair subject pair =>
    simp only [Operation.perform, bind_ok, pure_ok] at h
    obtain ⟨_, -, _, -, _, -, _, -, rfl⟩ := h
    exact Value.wellFormed_int
  | relate relation left right =>
    simp only [Operation.perform, bind_ok, pure_ok] at h
    obtain ⟨_, -, _, -, _, -, rfl⟩ := h
    exact Value.wellFormed_bool
  | toBytes data =>
    simp only [Operation.perform, bind_ok, pure_ok] at h
    obtain ⟨_, -, _, -, rfl⟩ := h
    exact Value.wellFormed_bytes
  | literal subject | display subject =>
    simp only [Operation.perform, bind_ok, pure_ok] at h
    obtain ⟨_, -, _, -, rfl⟩ := h
    exact Value.wellFormed_text
  | code subject =>
    simp only [Operation.perform, bind_ok, pure_ok] at h
    obtain ⟨_, -, _, -, rfl⟩ := h
    exact Value.wellFormed_bool
  | contains key items =>
    simp only [Operation.perform, bind_ok, pure_ok] at h
    obtain ⟨_, -, _, -, rfl⟩ := h
    exact Value.wellFormed_bool

-- ---------------------------------------------------------------------------
-- Sessions

theorem Memory.WellFormed.remember {answer : Answer} (hm : m.WellFormed)
    (hanswer : ∀ r, answer = .ok r → r.toValue.WellFormed) :
    Memory.WellFormed (m ++ [remembered answer]) := by
  intro v hv
  rcases List.mem_append.mp hv with hv | hv
  · exact hm v hv
  · cases answer with
    | ok r =>
      obtain rfl : v = r.toValue := by simpa [remembered] using hv
      exact hanswer r rfl
    | error f => simp [remembered] at hv

end

namespace Session

/-- What is remembered when the operations are over. -/
def memory (ops : List Operation) : Memory := (run ops).map remembered

theorem runFrom_wellFormed {m : Memory} (hm : m.WellFormed) (ops : List Operation) :
    Memory.WellFormed (m ++ (runFrom m ops).map remembered) := by
  induction ops generalizing m with
  | nil => simpa [runFrom] using hm
  | cons op ops ih =>
    have hnext : Memory.WellFormed (m ++ [remembered (op.perform m)]) :=
      hm.remember fun r hr => perform_wellFormed hm hr
    simpa [runFrom] using ih hnext

theorem memory_wellFormed (ops : List Operation) : (memory ops).WellFormed :=
  runFrom_wellFormed (m := []) (by simp [Memory.WellFormed]) ops

/-- However a session builds, copies, stores and tries to change headers, each one that it holds in
the end is strict. -/
theorem memory_strict (ops : List Operation) : ∀ h ∈ (memory ops).headers, h.Strict := by
  intro h hh
  exact (Memory.wellFormed_iff.mp (memory_wellFormed ops) h hh).strict

/-- A line read by the derived variant, an attempt to change the header, and its copy. -/
def copying : List Operation :=
  [.evaluate (.call .headerOfLine .derived
      (.tuple [.bytes .view [0x41, 0x62, 0x3A, 0x20, 0x78, 0x09, 0x79, 0x09]])),
    .set (.result 0) "value" .null,
    .copy (.archive 2) (.result 0)]

theorem memory_strict_copying :
    ⟨.derived, [0x41, 0x62], [0x78, 0x09, 0x79]⟩ ∈ (memory copying).headers ∧
      Header.Strict ⟨.derived, [0x41, 0x62], [0x78, 0x09, 0x79]⟩ := by
  have hmem : ⟨.derived, [0x41, 0x62], [0x78, 0x09, 0x79]⟩ ∈ (memory copying).headers := by decide
  exact ⟨hmem, memory_strict copying _ hmem⟩

end Session

end StrictHttp
