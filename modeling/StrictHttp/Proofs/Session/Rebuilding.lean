import StrictHttp.Proofs.Header.Lines
import StrictHttp.Proofs.Value.Equivalence

/-!
# Headers built anew

Every way to build a header anew goes through the validating constructor: copies of all kinds hand it
the parts that the header holds, and unpacking hands it the items that the header shows. It never
refuses them, since what trimming leaves is not trimmed again and lowering makes names of names. A
copy is the header itself (`WellFormed.copy_eq`). Unpacked, a header loses the case of its name and
no more (`WellFormed.call_items_eq`). `perform_rebuilding` is the step of a session that builds the
result of its last step anew, and `runFrom_rebuildings` the run: after any number of such steps the
header is the first one, unpacked if it ever was.
-/

namespace StrictHttp

open Value (Holds)

/-- The answer is this, and nothing is logged on the way. -/
def Quietly (answer : Except Fault α) (a : α) : Prop := answer = .ok a ∧ logged answer = []

theorem quietly_ok {a : α} : Quietly (.ok a) a := ⟨rfl, rfl⟩

-- ---------------------------------------------------------------------------
-- Headers without the case of their names

theorem lowerOctet_lowerOctet (b : UInt8) :
    Bytes.lowerOctet (Bytes.lowerOctet b) = Bytes.lowerOctet b := by
  simpa [IsLowered, not_isCapital_lowerOctet] using isLowered_lowerOctet (Bytes.lowerOctet b)

namespace Header

/-- The header as its items show it. -/
def unpacked (h : Header) : Header := ⟨h.variant, h.field, h.value⟩

@[simp] theorem unpacked_variant (h : Header) : h.unpacked.variant = h.variant := rfl

@[simp] theorem unpacked_value (h : Header) : h.unpacked.value = h.value := rfl

@[simp] theorem unpacked_field (h : Header) : h.unpacked.field = h.field := by
  simp [unpacked, field, Bytes.lower, lowerOctet_lowerOctet]

@[simp] theorem unpacked_unpacked (h : Header) : h.unpacked.unpacked = h.unpacked := by
  rw [unpacked, unpacked_field, unpacked_variant, unpacked_value, unpacked]

section
variable {h : Header}

theorem WellFormed.unpacked (hh : h.WellFormed) : h.unpacked.WellFormed where
  name := Grammar.isToken_iff.mpr ⟨hh.strict.field.1, fun b hb => (hh.strict.field.2 b hb).1⟩
  value := hh.value

-- ---------------------------------------------------------------------------
-- One rebuilding

theorem WellFormed.call_eq (hh : h.WellFormed) (f g : ByteForm) :
    Call.make .header h.variant [.bytes f h.name, .bytes g h.value] = .ok (.header h) := by
  have hmade : make h.variant (.bytes f h.name) (.bytes g h.value) = .ok h := hh.make_eq f g
  rw [Call.make, hmade]
  rfl

theorem WellFormed.copy_eq (hh : h.WellFormed) (method : CopyMethod) :
    (Value.header h).copy method = .ok (.header h) := by
  have hrebuilt : h.rebuild = .ok h := hh.make_eq .plain .plain
  cases method with
  | shallow => rw [Value.copy, Value.shallowCopy, hrebuilt, Except.map]
  | deep | archive format =>
    rw [Value.copy, Value.deepCopy, hrebuilt, Except.map]
    nofun

/-- The constructor of the header's variant takes the items of the header and makes the other. -/
def BuiltFromItems (h k : Header) : Prop :=
  ∃ items, (Value.header h).items = .ok items ∧
    Quietly (Call.make .header h.variant items) (.header k)

theorem WellFormed.call_items_eq (hh : h.WellFormed) :
    Call.make .header h.variant [.bytes .plain h.field, .bytes .plain h.value] =
      .ok (.header h.unpacked) :=
  hh.unpacked.call_eq .plain .plain

theorem WellFormed.builtFromItems (hh : h.WellFormed) : BuiltFromItems h h.unpacked :=
  ⟨_, rfl, by rw [hh.call_items_eq]; exact quietly_ok⟩

end

end Header

-- ---------------------------------------------------------------------------
-- Rebuildings in a session

/-- The ways in which a session builds the header of an earlier step anew. -/
inductive Rebuilding where
  | copy (method : CopyMethod)
  | unpack
deriving DecidableEq

namespace Rebuilding

def operation (variant : Variant) (step : Nat) : Rebuilding → Operation
  | copy method => .copy method (.result step)
  | unpack => .evaluate (.call .header variant (.result step))

def result (h : Header) : Rebuilding → Header
  | copy _ => h
  | unpack => h.unpacked

/-- Each operation builds the result of the one before it anew, and the first that of the step. -/
def operations (variant : Variant) (step : Nat) : List Rebuilding → List Operation
  | [] => []
  | r :: rs => r.operation variant step :: operations variant (step + 1) rs

end Rebuilding

section
variable {m : Memory} {h : Header}

theorem perform_rebuilding {step : Nat} (hh : h.WellFormed)
    (hstep : m.recall step = .ok (.header h)) (r : Rebuilding) :
    (r.operation h.variant step).perform m = .ok (.value (.header (r.result h))) := by
  cases r with
  | copy method =>
    simp only [Rebuilding.operation, Operation.perform, bind_ok, pure_ok]
    exact ⟨_, hstep, _, hh.copy_eq method, rfl⟩
  | unpack =>
    simp only [Rebuilding.operation, Operation.perform, bind_ok, pure_ok, Operand.eval]
    exact ⟨_, ⟨_, hstep, _, rfl, hh.call_items_eq⟩, rfl⟩

theorem Rebuilding.result_wellFormed (hh : h.WellFormed) (r : Rebuilding) :
    (r.result h).WellFormed := by
  cases r with
  | copy method => exact hh
  | unpack => exact hh.unpacked

theorem recall_last (m : Memory) (v : Value) : Memory.recall (m ++ [some v]) m.length = .ok v := by
  simp [Memory.recall]

theorem runFrom_rebuildings {variant : Variant} (hh : h.WellFormed) (hvariant : h.variant = variant)
    (rs : List Rebuilding) {i : Nat} (hi : i < rs.length) :
    (Session.runFrom (m ++ [some (.header h)])
      (Rebuilding.operations variant m.length rs))[i]? =
        some (.ok (.value (.header (if .unpack ∈ rs.take (i + 1) then h.unpacked else h)))) := by
  induction rs generalizing m h i with
  | nil => simp at hi
  | cons r rs ih =>
    subst hvariant
    have hanswer := perform_rebuilding hh (recall_last m (.header h)) r
    rw [Rebuilding.operations, Session.runFrom, hanswer]
    cases i with
    | zero => cases r <;> simp [Rebuilding.result]
    | succ i =>
      -- The next operations find the new header at the end of a memory that is one longer.
      have hlength : m.length + 1 = (m ++ [some (Value.header h)]).length := by simp
      have hnext : (r.result h).variant = h.variant := by cases r <;> rfl
      simp only [List.getElem?_cons_succ, remembered, Result.toValue, hlength]
      rw [ih (r.result_wellFormed hh) hnext (by simpa using hi)]
      cases r <;> simp [Rebuilding.result]

end

-- ---------------------------------------------------------------------------
-- Nothing is lost

/-- What is kept when the header is built anew. -/
structure Header.Lossless (h : Header) : Prop where
  /-- From the parts that it holds, which is how it is copied. -/
  parts (f g : ByteForm) :
    Quietly (Call.make .header h.variant [.bytes f h.name, .bytes g h.value]) (.header h)
  copied (method : CopyMethod) : Quietly ((Value.header h).copy method) (.header h)
  /-- From the items that it shows, and once more from those of the result. -/
  items : BuiltFromItems h h.unpacked ∧ BuiltFromItems h.unpacked h.unpacked
  kept : h.unpacked.variant = h.variant ∧ h.unpacked.field = h.field ∧
    h.unpacked.value = h.value ∧ h.unpacked.name = h.field
  equal : Holds .eq (.header h.unpacked) (.header h)
  /-- By a session that goes on building its last result anew, in any ways and any number of
  times. -/
  chained (m : Memory) (rs : List Rebuilding) (i : Nat) : i < rs.length →
    ∃ answer, (Session.runFrom (m ++ [some (.header h)])
        (Rebuilding.operations h.variant m.length rs))[i]? = some answer ∧
      Quietly answer
        (.value (.header (if .unpack ∈ rs.take (i + 1) then h.unpacked else h)))

/-- No header that a session can hold is refused when it is built anew, and nothing is logged then.
Copies, also copies of copies, have its variant and all its parts. Built from its items it is equal
and differs in the spelling of the name alone, which further building does not change. -/
theorem rebuilding_lossless (h : Header) (hh : h.Reachable) : h.Lossless := by
  have hwf := Header.reachable_iff.mp hh
  constructor
  · intro f g
    rw [hwf.call_eq]
    exact quietly_ok
  · intro method
    rw [hwf.copy_eq]
    exact quietly_ok
  · refine ⟨hwf.builtFromItems, ?_⟩
    simpa using hwf.unpacked.builtFromItems
  · exact ⟨rfl, h.unpacked_field, rfl, rfl⟩
  · exact Value.holds_eq_header_iff.mpr ⟨h, rfl, h.unpacked_field, rfl⟩
  · intro m rs i hi
    exact ⟨_, runFrom_rebuildings hwf rfl rs hi, quietly_ok⟩

/-- The header of a line with a capital in the name and a tab in the value. -/
theorem rebuilding_lossless_line :
    Header.Reachable ⟨.derived, [0x41, 0x62], [0x78, 0x09, 0x79]⟩ ∧
      Header.Lossless ⟨.derived, [0x41, 0x62], [0x78, 0x09, 0x79]⟩ := by
  have hh : Header.Reachable ⟨.derived, [0x41, 0x62], [0x78, 0x09, 0x79]⟩ :=
    ⟨[.evaluate (.call .headerOfLine .derived
      (.list [.text "Ab: x\ty"]))], by decide⟩
  exact ⟨hh, rebuilding_lossless _ hh⟩

end StrictHttp
