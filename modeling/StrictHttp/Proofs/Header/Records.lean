import StrictHttp.Proofs.Header.Refusal
import StrictHttp.Proofs.Text.Quoted

/-!
# What a log record tells

A refusal by the grammar is logged with its reason and with the bytes at fault: the whole line, the
name, or the value without its outer blanks. `Request.Refuses` says which reason and which bytes these
are, by the stages of the request. The record is printable and has one reading
(`Rejection.record_inj`): none of the three labels begins another, and a quoted byte string can be
read back whatever octets it has (`Bytes.quoteChars_append_inj`). So no octets, whoever sends them,
make the record of another refusal or a second line of the log.
-/

namespace StrictHttp

open Bytes (IsCore)
open Text (AllPrintable)

-- ---------------------------------------------------------------------------
-- Records

namespace Reason

/-- The stage that refuses for this reason. -/
def stage : Reason → Stage
  | noColon => .colon
  | illegalName => .nameGrammar
  | illegalValue => .valueGrammar

theorem label_append_inj {reason reason' : Reason} {rest rest' : List Char}
    (h : reason.label.toList ++ rest = reason'.label.toList ++ rest') :
    reason = reason' ∧ rest = rest' := by
  cases reason <;> cases reason' <;> simp [label] at h ⊢ <;> exact h

theorem printable_label (reason : Reason) : AllPrintable reason.label.toList := by
  cases reason <;> decide

end Reason

namespace Rejection

theorem toList_record (r : Rejection) :
    r.record.toList = "rejecting header: ".toList ++
      (r.reason.label.toList ++ (": ".toList ++ r.data.quoteChars)) := by
  unfold record
  rw [String.toList_append, String.toList_append, String.toList_append, Bytes.toList_quote,
    List.append_assoc, List.append_assoc]

theorem printable_record (r : Rejection) : AllPrintable r.record.toList := by
  have hframe : AllPrintable "rejecting header: ".toList ∧ AllPrintable ": ".toList := by decide
  rw [toList_record, Text.allPrintable_append, Text.allPrintable_append, Text.allPrintable_append]
  exact ⟨hframe.1, r.reason.printable_label, hframe.2, r.data.printable_quoteChars⟩

theorem record_inj {r r' : Rejection} : r.record = r'.record ↔ r = r' := by
  constructor
  · intro h
    obtain ⟨reason, data⟩ := r
    obtain ⟨reason', data'⟩ := r'
    have hchars := congrArg String.toList h
    rw [toList_record, toList_record, List.append_cancel_left_eq] at hchars
    obtain ⟨rfl, hrest⟩ := Reason.label_append_inj hchars
    rw [List.append_cancel_left_eq, Bytes.quoteChars_inj] at hrest
    exact congrArg _ hrest
  · rintro rfl
    rfl

end Rejection

-- ---------------------------------------------------------------------------
-- Refusals

theorem Stage.coercion_or_reason (stage : Stage) :
    (∃ part, stage = .coercion part) ∨ ∃ reason : Reason, stage = reason.stage := by
  cases stage with
  | coercion part => exact .inl ⟨part, rfl⟩
  | colon => exact .inr ⟨.noColon, rfl⟩
  | nameGrammar => exact .inr ⟨.illegalName, rfl⟩
  | valueGrammar => exact .inr ⟨.illegalValue, rfl⟩

namespace Request

/-- The bytes that go with a refusal for this reason. -/
inductive Shows (request : Request) : Reason → Bytes → Prop
  | noColon {line} : request.Has .line line → Shows request .noColon line
  | illegalName {name} : request.Has .name name → Shows request .illegalName name
  | illegalValue {value core} : request.Has .value value → IsCore value core →
      Shows request .illegalValue core

/-- The request is refused for this reason, and these are the bytes at fault. -/
structure Refuses (request : Request) (reason : Reason) (data : Bytes) : Prop where
  shows : request.Shows reason data
  decides : ∃ r, FirstFailure request.Fails request.stages reason.stage r

section
variable {request : Request} {variant : Variant} {reason : Reason} {data : Bytes} {r : Report}

theorem Shows.unique {data' : Bytes} (h : request.Shows reason data)
    (h' : request.Shows reason data') : data = data' := by
  cases h with
  | noColon hline =>
    cases h' with
    | noColon hline' => exact hline.unique hline'
  | illegalName hname =>
    cases h' with
    | illegalName hname' => exact hname.unique hname'
  | illegalValue hvalue hcore =>
    cases h' with
    | illegalValue hvalue' hcore' =>
      obtain rfl := hvalue.unique hvalue'
      rw [Bytes.isCore_iff.mp hcore, Bytes.isCore_iff.mp hcore']

theorem Fails.records_of_coercion {part : Part} (h : request.Fails (.coercion part) r) :
    r.records = [] := List.length_eq_zero_iff.mp h.records_length

theorem Fails.records_of_reason (h : request.Fails reason.stage r) :
    ∃ data, request.Shows reason data ∧ r.records = [Rejection.record ⟨reason, data⟩] := by
  cases reason with
  | noColon =>
    cases h with
    | noColon hline => exact ⟨_, .noColon hline, rfl⟩
  | illegalName =>
    cases h with
    | illegalName hname => exact ⟨_, .illegalName hname, rfl⟩
  | illegalValue =>
    cases h with
    | illegalValue hvalue hcore => exact ⟨_, .illegalValue hvalue hcore, rfl⟩

theorem exists_refuses {text : String} (h : text ∈ logged (request.answer variant)) :
    ∃ reason data, request.Refuses reason data ∧ text = Rejection.record ⟨reason, data⟩ := by
  have hanswered := answered request variant
  cases ha : request.answer variant with
  | ok v =>
    rw [ha] at h
    cases h
  | error f =>
    obtain ⟨stage, hfirst⟩ := (hanswered.refused _).mp ⟨f, ha, rfl⟩
    rw [(hanswered.records hfirst).1] at h
    obtain ⟨part, rfl⟩ | ⟨reason, rfl⟩ := stage.coercion_or_reason
    · rw [hfirst.mem.2.records_of_coercion] at h
      cases h
    · obtain ⟨data, hshows, hrecords⟩ := hfirst.mem.2.records_of_reason
      rw [hrecords, List.mem_singleton] at h
      exact ⟨reason, data, ⟨hshows, _, hfirst⟩, h⟩

theorem Refuses.logged_eq (h : request.Refuses reason data) (variant : Variant) :
    logged (request.answer variant) = [Rejection.record ⟨reason, data⟩] := by
  obtain ⟨hshows, r, hfirst⟩ := h
  obtain ⟨data', hshows', hrecords⟩ := hfirst.mem.2.records_of_reason
  rw [((answered request variant).records hfirst).1, hrecords, hshows.unique hshows']

theorem refuses_of_logged (h : logged (request.answer variant) =
    [Rejection.record ⟨reason, data⟩]) : request.Refuses reason data := by
  obtain ⟨reason', data', hrefuses, htext⟩ :=
    exists_refuses (h ▸ List.mem_singleton_self (Rejection.record ⟨reason, data⟩))
  obtain ⟨rfl, rfl⟩ := Rejection.mk.inj (Rejection.record_inj.mp htext)
  exact hrefuses

/-- Every record that a request logs is printable ASCII and stands for a refusal, the record of a
refusal is the one text that is logged, and requests that log the same text, in whatever way they
ask, are refused for the same reason and have the same bytes at fault. -/
theorem records_identify :
    (∀ (request : Request) (variant : Variant), ∀ text ∈ logged (request.answer variant),
      (∀ c ∈ text.toList, 0x20 ≤ c.toNat ∧ c.toNat ≤ 0x7E) ∧
        ∃ reason data, request.Refuses reason data) ∧
    (∀ (request : Request) (variant : Variant) (reason : Reason) (data : Bytes),
      request.Refuses reason data ↔
        logged (request.answer variant) = [Rejection.record ⟨reason, data⟩]) ∧
    ∀ (request request' : Request) (variant variant' : Variant) (reason reason' : Reason)
      (data data' : Bytes), request.Refuses reason data → request'.Refuses reason' data' →
      ∀ text ∈ logged (request.answer variant), text ∈ logged (request'.answer variant') →
        reason = reason' ∧ data = data' := by
  refine ⟨?_, ?_, ?_⟩
  · intro request variant text htext
    obtain ⟨reason, data, hrefuses, rfl⟩ := exists_refuses htext
    refine ⟨fun c hc => ?_, reason, data, hrefuses⟩
    exact Text.isPrintableAscii_iff.mp (Rejection.printable_record _ c hc)
  · intro request variant reason data
    exact ⟨fun hrefuses => hrefuses.logged_eq variant, refuses_of_logged⟩
  · intro request request' variant variant' reason reason' data data' hrefuses hrefuses' text htext
      htext'
    rw [hrefuses.logged_eq, List.mem_singleton] at htext
    rw [hrefuses'.logged_eq, List.mem_singleton] at htext'
    exact Rejection.mk.inj (Rejection.record_inj.mp (htext.symm.trans htext'))

/-- A name that is a line feed and a name that is a backslash and the letter n, one of them given in
a line, are told apart in the log. -/
theorem records_identify_feed :
    ¬∃ text, text ∈ logged ((ofLine (.bytes .plain [0x0A, 0x3A])).answer .derived) ∧
      text ∈ logged ((ofParts (.bytes .plain [0x5C, 0x6E]) (.text "")).answer .base) := by
  obtain ⟨-, hlogged, hsame⟩ := records_identify
  have hfeed : (ofLine (.bytes .plain [0x0A, 0x3A])).Refuses .illegalName [0x0A] :=
    (hlogged _ .derived _ _).mpr rfl
  have hletter : (ofParts (.bytes .plain [0x5C, 0x6E]) (.text "")).Refuses .illegalName [0x5C, 0x6E] :=
    (hlogged _ .base _ _).mpr rfl
  rintro ⟨text, htext, htext'⟩
  have hdata := (hsame _ _ _ _ _ _ _ _ hfeed hletter text htext htext').2
  cases hdata

end

end Request

end StrictHttp
