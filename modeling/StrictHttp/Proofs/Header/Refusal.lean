import StrictHttp.Call
import StrictHttp.Proofs.Header.Lines
import StrictHttp.Proofs.Value.Coercion

/-!
# Which stage refuses a header

A header is asked for by its parts or by a line. What is given is coerced part by part, a line is
split at its first colon, then the name and at last the trimmed value are held against the grammar.
`Request.Fails` says of each stage by itself when it fails and what is then reported, message, status
and log records, whatever the other stages do. The first stage that fails decides
(`Request.answer_decided`), so of several faults the earliest is reported, and one record is logged
exactly if it is none of coercion.
-/

namespace StrictHttp

open Header (colon IsSplit)
open Bytes (IsCore)

-- ---------------------------------------------------------------------------
-- Requests and their stages

/-- The ways to ask for a header. -/
inductive Request where
  | ofParts (name value : Value)
  | ofBytes (name value : Value)
  | ofLine (line : Value)

inductive Stage where
  | coercion (part : Part)
  | colon
  | nameGrammar
  | valueGrammar

/-- The number of log records that go with the failure of a stage. -/
def Stage.recordCount : Stage → Nat
  | coercion _ => 0
  | _ => 1

namespace Request

def answer (variant : Variant) : Request → Except Fault Value
  | ofParts name value => Call.make .header variant [name, value]
  | ofBytes name value => Call.make .headerOfBytes variant [name, value]
  | ofLine line => Call.make .headerOfLine variant [line]

/-- In the order in which they run. -/
def stages : Request → List Stage
  | ofParts .. | ofBytes .. => [.coercion .name, .coercion .value, .nameGrammar, .valueGrammar]
  | ofLine _ => [.coercion .line, .colon, .nameGrammar, .valueGrammar]

/-- What is given for a part. -/
def given? : Request → Part → Option Value
  | ofParts name _, .name | ofBytes name _, .name => some name
  | ofParts _ value, .value | ofBytes _ value, .value => some value
  | ofLine line, .line => some line
  | _, _ => none

/-- The bytes of a part: those that are given for it, or its segment of the line. -/
inductive Has : Request → Part → Bytes → Prop
  | given {request part v s} : request.given? part = some v → v.toBytes = .ok s →
      Has request part s
  | name {line s name rest} : line.toBytes = .ok s → IsSplit s name rest →
      Has (ofLine line) .name name
  | value {line s name rest} : line.toBytes = .ok s → IsSplit s name rest →
      Has (ofLine line) .value rest

end Request

-- ---------------------------------------------------------------------------
-- Reports

/-- What is seen of a fault: its category and message, the status that it suggests, and the log
records. -/
structure Report where
  category : Fault.Category
  message : String
  hint : Option Int
  records : List String

namespace Report

def invalidHeader (message : String) (records : List String) : Report :=
  ⟨.invalidHeader, message, some 400, records⟩

def ofFault (f : Fault) : Report := ⟨f.category, f.message, f.hint, f.record.toList⟩

theorem ofFault_of_category {f : Fault} (h : f.category = .type ∨ f.category = .value) :
    ofFault f = ⟨f.category, f.message, none, []⟩ := by
  have hhint : f.hint = none := by
    rcases h with h | h <;> simp [Fault.hint, h]
  have hrecord : f.record = none := by
    cases f with
    | rejected r => simp [Fault.category] at h
    | _ => rfl
  rw [ofFault, hhint, hrecord]
  rfl

end Report

/-- The stage fails, and this is its report. Of the other stages only the bytes matter that they
have made of what is given. -/
inductive Request.Fails (request : Request) : Stage → Report → Prop
  | nonAscii {part s} : request.given? part = some (.text s) → ¬Text.AllAscii s.toList →
      Fails request (.coercion part)
        (.invalidHeader ("non-ascii characters in header " ++ part.label) [])
  /-- What is no text is refused as coercion refuses it. -/
  | unfit {part v f} : request.given? part = some v → (∀ s, v ≠ .text s) → v.toBytes = .error f →
      Fails request (.coercion part) ⟨f.category, f.message, none, []⟩
  | noColon {line} : request.Has .line line → colon ∉ line →
      Fails request .colon
        (.invalidHeader "missing colon in header line" ["rejecting header: no colon: " ++ line.quote])
  | illegalName {name} : request.Has .name name → ¬(name ≠ [] ∧ ∀ b ∈ name, IsNameOctet b) →
      Fails request .nameGrammar
        (.invalidHeader "illegal header name"
          ["rejecting header: illegal header name: " ++ name.quote])
  | illegalValue {value core} : request.Has .value value → IsCore value core →
      ¬(∀ b ∈ core, IsValueOctet b) →
      Fails request .valueGrammar
        (.invalidHeader "illegal header value"
          ["rejecting header: illegal header value: " ++ core.quote])

-- ---------------------------------------------------------------------------
-- Coercion

namespace Header

theorem coerce_of_not_ascii {s : String} (h : ¬Text.AllAscii s.toList) (part : Part) :
    coerce part (.text s) = .error (.nonAsciiHeader part) := by
  obtain ⟨start, run, hrun⟩ := Text.toAscii_of_not_allAscii h
  rw [coerce, Value.toBytes, hrun]

theorem coerce_of_not_text {v : Value} (hv : ∀ s, v ≠ .text s) (part : Part) :
    coerce part v = v.toBytes := by
  unfold coerce
  split
  · rename_i hf
    have hcategory := Value.toBytes_error hv hf
    simp [Fault.category] at hcategory
  · rfl

end Header

-- ---------------------------------------------------------------------------
-- One report for a stage

namespace Request

section
variable {request : Request} {part : Part} {stage : Stage} {stages : List Stage}
  {variant : Variant}

theorem Has.unique {s s' : Bytes} (h : request.Has part s) (h' : request.Has part s') : s = s' := by
  cases h with
  | given hv hs =>
    cases h' with
    | given hv' hs' =>
      rw [hv, Option.some.injEq] at hv'
      subst hv'
      exact Except.ok.inj (hs.symm.trans hs')
    | name hs' hsplit' => cases hv
    | value hs' hsplit' => cases hv
  | name hs hsplit =>
    cases h' with
    | given hv' hs' => cases hv'
    | name hs' hsplit' =>
      obtain rfl := Except.ok.inj (hs.symm.trans hs')
      exact (hsplit.unique hsplit').1
  | value hs hsplit =>
    cases h' with
    | given hv' hs' => cases hv'
    | value hs' hsplit' =>
      obtain rfl := Except.ok.inj (hs.symm.trans hs')
      exact (hsplit.unique hsplit').2

/-- A stage has one report at most. -/
theorem fails_unique (request : Request) (stage : Stage) (r r' : Report)
    (h : request.Fails stage r) (h' : request.Fails stage r') : r = r' := by
  cases h with
  | nonAscii hv hs =>
    cases h' with
    | nonAscii hv' hs' => rfl
    | unfit hv' htext hf =>
      rw [hv, Option.some.injEq] at hv'
      exact (htext _ hv'.symm).elim
  | unfit hv htext hf =>
    cases h' with
    | nonAscii hv' hs' =>
      rw [hv, Option.some.injEq] at hv'
      exact (htext _ hv').elim
    | unfit hv' htext' hf' =>
      rw [hv, Option.some.injEq] at hv'
      subst hv'
      obtain rfl := Except.error.inj (hf.symm.trans hf')
      rfl
  | noColon hline hcolon =>
    cases h' with
    | noColon hline' hcolon' => rw [hline.unique hline']
  | illegalName hname hillegal =>
    cases h' with
    | illegalName hname' hillegal' => rw [hname.unique hname']
  | illegalValue hvalue hcore hillegal =>
    cases h' with
    | illegalValue hvalue' hcore' hillegal' =>
      obtain rfl := hvalue.unique hvalue'
      rw [Bytes.isCore_iff.mp hcore, Bytes.isCore_iff.mp hcore']

-- ---------------------------------------------------------------------------
-- Each stage decides

/-- The outcome of the stages that are left. -/
abbrev DecidedBy (request : Request) (stages : List Stage) (e : Except Fault α) : Prop :=
  Decided request.Fails Report.ofFault stages e

theorem not_fails_coercion {v : Value} {s : Bytes} (hv : request.given? part = some v)
    (hs : v.toBytes = .ok s) (r : Report) : ¬request.Fails (.coercion part) r := by
  rintro (⟨hv', htext⟩ | ⟨hv', -, hf⟩)
  · rw [hv, Option.some.injEq] at hv'
    subst hv'
    obtain ⟨start, run, hrun⟩ := Text.toAscii_of_not_allAscii htext
    rw [Value.toBytes, hrun] at hs
    cases hs
  · rw [hv, Option.some.injEq] at hv'
    subst hv'
    rw [hs] at hf
    cases hf

theorem decided_coerce {v : Value} (hv : request.given? part = some v)
    {next : Bytes → Except Fault α}
    (hnext : ∀ s, v.toBytes = .ok s → request.DecidedBy stages (next s)) :
    request.DecidedBy (.coercion part :: stages) (Header.coerce part v >>= next) := by
  cases hs : v.toBytes with
  | ok s =>
    rw [Header.coerce_ok_iff.mpr hs]
    exact .pass (not_fails_coercion hv hs) (hnext s hs)
  | error f =>
    by_cases htext : ∃ t, v = .text t
    · obtain ⟨t, rfl⟩ := htext
      have hascii : ¬Text.AllAscii t.toList := by
        intro hascii
        rw [Value.toBytes, Text.toAscii_of_allAscii hascii] at hs
        cases hs
      rw [Header.coerce_of_not_ascii hascii]
      exact .fail (.nonAscii hv hascii)
    · have hnot : ∀ t, v ≠ .text t := fun t ht => htext ⟨t, ht⟩
      rw [Header.coerce_of_not_text hnot, hs]
      apply Decided.fail
      rw [Report.ofFault_of_category (Value.toBytes_error hnot hs)]
      exact .unfit hv hnot hs

theorem not_fails_nameGrammar {name : Bytes} (hname : request.Has .name name)
    (hlegal : Grammar.IsToken name) (r : Report) : ¬request.Fails .nameGrammar r := by
  rintro (⟨⟩ | ⟨⟩ | ⟨⟩ | ⟨hname', hillegal⟩)
  rw [hname'.unique hname] at hillegal
  exact hillegal (Grammar.isToken_iff.mp hlegal)

theorem not_fails_valueGrammar {value : Bytes} (hvalue : request.Has .value value)
    (hlegal : Grammar.IsFieldValue value.trim) (r : Report) :
    ¬request.Fails .valueGrammar r := by
  rintro (⟨⟩ | ⟨⟩ | ⟨⟩ | ⟨⟩ | ⟨hvalue', hcore, hillegal⟩)
  rw [hvalue'.unique hvalue, Bytes.isCore_iff] at hcore
  subst hcore
  exact hillegal (Grammar.isFieldValue_iff.mp hlegal).1

theorem decided_ofBytes {name value : Bytes} (hname : request.Has .name name)
    (hvalue : request.Has .value value) :
    request.DecidedBy [.nameGrammar, .valueGrammar] (Header.ofBytes variant name value) := by
  by_cases hlegal : Grammar.IsToken name
  · refine .pass (not_fails_nameGrammar hname hlegal) ?_
    by_cases hlegal' : Grammar.IsFieldValue value.trim
    · rw [Header.ofBytes_legal hlegal hlegal']
      exact .pass (not_fails_valueGrammar hvalue hlegal') nofun
    · rw [Header.ofBytes_illegalValue hlegal hlegal']
      refine .fail (.illegalValue hvalue (Bytes.isCore_trim value) fun hall => hlegal' ?_)
      exact Grammar.isFieldValue_iff.mpr ⟨hall, Bytes.isBare_trim value⟩
  · rw [Header.ofBytes_illegalName hlegal]
    exact .fail (.illegalName hname fun hall => hlegal (Grammar.isToken_iff.mpr hall))

theorem decided_parseBytes {line : Value} {s : Bytes} (hs : line.toBytes = .ok s) :
    (ofLine line).DecidedBy [.colon, .nameGrammar, .valueGrammar] (Header.parseBytes variant s) := by
  have hline : (ofLine line).Has .line s := .given rfl hs
  by_cases hcolon : colon ∈ s
  · obtain ⟨name, rest, hsplit⟩ := Header.exists_isSplit hcolon
    rw [Header.parseBytes_isSplit hsplit]
    refine .pass ?_ (decided_ofBytes (.name hs hsplit) (.value hs hsplit))
    rintro r (⟨⟩ | ⟨⟩ | ⟨hline', hcolon'⟩)
    exact hcolon' (hline.unique hline' ▸ hcolon)
  · rw [Header.parseBytes_of_not_mem hcolon]
    exact .fail (.noColon hline hcolon)

theorem decided_make {name value : Value} (hname : request.given? .name = some name)
    (hvalue : request.given? .value = some value) :
    request.DecidedBy [.coercion .name, .coercion .value, .nameGrammar, .valueGrammar]
      (Header.make variant name value) := by
  refine decided_coerce hname fun n hn => ?_
  refine decided_coerce hvalue fun v hv => ?_
  exact decided_ofBytes (.given hname hn) (.given hvalue hv)

theorem decided_answer (request : Request) (variant : Variant) :
    request.DecidedBy request.stages (request.answer variant) := by
  cases request with
  | ofParts name value => exact (decided_make rfl rfl).map _
  | ofBytes name value => exact (decided_make rfl rfl).map _
  | ofLine line => exact (decided_coerce rfl fun s hs => decided_parseBytes hs).map _

-- ---------------------------------------------------------------------------
-- The answer

theorem answer_ok {v : Value} (h : request.answer variant = .ok v) : ∃ k, v = .header k := by
  cases request <;> obtain ⟨k, -, rfl⟩ := map_ok.mp h <;> exact ⟨k, rfl⟩

theorem Fails.records_length {r : Report} (h : request.Fails stage r) :
    r.records.length = stage.recordCount := by
  cases h <;> rfl

theorem Fails.kind {r : Report} (h : request.Fails stage r) :
    r.category = .invalidHeader ∧ r.hint = some 400 ∨ r.category = .type ∨ r.category = .value := by
  cases h with
  | unfit hv htext hf => exact .inr (Value.toBytes_error htext hf)
  | _ => exact .inl ⟨rfl, rfl⟩

/-- The answer to a request, as its stages decide it. -/
structure Answered (request : Request) (answer : Except Fault Value) : Prop where
  /-- A header exactly if no stage fails. -/
  made : (∃ h, answer = .ok (.header h)) ↔ ∀ stage ∈ request.stages, ∀ r, ¬request.Fails stage r
  /-- Else a fault, and what the first stage that fails reports is what is seen of it. -/
  refused (r : Report) : (∃ f, answer = .error f ∧ Report.ofFault f = r) ↔
    ∃ stage, FirstFailure request.Fails request.stages stage r
  /-- An invalid header, or a fault of type or range; a fault of encoding is none of them. -/
  kind {f : Fault} : answer = .error f →
    f.category = .invalidHeader ∧ f.hint = some 400 ∨ f.category = .type ∨ f.category = .value
  /-- The records of the stage that decides are logged, which is one unless it is a coercion. -/
  records {stage : Stage} {r : Report} : FirstFailure request.Fails request.stages stage r →
    logged answer = r.records ∧ (logged answer).length = stage.recordCount
  quiet {h : Header} : answer = .ok (.header h) → logged answer = []

theorem answered (request : Request) (variant : Variant) :
    request.Answered (request.answer variant) := by
  have hdecided := decided_answer request variant
  have hrefused := fun r => hdecided.error_iff (r := r) (fails_unique request)
  constructor
  · rw [← hdecided.ok_iff]
    constructor
    · rintro ⟨h, hh⟩
      exact ⟨_, hh⟩
    · rintro ⟨v, hv⟩
      obtain ⟨h, rfl⟩ := answer_ok hv
      exact ⟨h, hv⟩
  · exact hrefused
  · intro f hf
    obtain ⟨stage, hfirst⟩ := (hrefused _).mp ⟨f, hf, rfl⟩
    exact hfirst.mem.2.kind
  · intro stage r hfirst
    obtain ⟨f, hf, rfl⟩ := (hrefused r).mpr ⟨stage, hfirst⟩
    rw [hf]
    exact ⟨rfl, hfirst.mem.2.records_length⟩
  · intro h hh
    rw [hh]
    rfl

/-- Behind the colon a line goes on as the request with its two segments. -/
theorem answer_ofLine {line : Value} {s name rest : Bytes} (hs : line.toBytes = .ok s)
    (hsplit : IsSplit s name rest) (variant : Variant) :
    (ofLine line).answer variant =
      (ofParts (.bytes .plain name) (.bytes .plain rest)).answer variant := by
  have hparse : Header.parse variant line = Header.ofBytes variant name rest := by
    rw [Header.parse, Header.coerce_ok_iff.mpr hs, ← Header.parseBytes_isSplit hsplit]
    rfl
  simp only [answer, Call.make, hparse]
  rfl

/-- Behind coercion and split only the bytes of the name and the value are left of a request. -/
theorem answer_of_has {name value : Bytes} (hname : request.Has .name name)
    (hvalue : request.Has .value value) (variant : Variant) :
    request.answer variant = (Header.ofBytes variant name value).map .header := by
  cases hname with
  | given hn hns =>
    cases hvalue with
    | given hv hvs =>
      cases request with
      | ofParts n v | ofBytes n v =>
        cases hn
        cases hv
        rw [answer, Call.make, Header.make, Header.coerce_ok_iff.mpr hns,
          Header.coerce_ok_iff.mpr hvs]
        rfl
      | ofLine line => cases hn
    | value hline hsplit => cases hn
  | name hline hsplit =>
    have hrest : (ofLine _).Has .value _ := .value hline hsplit
    rw [hvalue.unique hrest, answer_ofLine hline hsplit]
    rfl

theorem not_fails_coercion_bytes (name value : Bytes) (part : Part) (r : Report) :
    ¬(ofParts (.bytes .plain name) (.bytes .plain value)).Fails (.coercion part) r := by
  cases part with
  | name => exact not_fails_coercion rfl rfl r
  | value => exact not_fails_coercion rfl rfl r
  | line => rintro (⟨hv, -⟩ | ⟨hv, -, -⟩) <;> cases hv

/-- Every request for a header is answered as the first of its stages to fail decides. A line that
has a colon is answered as the request with its two segments, whose coercion does not fail. -/
theorem answer_decided :
    (∀ request variant, Answered request (request.answer variant)) ∧
    ∀ variant line s name rest, line.toBytes = .ok s → IsSplit s name rest →
      (ofLine line).answer variant =
        (ofParts (.bytes .plain name) (.bytes .plain rest)).answer variant ∧
      ∀ part r, ¬(ofParts (.bytes .plain name) (.bytes .plain rest)).Fails (.coercion part) r :=
  ⟨answered, fun variant _ _ name rest hs hsplit =>
    ⟨answer_ofLine hs hsplit variant, not_fails_coercion_bytes name rest⟩⟩

/-- Of an alien name and a bare number as value, the name is reported. -/
example : (ofParts (.text "é") (.int 5)).answer .base = .error (.nonAsciiHeader .name) := by
  rfl

end

end Request

end StrictHttp
