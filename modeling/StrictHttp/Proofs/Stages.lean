/-!
# Stages that may fail

A stage is an `Except`. The success of stages in sequence is the success of each, and mapping over a
stage changes its result and not its success.

Beside that stands the rule by which the stages of a procedure decide its outcome. `FirstFailure`
names the stage that decides, whatever the stages behind it would do, and `Decided` says that the
outcome is what this stage reports, or a success if there is none.
-/

namespace StrictHttp

theorem bind_ok {x : Except ε α} {f : α → Except ε β} :
    x >>= f = .ok b ↔ ∃ a, x = .ok a ∧ f a = .ok b := by
  cases x <;> simp [bind, Except.bind]

theorem pure_ok {a b : α} : (pure a : Except ε α) = .ok b ↔ a = b := by
  simp [pure, Except.pure]

theorem map_ok {x : Except ε α} {f : α → β} : x.map f = .ok b ↔ ∃ a, x = .ok a ∧ f a = b := by
  cases x <;> simp [Except.map]

-- ---------------------------------------------------------------------------
-- The stage that decides

/-- The stage is the first of the list that fails, and this is its report. -/
inductive FirstFailure (fails : σ → ρ → Prop) : List σ → σ → ρ → Prop where
  | here {stage report rest} : fails stage report → FirstFailure fails (stage :: rest) stage report
  | later {stage rest failing report} : (∀ r, ¬fails stage r) →
      FirstFailure fails rest failing report → FirstFailure fails (stage :: rest) failing report

section
variable {fails : σ → ρ → Prop} {stages : List σ} {stage : σ} {r : ρ}

theorem FirstFailure.mem (h : FirstFailure fails stages stage r) :
    stage ∈ stages ∧ fails stage r := by
  induction h with
  | here h => exact ⟨List.mem_cons_self, h⟩
  | later _ _ ih => exact ⟨List.mem_cons_of_mem _ ih.1, ih.2⟩

/-- Where each stage has one report at most, so has the whole. -/
theorem FirstFailure.report_unique {r' : ρ}
    (hfails : ∀ stage r r', fails stage r → fails stage r' → r = r')
    (h : FirstFailure fails stages stage r) {stage' : σ}
    (h' : FirstFailure fails stages stage' r') : r = r' := by
  induction h with
  | here h =>
    cases h' with
    | here h' => exact hfails _ _ _ h h'
    | later hnone _ => exact (hnone _ h).elim
  | later hnone _ ih =>
    cases h' with
    | here h' => exact (hnone _ h').elim
    | later _ h' => exact ih h'

theorem FirstFailure.append {rest : List σ} (h : FirstFailure fails stages stage r) :
    FirstFailure fails (stages ++ rest) stage r := by
  induction h with
  | here h => exact .here h
  | later hnone _ ih => exact .later hnone ih

/-- The outcome is a success if none of the stages fails, and else the fault that the first of them
to fail reports. -/
def Decided (fails : σ → ρ → Prop) (report : ε → ρ) (stages : List σ) : Except ε α → Prop
  | .ok _ => ∀ stage ∈ stages, ∀ r, ¬fails stage r
  | .error f => ∃ stage, FirstFailure fails stages stage (report f)

namespace Decided

variable {report : ε → ρ} {e : Except ε α}

theorem pass (hstage : ∀ r, ¬fails stage r) (h : Decided fails report stages e) :
    Decided fails report (stage :: stages) e := by
  cases e with
  | ok a => exact List.forall_mem_cons.mpr ⟨hstage, h⟩
  | error f =>
    obtain ⟨failing, hfirst⟩ := h
    exact ⟨failing, .later hstage hfirst⟩

theorem fail {f : ε} (h : fails stage (report f)) :
    Decided fails report (stage :: stages) (.error f : Except ε α) :=
  ⟨stage, .here h⟩

theorem map (h : Decided fails report stages e) (g : α → β) :
    Decided fails report stages (e.map g) := by
  cases e with
  | ok a => exact h
  | error f => exact h

/-- Stages of which none fails leave the outcome to those behind them. -/
theorem pass_all (hstages : ∀ stage ∈ stages, ∀ r, ¬fails stage r) {rest : List σ}
    (h : Decided fails report rest e) : Decided fails report (stages ++ rest) e := by
  induction stages with
  | nil => exact h
  | cons stage stages ih =>
    obtain ⟨hstage, hstages⟩ := List.forall_mem_cons.mp hstages
    exact (ih hstages).pass hstage

theorem bind (h : Decided fails report stages e) {rest : List σ} {next : α → Except ε β}
    (hnext : ∀ a, Decided fails report rest (next a)) :
    Decided fails report (stages ++ rest) (e >>= next) := by
  cases e with
  | ok a => exact (hnext a).pass_all h
  | error f =>
    obtain ⟨stage, hfirst⟩ := h
    exact ⟨stage, hfirst.append⟩

theorem ok_iff (h : Decided fails report stages e) :
    (∃ a, e = .ok a) ↔ ∀ stage ∈ stages, ∀ r, ¬fails stage r := by
  cases e with
  | ok a => exact ⟨fun _ => h, fun _ => ⟨a, rfl⟩⟩
  | error f =>
    obtain ⟨failing, hfirst⟩ := h
    constructor
    · rintro ⟨a, ha⟩
      cases ha
    · intro hnone
      exact (hnone failing hfirst.mem.1 _ hfirst.mem.2).elim

theorem error_iff (hfails : ∀ stage r r', fails stage r → fails stage r' → r = r')
    (h : Decided fails report stages e) :
    (∃ f, e = .error f ∧ report f = r) ↔ ∃ stage, FirstFailure fails stages stage r := by
  cases e with
  | ok a =>
    constructor
    · rintro ⟨f, hf, -⟩
      cases hf
    · rintro ⟨stage, hfirst⟩
      exact (h stage hfirst.mem.1 _ hfirst.mem.2).elim
  | error f =>
    obtain ⟨failing, hfailing⟩ := h
    constructor
    · rintro ⟨f', hf', rfl⟩
      cases hf'
      exact ⟨failing, hfailing⟩
    · rintro ⟨stage, hfirst⟩
      exact ⟨f, rfl, hfailing.report_unique hfails hfirst⟩

end Decided

end

end StrictHttp
