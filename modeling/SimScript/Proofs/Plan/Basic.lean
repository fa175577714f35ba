import SimScript.Execution.Step
import SimScript.Proofs.Plan.Effect
import SimScript.Proofs.Work.Basic

/-!
# Plans

A plan makes all its checks first and then asks for one effect, so what it gives up has
changed nothing.  Commands check and change in whatever order suits them.  A command that
follows a plan comes to the same as the plan, events, answer and all, and so gives nothing
up once it has changed something.
-/

namespace SimScript

/-- Checks that look at the execution, and the effect that they admit. -/
abbrev Plan := Execution → Report Effect

/-- What a command comes to. -/
inductive Design where
  /-- One plan, whose effect is carried out. -/
  | plan (plan : Plan)
  /-- Several plans, each made once the effect of the one before it has been carried out; the
  reply is nil.  Where one of them is given up, the effects of those before it remain. -/
  | series (plans : Execution → Report (List Plan))

namespace Plan

def change (change : Change) : Report Effect :=
  pure (.answer change (.value .nil))

def nothing : Report Effect :=
  change .nothing

def fail (fault : Fault) : Report Effect := do
  Report.raise fault
  nothing

def ofQuery (query : Query) : Plan := fun exec => do
  return .answer .nothing (← query exec)

theorem answer_of_ofQuery {query : Query} {exec : Execution} {site : Site} {effect : Effect}
    (asked : (ofQuery query exec site).result = .ok effect) :
    ∃ reply, effect = .answer .nothing reply := by
  cases replied : (query exec site).result with
  | error abort =>
      rw [ofQuery, Report.bind_of_error replied] at asked
      cases asked
  | ok reply =>
      rw [ofQuery, Report.bind_of_ok replied] at asked
      exact ⟨reply, (Except.ok.inj asked).symm⟩

end Plan

namespace Execution

/-- Makes a plan and carries out its effect. -/
def follow (plan : Plan) (exec : Execution) : Report Execution := do
  let effect ← plan exec
  return effect.perform exec

/-- Makes plans one after the other, and carries out what each asks for, without a reply. -/
def followAll (exec : Execution) : List Plan → Outcome
  | [] => (⟨.ok (), []⟩, exec.pushOperand .nil)
  | plan :: plans =>
      let (first, after) := exec.attempt fun exec => do
        return (← plan exec).changed exec
      match first.result with
      | .error _ => (first, after)
      | .ok _ =>
          let (rest, last) := after.followAll plans
          (⟨rest.result, first.events ++ rest.events⟩, last)

def fulfil (exec : Execution) : Design → Outcome
  | .plan plan => exec.attempt (follow plan)
  | .series plans =>
      let checked := plans exec exec.site
      match checked.result with
      | .error abort => (⟨.error abort, checked.events⟩, exec)
      | .ok plans =>
          let (rest, last) := exec.followAll plans
          (⟨rest.result, checked.events ++ rest.events⟩, last)

/-- What a command comes to that has asked for an effect: where that was given up, everything is as
it was. -/
def conclude (exec : Execution) (asked : Checked Effect) : Checked Command.Answer × Execution :=
  match asked.result with
  | .ok effect => (⟨.ok effect.ending, asked.events⟩, effect.changed exec)
  | .error abort => (⟨.error abort, asked.events⟩, exec)

end Execution

namespace Command

/-- A command that comes to what a design says, whenever it is carried out. -/
def Follows (command : Command) (design : Design) : Prop :=
  ∀ exec : Execution, exec.carryOut command = exec.fulfil design

/-- A command that comes to the effect that is asked for, in one execution. -/
def Meets (exec : Execution) (command : Command) (asked : Report Effect) : Prop :=
  ∀ site, command site exec = exec.conclude (asked site)

variable {exec : Execution} {command : Command}

theorem follows_of_meets {plan : Plan} (meets : ∀ exec, command.Meets exec (plan exec)) :
    command.Follows (.plan plan) := by
  intro exec
  rw [Execution.carryOut, meets exec exec.site, Execution.fulfil, Execution.attempt,
    Execution.follow]
  cases asked : (plan exec exec.site).result with
  | error abort =>
      rw [Report.bind_of_error asked, Execution.conclude, asked]
  | ok effect =>
      rw [Report.bind_of_ok asked, Execution.conclude, asked]
      simp [Report.pure_apply, Effect.perform]

namespace Meets

variable {α : Type} {asked : Report Effect}

theorem congr {other : Command} (same : ∀ site, command site exec = other site exec)
    (meets : other.Meets exec asked) : command.Meets exec asked :=
  fun site => (same site).trans (meets site)

theorem check {report : Report α} {next : α → Command} {plan : α → Report Effect}
    (meets : ∀ value, (next value).Meets exec (plan value)) :
    Meets exec (do next (← report)) (report >>= plan) := by
  intro site
  cases checked : report site with
  | mk result events =>
    have worked : (liftM report : Work Execution α) site exec = (⟨result, events⟩, exec) := by
      rw [Work.lift_apply, checked]
    cases result with
    | error abort =>
        rw [Report.bind_of_error (by rw [checked]), Work.bind_of_error worked, checked]
        rfl
    | ok value =>
        rw [Report.bind_of_ok (by rw [checked]), Work.bind_of_ok worked, checked,
          meets value (site.after events)]
        simp only [Execution.conclude]
        split <;> rfl

theorem look {next : Execution → Command} (meets : (next exec).Meets exec asked) :
    Meets exec (do next (← get)) asked := by
  intro site
  rw [Work.bind_of_silent (Work.get_apply site exec), meets site]

/-- Work on a part of the execution that changes nothing where it is given up may be rehearsed. -/
theorem rehearse {τ : Type} {part : Execution → τ} {put : τ → Execution → Execution}
    {work : Work τ α} {next : α → Command} {plan : α × τ → Report Effect}
    (givenUp : ∀ site abort events after,
      work site (part exec) = (⟨.error abort, events⟩, after) → put after exec = exec)
    (goesOn : ∀ site value events after, work site (part exec) = (⟨.ok value, events⟩, after) →
      ∀ site, next value site (put after exec) = exec.conclude (plan (value, after) site)) :
    Meets exec (Work.onPart part put work >>= next) (work.rehearse (part exec) >>= plan) := by
  intro site
  cases worked : work site (part exec) with
  | mk checked after =>
    obtain ⟨result, events⟩ := checked
    have done : Work.onPart part put work site exec = (⟨result, events⟩, put after exec) := by
      rw [Work.onPart, worked]
    have rehearsed : work.rehearse (part exec) site =
        ⟨result.map fun value => (value, after), events⟩ := by
      rw [Work.rehearse, worked]
    cases result with
    | error abort =>
        rw [Work.bind_of_error done, Report.bind_of_error (by rw [rehearsed]; rfl), rehearsed,
          givenUp site abort events after worked]
        rfl
    | ok value =>
        rw [Work.bind_of_ok done, Report.bind_of_ok (by rw [rehearsed]; rfl), rehearsed,
          goesOn site value events after worked]
        simp only [Execution.conclude]
        split <;> rfl

theorem done {effect : Effect}
    (same : ∀ site, command site exec = (⟨.ok effect.ending, []⟩, effect.changed exec)) :
    Meets exec command (pure effect) :=
  same

theorem ite {condition : Prop} [Decidable condition] {first second : Command}
    {planned other : Report Effect} (holds : condition → first.Meets exec planned)
    (fails : ¬condition → second.Meets exec other) :
    Meets exec (if condition then first else second) (if condition then planned else other) := by
  split
  case isTrue choice => exact holds choice
  case isFalse choice => exact fails choice

end Meets

theorem ask_follows (query : Query) : (ask query).Follows (.plan (Plan.ofQuery query)) :=
  follows_of_meets fun _ => .look (.check fun _ => .done fun _ => rfl)

end Command

end SimScript
