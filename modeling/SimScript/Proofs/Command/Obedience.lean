import SimScript.Proofs.Command.Sanction
import SimScript.Proofs.Plan.Control
import SimScript.Proofs.Plan.Objects

/-!
# What is known of every command

A command obeys a design when it follows the design, the design asks for sanctioned
effects only, and none of a few things happens that single commands are there for: to end
scripts or look at them, to break out of scopes, to let units join groups, and to make
more than one plan.  A query obeys the plan to reply what it comes to.
-/

namespace SimScript

def Execution.renumber (exec : Execution) (id : HandleId) : Execution :=
  { exec with handle := { exec.handle with id } }

def Execution.amid (exec : Execution) (id : HandleId) (others : List Handle) (logger : Logger) :
    Execution :=
  let renumbered := exec.renumber id
  let scheduler := { exec.world.scheduler with handles := others }
  { renumbered with world := { exec.world with scheduler, logger } }

/-- How many frames remain where an effect leaves some. -/
def Effect.remaining? : Effect → Option Nat
  | .breakOut depth _ => some depth
  | _ => none

theorem CallStack.findNamed?_eq_none {stack : CallStack} {scopes : Scopes} {name : String}
    (nameless : ∀ frame ∈ stack, scopes.name? frame.scope ≠ some name) :
    stack.findNamed? scopes name = none := by
  induction stack with
  | nil => rfl
  | cons top outer induction =>
      rw [findNamed?, if_neg (nameless top List.mem_cons_self)]
      exact induction fun frame member => nameless frame (List.mem_cons_of_mem _ member)

/-- A look that is the same from any script, among any others and with any log. -/
def Unaware {α : Type} (look : Execution → α) : Prop :=
  ∀ exec id others logger, look (Execution.amid exec id others logger) = look exec

/-- A look that is the same with any scopes. -/
def Scopeless {α : Type} (look : Execution → α) : Prop :=
  ∀ exec scopes, look (Execution.withScopes exec scopes) = look exec

namespace Design

variable {exec : Execution}

def Unaware : Design → Prop
  | .plan made => SimScript.Unaware made
  | .series made => SimScript.Unaware made

def IsPlan : Design → Prop
  | .plan _ => True
  | .series _ => False

def KeepsFrames (exec : Execution) : Design → Prop
  | .plan made => ∀ site effect, (made exec site).result = .ok effect →
      effect.remaining? = none
  | .series _ => True

theorem keepsFrames_of_runs {made : Plan}
    (runs : (made exec).Runs fun effect => effect.remaining? = none) :
    (Design.plan made).KeepsFrames exec :=
  fun site => (runs.each site).yields

/-- A plan that does not look at the scopes breaks out of none: it would want the same where no
scope has a name. -/
theorem keepsFrames_of_scopeless {made : Plan} {recruits : Prop} {operands : List Value}
    (scopeless : Scopeless made)
    (sanctioned : ∀ exec, (made exec).SanctionedIf recruits exec operands) :
    (Design.plan made).KeepsFrames exec := by
  intro site effect asked
  cases effect with
  | answer | enter | suspend => rfl
  | breakOut depth value =>
      have same : (made (exec.withScopes {}) site).result = .ok (.breakOut depth value) := by
        rw [scopeless exec {}]
        exact asked
      obtain ⟨⟨name, found⟩, _⟩ := ((sanctioned (exec.withScopes {})).each site).yields _ same
      have nameless : exec.handle.stack.findNamed? {} name = none := by
        refine CallStack.findNamed?_eq_none fun frame _ => ?_
        cases scope : frame.scope <;> simp [Scopes.name?, Scopes.get?]
      exact absurd (found.symm.trans nameless) (by simp)

theorem ofQuery_keepsFrames (query : Query) : (Design.plan (.ofQuery query)).KeepsFrames exec := by
  intro site effect asked
  obtain ⟨reply, rfl⟩ := Plan.answer_of_ofQuery asked
  rfl

end Design

structure Nular.Obeys (command : Nular) (design : Design) : Prop where
  follows : command.body.Follows design
  sanctioned : ∀ exec, design.Sanctioned False exec []
  single : design.IsPlan
  unaware : design.Unaware
  keepsFrames : ∀ exec, design.KeepsFrames exec

/-- Of the commands with one operand, two look at the scripts, and one breaks out of scopes. -/
structure Unary.Obeys (command : Unary) (right : Value) (design : Design) : Prop where
  follows : (command.body right).Follows design
  sanctioned : ∀ exec, design.Sanctioned False exec [right]
  single : design.IsPlan
  unaware : command.name = "terminate" ∧ design = .plan (.terminate right) ∨
    design = .plan (.ofQuery fun exec => Command.reply (.boolean (Command.isDone exec right))) ∨
    design.Unaware
  keepsFrames : command.name = "breakOut" ∧ command.right = .string ∨
    ∀ exec, design.KeepsFrames exec

/-- Of the commands between two operands, one lets units join groups, one makes a plan for each
element of an array, and one breaks out of scopes. -/
structure Binary.Obeys (command : Binary) (left right : Value) (design : Design) : Prop where
  follows : (command.body left right).Follows design
  sanctioned : ∀ exec, design.Sanctioned (command.name = "createUnit") exec [left, right]
  single : command.name = "doMove" ∧ command.left = .array ∧ command.right = .array ∧
    design = .moveUnits left right ∨ design.IsPlan
  unaware : design.Unaware
  keepsFrames : command.name = "breakOut" ∧ command.right = .string ∨
    ∀ exec, design.KeepsFrames exec

structure CommandSet.Obeys (set : CommandSet) : Prop where
  nulars : ∀ command ∈ set.nulars, ∃ design, command.Obeys design
  unaries : ∀ command ∈ set.unaries, ∀ right, ∃ design, command.Obeys right design
  binaries : ∀ command ∈ set.binaries, ∀ left right, ∃ design, command.Obeys left right design

namespace Command

variable {name : String} {type other : ValueType}

theorem ofQuery_unaware {query : Query} (unaware : Unaware query) :
    (Design.plan (.ofQuery query)).Unaware := by
  intro exec id others logger
  rw [Plan.ofQuery, unaware]
  rfl

theorem nular_obeys {query : Query} (offers : ∀ exec, (query exec).Offers exec [])
    (unaware : Unaware query) : ∃ design, (nular name query).Obeys design :=
  ⟨.plan (.ofQuery query),
    { follows := ask_follows query
      sanctioned := fun exec => Plan.ofQuery_sanctioned (offers exec)
      single := trivial
      unaware := ofQuery_unaware unaware
      keepsFrames := fun _ => Design.ofQuery_keepsFrames query }⟩

theorem unary_obeys {query : Value → Query} {right : Value}
    (offers : ∀ exec, (query right exec).Offers exec [right])
    (unaware : Unaware (query right)) : ∃ design, (unary name type query).Obeys right design :=
  ⟨.plan (.ofQuery (query right)),
    { follows := ask_follows (query right)
      sanctioned := fun exec => Plan.ofQuery_sanctioned (offers exec)
      single := trivial
      unaware := .inr (.inr (ofQuery_unaware unaware))
      keepsFrames := .inr fun _ => Design.ofQuery_keepsFrames (query right) }⟩

theorem binary_obeys {query : Value → Value → Query} {left right : Value}
    (offers : ∀ exec, (query left right exec).Offers exec [left, right])
    (unaware : Unaware (query left right)) :
    ∃ design, (binary name type other query).Obeys left right design :=
  ⟨.plan (.ofQuery (query left right)),
    { follows := ask_follows (query left right)
      sanctioned := fun exec => Plan.ofQuery_sanctioned (offers exec)
      single := .inr trivial
      unaware := ofQuery_unaware unaware
      keepsFrames := .inr fun _ => Design.ofQuery_keepsFrames (query left right) }⟩

theorem unary_obeys_plan {body : Value → Command} {right : Value} {made : Plan}
    (follows : (body right).Follows (.plan made))
    (sanctioned : ∀ exec, (made exec).Sanctioned exec [right]) (unaware : Unaware made)
    (scopeless : Scopeless made) : ∃ design, (Unary.mk name type body).Obeys right design :=
  ⟨.plan made,
    { follows
      sanctioned
      single := trivial
      unaware := .inr (.inr unaware)
      keepsFrames := .inr fun _ => Design.keepsFrames_of_scopeless scopeless sanctioned }⟩

theorem binary_obeys_plan {body : Value → Value → Command} {left right : Value} {made : Plan}
    (follows : (body left right).Follows (.plan made))
    (sanctioned : ∀ exec, (made exec).Sanctioned exec [left, right]) (unaware : Unaware made)
    (scopeless : Scopeless made) :
    ∃ design, (Binary.mk name type other body).Obeys left right design :=
  ⟨.plan made,
    { follows
      sanctioned := fun exec => Design.Sanctioned.widen (sanctioned exec)
      single := .inr trivial
      unaware
      keepsFrames := .inr fun _ => Design.keepsFrames_of_scopeless scopeless sanctioned }⟩

theorem createUnit_obeys_plan {body : Value → Value → Command} {left right : Value} {made : Plan}
    (follows : (body left right).Follows (.plan made))
    (sanctioned : ∀ exec, (made exec).SanctionedIf True exec [left, right])
    (unaware : Unaware made) (scopeless : Scopeless made) :
    ∃ design, (Binary.mk "createUnit" type other body).Obeys left right design :=
  ⟨.plan made,
    { follows
      sanctioned := fun exec => by
        change (made exec).SanctionedIf _ exec [left, right]
        simpa using sanctioned exec
      single := .inr trivial
      unaware
      keepsFrames := .inr fun _ => Design.keepsFrames_of_scopeless scopeless sanctioned }⟩

end Command

end SimScript
