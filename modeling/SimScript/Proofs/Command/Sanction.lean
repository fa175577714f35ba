import SimScript.Proofs.Command.Requests
import SimScript.Proofs.Plan.Basic
import SimScript.Proofs.Scalar.Order
import SimScript.Store.Reach

/-!
# What commands ask for

What all commands have in common is what their plans ask for.  An effect is sanctioned
when it hands on only values that the command was given or found in an array, enters
only code of the store, and writes into an array nothing that already leads back to it.
Every command of the table follows plans that are graded and ask for sanctioned effects
only; the modules next to this one say so command by command.
-/

namespace SimScript

/-- A value that names neither an array nor an object. -/
def Value.isPlain : Value → Bool
  | .array _ | .object _ => false
  | _ => true

/-- A reference that can be found among the objects, as a value. -/
def Store.Mentions (store : Store) (value : Value) : Prop :=
  ∃ ref, value = .object ref ∧ store.objects.Mentions ref

/-- A value that a command can lay hands on: one that names nothing, one that is found among the
objects, an operand, or an element of some array. -/
def Value.Held (store : Store) (operands : List Value) (value : Value) : Prop :=
  value.isPlain = true ∨ store.Mentions value ∨ value ∈ operands ∨ ∃ cell, value ∈ store.items cell

def Store.Supplies (store : Store) (code : CodeBlock) : Prop :=
  ∃ value, code = store.codeOf value

namespace FrameKind

def codes : FrameKind → List CodeBlock
  | .whileLoop condition body _ => [condition, body]
  | .forLoop _ _ _ _ body _ => [body]
  | .forEach _ _ body => [body]
  | .waitUntil condition _ => [condition]
  | .block | .exitWith | .isNil => []

/-- Whether a loop waits between its rounds. -/
def waits : FrameKind → Bool
  | .waitUntil _ _ => true
  | .block | .exitWith | .isNil => false
  | .whileLoop _ _ _ | .forLoop _ _ _ _ _ _ | .forEach _ _ _ => false

/-- Whether a loop looks at what its condition has left when it goes on. -/
def awaits : FrameKind → Bool
  | .whileLoop _ _ phase | .waitUntil _ phase => phase == .condition
  | .block | .exitWith | .isNil => false
  | .forLoop _ _ _ _ _ _ | .forEach _ _ _ => false

def items : FrameKind → List Value
  | .forEach items _ _ => items
  | .whileLoop _ _ _ | .forLoop _ _ _ _ _ _ | .waitUntil _ _ => []
  | .block | .exitWith | .isNil => []

end FrameKind

/-- A reply that hands on only values at hand. -/
def Reply.Sanctioned (holds : Value → Prop) : Reply → Prop
  | .value given | .copy given => holds given
  | .array items => ∀ item ∈ items, holds item
  | .config _ => True

/-- What the new elements of an array must satisfy: none of them leads back to the
array, unless it was an element before. -/
def Store.Admits (store : Store) (cell : CellId) (items : Array Value) : Prop :=
  ∀ item ∈ items, item ∈ store.items cell ∨ store.wouldRecurse cell item = false

/-- A change that hands on only values and code at hand; `recruits` says whether a new unit may join
a group. -/
def Change.Sanctioned (holds : Value → Prop) (supplies : CodeBlock → Prop) (recruits : Prop)
    (exec : Execution) : Change → Prop
  | .write cell items =>
      (∀ item ∈ items, holds item) ∧ exec.world.store.Admits cell items
  | .spawn code bindings => supplies code ∧ ∀ binding ∈ bindings, holds binding.2
  | .terminate id => id ≠ exec.handle.id
  | .updateObjects updates =>
      exec.world.store.objects.Permits (fun ref => holds (.object ref)) updates
  | .createObject kind data group => data.Bare ∧ (group.isSome = true → recruits ∧ kind = .unit)
  | .network table => exec.world.network.Asked table
  | _ => True

/-- The frames that may be entered: loops come without code of their own, the
environment is the current one or a stricter one, a loop that waits is entered only
where a script may suspend, and none begins with what its condition has left. -/
structure FrameKind.Enterable (holds : Value → Prop) (supplies : CodeBlock → Prop)
    (exec : Execution) (kind : FrameKind) (code : CodeBlock) (environment : Environment)
    (bindings : Bindings) : Prop where
  supplied : ∀ block ∈ code :: kind.codes, supplies block
  held : ∀ item ∈ kind.items, holds item
  bound : ∀ binding ∈ bindings, holds binding.2
  loops : kind.isController = true → code = []
  inherits : environment = exec.environment ∨ environment = .unscheduled
  waits : kind.waits = true →
    exec.world.settings.allowSuspension = true ∧ environment = .scheduled
  begins : kind.awaits = false

/-- What a script may wait for: the next turn, or the time after some delay. -/
def WakeCondition.IsAhead (now : Float) : WakeCondition → Prop
  | .nextTurn => True
  | .at time => ∃ delay, Scalar.IsTime delay ∧ time = now + delay

/-- An effect that may be asked for where some values and some code are at hand. -/
def Effect.Sanctioned (holds : Value → Prop) (supplies : CodeBlock → Prop) (recruits : Prop)
    (exec : Execution) : Effect → Prop
  | .answer change reply =>
      change.Sanctioned holds supplies recruits exec ∧
        reply.Sanctioned fun value => holds value ∨ change.Makes exec value
  | .enter kind code environment bindings =>
      kind.Enterable holds supplies exec code environment bindings
  | .breakOut depth value =>
      (∃ name, exec.handle.stack.findNamed? exec.world.scopes name = some depth) ∧ holds value
  | .suspend wake => exec.canSuspend = true ∧ wake.IsAhead exec.world.now

section Weakening

variable {holds knows : Value → Prop} {supplies provides : CodeBlock → Prop}
  {recruits enlists : Prop} {exec : Execution}

theorem Reply.Sanctioned.mono {reply : Reply} (values : ∀ value, holds value → knows value)
    (sanctioned : reply.Sanctioned holds) : reply.Sanctioned knows := by
  cases reply with
  | value given => exact values _ sanctioned
  | copy given => exact values _ sanctioned
  | array items => exact fun item member => values _ (sanctioned item member)
  | config given => trivial

theorem Change.Sanctioned.mono {change : Change} (values : ∀ value, holds value → knows value)
    (codes : ∀ code, supplies code → provides code) (joins : recruits → enlists)
    (sanctioned : change.Sanctioned holds supplies recruits exec) :
    change.Sanctioned knows provides enlists exec := by
  cases change with
  | write cell items =>
      exact ⟨fun item member => values _ (sanctioned.1 item member), sanctioned.2⟩
  | spawn code bindings =>
      exact ⟨codes _ sanctioned.1, fun binding member => values _ (sanctioned.2 binding member)⟩
  | terminate id => exact sanctioned
  | updateObjects updates => exact ObjectTable.Permits.mono (fun ref => values _) sanctioned
  | createObject kind data group =>
      exact ⟨sanctioned.1, fun given => (sanctioned.2 given).imp_left joins⟩
  | network table => exact sanctioned
  | _ => trivial

theorem Effect.Sanctioned.mono {effect : Effect} (values : ∀ value, holds value → knows value)
    (codes : ∀ code, supplies code → provides code) (joins : recruits → enlists)
    (sanctioned : effect.Sanctioned holds supplies recruits exec) :
    effect.Sanctioned knows provides enlists exec := by
  cases effect with
  | answer change reply =>
      exact ⟨sanctioned.1.mono values codes joins, sanctioned.2.mono fun _ => .imp_left (values _)⟩
  | enter kind code environment bindings =>
      exact
        { supplied := fun block member => codes _ (sanctioned.supplied block member)
          held := fun item member => values _ (sanctioned.held item member)
          bound := fun binding member => values _ (sanctioned.bound binding member)
          loops := sanctioned.loops
          inherits := sanctioned.inherits
          waits := sanctioned.waits
          begins := sanctioned.begins }
  | breakOut depth value => exact ⟨sanctioned.1, values _ sanctioned.2⟩
  | suspend wake => exact sanctioned

end Weakening

/-- Graded work that asks for sanctioned effects only, with what a command has at hand. -/
def Report.SanctionedIf (recruits : Prop) (exec : Execution) (operands : List Value)
    (work : Report Effect) : Prop :=
  work.Runs (Effect.Sanctioned (Value.Held exec.world.store operands) exec.world.store.Supplies
    recruits exec)

/-- The same of work by which nobody joins a group. -/
def Report.Sanctioned (exec : Execution) (operands : List Value) (work : Report Effect) :
    Prop :=
  work.SanctionedIf False exec operands

/-- An effect that changes objects at most, and leaves everyone where they are. -/
inductive Effect.OnlyObjects : Effect → Prop where
  | nothing (reply : Reply) : OnlyObjects (.answer .nothing reply)
  | update {updates : List (ObjectRef × (ObjectData → ObjectData))}
      (inert : ∀ update ∈ updates, ObjectData.Inert update.2) (reply : Reply) :
      OnlyObjects (.answer (.updateObjects updates) reply)

/-- A design that is graded and asks for sanctioned effects only.  Plans that are made one after
the other see what the ones before them did; they change objects only. -/
def Design.Sanctioned (recruits : Prop) (exec : Execution) (operands : List Value) :
    Design → Prop
  | .plan made => (made exec).SanctionedIf recruits exec operands
  | .series made =>
      (made exec).Runs fun plans =>
        ∀ each ∈ plans, ∀ later, (each later).Runs Effect.OnlyObjects

/-- A graded query that replies only values that a command has at hand. -/
def Report.Offers (exec : Execution) (operands : List Value) (work : Report Reply) : Prop :=
  work.Runs (Reply.Sanctioned (Value.Held exec.world.store operands))

namespace Value

variable {store : Store} {operands : List Value} {value : Value}

theorem asArray?_of_isPlain (plain : value.isPlain = true) : value.asArray? = none := by
  cases value <;> first | rfl | simp [isPlain] at plain

theorem Held.ofPlain (plain : value.isPlain = true) : value.Held store operands :=
  .inl plain

theorem Held.ofMentioned {ref : ObjectRef} (mentioned : store.objects.Mentions ref) :
    Value.Held store operands (.object ref) :=
  .inr (.inl ⟨ref, rfl, mentioned⟩)

theorem Held.ofOperand (member : value ∈ operands) : value.Held store operands :=
  .inr (.inr (.inl member))

theorem Held.ofItem {cell : CellId} (member : value ∈ store.items cell) :
    value.Held store operands :=
  .inr (.inr (.inr ⟨cell, member⟩))

theorem Held.ofItemsOf {array : Value} (member : value ∈ store.itemsOf array) :
    value.Held store operands := by
  unfold Store.itemsOf at member
  split at member
  · exact .ofItem (Array.mem_toList_iff.mp member)
  · simp at member

theorem held_nil : Value.nil.Held store operands := .ofPlain rfl

end Value

theorem Design.Sanctioned.widen {recruits : Prop} {exec : Execution} {operands : List Value}
    {design : Design} (sanctioned : design.Sanctioned False exec operands) :
    design.Sanctioned recruits exec operands := by
  cases design with
  | plan made =>
      exact Report.Runs.mono sanctioned fun effect asked =>
        asked.mono (fun _ => id) (fun _ => id) False.elim
  | series made => exact sanctioned

namespace Plan

variable {exec : Execution} {operands : List Value} {recruits : Prop}

theorem answer_sanctioned {asked : Change} {given : Reply}
    (sanctioned : asked.Sanctioned (Value.Held exec.world.store operands)
      exec.world.store.Supplies recruits exec)
    (held : given.Sanctioned (Value.Held exec.world.store operands)) :
    Report.SanctionedIf recruits exec operands (pure (.answer asked given)) :=
  .pure ⟨sanctioned, held.mono fun _ => .inl⟩

theorem change_sanctioned {asked : Change}
    (sanctioned : asked.Sanctioned (Value.Held exec.world.store operands)
      exec.world.store.Supplies recruits exec) :
    (change asked).SanctionedIf recruits exec operands :=
  answer_sanctioned sanctioned Value.held_nil

theorem nothing_sanctioned : nothing.SanctionedIf recruits exec operands :=
  change_sanctioned trivial

theorem fail_sanctioned (fault : Fault) (unreserved : Message.isReserved fault = false) :
    (fail fault).SanctionedIf recruits exec operands :=
  .after (.raise _ trivial unreserved) fun _ => nothing_sanctioned

theorem ofQuery_sanctioned {query : Query} (offers : (query exec).Offers exec operands) :
    (ofQuery query exec).SanctionedIf recruits exec operands :=
  .bind offers fun _ held => answer_sanctioned trivial held

end Plan

namespace Command

variable {exec : Execution} {operands : List Value}

theorem reply_offers {value : Value} (held : value.Held exec.world.store operands) :
    (reply value).Offers exec operands :=
  .pure held

theorem replyArray_offers {items : List Value}
    (held : ∀ item ∈ items, item.Held exec.world.store operands) :
    (replyArray items).Offers exec operands :=
  .pure held

theorem nothing_offers : nothing.Offers exec operands :=
  reply_offers Value.held_nil

theorem failWith_offers (fault : Fault) {value : Value}
    (held : value.Held exec.world.store operands)
    (unreserved : Message.isReserved fault = false) :
    (failWith fault value).Offers exec operands :=
  .after (.raise _ trivial unreserved) fun _ => reply_offers held

theorem fail_offers (fault : Fault) (unreserved : Message.isReserved fault = false) :
    (fail fault).Offers exec operands :=
  failWith_offers fault Value.held_nil unreserved

theorem held_argument {items : List Value}
    (held : ∀ item ∈ items, item.Held exec.world.store operands) (place : Nat) :
    (argument items place).Held exec.world.store operands := by
  unfold argument
  cases found : items[place]? with
  | none => exact Value.held_nil
  | some item => exact held item (List.mem_of_getElem? found)

theorem held_countOrMinusOne (position : Option Nat) :
    (countOrMinusOne position).Held exec.world.store operands := by
  cases position <;> exact .ofPlain rfl

end Command

end SimScript
