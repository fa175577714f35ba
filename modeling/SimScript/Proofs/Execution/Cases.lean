import SimScript.Proofs.Execution.Ending

/-!
# What one step can do

`Execution.Steps` lists the ways in which a step may go, with everything that may
change on each of them.  A step ends the handle, leaves a frame that has come to its
end, is refused by the budget, or is paid for; a step that is paid for lets a loop go
on or carries out an instruction.  What holds after every step is shown by a look at
these cases, and nobody else looks at instructions, loops or commands.
-/

namespace SimScript

/-- The script that an instruction is to end, as the operands stand. -/
def CallFrame.target? (frame : CallFrame) : Op → Option HandleId
  | .callUnary name => frame.operands.head?.bind (Command.target? name)
  | _ => none

/-- Variables of one scope may have been given values. -/
def Scopes.Declares (id : ScopeId) : Scopes → Scopes → Prop :=
  Relation.ReflTransGen fun before after =>
    ∃ name value, before.declare id name value = .ok after

/-- How work ended: without an abort in an execution with one property, and with an abort in one
with another, and then its last event demands it.  Either way no reserved message was raised. -/
structure Outcome.Comes (done failed : Execution → Prop) (outcome : Outcome) : Prop where
  closes : outcome.1.Closes
  unreserved : ∀ event ∈ outcome.1.events, event.message.isReserved = false
  done : outcome.1.result = .ok () → done outcome.2
  failed : ∀ abort, outcome.1.result = .error abort → failed outcome.2

theorem Outcome.Comes.silent {done failed : Execution → Prop} {after : Execution}
    (holds : done after) : Outcome.Comes done failed (⟨.ok (), []⟩, after) :=
  ⟨Checked.closes_of_ok rfl, by simp, fun _ => holds, by simp⟩

theorem Outcome.Comes.prepend {done failed : Execution → Prop} {outcome : Outcome}
    {events : List Event} (comes : outcome.Comes done failed)
    (unreserved : ∀ event ∈ events, event.message.isReserved = false) :
    Outcome.Comes done failed
      (⟨outcome.1.result, events ++ outcome.1.events⟩, outcome.2) :=
  ⟨comes.closes.prepend events, List.forall_mem_append.mpr ⟨unreserved, comes.unreserved⟩,
    comes.done, comes.failed⟩

theorem Outcome.Comes.unmetered {done failed : Execution → Prop} {outcome : Outcome}
    (comes : outcome.Comes done failed) :
    ∀ event ∈ outcome.1.events, event.message.reportsBudget = false :=
  fun event member => Message.reportsBudget_of_unreserved (comes.unreserved event member)

namespace Execution

/-- The operands of the frame on top and the store may have changed, and nothing else. -/
inductive Computes (exec : Execution) : Execution → Prop where
  | intro {frame : CallFrame} {outer : CallStack} (stack : exec.handle.stack = frame :: outer)
      (operands : List Value) (store : Store) :
      Computes exec ((exec.withStore store).withStack ({ frame with operands } :: outer))

/-- What an instruction may do that goes through.  Of other scripts it ends `target` at most. -/
inductive Does (exec : Execution) (target : Option HandleId) : Execution → Prop where
  | compute {after : Execution} (computed : exec.Computes after) : Does exec target after
  | assign {middle : Execution} (computed : exec.Computes middle) (name : String)
      (value : Value) :
      Does exec target (middle.withScopes
        (middle.world.scopes.assign (some middle.scope) name value true).2)
  | declare {middle : Execution} {scopes : Scopes} (computed : exec.Computes middle)
      (declared : middle.world.scopes.Declares middle.scope scopes) :
      Does exec target (middle.withScopes scopes)
  | perform {middle : Execution} {effect : Effect} (computed : exec.Computes middle)
      (sanctioned : effect.Sanctioned (fun _ => True) (fun _ => True) True middle)
      (ends : ∀ id, effect.ends? = some id → target = some id) :
      Does exec target (effect.perform middle)

/-- What a loop on top may do that goes through. -/
inductive Loops (exec : Execution) : Execution → Prop where
  | leave : Loops exec exec.leaveLoop
  | wait {kind : FrameKind} (loop : kind.isController = true) (waits : kind.waits = true)
      (begins : kind.awaits = false) : Loops exec ((exec.setLoop kind).suspend .nextTurn)
  | enter {kind : FrameKind} {scopes : Scopes} {code : CodeBlock}
      (loop : kind.isController = true)
      (declared : exec.world.scopes.Declares exec.scope scopes) :
      Loops exec (((exec.setLoop kind).withScopes scopes).enterBlock code)

def charged (exec : Execution) : Execution :=
  { exec with handle := { exec.handle with executed := exec.handle.executed + 1 } }

def placed (exec : Execution) (instruction : Instruction) (moved : CallFrame) : Execution :=
  { exec.charged.mapTop fun _ => moved with location := instruction.location }

/-- The next step is to carry out an instruction of a frame, or to let it go on as a loop. -/
structure Due (exec : Execution) (frame : CallFrame) : Prop where
  proceeds : exec.handle.terminateRequested = false
  top : exec.handle.top? = some frame
  unfinished : frame.isExhausted = false ∨ frame.kind.isController = true

/-- The next step is paid for and carries out an operation of the frame on top, which goes on as
`moved`. -/
structure CarriesOut (exec : Execution) (op : Op) (moved : CallFrame) (outer : CallStack) :
    Prop where
  paid : exec.charge? = some exec.charged
  fetches : ∃ frame instruction, exec.Due frame ∧ exec.handle.stack = frame :: outer ∧
    frame.fetch? = some (instruction, moved) ∧ instruction.op = op

/-- The ways in which a step may go. -/
inductive Steps (exec : Execution) : Outcome → Prop where
  | terminate (requested : exec.handle.terminateRequested = true) :
      Steps exec (⟨.ok (), []⟩, exec.terminate)
  | finish (outside : exec.handle.stack = []) : Steps exec (⟨.ok (), []⟩, exec.finish .nil)
  | complete {frame : CallFrame} (top : exec.handle.top? = some frame)
      (exhausted : frame.isExhausted = true) (block : frame.kind.isController = false) :
      Steps exec (⟨.ok (), []⟩, exec.complete frame)
  | refuse {frame : CallFrame} (due : exec.Due frame) (unpaid : exec.charge? = none) :
      Steps exec (⟨.error .handle,
        [⟨Fault.maximumInstructionCountReached (exec.world.settings.instructionBudget.getD 0),
          exec.location⟩]⟩, exec)
  | loop {frame : CallFrame} {outcome : Outcome} (due : exec.Due frame)
      (paid : exec.charge? = some exec.charged) (loops : frame.kind.isController = true)
      (comes : outcome.Comes exec.charged.Loops (· = exec.charged)) : Steps exec outcome
  | dispatch {frame moved : CallFrame} {instruction : Instruction} {outcome : Outcome}
      (due : exec.Due frame) (paid : exec.charge? = some exec.charged)
      (fetched : frame.fetch? = some (instruction, moved))
      (comes : outcome.Comes
        ((exec.placed instruction moved).Does (moved.target? instruction.op))
        (exec.placed instruction moved).Computes) : Steps exec outcome

/-- A step that was paid for has given something up: a loop has done nothing, and an instruction
has computed at most. -/
inductive Fails (exec : Execution) : Execution → Prop where
  | loop {frame : CallFrame} (due : exec.Due frame) (paid : exec.charge? = some exec.charged)
      (loops : frame.kind.isController = true) : Fails exec exec.charged
  | dispatch {frame moved : CallFrame} {instruction : Instruction} {after : Execution}
      (due : exec.Due frame) (paid : exec.charge? = some exec.charged)
      (fetched : frame.fetch? = some (instruction, moved))
      (computed : (exec.placed instruction moved).Computes after) : Fails exec after

/-- The ways in which a step may go, once what it gives up has been dealt with. -/
inductive Advances (exec : Execution) : Execution → Prop where
  | terminate (requested : exec.handle.terminateRequested = true) : Advances exec exec.terminate
  | finish (outside : exec.handle.stack = []) : Advances exec (exec.finish .nil)
  | complete {frame : CallFrame} (top : exec.handle.top? = some frame)
      (exhausted : frame.isExhausted = true) (block : frame.kind.isController = false) :
      Advances exec (exec.complete frame)
  | refuse {frame : CallFrame} (due : exec.Due frame) (unpaid : exec.charge? = none) :
      Advances exec exec.abandonHandle
  | loop {frame : CallFrame} {after : Execution} (due : exec.Due frame)
      (paid : exec.charge? = some exec.charged) (loops : frame.kind.isController = true)
      (done : exec.charged.Loops after) : Advances exec after
  | dispatch {frame moved : CallFrame} {instruction : Instruction} {after : Execution}
      (due : exec.Due frame) (paid : exec.charge? = some exec.charged)
      (fetched : frame.fetch? = some (instruction, moved))
      (done : (exec.placed instruction moved).Does (moved.target? instruction.op) after) :
      Advances exec after
  | giveUpStatement {failed : Execution} (given : exec.step.1.result = .error .statement)
      (fails : exec.Fails failed) : Advances exec failed.abandonStatement
  | giveUpHandle {failed : Execution} (fails : exec.Fails failed) :
      Advances exec failed.abandonHandle

end Execution

theorem Report.Runs.and {α : Type} {first second : α → Prop} {work : Report α}
    (runs : work.Runs first)
    (yields : ∀ site value, (work site).result = .ok value → second value) :
    work.Runs fun value => first value ∧ second value := by
  refine ⟨fun site => ?_, runs.blind⟩
  obtain ⟨graded, closes, values, unreserved⟩ := runs.each site
  exact ⟨graded, closes, fun value result => ⟨values value result, yields site value result⟩,
    unreserved⟩

/-- A grave message aborts, so it does not matter what would come after it. -/
theorem Report.Runs.giveUp {α : Type} {post : α → Prop} {message : Message} {abort : Abort}
    {fallback : α} (grave : Abort.forSeverity message.severity = some abort)
    (unreserved : message.isReserved = false) :
    (Report.recover message fallback).Runs post := by
  have never : (Report.raise message).Runs fun _ => False := .abort grave unreserved
  exact never.bind fun _ impossible => impossible.elim

namespace Execution

variable {exec middle after : Execution} {frame : CallFrame} {outer : CallStack}
  {name : String} {target : Option HandleId}

theorem attempt_comes {work : Execution → Report Execution} {done failed : Execution → Prop}
    (runs : (work exec).Runs done) (unchanged : failed exec) :
    Outcome.Comes done failed (exec.attempt work) := by
  obtain ⟨_, closes, yields, unreserved⟩ := runs.each exec.site
  unfold Execution.attempt
  cases result : (work exec exec.site).result with
  | ok after =>
      simp only [result]
      exact ⟨Checked.closes_of_ok rfl, unreserved, fun _ => yields after result, by simp⟩
  | error abort =>
      simp only [result]
      exact ⟨closes.congr result, unreserved, by simp, fun _ _ => unchanged⟩

namespace Computes

theorem refl (stack : exec.handle.stack = frame :: outer) : exec.Computes exec := by
  have same := Computes.intro stack frame.operands exec.world.store
  rwa [← stack] at same

theorem trans (first : exec.Computes middle) (second : middle.Computes after) :
    exec.Computes after := by
  obtain ⟨stack, operands, store⟩ := first
  obtain ⟨later, operands, store⟩ := second
  obtain ⟨rfl, rfl⟩ := List.cons.inj later
  exact .intro stack operands store

theorem inside (computed : exec.Computes after) :
    ∃ frame outer, after.handle.stack = frame :: outer := by
  obtain ⟨stack, operands, store⟩ := computed
  exact ⟨_, _, rfl⟩

theorem stack (computed : exec.Computes after) (before : exec.handle.stack = frame :: outer) :
    ∃ operands, after.handle.stack = { frame with operands } :: outer := by
  obtain ⟨same, operands, store⟩ := computed
  obtain ⟨rfl, rfl⟩ := List.cons.inj (before.symm.trans same)
  exact ⟨operands, rfl⟩

theorem restock (computed : exec.Computes after) (store : Store) :
    exec.Computes (after.withStore store) := by
  obtain ⟨stack, operands, _⟩ := computed
  exact .intro stack operands store

theorem pushOperand (computed : exec.Computes after) (value : Value) :
    exec.Computes (after.pushOperand value) := by
  obtain ⟨stack, operands, store⟩ := computed
  exact .intro stack (value :: operands) store

theorem give (computed : exec.Computes after) (given : Reply) :
    exec.Computes (after.give given) :=
  (computed.restock _).pushOperand _

end Computes

theorem popOperand_of_stack (stack : exec.handle.stack = frame :: outer) :
    exec.popOperand = (frame.operands.head?,
      exec.withStack ({ frame with operands := frame.operands.tail } :: outer)) := by
  have top : exec.handle.top? = some frame := by simp [Handle.top?, stack]
  unfold Execution.popOperand Execution.mapTop
  simp only [top, stack, CallFrame.pop]
  cases operands : frame.operands with
  | nil =>
      have same : { frame with operands := [] } = frame := by rw [← operands]
      simp [same]
  | cons value rest => simp

theorem dispatch_callUnary {name : String} {right : Value} {rest : List Value}
    (stack : exec.handle.stack = frame :: outer) (operands : frame.operands = right :: rest) :
    exec.dispatch (.callUnary name) =
      (exec.withStack ({ frame with operands := rest } :: outer)).callUnary name right := by
  dsimp only [dispatch]
  rw [popOperand_of_stack stack, operands]
  rfl

theorem dispatch_callBinary {name : String} {left right : Value} {rest : List Value}
    (stack : exec.handle.stack = frame :: outer)
    (operands : frame.operands = right :: left :: rest) :
    exec.dispatch (.callBinary name) =
      (exec.withStack ({ frame with operands := rest } :: outer)).callBinary name left right := by
  dsimp only [dispatch]
  rw [popOperand_of_stack stack, operands]
  dsimp only [List.head?_cons, List.tail_cons]
  rw [popOperand_of_stack rfl]
  rfl

section Commands

theorem follow_does {plan : Plan} {operands : List Value} {recruits : Prop}
    (stack : exec.handle.stack = frame :: outer)
    (sanctioned : (Design.plan plan).Sanctioned recruits exec operands)
    (ends : (Design.plan plan).EndsOnly target.toList exec) :
    (follow plan exec).Runs (exec.Does target) := by
  have asks := Report.Runs.and sanctioned ends
  refine asks.bind fun effect ⟨allowed, ending⟩ => .pure ?_
  have anything := allowed.mono (fun _ _ => trivial) (fun _ _ => trivial) fun _ => trivial
  exact .perform (.refl stack) anything fun id ended => by simpa using ending id ended

/-- Plans that change objects only compute, however many they are. -/
theorem followAll_comes {plans : List Plan}
    (only : ∀ each ∈ plans, ∀ later, (each later).Runs Effect.OnlyObjects)
    (computed : exec.Computes middle) :
    Outcome.Comes exec.Computes exec.Computes (middle.followAll plans) := by
  induction plans generalizing middle with
  | nil => exact .silent (computed.pushOperand .nil)
  | cons plan rest induction =>
      rw [followAll]
      generalize attempted : middle.attempt _ = outcome
      have first : Outcome.Comes exec.Computes exec.Computes outcome := by
        rw [← attempted]
        refine attempt_comes (.bind (only plan (by simp) middle) fun effect objects => ?_) computed
        cases objects with
        | nothing reply => exact .pure computed
        | update updates reply => exact .pure (computed.restock _)
      obtain ⟨checked, after⟩ := outcome
      dsimp only
      split
      · exact first
      case h_2 result =>
          have later := induction (fun each member => only each (by simp [member]))
            (first.done result)
          exact later.prepend first.unreserved

theorem fulfil_comes {design : Design} {operands : List Value} {recruits : Prop}
    (stack : exec.handle.stack = frame :: outer)
    (sanctioned : design.Sanctioned recruits exec operands)
    (ends : design.EndsOnly target.toList exec) :
    Outcome.Comes (exec.Does target) exec.Computes (exec.fulfil design) := by
  have unchanged : exec.Computes exec := .refl stack
  cases design with
  | plan made => exact attempt_comes (follow_does stack sanctioned ends) unchanged
  | series made =>
      obtain ⟨_, closes, yields, unreserved⟩ := Report.Runs.each sanctioned exec.site
      unfold fulfil
      dsimp only
      split
      case h_1 abort result =>
          exact ⟨closes.congr result, unreserved, by simp, fun _ _ => unchanged⟩
      case h_2 plans result =>
          have later := (followAll_comes (yields plans result) unchanged).prepend unreserved
          exact ⟨later.closes, later.unreserved, fun done => .compute (later.done done),
            later.failed⟩

theorem refuse_comes (stack : exec.handle.stack = frame :: outer) (message : Message)
    (unreserved : message.isReserved = false) :
    Outcome.Comes (exec.Does target) exec.Computes (exec.refuse message) := by
  have unchanged : exec.Computes exec := .refl stack
  exact attempt_comes (.recover message (.compute (unchanged.pushOperand .nil)) unreserved)
    unchanged

theorem report_comes (stack : exec.handle.stack = frame :: outer) (message : Message)
    (unreserved : message.isReserved = false) :
    Outcome.Comes (exec.Does target) exec.Computes
      (exec.attempt fun exec => Report.recover message exec) := by
  have unchanged : exec.Computes exec := .refl stack
  exact attempt_comes (.recover message (.compute unchanged) unreserved) unchanged

theorem callNular_comes (stack : exec.handle.stack = frame :: outer) :
    Outcome.Comes (exec.Does none) exec.Computes (exec.callNular name) := by
  rcases callNular_cases name with ⟨command, design, obeys, same⟩ | same
  · rw [same]
    exact fulfil_comes stack (obeys.sanctioned exec) obeys.endsOnly
  · rw [same]
    exact report_comes stack _ rfl

theorem callUnary_comes (stack : exec.handle.stack = frame :: outer) (right : Value) :
    Outcome.Comes (exec.Does (Command.target? name right)) exec.Computes
      (exec.callUnary name right) := by
  rcases callUnary_cases name right with
    ⟨command, design, named, _, obeys, same⟩ | ⟨message, unreserved, same⟩
  · rw [same]
    exact fulfil_comes stack (obeys.sanctioned exec) (obeys.endsOnly named)
  · rw [same]
    exact refuse_comes stack message unreserved

theorem callBinary_comes (stack : exec.handle.stack = frame :: outer) (left right : Value) :
    Outcome.Comes (exec.Does none) exec.Computes (exec.callBinary name left right) := by
  rcases callBinary_cases name left right with
    ⟨command, design, _, _, obeys, same⟩ | ⟨message, unreserved, same⟩
  · rw [same]
    exact fulfil_comes stack (obeys.sanctioned exec) obeys.endsOnly
  · rw [same]
    exact refuse_comes stack message unreserved

end Commands

section Instructions

theorem Computes.thenDoes (computed : exec.Computes middle) (done : middle.Does target after) :
    exec.Does target after := by
  cases done with
  | compute later => exact .compute (computed.trans later)
  | assign later name value => exact .assign (computed.trans later) name value
  | declare later declared => exact .declare (computed.trans later) declared
  | perform later sanctioned ends => exact .perform (computed.trans later) sanctioned ends

theorem Computes.thenComes {outcome : Outcome} (computed : exec.Computes middle)
    (comes : outcome.Comes (middle.Does target) middle.Computes) :
    outcome.Comes (exec.Does target) exec.Computes where
  closes := comes.closes
  unreserved := comes.unreserved
  done := fun result => computed.thenDoes (comes.done result)
  failed := fun abort result => computed.trans (comes.failed abort result)

theorem popAssigned_computes (stack : exec.handle.stack = frame :: outer) :
    exec.popAssigned.Runs fun assigned => exec.Computes assigned.2 := by
  unfold popAssigned
  rw [popOperand_of_stack stack]
  split
  case h_1 value after popped =>
      obtain ⟨_, rfl⟩ := Prod.mk.inj popped
      exact .pure (.intro stack _ exec.world.store)
  case h_2 => exact .recover _ (.refl stack) rfl

theorem readVariable_computes (stack : exec.handle.stack = frame :: outer) :
    (readVariable name exec).Runs exec.Computes := by
  have pushed : ∀ value, exec.Computes (exec.pushOperand value) :=
    fun value => (Computes.refl stack).pushOperand value
  unfold readVariable
  split
  · exact .pure (pushed _)
  · exact .recover _ (pushed _) rfl

theorem assignVariable_does (stack : exec.handle.stack = frame :: outer) :
    (assignVariable name exec).Runs (exec.Does none) := by
  refine .bind (popAssigned_computes stack) fun (value, popped) computed => ?_
  exact .pure (.assign computed name value)

theorem assignLocal_does (stack : exec.handle.stack = frame :: outer) :
    (assignLocal name exec).Runs (exec.Does none) := by
  refine .bind (popAssigned_computes stack) fun (value, popped) computed => ?_
  dsimp only
  split
  case h_1 scopes declared =>
      exact .pure (.declare computed (.single ⟨name, value, declared⟩))
  case h_2 => exact .giveUp rfl rfl

theorem makeArray_computes {count : Nat} (stack : exec.handle.stack = frame :: outer) :
    (makeArray count exec).Runs exec.Computes := by
  have top : exec.handle.top? = some frame := by simp [Handle.top?, stack]
  unfold makeArray
  split
  case h_1 items dropped popped =>
      rw [top, Option.bind_some, CallFrame.popMany?] at popped
      split at popped
      · simp at popped
      obtain ⟨rfl, rfl⟩ := Prod.mk.inj (Option.some.inj popped)
      have taken : exec.Computes
          (exec.withStack ({ frame with operands := frame.operands.drop count } :: outer)) :=
        .intro stack _ exec.world.store
      refine .pure ?_
      rw [mapTop_withStore]
      simpa only [Execution.mapTop, stack] using (taken.restock _).pushOperand _
  case h_2 => exact .giveUp rfl rfl

theorem dispatch_comes {op : Op} (stack : exec.handle.stack = frame :: outer) :
    Outcome.Comes (exec.Does (frame.target? op)) exec.Computes (exec.dispatch op) := by
  have unchanged : exec.Computes exec := .refl stack
  have popped := popOperand_of_stack stack
  cases op with
  | push value => exact .silent (.compute (unchanged.give (.copy value)))
  | endStatement =>
      have cleared := Computes.intro stack [] exec.world.store
      simpa only [dispatch, Execution.mapTop, stack] using
        (.silent (.compute cleared) : Outcome.Comes _ exec.Computes _)
  | getVariable name =>
      exact attempt_comes ((readVariable_computes stack).mono fun _ => .compute) unchanged
  | assignTo name => exact attempt_comes (assignVariable_does stack) unchanged
  | assignToLocal name => exact attempt_comes (assignLocal_does stack) unchanged
  | makeArray count =>
      exact attempt_comes ((makeArray_computes stack).mono fun _ => .compute) unchanged
  | callNular name => exact callNular_comes stack
  | callUnary name =>
      simp only [dispatch, CallFrame.target?, popped]
      cases operands : frame.operands with
      | nil =>
          -- The missing operand is reported weakly, so the call goes on with nil.
          have missing : Outcome.Comes (exec.Does none) exec.Computes
              (exec.attempt fun exec =>
                Report.recover (Fault.noValueFoundForRightArgument name .weak) exec) :=
            report_comes stack _ rfl
          have called :
              Outcome.Comes (exec.Does none) exec.Computes (exec.callUnary name .nil) := by
            have nobody : Command.target? name .nil = none := by
              simp [Command.target?, Command.handleOf?]
            rw [← nobody]
            exact callUnary_comes stack .nil
          exact called.prepend missing.unreserved
      | cons right rest =>
          have taken : exec.Computes (exec.withStack ({ frame with operands := rest } :: outer)) :=
            .intro stack rest exec.world.store
          exact taken.thenComes (callUnary_comes rfl right)
  | callBinary name =>
      simp only [dispatch, popped]
      cases operands : frame.operands with
      | nil => exact report_comes stack _ rfl
      | cons right rest =>
          have taken : ∀ operands,
              exec.Computes (exec.withStack ({ frame with operands } :: outer)) :=
            fun operands => .intro stack operands exec.world.store
          have next : (exec.withStack ({ frame with operands := rest } :: outer)).popOperand =
              (rest.head?, exec.withStack ({ frame with operands := rest.tail } :: outer)) := by
            rw [popOperand_of_stack rfl]
            rfl
          simp only [List.head?_cons, List.tail_cons, next]
          cases rest with
          | nil => exact (taken []).thenComes (report_comes rfl _ rfl)
          | cons left rest => exact (taken rest).thenComes (callBinary_comes rfl left right)

end Instructions

section Loops

variable {kind : FrameKind} {phase : LoopPhase} {code : CodeBlock}

theorem enterBlock_loops (loop : kind.isController = true) :
    exec.Loops ((exec.setLoop kind).enterBlock code) := by
  have entered : exec.Loops
      (((exec.setLoop kind).withScopes exec.world.scopes).enterBlock code) := .enter loop .refl
  have same : (exec.setLoop kind).withScopes exec.world.scopes = exec.setLoop kind := by
    have world : (exec.setLoop kind).world = exec.world := mapTop_world _
    rw [← world]
    rfl
  rwa [same] at entered

theorem stepWhile_loops {condition body : CodeBlock} (delivered : Option Value) :
    (exec.stepWhile condition body phase delivered).Runs exec.Loops := by
  cases phase with
  | start => exact .pure (enterBlock_loops rfl)
  | body => exact .pure (enterBlock_loops rfl)
  | condition =>
      refine .after (loopCondition_graded _ _) fun holds => ?_
      exact .ite (fun _ => .pure (enterBlock_loops rfl)) fun _ => .pure .leave

theorem enterFor_loops {variableName : String} {current stop step : Float} {body : CodeBlock} :
    (exec.enterFor variableName current stop step body).Runs exec.Loops := by
  unfold enterFor
  split
  · exact .giveUp rfl rfl
  case h_2 scopes declared => exact .pure (.enter rfl (.single ⟨_, _, declared⟩))

theorem stepFor_loops {variableName : String} {current stop step : Float} {body : CodeBlock} :
    (exec.stepFor variableName current stop step body phase).Runs exec.Loops := by
  unfold stepFor
  refine .ite (fun _ => ?_) fun _ => ?_
  · refine .ite (fun _ => enterFor_loops) fun _ => ?_
    exact .after (.note rfl trivial) fun _ => .pure .leave
  · split
    · refine .ite (fun _ => .after (.note rfl trivial) fun _ => .pure .leave) fun _ => ?_
      exact .ite (fun _ => enterFor_loops) fun _ => .pure .leave
    · exact .after (.note rfl trivial) fun _ => .pure .leave

theorem stepForEach_loops {items : List Value} {index : Nat} {body : CodeBlock} :
    (exec.stepForEach items index body).Runs exec.Loops := by
  unfold stepForEach
  split
  · exact .pure .leave
  case h_2 item _ =>
      dsimp only
      split
      · exact .giveUp rfl rfl
      case h_2 scopes declared =>
          cases first : exec.world.scopes.declare exec.scope "_x" item with
          | error error => simp [first, bind, Except.bind] at declared
          | ok between =>
              have second : between.declare exec.scope "_forEachIndex" (.ofCount index) =
                  .ok scopes := by
                simpa [first, bind, Except.bind] using declared
              have both : exec.world.scopes.Declares exec.scope scopes :=
                .tail (.single ⟨_, _, first⟩) ⟨_, _, second⟩
              exact .pure (.enter rfl both)

theorem stepWaitUntil_loops {condition : CodeBlock} (delivered : Option Value) :
    (exec.stepWaitUntil condition phase delivered).Runs exec.Loops := by
  cases phase with
  | start => exact .pure (enterBlock_loops rfl)
  | body => exact .pure (enterBlock_loops rfl)
  | condition =>
      refine .after (loopCondition_graded _ _) fun holds => ?_
      exact .ite (fun _ => .pure .leave) fun _ => .pure (.wait rfl rfl rfl)

theorem stepLoop_loops (loop : frame.kind.isController = true) :
    (exec.stepLoop frame).Runs exec.Loops := by
  unfold stepLoop
  split
  · exact stepWhile_loops _
  · exact stepFor_loops
  · exact stepForEach_loops
  · exact stepWaitUntil_loops _
  all_goals simp_all [FrameKind.isController]

end Loops

section Steps

variable {instruction : Instruction} {moved : CallFrame}

theorem charge?_eq_none_iff :
    exec.charge? = none ↔
      ∃ budget, exec.world.settings.instructionBudget = some budget ∧
        budget ≤ exec.handle.executed := by
  simp [charge?, Option.any_eq_true]

theorem charge?_eq_some (after : Execution) (paid : exec.charge? = some after) :
    after = exec.charged := by
  unfold charge? at paid
  split at paid
  · simp at paid
  · exact (Option.some.inj paid).symm

end Steps

end Execution

theorem CallFrame.fetch?_eq_none_iff {frame : CallFrame} :
    frame.fetch? = none ↔ frame.isExhausted = true := by
  simp [fetch?, isExhausted]

/-- Once an instruction has been fetched from it, a frame stands at that instruction. -/
theorem CallFrame.location_of_fetch {frame moved : CallFrame} {instruction : Instruction}
    (fetched : frame.fetch? = some (instruction, moved)) (operands : List Value) :
    { moved with operands }.location = instruction.location := by
  obtain ⟨next, found, same⟩ := Option.map_eq_some_iff.mp fetched
  obtain ⟨rfl, rfl⟩ := Prod.mk.inj same
  simp only [location, current?, found]

theorem CallFrame.unfinished_of_fetch {frame moved : CallFrame} {instruction : Instruction}
    (fetched : frame.fetch? = some (instruction, moved)) : frame.isExhausted = false := by
  by_contra exhausted
  have nothing := fetch?_eq_none_iff.mpr (by simpa using exhausted)
  simp [nothing] at fetched

namespace Execution

variable {exec : Execution} {frame : CallFrame} {outer : CallStack}

theorem placed_stack {instruction : Instruction} {moved : CallFrame}
    (stack : exec.handle.stack = frame :: outer) :
    (exec.placed instruction moved).handle.stack = moved :: outer := by
  simp [placed, charged, mapTop, stack, withStack]

theorem stepFrame_steps (proceeds : exec.handle.terminateRequested = false)
    (stack : exec.handle.stack = frame :: outer) : exec.Steps (exec.stepFrame frame) := by
  have top : exec.handle.top? = some frame := by simp [Handle.top?, stack]
  unfold stepFrame
  split
  case isTrue done =>
      simp only [Bool.and_eq_true, Bool.not_eq_true'] at done
      exact .complete top done.1 done.2
  case isFalse unfinished =>
      have due : exec.Due frame := by
        refine ⟨proceeds, top, ?_⟩
        cases exhausted : frame.isExhausted <;> simp_all
      split
      case h_1 unpaid => exact .refuse due unpaid
      case h_2 charged paid =>
          obtain rfl := charge?_eq_some charged paid
          split
          case h_1 empty =>
              have loops : frame.kind.isController = true := by
                have exhausted := CallFrame.fetch?_eq_none_iff.mp empty
                simpa [exhausted] using due.unfinished
              exact .loop due paid loops (attempt_comes (stepLoop_loops loops) rfl)
          case h_2 instruction moved fetched =>
              exact .dispatch due paid fetched (dispatch_comes (placed_stack stack))

theorem stepFrame_of_fetch {instruction : Instruction} {moved : CallFrame}
    (fetched : frame.fetch? = some (instruction, moved))
    (paid : exec.charge? = some exec.charged) :
    exec.stepFrame frame = (exec.placed instruction moved).dispatch instruction.op := by
  have unfinished : frame.isExhausted = false := CallFrame.unfinished_of_fetch fetched
  simp only [stepFrame, unfinished, paid, fetched, Bool.false_and, Bool.false_eq_true, if_false]
  rfl

/-- Without a budget, the operation of an instruction that can be fetched is carried out. -/
theorem carriesOut_of_fetch {instruction : Instruction} {moved : CallFrame}
    (unlimited : exec.world.settings.instructionBudget = none)
    (proceeds : exec.handle.terminateRequested = false)
    (stack : exec.handle.stack = frame :: outer)
    (fetched : frame.fetch? = some (instruction, moved)) :
    exec.CarriesOut instruction.op moved outer := by
  have top : exec.handle.top? = some frame := by simp [Handle.top?, stack]
  have due : exec.Due frame := ⟨proceeds, top, .inl (CallFrame.unfinished_of_fetch fetched)⟩
  exact ⟨by simp [charge?, unlimited, charged], frame, instruction, due, stack, fetched, rfl⟩

/-- The execution in which the operation is carried out, and that the step is just this. -/
theorem CarriesOut.step {op : Op} {moved : CallFrame} (carries : exec.CarriesOut op moved outer) :
    ∃ instruction, (exec.placed instruction moved).handle.stack = moved :: outer ∧
      exec.step = (exec.placed instruction moved).dispatch op := by
  obtain ⟨paid, frame, instruction, due, stack, fetched, rfl⟩ := carries
  refine ⟨instruction, placed_stack stack, ?_⟩
  rw [← stepFrame_of_fetch fetched paid]
  simp [Execution.step, due.proceeds, stack]

/-- Every step goes in one of the ways that are listed. -/
theorem step_cases (exec : Execution) : exec.Steps exec.step := by
  unfold step
  split
  case isTrue requested => exact .terminate requested
  case isFalse proceeds =>
      split
      case h_1 outside => exact .finish outside
      case h_2 frame outer stack => exact stepFrame_steps (by simpa using proceeds) stack

/-- A step that was paid for comes to one of its ends, however much it gives up. -/
theorem advances_of_comes {done : Execution → Prop} {outcome : Outcome}
    (made : exec.step = outcome) (comes : outcome.Comes done exec.Fails)
    (goes : ∀ after, done after → exec.Advances after) : exec.Advances exec.settle.2 := by
  unfold settle
  rw [made]
  dsimp only
  split
  case h_1 result => exact goes _ (comes.done result)
  case h_2 result =>
      refine .giveUpStatement ?_ (comes.failed _ result)
      rw [made, result]
  case h_3 result => exact .giveUpHandle (comes.failed _ result)

theorem settle_cases (exec : Execution) : exec.Advances exec.settle.2 := by
  have steps := exec.step_cases
  generalize made : exec.step = outcome at steps
  cases steps with
  | terminate requested =>
      simp only [settle, made]
      exact .terminate requested
  | finish outside =>
      simp only [settle, made]
      exact .finish outside
  | complete top exhausted block =>
      simp only [settle, made]
      exact .complete top exhausted block
  | refuse due unpaid =>
      simp only [settle, made]
      exact .refuse due unpaid
  | loop due paid loops comes =>
      refine advances_of_comes made
        ⟨comes.closes, comes.unreserved, comes.done, fun abort result => ?_⟩
        fun after done => .loop due paid loops done
      rw [comes.failed abort result]
      exact .loop due paid loops
  | dispatch due paid fetched comes =>
      refine advances_of_comes made
        ⟨comes.closes, comes.unreserved, comes.done, fun abort result => ?_⟩
        fun after done => .dispatch due paid fetched done
      exact .dispatch due paid fetched (comes.failed abort result)

theorem advance_cases (exec : Execution) :
    ∃ after, exec.Advances after ∧ exec.advance.2 = after.logged exec.advance.1 :=
  ⟨exec.settle.2, exec.settle_cases, rfl⟩

end Execution

end SimScript
