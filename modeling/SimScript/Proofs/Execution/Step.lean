import SimScript.Proofs.Command.Table
import SimScript.Proofs.Execution.Moves

/-!
# Every step is graded and made of moves

One walk through instructions, loops and commands, for all later modules: a step
gives up exactly what its events demand, and leads from one execution to the next by
moves only.
-/

namespace SimScript

theorem Scopes.bound_of_resolve {scopes : Scopes} {head : Option ScopeId} {name : String}
    {value : Value} (found : scopes.resolve head name = some value) :
    ∃ id scope, scopes.get? id = some scope ∧ (name, value) ∈ scope.bindings := by
  have bound : ∀ scope : Scope, scope.get? name = some value →
      (name, value) ∈ scope.bindings := by
    intro scope lookup
    obtain ⟨before, after, split, _⟩ := List.lookup_eq_some_iff.mp lookup
    simp [split]
  unfold resolve at found
  split at found
  case h_1 id _ =>
      obtain ⟨scope, opened, lookup⟩ := Option.bind_eq_some_iff.mp found
      exact ⟨id, scope, opened, bound scope lookup⟩
  case h_2 =>
      split at found
      · simp at found
      · exact ⟨globalScope, scopes.global, rfl, bound scopes.global found⟩

theorem loopCondition_graded (label : String) (delivered : Option Value) :
    (loopCondition label delivered).Graded := by
  unfold loopCondition
  split
  · exact .pure trivial
  · exact .recover _ trivial rfl
  · exact .recover _ trivial rfl

/-- An outcome that is graded and was reached by moves. -/
structure Outcome.Proper (start : Execution) (outcome : Outcome) : Prop where
  graded : outcome.1.Graded
  moves : start.Moves outcome.2

namespace Execution

variable {start exec : Execution} {name : String}

theorem Moves.attempt {work : Execution → Report Execution} (moves : start.Moves exec)
    (runs : (work exec).Runs start.Moves) : Outcome.Proper start (exec.attempt work) := by
  obtain ⟨graded, _, yields, _⟩ := runs.each exec.site
  unfold Execution.attempt
  cases result : (work exec exec.site).result with
  | ok after =>
      simp only [result]
      exact ⟨by simpa only [Checked.Graded, result, Abort.given] using graded,
        yields after result⟩
  | error abort =>
      simp only [result]
      exact ⟨by simpa only [Checked.Graded, result, Abort.given] using graded, moves⟩

/-- In the middle of a step, before anything shared has changed: what the operands hold was at
hand when the step began. -/
structure Underway (start exec : Execution) : Prop where
  moves : start.Moves exec
  store : exec.world.store = start.world.store
  scopes : exec.world.scopes = start.world.scopes
  inside : exec.handle.stack ≠ []
  operands : ∀ frame, exec.handle.top? = some frame →
    ∀ value ∈ frame.operands, start.Knows value

@[simp] theorem mapTop_world (change : CallFrame → CallFrame) :
    (exec.mapTop change).world = exec.world := by
  unfold mapTop
  split <;> rfl

theorem give_world (exec : Execution) (reply : Reply) :
    (exec.give reply).world =
      { exec.world with store := (reply.make exec.world.store).2 } :=
  mapTop_world _

theorem mapTop_withStore (change : CallFrame → CallFrame) (store : Store) :
    (exec.withStore store).mapTop change = (exec.mapTop change).withStore store := by
  unfold mapTop
  split
  case h_1 stack =>
      have same : exec.handle.stack = [] := stack
      simp [same]
  case h_2 frame outer stack =>
      have same : exec.handle.stack = frame :: outer := stack
      simp [same, withStack, withStore]

theorem mapTop_top? (change : CallFrame → CallFrame) :
    (exec.mapTop change).handle.top? = exec.handle.top?.map change := by
  unfold mapTop
  split
  case h_1 stack => simp [Handle.top?, stack]
  case h_2 frame outer stack => simp [Handle.top?, stack, withStack]

theorem stack_ne_nil_iff : exec.handle.stack ≠ [] ↔ ∃ frame, exec.handle.top? = some frame := by
  cases stack : exec.handle.stack <;> simp [Handle.top?, stack]

namespace Underway

/-- What a command has at hand was at hand when the step began. -/
theorem knows_of_held {operands : List Value} {value : Value} (underway : Underway start exec)
    (known : ∀ operand ∈ operands, start.Knows operand)
    (held : value.Held exec.world.store operands) : start.Knows value := by
  rcases held with plain | mentioned | operand | ⟨cell, item⟩
  · exact .plain plain
  · rw [underway.store] at mentioned
    exact .mentioned mentioned
  · exact known value operand
  · rw [underway.store] at item
    exact .item item

theorem mapTop {change : CallFrame → CallFrame} (underway : Underway start exec)
    (adjusts : ∀ frame, exec.handle.top? = some frame →
      frame.Adjusts start.Knows (change frame) ∧ (change frame).operands ⊆ frame.operands) :
    Underway start (exec.mapTop change) where
  moves := underway.moves.mapTop fun frame top => (adjusts frame top).1
  store := by rw [mapTop_world, underway.store]
  scopes := by rw [mapTop_world, underway.scopes]
  inside := by
    rw [stack_ne_nil_iff, mapTop_top?]
    obtain ⟨frame, top⟩ := stack_ne_nil_iff.mp underway.inside
    exact ⟨change frame, by rw [top]; rfl⟩
  operands := by
    intro changed changedTop value member
    rw [mapTop_top?] at changedTop
    obtain ⟨frame, top, rfl⟩ := Option.map_eq_some_iff.mp changedTop
    exact underway.operands frame top value ((adjusts frame top).2 member)

theorem popOperand {value : Value} {after : Execution} (underway : Underway start exec)
    (popped : exec.popOperand = (some value, after)) :
    start.Knows value ∧ Underway start after := by
  unfold Execution.popOperand at popped
  split at popped
  · simp at popped
  case h_2 frame top =>
      obtain ⟨found, rfl⟩ := Prod.mk.inj popped
      have topmost : value ∈ frame.operands := by
        unfold CallFrame.pop at found
        split at found
        · simp at found
        · simp_all
      refine ⟨underway.operands frame top value topmost, underway.mapTop fun other _ => ?_⟩
      refine ⟨.pop, ?_⟩
      unfold CallFrame.pop
      split
      · exact List.Subset.refl _
      · simp_all

end Underway

section Commands

variable {operands : List Value} {recruits : Prop}

theorem follow_runs {plan : Plan} (underway : Underway start exec)
    (known : ∀ operand ∈ operands, start.Knows operand) (joins : recruits → start.Recruits)
    (sanctioned : (plan exec).SanctionedIf recruits exec operands) :
    (follow plan exec).Runs start.Moves := by
  refine .bind sanctioned fun effect asked => .pure ?_
  refine underway.moves.perform underway.inside (asked.mono ?_ ?_ joins)
  · exact fun value held => underway.knows_of_held known held
  · intro code supplied
    rw [underway.store] at supplied
    exact .stored supplied

theorem followAll_proper {plans : List Plan}
    (only : ∀ each ∈ plans, ∀ later, (each later).Runs Effect.OnlyObjects)
    (moves : start.Moves exec) : Outcome.Proper start (exec.followAll plans) := by
  induction plans generalizing exec with
  | nil => exact ⟨rfl, moves.pushOperand (.plain rfl)⟩
  | cons plan rest induction =>
      rw [followAll]
      generalize attempted : exec.attempt _ = outcome
      have first : Outcome.Proper start outcome := by
        rw [← attempted]
        refine moves.attempt (.bind (only plan (by simp) exec) fun effect objects => ?_)
        cases objects with
        | nothing reply => exact .pure (moves.andThen (.change .nothing trivial))
        | update inert reply =>
            exact .pure (moves.andThen (.change (.updateObjects _) (.inert inert)))
      obtain ⟨checked, after⟩ := outcome
      dsimp only
      split
      · exact first
      case h_2 result =>
          have later := induction (fun each member => only each (by simp [member])) first.moves
          exact ⟨first.graded.append result later.graded, later.moves⟩

theorem fulfil_proper {design : Design} (underway : Underway start exec)
    (known : ∀ operand ∈ operands, start.Knows operand) (joins : recruits → start.Recruits)
    (sanctioned : design.Sanctioned recruits exec operands) :
    Outcome.Proper start (exec.fulfil design) := by
  cases design with
  | plan made => exact underway.moves.attempt (follow_runs underway known joins sanctioned)
  | series made =>
      obtain ⟨graded, _, yields, _⟩ := Report.Runs.each sanctioned exec.site
      unfold fulfil
      dsimp only
      split
      case h_1 abort result =>
          exact ⟨by simpa only [Checked.Graded, result, Abort.given] using graded,
            underway.moves⟩
      case h_2 plans result =>
          have later := followAll_proper (yields plans result) underway.moves
          exact ⟨graded.append result later.graded, later.moves⟩

theorem refuse_proper (underway : Underway start exec) (message : Message)
    (unreserved : message.isReserved = false) :
    Outcome.Proper start (exec.refuse message) :=
  underway.moves.attempt (.recover message (underway.moves.pushOperand (.plain rfl)) unreserved)

theorem report_proper (underway : Underway start exec) (message : Message)
    (unreserved : message.isReserved = false) :
    Outcome.Proper start (exec.attempt fun exec => Report.recover message exec) :=
  underway.moves.attempt (.recover message underway.moves unreserved)

theorem callNular_proper (underway : Underway start exec) :
    Outcome.Proper start (exec.callNular name) := by
  rcases callNular_cases name with ⟨command, design, obeys, same⟩ | same
  · rw [same]
    exact fulfil_proper underway (by simp) False.elim (obeys.sanctioned exec)
  · rw [same]
    exact report_proper underway _ rfl

theorem callUnary_proper {right : Value} (underway : Underway start exec)
    (known : start.Knows right) : Outcome.Proper start (exec.callUnary name right) := by
  rcases callUnary_cases name right with
    ⟨command, design, _, _, obeys, same⟩ | ⟨message, unreserved, same⟩
  · rw [same]
    exact fulfil_proper underway (by simpa using known) False.elim (obeys.sanctioned exec)
  · rw [same]
    exact refuse_proper underway message unreserved

theorem callBinary_proper {left right : Value} (underway : Underway start exec)
    (knownLeft : start.Knows left) (knownRight : start.Knows right)
    (joins : Text.sameName name "createUnit" = true → start.Recruits) :
    Outcome.Proper start (exec.callBinary name left right) := by
  rcases callBinary_cases name left right with
    ⟨command, design, named, _, obeys, same⟩ | ⟨message, unreserved, same⟩
  · rw [same]
    refine fulfil_proper underway (by simpa using ⟨knownLeft, knownRight⟩) ?_
      (obeys.sanctioned exec)
    intro recruiting
    exact joins (recruiting ▸ named)
  · rw [same]
    exact refuse_proper underway message unreserved

end Commands

section Instructions

theorem popAssigned_runs (underway : Underway start exec) :
    exec.popAssigned.Runs fun assigned =>
      start.Knows assigned.1 ∧ Underway start assigned.2 := by
  unfold popAssigned
  split
  case h_1 value after popped => exact .pure (underway.popOperand popped)
  case h_2 => exact .recover _ ⟨.plain rfl, underway⟩ rfl

theorem readVariable_runs (underway : Underway start exec) :
    (readVariable name exec).Runs start.Moves := by
  unfold readVariable
  split
  case h_1 value found =>
      obtain ⟨id, scope, opened, member⟩ := Scopes.bound_of_resolve found
      rw [underway.scopes] at opened
      have known : start.Knows value := .bound opened member
      exact .pure (underway.moves.pushOperand known)
  case h_2 => exact .recover _ (underway.moves.pushOperand (.plain rfl)) rfl

theorem assignVariable_runs (underway : Underway start exec) :
    (assignVariable name exec).Runs start.Moves := by
  refine .bind (popAssigned_runs underway) fun (value, popped) ⟨known, later⟩ => .pure ?_
  dsimp only [Scopes.assign]
  split
  · exact later.moves
  case h_2 target _ =>
      cases bound : popped.world.scopes.bind target name value with
      | none => exact later.moves
      | some scopes => exact later.moves.andThen (.bind known bound)

theorem bind_of_declare {scopes declared : Scopes} {id : ScopeId} {value : Value}
    (done : scopes.declare id name value = .ok declared) :
    scopes.bind id name value = some declared := by
  unfold Scopes.declare at done
  split at done
  case h_1 bound => rw [bound, Except.ok.inj done]
  case h_2 => simp at done

theorem assignLocal_runs (underway : Underway start exec) :
    (assignLocal name exec).Runs start.Moves := by
  refine .bind (popAssigned_runs underway) fun (value, popped) ⟨known, later⟩ => ?_
  dsimp only
  split
  case h_1 scopes declared =>
      exact .pure (later.moves.andThen (.bind known (bind_of_declare declared)))
  case h_2 => exact .recover _ later.moves rfl

theorem makeArray_runs {count : Nat} (underway : Underway start exec) :
    (makeArray count exec).Runs start.Moves := by
  unfold makeArray
  split
  case h_1 items frame popped =>
      obtain ⟨top, found, taken⟩ := Option.bind_eq_some_iff.mp popped
      unfold CallFrame.popMany? at taken
      split at taken
      · simp at taken
      obtain ⟨rfl, rfl⟩ := Prod.mk.inj (Option.some.inj taken)
      have known : ∀ item ∈ (top.operands.take count).reverse, start.Knows item :=
        fun item member => underway.operands top found item
          (List.mem_of_mem_take (List.mem_reverse.mp member))
      -- The operands are dropped before the array is made of them.
      have dropped : start.Moves
          (exec.mapTop fun _ => { top with operands := top.operands.drop count }) := by
        apply underway.moves.mapTop
        intro frame same
        obtain rfl : top = frame := Option.some.inj (found.symm.trans same)
        exact .drop (List.drop_subset _ _)
      have replied := dropped.andThen
          (.reply (.array _) fun item member => .inl (known item member))
      refine .pure ?_
      rw [mapTop_withStore]
      simpa only [Effect.perform_answer, Change.perform, give, Reply.make, Store.newArray,
        mapTop_world] using replied
  case h_2 => exact .recover _ underway.moves rfl

/-- Every operation is graded and carried out by moves. -/
theorem dispatch_proper {op : Op} (underway : Underway start exec)
    (constant : ∀ value, op.constant? = some value → start.Knows value)
    (joins : ∀ name, op = .callBinary name → Text.sameName name "createUnit" = true →
      start.Recruits) :
    Outcome.Proper start (exec.dispatch op) := by
  cases op with
  | push value =>
      exact ⟨rfl, underway.moves.andThen (.reply (.copy value) (.inl (constant value rfl)))⟩
  | endStatement => exact ⟨rfl, underway.moves.mapTop fun _ _ => .drop (by simp)⟩
  | getVariable name => exact underway.moves.attempt (readVariable_runs underway)
  | assignTo name => exact underway.moves.attempt (assignVariable_runs underway)
  | assignToLocal name => exact underway.moves.attempt (assignLocal_runs underway)
  | makeArray count => exact underway.moves.attempt (makeArray_runs underway)
  | callNular name => exact callNular_proper underway
  | callUnary name =>
      dsimp only [dispatch]
      split
      case h_1 right after popped =>
          obtain ⟨known, later⟩ := underway.popOperand popped
          exact callUnary_proper later known
      case h_2 =>
          -- The missing operand is reported weakly, so the call goes on with nil.
          have missing := report_proper underway (Fault.noValueFoundForRightArgument name .weak) rfl
          have called : Outcome.Proper start (exec.callUnary name .nil) :=
            callUnary_proper underway (.plain rfl)
          exact ⟨missing.graded.append rfl called.graded, called.moves⟩
  | callBinary name =>
      dsimp only [dispatch]
      split
      · exact report_proper underway _ rfl
      case h_2 right one popped =>
          obtain ⟨knownRight, later⟩ := underway.popOperand popped
          split
          · exact report_proper later _ rfl
          case h_2 left two poppedLeft =>
              obtain ⟨knownLeft, last⟩ := later.popOperand poppedLeft
              exact callBinary_proper last knownLeft knownRight (joins name rfl)

end Instructions

section Loops

variable {frame : CallFrame} {phase : LoopPhase} {kind : FrameKind} {code : CodeBlock}

theorem Moves.enterBlock (moves : start.Moves exec) (inside : exec.handle.stack ≠ [])
    (supplied : start.Supplies code) : start.Moves (exec.enterBlock code) := by
  refine moves.andThen (.enter inside ⟨?_, ?_, ?_, ?_, .inl rfl, ?_, rfl⟩)
  · simpa [FrameKind.codes] using supplied
  · simp [FrameKind.items]
  · simp
  · simp [FrameKind.isController]
  · simp [FrameKind.waits]

theorem setLoop_bind_of_declare {value : Value} {declared : Scopes}
    (done : exec.world.scopes.declare exec.scope name value = .ok declared) :
    (exec.setLoop kind).world.scopes.bind exec.scope name value = some declared := by
  rw [setLoop, mapTop_world]
  exact bind_of_declare done

structure Looping (start exec : Execution) (frame : CallFrame) : Prop where
  moves : start.Moves exec
  top : exec.handle.top? = some frame
  member : frame ∈ start.handle.stack

namespace Looping

theorem setLoop (looping : Looping start exec frame) (codes : kind.codes = frame.kind.codes)
    (items : kind.items = frame.kind.items) (waits : kind.waits = frame.kind.waits) :
    start.Moves (exec.setLoop kind) := by
  apply looping.moves.mapTop
  intro other top
  obtain rfl : frame = other := Option.some.inj (looping.top.symm.trans top)
  exact .loop codes items waits

theorem inside (looping : Looping start exec frame) :
    (exec.setLoop kind).handle.stack ≠ [] := by
  rw [stack_ne_nil_iff, Execution.setLoop, mapTop_top?, looping.top]
  exact ⟨_, rfl⟩

theorem stepWhile {condition body : CodeBlock} (looping : Looping start exec frame)
    (kind : frame.kind = .whileLoop condition body phase) (delivered : Option Value) :
    (exec.stepWhile condition body phase delivered).Runs start.Moves := by
  have enter : ∀ next code, code ∈ frame.kind.codes →
      start.Moves ((exec.setLoop (.whileLoop condition body next)).enterBlock code) := by
    intro next code held
    have set : start.Moves (exec.setLoop (.whileLoop condition body next)) :=
      looping.setLoop (by simp [kind, FrameKind.codes]) (by simp [kind, FrameKind.items])
        (by simp [kind, FrameKind.waits])
    exact set.enterBlock looping.inside (.loop looping.member held)
  have again := enter .condition condition (by simp [kind, FrameKind.codes])
  have onward := enter .body body (by simp [kind, FrameKind.codes])
  cases phase with
  | start => exact .pure again
  | body => exact .pure again
  | condition =>
      refine .after (loopCondition_graded _ _) fun holds => ?_
      exact .ite (fun _ => .pure onward) fun _ => .pure looping.moves.leaveLoop

theorem enterFor {variableName : String} {stop step : Float} {body : CodeBlock}
    {held : Float} (looping : Looping start exec frame)
    (kind : frame.kind = .forLoop variableName held stop step body phase) (current : Float) :
    (exec.enterFor variableName current stop step body).Runs start.Moves := by
  unfold Execution.enterFor
  split
  · exact .recover _ looping.moves rfl
  case h_2 scopes declared =>
      have set : start.Moves
          (exec.setLoop (.forLoop variableName current stop step body .body)) :=
        looping.setLoop (by simp [kind, FrameKind.codes]) (by simp [kind, FrameKind.items])
          (by simp [kind, FrameKind.waits])
      have bound := set.andThen (.bind (.plain rfl) (setLoop_bind_of_declare declared))
      exact .pure (bound.enterBlock looping.inside
        (.loop looping.member (by simp [kind, FrameKind.codes])))

theorem stepFor {variableName : String} {current stop step : Float} {body : CodeBlock}
    (looping : Looping start exec frame)
    (kind : frame.kind = .forLoop variableName current stop step body phase) :
    (exec.stepFor variableName current stop step body phase).Runs start.Moves := by
  have left : start.Moves exec.leaveLoop := looping.moves.leaveLoop
  unfold Execution.stepFor
  refine .ite (fun _ => ?_) fun _ => ?_
  · refine .ite (fun _ => looping.enterFor kind current) fun _ => ?_
    exact .after (.note rfl trivial) fun _ => .pure left
  · split
    case h_1 held _ =>
        refine .ite (fun _ => .after (.note rfl trivial) fun _ => .pure left) fun _ => ?_
        exact .ite (fun _ => looping.enterFor kind _) fun _ => .pure left
    case h_2 => exact .after (.note rfl trivial) fun _ => .pure left

theorem stepForEach {items : List Value} {index : Nat} {body : CodeBlock}
    (looping : Looping start exec frame) (kind : frame.kind = .forEach items index body) :
    (exec.stepForEach items index body).Runs start.Moves := by
  unfold Execution.stepForEach
  split
  · exact .pure looping.moves.leaveLoop
  case h_2 item found =>
      dsimp only
      split
      · exact .recover _ looping.moves rfl
      case h_2 scopes declared =>
          have known : start.Knows item := by
            refine .frame looping.member ?_
            simpa [CallFrame.values, kind, FrameKind.items] using
              .inr (.inr (List.mem_of_getElem? found))
          have set : start.Moves (exec.setLoop (.forEach items (index + 1) body)) :=
            looping.setLoop (by simp [kind, FrameKind.codes]) (by simp [kind, FrameKind.items])
              (by simp [kind, FrameKind.waits])
          have twice := declared
          cases first : exec.world.scopes.declare exec.scope "_x" item with
          | error error => simp [first, bind, Except.bind] at twice
          | ok between =>
              have second : between.declare exec.scope "_forEachIndex" (.ofCount index) =
                  .ok scopes := by
                simpa [first, bind, Except.bind] using twice
              have one := set.andThen (.bind known (setLoop_bind_of_declare first))
              have two := one.andThen (.bind (.plain rfl) (bind_of_declare second))
              exact .pure (two.enterBlock looping.inside
                (.loop looping.member (by simp [kind, FrameKind.codes])))

theorem stepWaitUntil {condition : CodeBlock} (looping : Looping start exec frame)
    (kind : frame.kind = .waitUntil condition phase) (delivered : Option Value) :
    (exec.stepWaitUntil condition phase delivered).Runs start.Moves := by
  have set : ∀ next, start.Moves (exec.setLoop (.waitUntil condition next)) := fun next =>
    looping.setLoop (by simp [kind, FrameKind.codes]) (by simp [kind, FrameKind.items])
      (by simp [kind, FrameKind.waits])
  have again : start.Moves
      ((exec.setLoop (.waitUntil condition .condition)).enterBlock condition) :=
    (set .condition).enterBlock looping.inside
      (.loop looping.member (by simp [kind, FrameKind.codes]))
  cases phase with
  | start => exact .pure again
  | body => exact .pure again
  | condition =>
      refine .after (loopCondition_graded _ _) fun holds => ?_
      refine .ite (fun _ => .pure looping.moves.leaveLoop) fun _ => ?_
      exact .pure ((set .start).andThen (.suspend .nextTurn))

end Looping

theorem stepLoop_runs (looping : Looping start exec frame) :
    (exec.stepLoop frame).Runs start.Moves := by
  unfold stepLoop
  split
  case h_1 condition body phase kind => exact looping.stepWhile kind _
  case h_2 variableName current stop step body phase kind => exact looping.stepFor kind
  case h_3 items index body kind => exact looping.stepForEach kind
  case h_4 condition phase kind => exact looping.stepWaitUntil kind _
  all_goals exact .pure looping.moves

end Loops

section Steps

variable {frame : CallFrame}

theorem complete_moves (moves : start.Moves exec) (member : frame ∈ start.handle.stack) :
    start.Moves (exec.complete frame) := by
  have known : start.Knows frame.result := by
    unfold CallFrame.result CallFrame.pop
    split
    · exact .plain rfl
    case h_2 value rest operands =>
        exact .frame member (by simp [CallFrame.values, operands])
  have left : start.Moves exec.leave := moves.andThen .leave
  unfold complete
  dsimp only
  split
  · exact left.deliver (.plain rfl)
  · have outside := left.andThen .leave
    split
    · exact (outside.andThen .leave).deliver known
    · exact outside.deliver known
  · exact left.deliver known

theorem underway_of_charge {charged : Execution} (inside : exec.handle.stack ≠ [])
    (paid : exec.charge? = some charged) :
    Underway exec charged ∧ charged.handle.top? = exec.handle.top? := by
  unfold charge? at paid
  split at paid
  · simp at paid
  obtain rfl := Option.some.inj paid
  refine ⟨⟨?_, rfl, rfl, inside, ?_⟩, rfl⟩
  · exact (Moves.refl exec).andThen (.record _ exec.location ⟨rfl, rfl, rfl, .inl rfl⟩)
  · intro frame top value member
    exact .frame (List.mem_of_head? top) (by simp [CallFrame.values, member])

theorem stepFrame_proper (top : exec.handle.top? = some frame) :
    Outcome.Proper exec (exec.stepFrame frame) := by
  have member : frame ∈ exec.handle.stack := List.mem_of_head? top
  unfold stepFrame
  split
  · exact ⟨rfl, complete_moves (.refl exec) member⟩
  · split
    · exact ⟨rfl, .refl exec⟩
    case h_2 charged paid =>
        obtain ⟨underway, sameTop⟩ := underway_of_charge (List.ne_nil_of_mem member) paid
        have chargedTop := sameTop.trans top
        split
        · exact underway.moves.attempt (stepLoop_runs ⟨underway.moves, chargedTop, member⟩)
        case h_2 fetched =>
            obtain ⟨instruction, found, same⟩ := Option.map_eq_some_iff.mp fetched
            obtain ⟨rfl, rfl⟩ := Prod.mk.inj same
            have moved : Underway exec
                (charged.mapTop fun _ => { frame with ip := frame.ip + 1 }) := by
              apply underway.mapTop
              intro other otherTop
              obtain rfl : frame = other := Option.some.inj (chargedTop.symm.trans otherTop)
              exact ⟨.drop (List.Subset.refl _), List.Subset.refl _⟩
            have placed := moved.moves.andThen
              (.record _ instruction.location ⟨rfl, rfl, rfl, .inl rfl⟩)
            refine dispatch_proper
              ⟨placed, moved.store, moved.scopes, moved.inside, moved.operands⟩ ?_ ?_
            · intro value constant
              refine .constant member (List.mem_filterMap.mpr ⟨instruction, ?_, constant⟩)
              exact List.mem_of_getElem? found
            · intro name called named
              exact ⟨frame, name, instruction.location, top, called ▸ found, named⟩

/-- Every step is graded and made of moves. -/
theorem step_proper (exec : Execution) : Outcome.Proper exec exec.step := by
  unfold step
  split
  · exact ⟨rfl, (Moves.refl exec).terminate⟩
  · split
    case h_1 stack => exact ⟨rfl, (Moves.refl exec).andThen (.finish stack (.plain rfl))⟩
    case h_2 frame outer stack => exact stepFrame_proper (by simp [Handle.top?, stack])

theorem settle_moves (exec : Execution) : exec.Moves exec.settle.2 := by
  have moves := (step_proper exec).moves
  unfold settle
  dsimp only
  split
  · exact moves
  · exact moves.abandonStatement
  · exact moves.abandonHandle

theorem advance_moves (exec : Execution) : exec.Moves exec.advance.2 :=
  exec.settle_moves.andThen (.log _)

theorem advance_of_ok {events : List Event} (made : exec.step = (⟨.ok (), events⟩, after)) :
    exec.advance = (events, after.logged events) := by
  rw [advance, settle, made]

theorem advance_of_silent (made : exec.step = (⟨.ok (), []⟩, after)) :
    exec.advance = ([], after) :=
  advance_of_ok made

theorem advance_of_statement (fails : exec.step.1.result = .error .statement) :
    exec.advance =
      (exec.step.1.events, exec.step.2.abandonStatement.logged exec.step.1.events) := by
  simp only [advance, settle, fails]

end Steps

end Execution

end SimScript
