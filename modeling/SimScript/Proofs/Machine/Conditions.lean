import SimScript.Proofs.Execution.Loops
import SimScript.Proofs.Machine.FrameDiscipline

/-!
# Conditions that leave no value

A `while` loop and a `waitUntil` loop test code, and code need not leave a value.  The
loop never finds out: code that has come to its end hands on nil where it has left
nothing, so a loop that looks at what its condition has left always has a value to look
at.  A missing value is a mismatch like any other that is no truth value.
-/

namespace SimScript

namespace Situation

variable {permits : Store → Value → Prop} {situation : Situation}

/-- In every reachable situation, a loop on top that looks at what its condition has left has been
handed something. -/
theorem Reachable.informed (reached : Reachable permits situation) :
    ∀ handle ∈ situation.handles, handle.stack.Informed := by
  refine reached.everyHandle (motive := fun _ handle => handle.stack.Informed) ?_ ?_
  · intro _ handle fresh
    obtain ⟨frame, stack, block⟩ := fresh.block
    rw [stack]
    exact CallStack.informed_cons (CallFrame.informed_of_block (by rw [block]; rfl))
  · intro situation handle later reached informed passed
    cases passed with
    | stays => exact informed
    | starts => rwa [Handle.become_stack]
    | stops => exact CallStack.informed_nil
    | steps atWork running =>
        subst atWork
        exact Execution.advance_informed
          (reached.layered _ List.mem_cons_self (Handle.live_of_running running))

end Situation

/-- A `while` or `waitUntil` loop that begins, or goes on, enters its condition.  When the condition
has come to its end, the loop is handed its topmost operand, or nil where there is none.  A loop
that goes on with what its condition has left has always been handed a value: a truth value is no
fault, and for any other one, also for nil in the place of a missing value, the type mismatch is the
one event, the loop is left, and the frame below goes on behind its statement. -/
theorem missing_condition_values_count_as_nil (permits : Store → Value → Prop) :
    (∀ exec batch loop condition outer,
      Situation.Reachable permits (.atWork exec batch) → exec.handle.state = .running →
      exec.handle.terminateRequested = false → exec.charge? = some exec.charged →
      exec.handle.stack = loop :: outer → loop.kind.condition? = some condition →
      loop.kind.awaits = false →
      exec.advance.1 = [] ∧ ∃ block asking,
        exec.advance.2.handle.stack = block :: asking :: outer ∧ block.kind = .block ∧
        block.code = condition ∧ block.ip = 0 ∧ block.operands = [] ∧
        asking.kind.condition? = some condition ∧ asking.kind.awaits = true) ∧
    (∀ exec batch block loop outer,
      Situation.Reachable permits (.atWork exec batch) → exec.handle.state = .running →
      exec.handle.terminateRequested = false → exec.handle.stack = block :: loop :: outer →
      block.isExhausted = true → loop.kind.awaits = true →
      let value := block.operands.head?.getD .nil
      exec.advance.1 = [] ∧
      exec.advance.2.handle.stack = { loop with delivered := some value } :: outer ∧
      (exec.charge? = some exec.charged → exec.advance.2.Judges outer value)) ∧
    (∀ exec batch loop outer,
      Situation.Reachable permits (.atWork exec batch) → exec.handle.stack = loop :: outer →
      loop.kind.awaits = true →
      ∃ value, loop.delivered = some value ∧
        (exec.handle.state = .running → exec.handle.terminateRequested = false →
          exec.charge? = some exec.charged → exec.Judges outer value)) := by
  refine ⟨?_, ?_, ?_⟩
  · intro exec batch loop condition outer reached running proceeds paid stack tests begins
    have layered := reached.layered _ List.mem_cons_self (Handle.live_of_running running)
    have atLoop : exec.AtLoop loop outer :=
      ⟨running, proceeds, paid, layered, stack, FrameKind.isController_of_condition tests⟩
    exact atLoop.enters_condition tests begins
  · intro exec batch block loop outer reached running proceeds stack exhausted awaits value
    have layered := reached.layered _ List.mem_cons_self (Handle.live_of_running running)
    have loops := FrameKind.isController_of_awaits awaits
    have isBlock := layered.ordered.above [] block loop outer stack loops
    have result : block.result = value := by
      rw [CallFrame.result, CallFrame.pop]
      dsimp only [value]
      cases block.operands <;> rfl
    have given : exec.advance = ([],
        (exec.withScopes (exec.world.scopes.release block.scope)).withStack
          ({ loop with delivered := some value } :: outer)) := by
      have made := Execution.step_of_exhausted proceeds stack exhausted (by rw [isBlock]; rfl)
      rw [Execution.complete_onto_loop stack isBlock loops, result] at made
      exact Execution.advance_of_silent made
    have later := (reached.advance running).layered _ List.mem_cons_self
    rw [given] at later ⊢
    refine ⟨rfl, rfl, fun paid => ?_⟩
    refine Execution.AtLoop.judges ⟨running, proceeds, Execution.paid_congr paid rfl rfl,
      later (Handle.live_of_running running), rfl, loops⟩ awaits rfl
  · intro exec batch loop outer reached stack awaits
    obtain ⟨value, handed⟩ := reached.informed _ List.mem_cons_self loop outer stack awaits
    refine ⟨value, handed, fun running proceeds paid => ?_⟩
    have layered := reached.layered _ List.mem_cons_self (Handle.live_of_running running)
    have loops := FrameKind.isController_of_awaits awaits
    exact Execution.AtLoop.judges ⟨running, proceeds, paid, layered, stack, loops⟩ awaits handed

/-- A `while` loop whose condition ends its only statement enters the condition, is handed nil, and
is given up with its statement. -/
theorem while_whose_condition_ends_its_statement :
    let condition : CodeBlock := [⟨.push (.boolean true), Location.host⟩,
      ⟨.endStatement, Location.host⟩]
    let code : CodeBlock := [⟨.push (.code 0), Location.host⟩,
      ⟨.callUnary "while", Location.host⟩, ⟨.push (.code 0), Location.host⟩,
      ⟨.callBinary "do", Location.host⟩]
    let world := World.ofSettings {}
    let stocked := { world with store := (world.store.newBlock condition).2 }
    let exec (steps : Nat) := (fun exec => exec.advance.2)^[steps] (stocked.startAtOnce code)
    (∃ block asking below, (exec 5).handle.stack = [block, asking, below] ∧
      block.code = condition ∧ asking.kind.awaits = true) ∧
    ∃ block loop below, (exec 7).handle.stack = [block, loop, below] ∧ block.operands = [] ∧
      (exec 8).handle.stack = [{ loop with delivered := some .nil }, below] ∧
      (exec 8).advance.1 = [⟨Fault.typeMismatch [.boolean] .nil .strong, Location.host⟩] ∧
      (exec 9).handle.stack = [below.skipStatement] := by
  intro condition code world stocked exec
  obtain ⟨running, proceeds, free, began, kinds, finished, location⟩ :
      (∀ steps < 9, (exec steps).handle.state = .running) ∧
      (∀ steps < 9, (exec steps).handle.terminateRequested = false) ∧
      (∀ steps < 9, (exec steps).world.settings.instructionBudget = none) ∧
      (exec 4).handle.stack.map (fun frame => (frame.kind.condition?.isSome, frame.kind.awaits)) =
        [(true, false), (false, false)] ∧
      (exec 7).handle.stack.map (fun frame => frame.kind.awaits) = [false, true, false] ∧
      (exec 7).handle.stack.map (fun frame => (frame.isExhausted, frame.operands.length)) =
        [(true, 0), (true, 0), (true, 0)] ∧
      (exec 8).location = Location.host := by
    decide +kernel
  have reached : ∀ steps ≤ 8, Situation.Reachable (fun _ _ => True) (.atWork (exec steps) none) :=
    fun steps bound => Situation.Reachable.iterate
      (.execute (.tend (.fresh {}) (.newBlock fun _ _ => trivial)) fun _ _ => trivial)
      fun made earlier => running made (by omega)
  have paid : ∀ steps < 9, (exec steps).charge? = some (exec steps).charged := by
    intro steps bound
    simp [Execution.charge?, free steps bound, Execution.charged]
  have next : ∀ steps, exec (steps + 1) = (exec steps).advance.2 :=
    fun steps => Function.iterate_succ_apply' _ _ _
  have tests : ∀ frame ∈ (exec 4).handle.stack.head?, frame.kind.condition? = some condition := by
    rintro frame ⟨⟩
    rfl
  clear_value exec
  obtain ⟨enters, completes, _⟩ := missing_condition_values_count_as_nil fun _ _ => True
  constructor
  · have two : (exec 4).handle.stack.length = 2 := by simpa using congrArg List.length began
    obtain ⟨loop, below, stack⟩ := List.length_eq_two.mp two
    rw [stack] at began tests
    simp only [List.map_cons, List.map_nil, List.cons.injEq, Prod.mk.injEq] at began
    obtain ⟨_, block, asking, entered, _, isCondition, _, _, _, awaits⟩ := enters (exec 4) none loop
      condition _ (reached 4 (by omega)) (running 4 (by omega)) (proceeds 4 (by omega))
      (paid 4 (by omega)) stack (tests loop rfl) began.1.2
    exact ⟨block, asking, below, next 4 ▸ entered, isCondition, awaits⟩
  · have three : (exec 7).handle.stack.length = 3 := by simpa using congrArg List.length kinds
    obtain ⟨block, loop, below, stack⟩ := List.length_eq_three.mp three
    rw [stack] at kinds finished
    simp only [List.map_cons, List.map_nil, List.cons.injEq, Prod.mk.injEq,
      List.length_eq_zero_iff] at kinds finished
    obtain ⟨_, handed, judges⟩ := completes (exec 7) none block loop _ (reached 7 (by omega))
      (running 7 (by omega)) (proceeds 7 (by omega)) stack finished.1.1 kinds.2.1
    have judged := (judges (paid 7 (by omega))).rejects
    rw [← next, finished.1.2] at judged
    rw [← next, finished.1.2] at handed
    obtain ⟨step, events, _, _, _, ⟨⟩, _, skipped⟩ := judged (by simp [Value.type])
    rw [events, step, location, next 8]
    exact ⟨block, loop, below, stack, finished.1.2, handed, rfl, skipped⟩

/-- An empty condition of a `while` loop: the loop is given up with a type mismatch, and nothing
says that a value is missing. -/
theorem while_with_an_empty_condition_is_a_mismatch :
    let code : CodeBlock := [⟨.push (.code 0), Location.host⟩,
      ⟨.callUnary "while", Location.host⟩, ⟨.push (.code 0), Location.host⟩,
      ⟨.callBinary "do", Location.host⟩]
    let world := World.ofSettings {}
    let stocked := { world with store := (world.store.newBlock []).2 }
    let exec (steps : Nat) := (fun exec => exec.advance.2)^[steps] (stocked.startAtOnce code)
    (∀ steps ≤ 8, Situation.Reachable (fun _ _ => True) (.atWork (exec steps) none)) ∧
      (exec 5).handle.stack.map (fun frame => (frame.kind.label, frame.code.length, frame.ip,
        frame.operands.length)) = [("block", 0, 0, 0), ("while", 0, 0, 0), ("block", 4, 4, 0)] ∧
      (exec 6).advance.1.map (fun event => event.message.text) =
        ["Type mismatch. Expected BOOL, got NOTHING."] ∧
      (exec 6).advance.1 ≠ [⟨Fault.callstackFoundNoValue "while" .strong, Location.host⟩] ∧
      (exec 7).handle.stack.length = 1 := by
  intro code world stocked exec
  obtain ⟨running, seen⟩ : (∀ steps < 8, (exec steps).handle.state = .running) ∧
      (exec 5).handle.stack.map (fun frame => (frame.kind.label, frame.code.length, frame.ip,
        frame.operands.length)) = [("block", 0, 0, 0), ("while", 0, 0, 0), ("block", 4, 4, 0)] ∧
      (exec 6).advance.1.map (fun event => event.message.text) =
        ["Type mismatch. Expected BOOL, got NOTHING."] ∧
      (exec 7).handle.stack.length = 1 := by
    decide +kernel
  refine ⟨fun steps bound => Situation.Reachable.iterate
    (.execute (.tend (.fresh {}) (.newBlock fun _ _ => trivial)) fun _ _ => trivial)
    fun made earlier => running made (by omega), seen.1, seen.2.1, fun same => ?_, seen.2.2⟩
  have texts := seen.2.1
  rw [same] at texts
  revert texts
  decide +kernel

end SimScript
