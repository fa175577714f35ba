import Mathlib
import SimScript.Proofs.Execution.Calls
import SimScript.Proofs.Machine.Activations

/-!
# What a loop over an array does

A `forEach` takes the elements of the array once, when it is carried out.  It makes one
round for each of them, in their order, and ends; what happens to the array, or to the
variables in which the body finds the element and its place, makes no difference.
-/

namespace SimScript

namespace Execution

/-- A step of a `forEach` loop has visited an element: it has entered the body, which sees the
element and the number of the round, and the loop has gone on to the next round. -/
structure Visits (after : Execution) (events : List Event) (loop : CallFrame) (outer : CallStack)
    (items : List Value) (body : CodeBlock) (round : Nat) (item : Value) : Prop where
  silent : events = []
  state : after.handle.state = .running
  stack : ∃ block visiting, after.handle.stack = block :: visiting :: outer ∧
    block.kind = .block ∧ block.code = body ∧ block.ip = 0 ∧ block.operands = [] ∧
    visiting = { loop with kind := .forEach items (round + 1) body, delivered := none }
  item : after.resolve "_x" = some item
  index : after.resolve "_forEachIndex" = some (.ofCount round)

variable {exec after : Execution} {loop moved : CallFrame} {outer : CallStack} {items : List Value}
  {body : CodeBlock} {round : Nat} {item : Value} {name : String} {cell : CellId} {block : BlockId}
  {rest : List Value}

theorem Visits.anew {events : List Event} {kind : FrameKind} {delivered : Option Value}
    (visits : after.Visits events { loop with kind, delivered } outer items body round item) :
    after.Visits events loop outer items body round item :=
  ⟨visits.silent, visits.state, visits.stack, visits.item, visits.index⟩

theorem exists_declared_round {scopes : Scopes} {chains : List (List ScopeId)} {id : ScopeId}
    (owned : scopes.Owned chains) (isOpen : (scopes.get? id).isSome) (item : Value) (round : Nat) :
    ∃ after : Scopes,
      (do
        let scopes ← scopes.declare id "_x" item
        scopes.declare id "_forEachIndex" (.ofCount round)) = .ok after ∧
      after.Tight ∧ after.held? id "_x" = some item ∧
      after.held? id "_forEachIndex" = some (.ofCount round) := by
  obtain ⟨between, first, stillOpen⟩ := Scopes.exists_bind isOpen "_x" item
  obtain ⟨after, second, _⟩ := Scopes.exists_bind stillOpen "_forEachIndex" (.ofCount round)
  refine ⟨after, ?_, ((owned.bind first).bind second).tight, ?_, ?_⟩
  · rw [Scopes.declare_of_bind first]
    exact Scopes.declare_of_bind second
  · rw [Scopes.held?_of_bind second, if_neg (by simp), Scopes.held?_of_bind first,
      if_pos ⟨rfl, rfl⟩]
  · rw [Scopes.held?_of_bind second, if_pos ⟨rfl, rfl⟩]

theorem AtLoop.visits (atLoop : exec.AtLoop loop outer) (tidy : exec.Tidy)
    (kind : loop.kind = .forEach items round body) (next : items[round]? = some item) :
    exec.advance.2.Visits exec.advance.1 loop outer items body round item := by
  obtain ⟨inner, isOpen⟩ := atLoop.scope_open tidy
  obtain ⟨scopes, declared, tight, heldItem, heldIndex⟩ :=
    exists_declared_round tidy.owned isOpen item round
  have scope : exec.charged.scope = loop.scope := atLoop.scope_eq
  have before : exec.charged.world.scopes = exec.world.scopes := rfl
  rw [← scope, ← before] at declared
  have enters := atLoop.enters inner tight (by
    simp only [stepLoop, kind, stepForEach, next, declared]
    rfl)
  obtain ⟨block, stack, isBlock, code, ip, operands⟩ := enters.stack
  exact ⟨enters.events, enters.state, ⟨block, _, stack, isBlock, code, ip, operands, rfl⟩,
    enters.seen heldItem, enters.seen heldIndex⟩

theorem AtLoop.endsLoop_of_visited (atLoop : exec.AtLoop loop outer)
    (kind : loop.kind = .forEach items round body) (visited : items[round]? = none) :
    exec.EndsLoop outer [] := by
  apply atLoop.endsLoop
  simp only [stepLoop, kind, stepForEach, visited]
  rfl

theorem dispatch_forEach {frame : CallFrame} (named : Text.sameName name "forEach" = true)
    (stack : exec.handle.stack = frame :: outer)
    (operands : frame.operands = .array cell :: .code block :: rest) :
    exec.dispatch (.callBinary name) = (⟨.ok (), []⟩,
      (exec.withStack ({ frame with operands := rest } :: outer)).enter
        (.forEach (exec.world.store.itemsOf (.array cell)) 0
          (exec.world.store.codeOf (.code block))) [] frame.environment []) := by
  have only : Command.binariesOf name = [⟨"forEach", .code, .array, Command.forEach⟩] := by
    rw [Command.binariesOf, Command.named_sameName Command.binaryTable named]
    rfl
  rw [dispatch_callBinary stack operands]
  exact callBinary_of_plan only (Command.forEach_follows _ _) ⟨rfl, rfl⟩

theorem CarriesOut.enters_forEach (carries : exec.CarriesOut (.callBinary name) moved outer)
    (named : Text.sameName name "forEach" = true)
    (operands : moved.operands = .array cell :: .code block :: rest) :
    exec.advance.1 = [] ∧ exec.advance.2.handle.state = exec.handle.state ∧ ∃ loop,
      exec.advance.2.handle.stack = loop :: { moved with operands := rest } :: outer ∧
      loop.kind = .forEach (exec.world.store.itemsOf (.array cell)) 0
        (exec.world.store.codeOf (.code block)) := by
  obtain ⟨instruction, placed, made⟩ := carries.step
  rw [dispatch_forEach named placed operands] at made
  rw [advance_of_silent made, placed_world]
  exact ⟨rfl, placed_state, _, rfl, rfl⟩

end Execution

namespace Situation

variable {permits : Store → Value → Prop} {start now : Execution}
  {batch after : Option (List HandleId)} {loop : CallFrame} {outer : CallStack}
  {items : List Value} {body : CodeBlock} {activations : List Activation}

/-- What is known of a `forEach` loop that is on top again after some activations of its body. -/
structure Visiting (permits : Store → Value → Prop) (loop : CallFrame) (outer : CallStack)
    (items : List Value) (body : CodeBlock) (activations : List Activation) (now : Execution)
    (after : Option (List HandleId)) : Prop where
  reached : Reachable permits (.atWork now after)
  stands : ∃ delivered, now.handle.stack =
    { loop with kind := .forEach items activations.length body, delivered } :: outer
  within : activations.length ≤ items.length
  rounds : ∀ round (activation : Activation), activations[round]? = some activation →
    ∃ item, items[round]? = some item ∧
      activation.entered.Visits activation.events loop outer items body round item

theorem Activations.visiting
    (made : Activations permits outer.length start batch activations now after)
    (reached : Reachable permits (.atWork start batch))
    (stack : start.handle.stack = loop :: outer) (kind : loop.kind = .forEach items 0 body) :
    Visiting permits loop outer items body activations now after := by
  induction made with
  | none =>
      refine ⟨reached, ⟨loop.delivered, ?_⟩, Nat.zero_le _, by simp⟩
      rw [stack, List.length_nil, ← kind]
  | @again activations exec returned before after last _ running entered covered returns same
      uncovered induction =>
      obtain ⟨reached, ⟨delivered, stack⟩, within, rounds⟩ := induction
      have atLoop := reached.atLoop running stack rfl entered
      cases next : items[activations.length]? with
      | none =>
          -- Without another element the loop would have been left.
          obtain ⟨caller, rest, rfl, left⟩ := (atLoop.endsLoop_of_visited rfl next).stack
          rw [left] at entered
          simp at entered
      | some item =>
          have visits := atLoop.visits reached.tidy rfl next
          obtain ⟨block, _, enteredStack, _, _, _, _, rfl⟩ := visits.stack
          obtain ⟨reached, value, returnedStack⟩ := (reached.advance running).returns _
            (Execution.advance_id running) enteredStack rfl covered returns same uncovered
          have bound := (List.getElem?_eq_some_iff.mp next).1
          refine ⟨reached, ⟨some value, ?_⟩, ?_, ?_⟩
          · rw [returnedStack, List.length_append, List.length_singleton]
          · rw [List.length_append, List.length_singleton]
            exact bound
          · exact Activation.rounds_concat rounds ⟨item, next, visits.anew⟩

end Situation

/-- A `forEach` that is carried out makes one round for each element that the array holds then,
whatever becomes of the array or of the variables of the loop, and whatever else happens in the
activations of its body, as long as each comes back to the loop.  In each round the body sees the
element whose turn it is, and its place; and after the last one, or if there is none, the loop is
left with one nil for the frame that did it. -/
theorem forEach_visits_what_the_array_held (permits : Store → Value → Prop) (exec : Execution)
    (batch : Option (List HandleId)) (reached : Situation.Reachable permits (.atWork exec batch))
    (running : exec.handle.state = .running) (name : String) (moved : CallFrame)
    (outer : CallStack) (carries : exec.CarriesOut (.callBinary name) moved outer)
    (named : Text.sameName name "forEach" = true) (cell : CellId) (block : BlockId)
    (rest : List Value) (operands : moved.operands = .array cell :: .code block :: rest) :
    let items := exec.world.store.itemsOf (.array cell)
    let body := exec.world.store.codeOf (.code block)
    let caller : CallStack := { moved with operands := rest } :: outer
    exec.advance.1 = [] ∧ exec.advance.2.handle.state = .running ∧
    ∃ loop, exec.advance.2.handle.stack = loop :: caller ∧ loop.kind = .forEach items 0 body ∧
      ∀ activations now after,
        Situation.Activations permits caller.length exec.advance.2 batch activations now after →
        activations.length ≤ items.length ∧
        (∀ round (activation : Activation), activations[round]? = some activation →
          ∃ item, items[round]? = some item ∧
            activation.entered.Visits activation.events loop caller items body round item) ∧
        (now.handle.state = .running → now.handle.terminateRequested = false →
          now.charge? = some now.charged →
          (∀ item, items[activations.length]? = some item →
            now.advance.2.Visits now.advance.1 loop caller items body activations.length item) ∧
          (activations.length = items.length → now.EndsLoop caller [])) := by
  intro items body caller
  obtain ⟨silent, state, loop, stack, kind⟩ := carries.enters_forEach named operands
  refine ⟨silent, state.trans running, loop, stack, kind, ?_⟩
  intro activations now after made
  obtain ⟨reached, ⟨delivered, stack⟩, within, rounds⟩ :=
    made.visiting (reached.advance running) stack kind
  refine ⟨within, rounds, fun running proceeds paid => ?_⟩
  have layered := reached.layered _ List.mem_cons_self (Handle.live_of_running running)
  have atLoop : now.AtLoop _ caller := ⟨running, proceeds, paid, layered, stack, rfl⟩
  constructor
  · intro item next
    exact (atLoop.visits reached.tidy rfl next).anew
  · intro all
    exact atLoop.endsLoop_of_visited rfl (List.getElem?_eq_none_iff.mpr (Nat.le_of_eq all.symm))

/-- A loop over two elements whose body turns the array round: the second round is still that of the
second element. -/
theorem forEach_of_an_array_that_is_reversed :
    let body : CodeBlock := [⟨.getVariable "a", Location.host⟩,
      ⟨.callUnary "reverse", Location.host⟩]
    let code : CodeBlock := [⟨.push (.scalar 7), Location.host⟩,
      ⟨.push (.boolean true), Location.host⟩, ⟨.makeArray 2, Location.host⟩,
      ⟨.assignTo "a", Location.host⟩, ⟨.push (.code 0), Location.host⟩,
      ⟨.getVariable "a", Location.host⟩, ⟨.callBinary "forEach", Location.host⟩]
    let world := World.ofSettings {}
    let stocked := { world with store := (world.store.newBlock body).2 }
    let exec (steps : Nat) := (fun exec => exec.advance.2)^[steps] (stocked.startAtOnce code)
    let items : List Value := [.scalar 7, .boolean true]
    ((exec 11).world.store.itemsOf (.array 0)).map Value.type = [.boolean, .scalar] ∧
    ∃ loop caller, (exec 7).handle.stack = [loop, caller] ∧
      (exec 8).Visits [] loop [caller] items body 0 (.scalar 7) ∧
      (exec 12).Visits [] loop [caller] items body 1 (.boolean true) ∧
      (exec 15).EndsLoop [caller] [] := by
  intro body code world stocked exec items
  let issuer : CallFrame :=
    { kind := .block, code, ip := 6, operands := [.array 0, .code 0], scope := 1,
      environment := .unscheduled, origin := Location.host }
  have issued : ((exec 6).handle.stack = [issuer] ∧
      (exec 6).world.store.itemsOf (.array 0) = items) ∧
      (exec 6).world.store.codeOf (.code 0) = body := by
    have pairs : (((exec 6).handle.stack, (exec 6).world.store.itemsOf (.array 0)),
        (exec 6).world.store.codeOf (.code 0)) = (([issuer], items), body) := by
      subst issuer items exec stocked world code body
      cbv
    simpa using pairs
  obtain ⟨free, inside, back, reversed⟩ :
      (∀ steps ≤ 15, (exec steps).handle.state = .running ∧
        (exec steps).handle.terminateRequested = false ∧
        (exec steps).world.settings.instructionBudget = none) ∧
      (∀ steps ∈ [8, 9, 10, 12, 13, 14], (exec steps).handle.stack.length = 3) ∧
      (∀ steps ∈ [11, 15], (exec steps).handle.stack.length = 2) ∧
      ((exec 11).world.store.itemsOf (.array 0)).map Value.type = [.boolean, .scalar] := by
    decide +kernel
  have run : Situation.FreeRun exec 15 := ⟨fun _ => Function.iterate_succ_apply' _ _ _, free⟩
  have reached : Situation.Reachable (fun _ _ => True) (.atWork (exec 6) none) :=
    Situation.Reachable.iterate
      (.execute (.tend (.fresh {}) (.newBlock fun _ _ => trivial)) fun _ _ => trivial)
      fun made earlier => run.running (by omega)
  have carries : (exec 6).CarriesOut (.callBinary "forEach") { issuer with ip := 7 } [] :=
    Execution.carriesOut_of_fetch (free 6 (by omega)).2.2 (run.proceeds (by omega)) issued.1.1 rfl
  clear_value exec
  obtain ⟨-, -, loop, stack, -, follows⟩ := forEach_visits_what_the_array_held (fun _ _ => True)
    (exec 6) none reached (run.running (by omega)) "forEach" _ [] carries (Text.sameName_self _) 0 0
    [] rfl
  rw [issued.1.2, issued.2, ← run.next] at follows
  rw [← run.next] at stack
  have visits {activations : List Activation} {steps : Nat} {item : Value} (bound : steps ≤ 15)
      (made : Situation.Activations (fun _ _ => True) 1 (exec 7) none activations (exec steps) none)
      (found : items[activations.length]? = some item) :
      (exec (steps + 1)).Visits [] loop [{ issuer with ip := 7, operands := [] }] items body
        activations.length item := by
    have visited := ((follows _ _ _ made).2.2 (run.running bound) (run.proceeds bound)
      (run.paid bound)).1 item found
    rwa [visited.silent, ← run.next] at visited
  have start : Situation.Activations (fun _ _ => True) 1 (exec 7) none [] (exec 7) none := .none
  have once := run.again (show 7 < 10 by omega) (by omega) start
    (fun step after within => inside step (by simp; omega)) (back 11 (by simp))
  have twice := run.again (show 11 < 14 by omega) (by omega) once
    (fun step after within => inside step (by simp; omega)) (back 15 (by simp))
  have ends := ((follows _ _ _ twice).2.2 (run.running (by omega)) (run.proceeds (by omega))
    (run.paid (by omega))).2 rfl
  exact ⟨reversed, loop, _, stack, visits (by omega) start rfl, visits (by omega) once rfl, ends⟩

end SimScript
