import SimScript.Proofs.Execution.Counting
import SimScript.Proofs.Machine.Activations
import SimScript.Proofs.Machine.Exits

/-!
# What a counting loop does

A `for` loop makes its rounds one after the other, and what happens in its body does not
matter as long as the body comes back.  Where the body leaves the variable as it is, the
rounds are those of the numbers that the bounds tell, and the loop ends after them.
-/

namespace SimScript

/-- When the loop is on top again, a variable of its scope is as it was when the block was
entered. -/
def Activation.Keeps (activation : Activation) (scope : ScopeId) (name : String) : Prop :=
  activation.returned.world.scopes.held? scope name =
    activation.entered.world.scopes.held? scope name

namespace Execution

variable {exec : Execution} {moved : CallFrame} {outer : CallStack} {name : String}
  {block : BlockId} {spec : ForSpec} {rest : List Value}

theorem dispatch_forDo {frame : CallFrame} (named : Text.sameName name "do" = true)
    (stack : exec.handle.stack = frame :: outer)
    (operands : frame.operands = .code block :: .forPart spec :: rest) :
    exec.dispatch (.callBinary name) = (⟨.ok (), []⟩,
      (exec.withStack ({ frame with operands := rest } :: outer)).enter
        (.forLoop spec.variableName spec.start spec.stop spec.step
          (exec.world.store.codeOf (.code block)) .start) [] frame.environment []) := by
  have found : Command.binariesOf name =
      [⟨"do", .whilePart, .code, Command.whileDo⟩, ⟨"do", .forPart, .code, Command.forDo⟩] := by
    rw [Command.binariesOf, Command.named_sameName Command.binaryTable named]
    rfl
  rw [dispatch_callBinary stack operands, callBinary, found]
  rfl

theorem CarriesOut.enters_for (carries : exec.CarriesOut (.callBinary name) moved outer)
    (named : Text.sameName name "do" = true)
    (operands : moved.operands = .code block :: .forPart spec :: rest) :
    exec.advance.1 = [] ∧ ∃ loop,
      exec.advance.2.handle.stack = loop :: { moved with operands := rest } :: outer ∧
      loop.kind = .forLoop spec.variableName spec.start spec.stop spec.step
        (exec.world.store.codeOf (.code block)) .start := by
  obtain ⟨instruction, placed, made⟩ := carries.step
  rw [dispatch_forDo named placed operands] at made
  rw [advance_of_silent made, placed_world]
  exact ⟨rfl, _, rfl, rfl⟩

end Execution

namespace Situation

variable {permits : Store → Value → Prop} {start now : Execution}
  {batch after : Option (List HandleId)} {loop : CallFrame} {outer : CallStack} {spec : ForSpec}
  {body : CodeBlock} {activations : List Activation}

/-- What is known of a `for` loop that is on top again after some activations of its body. -/
structure Counting (permits : Store → Value → Prop) (loop : CallFrame) (outer : CallStack)
    (spec : ForSpec) (body : CodeBlock) (activations : List Activation) (now : Execution)
    (after : Option (List HandleId)) : Prop where
  reached : Reachable permits (.atWork now after)
  silent : ∀ activation ∈ activations, activation.events = []
  stands : ∃ current phase delivered,
    now.handle.stack = { loop with
      kind := .forLoop spec.variableName current spec.stop spec.step body phase, delivered } ::
        outer ∧
    (activations ≠ [] → phase = .body) ∧
    ((∀ activation ∈ activations, activation.Keeps loop.scope spec.variableName) →
      now.Pending { loop with
        kind := .forLoop spec.variableName current spec.stop spec.step body phase, delivered }
        spec body activations.length ∧
      ∀ round activation, activations[round]? = some activation →
        ∃ number, spec.count? round = some number ∧
          activation.entered.Counts activation.events loop outer spec body number)

/-- One activation after the other, a `for` loop counts. -/
theorem Activations.counting
    (made : Activations permits outer.length start batch activations now after)
    (reached : Reachable permits (.atWork start batch))
    (stack : start.handle.stack = loop :: outer)
    (kind : loop.kind = .forLoop spec.variableName spec.start spec.stop spec.step body .start) :
    Counting permits loop outer spec body activations now after := by
  -- The loop is followed whatever its rounds do; what it counts, only while they keep its variable.
  induction made with
  | none =>
      refine ⟨reached, by simp, spec.start, .start, loop.delivered, ?_, by simp,
        fun _ => ⟨.first rfl, by simp⟩⟩
      rw [stack, ← kind]
  | @again activations exec returned before after last _ running entered covered returns same
      uncovered induction =>
      obtain ⟨reached, silent, current, phase, delivered, stack, _, foretold⟩ := induction
      have tidy : exec.Tidy := reached.tidy
      have atLoop := reached.atLoop running stack rfl entered
      obtain ⟨number, counts⟩ := atLoop.counts_of_grows tidy rfl (by omega)
      obtain ⟨block, _, enteredStack, _, _, _, _, rfl⟩ := counts.stack
      have sameId := Execution.advance_id running
      obtain ⟨reached, value, returnedStack⟩ := (reached.advance running).returns _ sameId
        enteredStack rfl covered returns same uncovered
      refine ⟨reached, ?_, number, .body, some value, returnedStack, fun _ => rfl, fun kept => ?_⟩
      · intro activation member
        rcases List.mem_append.mp member with earlier | last
        · exact silent activation earlier
        · obtain rfl := List.mem_singleton.mp last
          exact counts.silent
      · obtain ⟨pending, rounds⟩ := foretold fun activation member =>
          kept activation (List.mem_append_left _ member)
        cases counted : spec.count? activations.length with
        | none =>
            obtain ⟨caller, rest, rfl, left⟩ := (pending.endsLoop atLoop counted).stack
            rw [left] at entered
            simp at entered
        | some next =>
            have counts := pending.counts atLoop tidy counted
            have held := (kept _ (List.mem_append_right _ List.mem_cons_self)).trans counts.held
            constructor
            · rw [List.length_append]
              exact .later rfl counted held
            · exact Activation.rounds_concat rounds ⟨next, counted, counts.anew⟩

end Situation

/-- A `for` that is done puts a loop onto the frame that did it.  Whatever happens in the
activations of its body, as long as each comes back to the loop, the steps that enter the body
report nothing.  If no activation changes the variable of the loop, the numbers that it is given in
the rounds are those that the bounds tell, and after the last of them, or if there is none, the loop
is left with one nil for the frame that did it, and reports that there is nothing to do exactly
where there has been no round, or where a step does not lead to another number.  If the variable
holds no number after a round, the loop is left with one nil and the mismatch is all that is
reported.  There are only so many rounds. -/
theorem for_loops_count_to_their_end (permits : Store → Value → Prop) :
    (∀ exec name moved outer block spec rest,
      Execution.CarriesOut exec (.callBinary name) moved outer → Text.sameName name "do" = true →
      moved.operands = .code block :: .forPart spec :: rest →
      exec.advance.1 = [] ∧ ∃ loop,
        exec.advance.2.handle.stack = loop :: { moved with operands := rest } :: outer ∧
        loop.kind = .forLoop spec.variableName spec.start spec.stop spec.step
          (exec.world.store.codeOf (.code block)) .start) ∧
    (∀ start batch loop outer spec body activations now after,
      Situation.Reachable permits (.atWork start batch) → start.handle.stack = loop :: outer →
      loop.kind = .forLoop spec.variableName spec.start spec.stop spec.step body .start →
      Situation.Activations permits outer.length start batch activations now after →
      (∀ activation ∈ activations, activation.events = []) ∧
      ((∀ activation ∈ activations, activation.Keeps loop.scope spec.variableName) →
        (∀ round activation, activations[round]? = some activation →
          ∃ number, spec.count? round = some number ∧
            activation.entered.Counts activation.events loop outer spec body number) ∧
        (now.handle.state = .running → now.handle.terminateRequested = false →
          now.charge? = some now.charged →
          match spec.count? activations.length with
          | some number => now.advance.2.Counts now.advance.1 loop outer spec body number
          | none => now.EndsLoop outer (spec.reports activations.length))) ∧
      (now.handle.state = .running → now.handle.terminateRequested = false →
        now.charge? = some now.charged → activations ≠ [] →
        let held := now.world.scopes.held? loop.scope spec.variableName
        (∀ number, held ≠ some (.scalar number)) →
        now.EndsLoop outer [.forStepVariableTypeMismatch spec.variableName .scalar
          ((held.map Value.type).getD .nil)])) ∧
    (∀ spec : ForSpec, ((spec.count? 0).isSome = true ↔
      0 < spec.step ∧ spec.start ≤ spec.stop ∨ spec.step < 0 ∧ spec.stop ≤ spec.start) ∧
      ∃ rounds, spec.count? rounds = none) := by
  refine ⟨?_, ?_, fun spec => ⟨?_, spec.exists_count?_eq_none⟩⟩
  · intro exec name moved outer block spec rest carries named operands
    exact carries.enters_for named operands
  · intro start batch loop outer spec body activations now after reached stack kind made
    obtain ⟨reached, silent, current, phase, delivered, stack, goesOn, foretold⟩ :=
      made.counting reached stack kind
    have atLoop (running : now.handle.state = .running)
        (proceeds : now.handle.terminateRequested = false)
        (paid : now.charge? = some now.charged) : now.AtLoop _ outer :=
      ⟨running, proceeds, paid,
        reached.layered _ List.mem_cons_self (Handle.live_of_running running), stack, rfl⟩
    refine ⟨silent, ?_, ?_⟩
    · intro kept
      obtain ⟨pending, rounds⟩ := foretold kept
      refine ⟨rounds, fun running proceeds paid => ?_⟩
      split
      case h_1 number counted =>
          exact (pending.counts (atLoop running proceeds paid) reached.tidy counted).anew
      case h_2 ended => exact pending.endsLoop (atLoop running proceeds paid) ended
    · intro running proceeds paid entered held lost
      obtain rfl := goesOn entered
      exact (atLoop running proceeds paid).endsLoop_of_mismatch rfl lost
  · rw [ForSpec.count?]
    split
    case isTrue reaches => exact iff_of_true rfl reaches
    case isFalse beyond => exact iff_of_false (by simp) beyond

/-! ## A loop from one to two -/

namespace Situation

def countingToTwo : CodeBlock :=
  [⟨.push (.text "_i"), Location.host⟩, ⟨.callUnary "for", Location.host⟩,
    ⟨.push (.scalar 1), Location.host⟩, ⟨.callBinary "from", Location.host⟩,
    ⟨.push (.scalar 2), Location.host⟩, ⟨.callBinary "to", Location.host⟩,
    ⟨.push (.code 0), Location.host⟩, ⟨.callBinary "do", Location.host⟩]

def fromOneToTwo : ForSpec :=
  { variableName := "_i", start := 1, stop := 2, step := 1 }

def losingCount : CodeBlock :=
  [⟨.push (.boolean true), Location.host⟩, ⟨.assignTo "_i", Location.host⟩]

def countingRun (body : CodeBlock) (steps : Nat) : Execution :=
  let world := World.ofSettings {}
  (fun exec => exec.advance.2)^[steps]
    ({ world with store := (world.store.newBlock body).2 }.startAtOnce countingToTwo)

def countingIssuer : CallFrame :=
  { kind := .block, code := countingToTwo, ip := 7, operands := [.code 0, .forPart fromOneToTwo],
    scope := 1, environment := .unscheduled, origin := Location.host }

/-- What is known of the steps of such a machine: nothing holds them back, and the eighth puts the
loop onto the frame that does it. -/
structure CountsToTwo (body : CodeBlock) (steps : Nat → Execution) : Prop where
  run : FreeRun steps 12
  reached : Reachable (fun _ _ => True) (.atWork (steps 8) none)
  carries : (steps 7).CarriesOut (.callBinary "do") { countingIssuer with ip := 8 } []
  body : (steps 7).world.store.codeOf (.code 0) = body

theorem countingRun_countsToTwo :
    ∀ body ∈ [[], losingCount], CountsToTwo body (countingRun body) := by
  have free : ∀ body ∈ [[], losingCount], ∀ step ≤ 12,
      (countingRun body step).handle.state = .running ∧
        (countingRun body step).handle.terminateRequested = false ∧
        (countingRun body step).world.settings.instructionBudget = none := by
    decide +kernel
  intro body member
  have run : FreeRun (countingRun body) 12 :=
    ⟨fun _ => Function.iterate_succ_apply' _ _ _, free body member⟩
  have stands : ((countingRun body 7).handle.stack,
      (countingRun body 7).world.store.codeOf (.code 0)) = ([countingIssuer], body) := by
    unfold countingRun countingIssuer countingToTwo fromOneToTwo
    cbv
  obtain ⟨stack, held⟩ := Prod.mk.inj stands
  refine ⟨run, ?_, ?_, held⟩
  · exact .iterate (.execute (.tend (.fresh {}) (.newBlock fun _ _ => trivial)) fun _ _ => trivial)
      fun _ _ => run.running (by omega)
  · exact Execution.carriesOut_of_fetch (run.free 7 (by omega)).2.2 (run.proceeds (by omega)) stack
      rfl

end Situation

theorem Execution.Counts.keeps {entered returned : Execution} {events : List Event}
    {loop : CallFrame} {outer : CallStack} {spec : ForSpec} {body : CodeBlock} {number : Float}
    (counts : entered.Counts events loop outer spec body number)
    (same : (returned.world.scopes.held? loop.scope spec.variableName).bind Value.asScalar? =
      (entered.world.scopes.held? loop.scope spec.variableName).bind Value.asScalar?) :
    Activation.Keeps ⟨events, entered, returned⟩ loop.scope spec.variableName := by
  rw [counts.held] at same
  obtain ⟨value, found, number⟩ := Option.bind_eq_some_iff.mp same
  cases value <;> cases number
  rw [Activation.Keeps, found, counts.held]

/-- A `for` loop of two rounds whose body does nothing, and one whose body gives its variable a
truth value. -/
theorem for_loop_from_one_to_two :
    let idle := Situation.countingRun []
    let losing := Situation.countingRun Situation.losingCount
    let spec := Situation.fromOneToTwo
    (∃ loop below, (idle 8).handle.stack = [loop, below] ∧
      (idle 9).Counts [] loop [below] spec [] 1 ∧ (idle 11).Counts [] loop [below] spec [] 2 ∧
      (idle 12).EndsLoop [below] []) ∧
    ∃ below, (losing 12).EndsLoop [below]
      [.forStepVariableTypeMismatch "_i" .scalar .boolean] := by
  intro idle losing spec
  have idling : Situation.CountsToTwo [] idle := Situation.countingRun_countsToTwo _ (by simp)
  have losings : Situation.CountsToTwo Situation.losingCount losing :=
    Situation.countingRun_countsToTwo _ (by simp)
  obtain ⟨entered, returned, lost, scope, kept, truth⟩ :
      (∀ step ∈ [9, 11], (idle step).handle.stack.length = 3) ∧
      (∀ step ∈ [10, 12], (idle step).handle.stack.length = 2) ∧
      ((∀ step ∈ [9, 10, 11], (losing step).handle.stack.length = 3) ∧
        (losing 12).handle.stack.length = 2) ∧
      ((idle 8).handle.stack.map CallFrame.scope = [2, 1] ∧
        (losing 8).handle.stack.map CallFrame.scope = [2, 1]) ∧
      (∀ step ∈ [9, 11],
        ((idle (step + 1)).world.scopes.held? 2 "_i").bind Value.asScalar? =
          ((idle step).world.scopes.held? 2 "_i").bind Value.asScalar?) ∧
      ((losing 12).world.scopes.held? 2 "_i").bind Value.asBool? = some true := by
    decide +kernel
  clear_value idle losing
  have numbers : spec.count? 0 = some 1 ∧ spec.count? 1 = some 2 ∧ spec.count? 2 = none ∧
      (spec.reports 2).length = 0 := by
    decide +kernel
  obtain ⟨enters, counts, _⟩ := for_loops_count_to_their_end fun _ _ => True
  constructor
  · obtain ⟨_, loop, stack, kind⟩ := enters _ _ _ _ _ _ _ idling.carries (Text.sameName_self _) rfl
    rw [← idling.run.next] at stack
    rw [idling.body] at kind
    have owned : loop.scope = 2 := by
      rw [stack] at scope
      exact (List.cons.inj scope.1).1
    have counts (activations now after) := counts _ _ _ _ spec [] activations now after
      idling.reached stack kind
    have start : Situation.Activations (fun _ _ => True) 1 (idle 8) none [] (idle 8) none := .none
    have first := ((counts _ _ _ start).2.1 (by simp)).2 (idling.run.running (by omega))
      (idling.run.proceeds (by omega)) (idling.run.paid (by omega))
    rw [List.length_nil, numbers.1, ← idling.run.next] at first
    have once := idling.run.again (show 8 < 9 by omega) (by omega) start
      (fun step after within => entered step (by simp; omega)) (returned 10 (by simp))
    have keptOnce : Activation.Keeps ⟨_, idle 9, idle 10⟩ loop.scope spec.variableName :=
      first.keeps (by rw [owned]; exact kept 9 (by simp))
    have second := ((counts _ _ _ once).2.1 (by simpa using keptOnce)).2
      (idling.run.running (by omega)) (idling.run.proceeds (by omega)) (idling.run.paid (by omega))
    rw [List.nil_append, List.length_singleton, numbers.2.1, ← idling.run.next] at second
    have twice := idling.run.again (show 10 < 11 by omega) (by omega) once
      (fun step after within => entered step (by simp; omega)) (returned 12 (by simp))
    have keptTwice : Activation.Keeps ⟨_, idle 11, idle 12⟩ loop.scope spec.variableName :=
      second.keeps (by rw [owned]; exact kept 11 (by simp))
    have ends := ((counts _ _ _ twice).2.1 (by simpa using ⟨keptOnce, keptTwice⟩)).2
      (idling.run.running (by omega)) (idling.run.proceeds (by omega)) (idling.run.paid (by omega))
    rw [List.nil_append, List.length_append, List.length_singleton, List.length_singleton,
      numbers.2.2.1, List.eq_nil_of_length_eq_zero numbers.2.2.2] at ends
    exact ⟨loop, _, stack, first.silent ▸ first, second.silent ▸ second, ends⟩
  · obtain ⟨_, loop, stack, kind⟩ := enters _ _ _ _ _ _ _ losings.carries (Text.sameName_self _) rfl
    rw [← losings.run.next] at stack
    rw [losings.body] at kind
    have owned : loop.scope = 2 := by
      rw [stack] at scope
      exact (List.cons.inj scope.2).1
    have start : Situation.Activations (fun _ _ => True) 1 (losing 8) none [] (losing 8) none :=
      .none
    have once := losings.run.again (show 8 < 11 by omega) (by omega) start
      (fun step after within => lost.1 step (by simp; omega)) lost.2
    have held : (losing 12).world.scopes.held? loop.scope "_i" = some (.boolean true) := by
      obtain ⟨value, found, flag⟩ := Option.bind_eq_some_iff.mp truth
      cases value <;> cases flag
      rw [owned, found]
    have noNumber : ∀ number : Float,
        (losing 12).world.scopes.held? loop.scope "_i" ≠ some (.scalar number) := by
      simp [held]
    have ends := (counts _ _ _ _ spec Situation.losingCount _ _ _ losings.reached stack kind
      once).2.2 (losings.run.running (by omega)) (losings.run.proceeds (by omega))
      (losings.run.paid (by omega)) (by simp) noNumber
    have type : (((losing 12).world.scopes.held? loop.scope "_i").map Value.type).getD .nil =
        .boolean := by
      rw [held]
      rfl
    exact ⟨_, type ▸ ends⟩

end SimScript
