import SimScript.Proofs.Machine.Containment

/-!
# A statement that is given up

What a step may give up is the statement of a block, also where a loop on top of that
block was to go on.  Dealing with it leaves the loops on top and closes their scopes,
and the block goes on with its next statement; no other frame and no other scope takes
any notice.
-/

namespace SimScript

/-- No statement ends between two places, so what stands at the first and what stands at the second
belong together. -/
def CodeBlock.SameStatement (code : CodeBlock) (first second : Nat) : Prop :=
  ∀ index instruction, first ≤ index → index < second → code[index]? = some instruction →
    instruction.op.endsStatement = false

namespace CodeBlock.Completes

variable {code : CodeBlock} {start finish : Nat}

theorem back {instruction : Instruction} (completes : code.Completes (start + 1) finish)
    (found : code[start]? = some instruction) (inside : instruction.op.endsStatement = false) :
    code.Completes start finish := by
  have extend : ∀ index other, start ≤ index → code[index]? = some other →
      (start + 1 ≤ index → other.op.endsStatement = false) →
      other.op.endsStatement = false := by
    intro index other after held later
    rcases Nat.eq_or_lt_of_le after with rfl | behind
    · obtain rfl := Option.some.inj (found.symm.trans held)
      exact inside
    · exact later behind
  constructor
  · intro index other after before held
    exact extend index other after held fun behind =>
      completes.within index other behind before held
  · rcases completes.last with ⟨index, last, after, same, held, ends⟩ | ⟨ended, quiet⟩
    · exact .inl ⟨index, last, Nat.le_of_succ_le after, same, held, ends⟩
    · refine .inr ⟨ended, fun index other after held => ?_⟩
      exact extend index other after held fun behind => quiet index other behind held

theorem not_sameStatement {place : Nat} {next : Instruction}
    (completes : code.Completes start finish)
    (found : code[finish]? = some next) (before : place ≤ start) :
    ¬code.SameStatement place finish := by
  intro together
  rcases completes.last with ⟨index, last, after, same, held, ends⟩ | ⟨ended, _⟩
  · have inside := together index last (before.trans after) (same ▸ Nat.lt_succ_self index) held
    rw [ends] at inside
    cases inside
  · simp [ended] at found

end CodeBlock.Completes

namespace Execution

variable {exec : Execution} {loops outer : CallStack} {block : CallFrame}

/-- Giving up a statement leaves the loops on top and clears the block below them, which goes on
behind the statement. -/
theorem abandonStatement_of_stack (stack : exec.handle.stack = loops ++ block :: outer)
    (controllers : ∀ loop ∈ loops, loop.kind.isController = true)
    (plain : block.kind.isController = false) :
    exec.abandonStatement =
      (exec.withScopes (loops.unwind exec.world.scopes)).withStack
        (block.skipStatement :: outer) := by
  have leaving : exec.handle.stack.takeWhile (fun frame => frame.kind.isController) = loops := by
    rw [stack, List.takeWhile_append_of_pos controllers,
      List.takeWhile_cons_of_neg (by simp [plain]), List.append_nil]
  have height : exec.handle.stack.length - (exec.handle.stack.length - loops.length) =
      loops.length := by
    rw [stack, List.length_append]
    omega
  simp only [abandonStatement, leaveLoops, leaveTo, leaving, height]
  simp [stack, mapTop, withStack, withScopes]

theorem Computes.after_eq {after : Execution} {frame : CallFrame} (computed : exec.Computes after)
    (stack : exec.handle.stack = frame :: outer) :
    ∃ operands, after =
      (exec.withStore after.world.store).withStack ({ frame with operands } :: outer) := by
  obtain ⟨same, operands, store⟩ := computed
  obtain ⟨rfl, rfl⟩ := List.cons.inj (stack.symm.trans same)
  exact ⟨operands, rfl⟩

/-- Where a step stops that gives up a statement: only loops stand on the frame whose statement it
is, and of that frame the instruction has been fetched at most. -/
structure StopsOn (exec : Execution) (loops : CallStack) (block : CallFrame) (outer : CallStack) :
    Prop where
  stack : exec.handle.stack = loops ++ block :: outer
  controllers : ∀ loop ∈ loops, loop.kind.isController = true
  plain : block.kind.isController = false
  handle : ∃ operands ip, exec.step.2.handle =
      { exec.charged.handle with stack := loops ++ { block with operands, ip } :: outer } ∧
    ∀ finish, block.code.Completes ip finish → block.code.Completes block.ip finish
  world : exec.step.2.world = { exec.world with store := exec.step.2.world.store }

/-- The end of a statement is never given up, so the statement of a fetched instruction goes on
behind it. -/
theorem stopsOn (layered : exec.handle.stack.Layered)
    (aborts : exec.step.1.result = .error .statement) :
    ∃ loops block outer, exec.StopsOn loops block outer := by
  have steps := exec.step_cases
  generalize made : exec.step = outcome at steps aborts
  cases steps with
  | terminate | finish | complete | refuse => simp at aborts
  | @loop frame _ due paid loops comes =>
      obtain ⟨outer, stack⟩ := due.stack
      rw [stack] at layered
      obtain ⟨below, rest, rfl, block⟩ := layered.below_loop loops
      have stopped := comes.failed _ aborts
      rw [← made] at stopped
      refine ⟨[frame], below, rest, stack, by simpa using loops, block, ?_, by rw [stopped]; rfl⟩
      refine ⟨below.operands, below.ip, ?_, fun _ => id⟩
      rw [stopped, List.singleton_append, ← stack]
      rfl
  | @dispatch frame moved instruction _ due paid fetched comes =>
      obtain ⟨outer, stack⟩ := due.stack
      rw [stack] at layered
      obtain ⟨plain, _⟩ := block_of_fetch layered fetched
      have inside : instruction.op.endsStatement = false := by
        obtain ⟨_, _, dispatched⟩ :=
          CarriesOut.step ⟨paid, frame, instruction, due, stack, fetched, rfl⟩
        rw [← made, dispatched] at aborts
        cases op : instruction.op with
        | endStatement => simp [op, dispatch] at aborts
        | _ => rfl
      obtain ⟨next, found, same⟩ := Option.map_eq_some_iff.mp fetched
      obtain ⟨rfl, rfl⟩ := Prod.mk.inj same
      have stopped := comes.failed _ aborts
      rw [← made] at stopped
      obtain ⟨operands, same⟩ := stopped.after_eq (placed_stack stack)
      have charged : (exec.placed next { frame with ip := frame.ip + 1 }).handle =
          { exec.charged.handle with stack := { frame with ip := frame.ip + 1 } :: outer } := by
        simp [placed, charged, mapTop, stack, withStack]
      refine ⟨[], frame, outer, stack, by simp, plain, ⟨operands, frame.ip + 1, ?_, ?_⟩, ?_⟩
      · rw [same]
        simp only [withStack, withStore, charged, List.nil_append]
      · exact fun finish completes => completes.back found inside
      · rw [same]
        simp [withStack, withStore]

/-- What dealing with a statement of `block` that is given up comes to, with the loops on top of
that frame. -/
structure SkipsStatement (exec : Execution) (loops : CallStack) (block : CallFrame)
    (outer : CallStack) (ip : Nat) : Prop where
  stack : exec.handle.stack = loops ++ block :: outer
  controllers : ∀ loop ∈ loops, loop.kind.isController = true
  plain : block.kind.isController = false
  events : exec.advance.1 = exec.step.1.events
  /-- The handle goes on with the frames below the loops. -/
  handle : exec.advance.2.handle = { exec.handle with
    executed := exec.handle.executed + 1
    stack := { block with operands := [], ip } :: outer }
  completes : block.code.Completes block.ip ip
  next : ∀ next moved, CallFrame.fetch? { block with operands := [], ip } = some (next, moved) →
    block.code[ip]? = some next ∧ ∀ place ≤ block.ip, ¬block.code.SameStatement place ip
  /-- Of all that scripts share, only the store is as the step has left it, and the log has taken
  the events. -/
  world : exec.advance.2.world = { (exec.logged exec.advance.1).world with
    store := exec.step.2.world.store
    scopes := loops.unwind exec.world.scopes }
  closed : ∀ loop ∈ loops, loop.scope ≠ globalScope ∧
    (exec.world.scopes.get? loop.scope).isSome = true ∧
    exec.advance.2.world.scopes.get? loop.scope = none
  kept : ∀ id, (∀ loop ∈ loops, id ≠ loop.scope) →
    exec.advance.2.world.scopes.get? id = exec.world.scopes.get? id

theorem StopsOn.skips (stops : exec.StopsOn loops block outer) (tidy : exec.Tidy)
    (aborts : exec.step.1.result = .error .statement) :
    ∃ ip, exec.SkipsStatement loops block outer ip := by
  obtain ⟨operands, ip, handle, onward⟩ := stops.handle
  have advanced := advance_of_statement aborts
  have stopped : exec.step.2.handle.stack = loops ++ { block with operands, ip } :: outer := by
    rw [handle]
  have skipped := abandonStatement_of_stack stopped stops.controllers stops.plain
  have scopes : exec.step.2.world.scopes = exec.world.scopes := by rw [stops.world]
  have completes := onward _ (block.code.statementEnd_completes ip)
  have world : exec.advance.2.world = { (exec.logged exec.advance.1).world with
      store := exec.step.2.world.store
      scopes := loops.unwind exec.world.scopes } := by
    rw [advanced, skipped]
    exact congrArg (fun world : World => { world with
      scopes := loops.unwind world.scopes
      logger := world.logger.emitAll exec.step.1.events.toArray }) stops.world
  refine ⟨block.code.statementEnd ip, stops.stack, stops.controllers, stops.plain, ?_, ?_,
    completes, ?_, world, ?_, ?_⟩
  · rw [advanced]
  · rw [advanced, skipped]
    simp only [withStack, withScopes, handle]
    rfl
  · intro next moved fetched
    obtain ⟨_, found, same⟩ := Option.map_eq_some_iff.mp fetched
    obtain ⟨rfl, _⟩ := Prod.mk.inj same
    exact ⟨found, fun place before => completes.not_sameStatement found before⟩
  · intro loop member
    rw [world]
    have own : exec.handle.chain =
        loops.map CallFrame.scope ++ (block :: outer).map CallFrame.scope := by
      rw [Handle.chain, stops.stack, List.map_append]
    exact SimScript.Tidy.closes tidy own (List.mem_map_of_mem member)
  · intro id apart
    rw [world]
    exact CallStack.get?_unwind apart

end Execution

/-- Whatever a host does: a statement that is given up takes nothing with it but the loops on top of
the block whose statement it is, and that block goes on with its next statement. -/
theorem aborted_statements_leave_the_rest_alone (permits : Store → Value → Prop)
    (exec : Execution) (batch : Option (List HandleId))
    (reached : Situation.Reachable permits (.atWork exec batch))
    (running : exec.handle.state = .running) (aborts : exec.step.1.result = .error .statement) :
    exec.advance.2.handle.state = .running ∧
      ∃ loops block outer ip, exec.SkipsStatement loops block outer ip := by
  have live := Handle.live_of_running running
  have layered := reached.layered exec.handle List.mem_cons_self live
  obtain ⟨loops, block, outer, stops⟩ := exec.stopsOn layered aborts
  obtain ⟨ip, skips⟩ := stops.skips reached.tidy aborts
  refine ⟨?_, loops, block, outer, ip, skips⟩
  rw [skips.handle]
  exact running

/-- A loop whose condition leaves a number is given up with its statement, which ends behind the
instruction that the block was to carry out next. -/
theorem failing_loop_is_given_up_with_its_statement :
    let condition : CodeBlock := [⟨.push (.scalar 5), Location.host⟩]
    let code : CodeBlock := [⟨.push (.code 0), Location.host⟩,
      ⟨.callUnary "while", Location.host⟩, ⟨.push (.code 0), Location.host⟩,
      ⟨.callBinary "do", Location.host⟩, ⟨.endStatement, Location.host⟩]
    let world := World.ofSettings {}
    let stocked := { world with store := (world.store.newBlock condition).2 }
    let exec (steps : Nat) := (fun exec => exec.advance.2)^[steps] (stocked.startAtOnce code)
    Situation.Reachable (fun _ _ => True) (.atWork (exec 7) none) ∧
      (exec 7).handle.state = .running ∧ (exec 7).step.1.result = .error .statement ∧
      (exec 7).advance.2.handle.state = .running ∧
      ∃ loop block, (exec 7).SkipsStatement [loop] block [] 5 ∧ block.ip = 4 := by
  intro condition code world stocked exec
  -- All that is read off the steps, in one go.
  obtain ⟨running, aborts, frames, after⟩ :
      (∀ steps ≤ 7, (exec steps).handle.state = .running) ∧
      (exec 7).step.1.result = .error .statement ∧
      (exec 7).handle.stack.map (fun frame => (frame.kind.isController, frame.ip)) =
        [(true, 0), (false, 4)] ∧
      (exec 7).advance.2.handle.stack.map CallFrame.ip = [5] := by
    decide +kernel
  have reached : Situation.Reachable (fun _ _ => True) (.atWork (exec 7) none) :=
    Situation.Reachable.iterate
      (.execute (.tend (.fresh {}) (.newBlock fun _ _ => trivial)) fun _ _ => trivial)
      fun made earlier => running made (by omega)
  clear_value exec
  obtain ⟨goesOn, loops, block, outer, ip, skips⟩ := aborted_statements_leave_the_rest_alone
    (fun _ _ => True) (exec 7) none reached (running 7 (by omega)) aborts
  have ends : ip = 5 ∧ outer = [] := by simpa [skips.handle] using after
  rw [ends.1, ends.2] at skips
  have alone : ∃ loop, loops = [loop] := by
    have two : (exec 7).handle.stack.length = 2 := by simpa using congrArg List.length frames
    have above : loops.length = 1 := by simpa [skips.stack] using two
    exact List.length_eq_one_iff.mp above
  obtain ⟨loop, rfl⟩ := alone
  have stands : block.ip = 4 := by
    rw [skips.stack] at frames
    simp_all
  exact ⟨reached, running 7 (by omega), aborts, goesOn, loop, block, skips, stands⟩

end SimScript
