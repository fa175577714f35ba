import SimScript.Proofs.Machine.History

/-!
# Frames wait until they are on top again

A frame that others stand on is left alone, whatever happens to the machine in the
meantime.  When it is on top again, it has taken exactly one value from what stood on
it; or a loop that stood on it alone was given up with its statement, and the frame
goes on behind that statement.
-/

namespace SimScript

/-- The place just after the statement that a place is in: the first end of a statement comes right
before it, or there is none and the code is over. -/
structure CodeBlock.Completes (code : CodeBlock) (start finish : Nat) : Prop where
  within : ∀ index instruction, start ≤ index → index + 1 < finish →
    code[index]? = some instruction → instruction.op.endsStatement = false
  last : (∃ index instruction, start ≤ index ∧ finish = index + 1 ∧
      code[index]? = some instruction ∧ instruction.op.endsStatement = true) ∨
    finish = code.length ∧ ∀ index instruction, start ≤ index →
      code[index]? = some instruction → instruction.op.endsStatement = false

theorem CodeBlock.statementEnd_completes (code : CodeBlock) (start : Nat) :
    code.Completes start (code.statementEnd start) := by
  unfold statementEnd
  split
  case h_1 offset found =>
      obtain ⟨bound, ends, first⟩ := List.findIdx?_eq_some_iff_getElem.mp found
      rw [List.getElem_drop] at ends
      have inside : start + offset < code.length := by
        rw [List.length_drop] at bound
        omega
      constructor
      · intro index instruction after before held
        obtain ⟨gap, rfl⟩ := Nat.exists_eq_add_of_le after
        have quiet := first gap (by omega)
        obtain ⟨_, rfl⟩ := List.getElem?_eq_some_iff.mp held
        simpa using quiet
      · exact .inl ⟨start + offset, code[start + offset], Nat.le_add_right _ _, rfl,
          List.getElem?_eq_getElem inside, ends⟩
  case h_2 missing =>
      have quiet : ∀ index instruction, start ≤ index → code[index]? = some instruction →
          instruction.op.endsStatement = false := by
        intro index instruction after held
        obtain ⟨gap, rfl⟩ := Nat.exists_eq_add_of_le after
        rw [← List.getElem?_drop] at held
        exact List.findIdx?_eq_none_iff.mp missing instruction (List.mem_of_getElem? held)
      exact ⟨fun index instruction after _ => quiet index instruction after, .inr ⟨rfl, quiet⟩⟩

namespace CallStack

/-- How the frames of a script that goes on are piled up. -/
structure Ordered (stack : CallStack) : Prop where
  bottom : ∃ inner frame, stack = inner ++ [frame] ∧ frame.kind = .block
  above : ∀ inner upper lower outer, stack = inner ++ upper :: lower :: outer →
    lower.kind.isController = true → upper.kind = .block
  apart : ∀ inner upper lower outer, stack = inner ++ upper :: lower :: outer →
    ¬(upper.kind.isController = true ∧ lower.kind.isController = true)

theorem Layered.bottom_block {stack : CallStack} (layered : Layered stack) :
    ∃ inner frame, stack = inner ++ [frame] ∧ frame.kind = .block := by
  induction layered with
  | @bottom frame block => exact ⟨[], frame, rfl, block⟩
  | @above frame _ _ _ _ _ induction =>
      obtain ⟨inner, last, rest, block⟩ := induction
      exact ⟨frame :: inner, last, by rw [rest, List.cons_append], block⟩

theorem Layered.ordered {stack : CallStack} (layered : Layered stack) : stack.Ordered := by
  have above : ∀ inner upper lower outer, stack = inner ++ upper :: lower :: outer →
      lower.kind.isController = true → upper.kind = .block := by
    rintro inner upper lower outer rfl loop
    cases layered.suffix with
    | above block _ _ => exact block loop
  refine ⟨layered.bottom_block, above, ?_⟩
  rintro inner upper lower outer stack ⟨upperLoop, lowerLoop⟩
  have block := above inner upper lower outer stack lowerLoop
  simp [block, FrameKind.isController] at upperLoop

end CallStack

/-- The handle at work is about to give up a statement. -/
def Situation.Aborts (situation : Situation) : Prop :=
  ∃ exec batch, situation = .atWork exec batch ∧ exec.step.1.result = .error .statement

/-- A handle of a number has frames above those that reach up to a height. -/
def Situation.Covers (id : HandleId) (height : Nat) (situation : Situation) : Prop :=
  ∃ handle ∈ situation.handles, handle.id = id ∧ height < handle.stack.length

/-- One situation leads to the next, in which there are frames above a height. -/
def Situation.NextCovered (permits : Store → Value → Prop) (id : HandleId) (height : Nat)
    (before after : Situation) : Prop :=
  Next permits before after ∧ after.Covers id height

/-- How a frame goes on that is on top again, after `inner` stood on it: with one more operand, or
behind the current statement where a loop that stood on it alone was given up with the statement; a
loop, with a value to look at. -/
structure CallFrame.Resumes (aborted : Prop) (inner : CallStack) (frame resumed : CallFrame) :
    Prop where
  block : frame.kind.isController = false →
    (∃ value, resumed = { frame with operands := value :: frame.operands }) ∨
    aborted ∧ (∃ loop, inner = [loop] ∧ loop.kind.isController = true) ∧
      ∃ ip, resumed = { frame with operands := [], ip } ∧ frame.code.Completes frame.ip ip
  loop : frame.kind.isController = true →
    ∃ value, resumed = { frame with delivered := some value }

namespace Situation

variable {permits : Store → Value → Prop} {before after : Situation} {handle later : Handle}
  {inner outer : CallStack} {frame : CallFrame} {id : HandleId}

theorem Reachable.layered (reached : Reachable permits before) :
    ∀ handle ∈ before.handles, handle.isAbsorbed = false → handle.stack.Layered := by
  refine reached.everyHandle
    (motive := fun _ handle => handle.isAbsorbed = false → handle.stack.Layered) ?_ ?_
  · intro _ handle fresh _
    obtain ⟨frame, stack, block⟩ := fresh.block
    rw [stack]
    exact .bottom block
  · intro situation handle later _ layered passed live
    cases passed with
    | stays => exact layered live
    | starts =>
        have awake : { handle with wake := none }.isAbsorbed = false := Handle.live_of_become live
        rw [Handle.become_stack]
        exact layered awake
    | stops _ before => simp [Handle.stopped_isAbsorbed before] at live
    | steps _ running =>
        have layers := layered (Handle.live_of_running running)
        have turned := Execution.advance_turned running layers
        apply turned.turns.layered layers
        intro outside
        simp [turned.ended outside] at live

theorem fares_of_passes (passed : handle.Passes before later)
    (layered : handle.isAbsorbed = false → handle.stack.Layered)
    (stack : handle.stack = inner ++ frame :: outer) (covered : inner ≠ []) :
    CallStack.Fares before.Aborts inner frame outer later.stack := by
  cases passed with
  | stays =>
      rw [stack]
      exact .waits covered
  | starts =>
      rw [Handle.become_stack, stack]
      exact .waits covered
  | stops => exact .leaves (Nat.zero_le _)
  | @steps exec batch atWork running =>
      have turned := Execution.advance_turned running (layered (Handle.live_of_running running))
      have turns := turned.turns
      rw [stack] at turns
      have aborts : exec.step.1.result = .error .statement → before.Aborts :=
        fun given => ⟨exec, batch, atWork, given⟩
      exact (turns.fares covered).mono aborts

/-- A handle of the next situation with the number of an earlier one is what became of it. -/
theorem passes_of_sameId (reached : Reachable permits before) (next : Next permits before after)
    (earlier : handle ∈ before.handles) (member : later ∈ after.handles)
    (same : later.id = handle.id) : handle.Passes before later := by
  have tidy := reached.tidy
  rcases next.origin member with ⟨other, held, passed⟩ | ⟨new, _⟩
  · have sameId : other.id = handle.id := by rw [← passed.id, same]
    obtain rfl : other = handle := List.inj_on_of_nodup_map tidy.ids held earlier sameId
    exact passed
  · have issued := tidy.issued handle earlier
    rw [← same] at issued
    exact absurd new (Nat.not_lt.mpr issued)

/-- A frame that others stand on stays as it is until it is on top again. -/
theorem Reachable.waits (reached : Reachable permits before)
    (history : Relation.ReflTransGen (NextCovered permits id (outer.length + 1)) before after)
    (member : handle ∈ before.handles) (number : handle.id = id)
    (stack : handle.stack = inner ++ frame :: outer) (covered : inner ≠ []) :
    Reachable permits after ∧ ∃ later ∈ after.handles, later.id = id ∧
      ∃ above, above ≠ [] ∧ later.stack = above ++ frame :: outer := by
  -- Carried along the history: the handle is still there, and `frame` still has frames above it.
  induction history with
  | refl => exact ⟨reached, handle, member, number, inner, covered, stack⟩
  | @tail middle last _ step induction =>
      obtain ⟨reached, waiting, held, sameId, above, covering, waitingStack⟩ := induction
      obtain ⟨next, later, laterMember, laterId, longer⟩ := step
      refine ⟨reached.next next, later, laterMember, laterId, ?_⟩
      have passed := passes_of_sameId reached next held laterMember (laterId.trans sameId.symm)
      have fares := fares_of_passes passed (reached.layered waiting held) waitingStack covering
      generalize later.stack = stack at fares longer ⊢
      cases fares with
      | @waits above covering => exact ⟨above, covering, rfl⟩
      | receives | skips => simp at longer
      | leaves shorter => omega

/-- A frame that is on top again resumes its work. -/
theorem Reachable.resumes (reached : Reachable permits before) (next : Next permits before after)
    (earlier : handle ∈ before.handles) (member : later ∈ after.handles)
    (same : later.id = handle.id) (stack : handle.stack = inner ++ frame :: outer)
    (covered : inner ≠ []) (uncovered : later.stack.length = outer.length + 1) :
    ∃ resumed, later.stack = resumed :: outer ∧ frame.Resumes before.Aborts inner resumed := by
  have passed := passes_of_sameId reached next earlier member same
  have layered := reached.layered handle earlier
  have fares := fares_of_passes passed layered stack covered
  generalize later.stack = remaining at fares uncovered ⊢
  cases fares with
  | @waits above covering =>
      have longer := List.length_pos_iff.mpr covering
      simp only [List.length_append, List.length_cons] at uncovered
      omega
  | receives value =>
      refine ⟨_, rfl, fun block => .inl ⟨value, ?_⟩, fun loop => ⟨value, ?_⟩⟩
      · simp [CallFrame.receive, block, CallFrame.push]
      · simp [CallFrame.receive, loop]
  | @skips loop given alone loops =>
      refine ⟨_, rfl, fun _ => .inr ⟨given, ⟨loop, alone, loops⟩, _, rfl, ?_⟩, fun stacked => ?_⟩
      · exact frame.code.statementEnd_completes frame.ip
      · -- A handle that has frames goes on, and then no loop stands on a loop.
        have live : handle.isAbsorbed = false := by
          by_contra absorbed
          have empty := reached.tidy.ended handle earlier (by simpa using absorbed)
          simp [stack] at empty
        rw [alone] at stack
        exact absurd ⟨loops, stacked⟩ ((layered live).ordered.apart [] loop frame outer stack)
  | leaves shorter => omega

end Situation

/-- Whatever a host does: the frames of every handle that has not come to its end are ordered; a
frame that others stand on stays as it is until it is on top again, through any number of steps of
any handles; and when it is on top again it has taken one value, or it goes on behind the statement
in which a loop that stood on it was given up. -/
theorem frames_wait_until_on_top_again (permits : Store → Value → Prop) :
    (∀ situation, Situation.Reachable permits situation → ∀ handle ∈ situation.handles,
      handle.isAbsorbed = false → handle.stack.Ordered) ∧
    (∀ before after handle inner frame outer, Situation.Reachable permits before →
      handle ∈ before.handles → handle.stack = inner ++ frame :: outer → inner ≠ [] →
      Relation.ReflTransGen (Situation.NextCovered permits handle.id (outer.length + 1))
        before after →
      ∃ later ∈ after.handles, later.id = handle.id ∧
        ∃ above, above ≠ [] ∧ later.stack = above ++ frame :: outer) ∧
    (∀ before after handle later inner frame outer, Situation.Reachable permits before →
      Situation.Next permits before after → handle ∈ before.handles → later ∈ after.handles →
      later.id = handle.id → handle.stack = inner ++ frame :: outer → inner ≠ [] →
      later.stack.length = outer.length + 1 →
      ∃ resumed, later.stack = resumed :: outer ∧
        frame.Resumes before.Aborts inner resumed) := by
  refine ⟨?_, ?_, ?_⟩
  · intro situation reached handle member live
    exact (reached.layered handle member live).ordered
  · intro before after handle inner frame outer reached member stack covered history
    exact (reached.waits history member rfl stack covered).2
  · intro before after handle later inner frame outer reached next earlier member same stack
      covered uncovered
    exact reached.resumes next earlier member same stack covered uncovered

/-- A loop whose condition leaves a number: the block below waits while the condition is computed,
and goes on behind the statement when the loop is given up. -/
theorem block_waits_below_a_failing_loop :
    let condition : CodeBlock := [⟨.push (.scalar 5), Location.host⟩]
    let code : CodeBlock := [⟨.push (.code 0), Location.host⟩,
      ⟨.callUnary "while", Location.host⟩, ⟨.push (.code 0), Location.host⟩,
      ⟨.callBinary "do", Location.host⟩, ⟨.endStatement, Location.host⟩]
    let world := World.ofSettings {}
    let stocked := { world with store := (world.store.newBlock condition).2 }
    let exec (steps : Nat) := (fun exec => exec.advance.2)^[steps] (stocked.startAtOnce code)
    ∃ block loop waiting above resumed,
      (exec 5).handle.stack = [block, loop, waiting] ∧ (exec 5).handle.stack.Ordered ∧
      (exec 7).handle.stack = above ++ [waiting] ∧ (exec 8).handle.stack = [resumed] ∧
      waiting.Resumes (Situation.atWork (exec 7) none).Aborts above resumed ∧
      waiting.ip = 4 ∧ resumed.ip = 5 ∧ resumed.operands = [] := by
  intro condition code world stocked exec
  -- All that is read off the eight steps, in one go.
  obtain ⟨running, number, alone, covers, before, after⟩ :
      (∀ steps < 8, (exec steps).handle.state = .running) ∧
      (∀ steps ≤ 8, (exec steps).handle.id = 1) ∧
      (exec 7).world.scheduler.handles.length = 0 ∧
      (∀ steps, steps ≤ 7 → 5 ≤ steps → 1 < (exec steps).handle.stack.length) ∧
      (exec 5).handle.stack.map CallFrame.ip = [0, 0, 4] ∧
      (exec 8).handle.stack.map (fun frame => (frame.ip, frame.operands.length)) = [(5, 0)] := by
    decide +kernel
  have reached : ∀ steps ≤ 8,
      Situation.Reachable (fun _ _ => True) (.atWork (exec steps) none) := by
    intro steps
    induction steps with
    | zero =>
        intro _
        exact .execute (.tend (.fresh {}) (.newBlock fun _ _ => trivial)) fun _ _ => trivial
    | succ steps induction =>
        intro bound
        have same : exec (steps + 1) = (exec steps).advance.2 :=
          Function.iterate_succ_apply' _ _ _
        rw [same]
        exact (induction (by omega)).advance (running steps (by omega))
  have next : ∀ steps < 8, Situation.Next (fun _ _ => True) (.atWork (exec steps) none)
      (.atWork (exec (steps + 1)) none) := by
    intro steps bound
    have same : exec (steps + 1) = (exec steps).advance.2 := Function.iterate_succ_apply' _ _ _
    rw [same]
    exact .advance (running steps bound)
  clear_value exec
  obtain ⟨ordered, waits, resumes⟩ := frames_wait_until_on_top_again fun _ _ => True
  have three : (exec 5).handle.stack.length = 3 := by simpa using congrArg List.length before
  obtain ⟨block, loop, waiting, stack⟩ := List.length_eq_three.mp three
  have covering : ∀ steps, 5 ≤ steps → steps < 7 →
      Situation.NextCovered (fun _ _ => True) (exec 5).handle.id 1 (.atWork (exec steps) none)
        (.atWork (exec (steps + 1)) none) := by
    intro steps low high
    refine ⟨next steps (by omega), (exec (steps + 1)).handle, List.mem_cons_self, ?_, ?_⟩
    · rw [number (steps + 1) (by omega), number 5 (by omega)]
    · exact covers (steps + 1) (by omega) (by omega)
  have history := Relation.ReflTransGen.tail
    (.single (covering 5 (by omega) (by omega))) (covering 6 (by omega) (by omega))
  obtain ⟨later, member, _, above, covered, laterStack⟩ := waits _ _ (exec 5).handle [block, loop]
    waiting [] (reached 5 (by omega)) List.mem_cons_self stack (by simp) history
  have nobody := List.eq_nil_of_length_eq_zero alone
  obtain rfl : later = (exec 7).handle := by simpa [Situation.handles, nobody] using member
  have uncovered : (exec 8).handle.stack.length = 1 := by simpa using congrArg List.length after
  have same : (exec 8).handle.id = (exec 7).handle.id := by
    rw [number 8 (by omega), number 7 (by omega)]
  obtain ⟨resumed, last, how⟩ := resumes _ _ (exec 7).handle (exec 8).handle above waiting []
    (reached 7 (by omega)) (next 7 (by omega)) List.mem_cons_self List.mem_cons_self same
    laterStack covered uncovered
  rw [stack] at before
  rw [last] at after
  simp only [List.map_cons, List.map_nil, List.cons.injEq, Prod.mk.injEq, and_true] at before after
  refine ⟨block, loop, waiting, above, resumed, stack, ?_, laterStack, last, how, before.2.2,
    after.1, List.eq_nil_of_length_eq_zero after.2⟩
  exact ordered _ (reached 5 (by omega)) _ List.mem_cons_self
    (Handle.live_of_running (running 5 (by omega)))

end SimScript
