import SimScript.Proofs.Execution.Cases

/-!
# What a step does to the frames

A step works on the frame on top.  It changes that frame, enters another one above it,
or leaves frames and hands one value to the frame below them.  A statement that is
given up in a loop leaves the loop, and the block below skips the statement.  The
frames that are covered by others stay as they are.
-/

namespace SimScript

/-- A frame takes what the frames above it have left: a loop to look at, any other as an operand. -/
def CallFrame.receive (frame : CallFrame) (value : Value) : CallFrame :=
  if frame.kind.isController then { frame with delivered := some value } else frame.push value

/-- A frame goes on with its code, and a loop stays a loop. -/
structure CallFrame.Continues (before after : CallFrame) : Prop where
  kind : after.kind = before.kind ∨
    before.kind.isController = true ∧ after.kind.isController = true
  code : after.code = before.code

namespace CallStack

/-- Frames are left, and the frame below them takes a value. -/
inductive Falls : CallStack → CallStack → Prop where
  | outside {stack : CallStack} (left : stack ≠ []) : Falls stack []
  | onto {inner : CallStack} (left : inner ≠ []) (frame : CallFrame) (outer : CallStack)
      (value : Value) : Falls (inner ++ frame :: outer) (frame.receive value :: outer)

/-- What a step does to the frames; `aborted` says when a statement may be skipped. -/
inductive Turns (aborted : Prop) : CallStack → CallStack → Prop where
  | stay {frame changed : CallFrame} {outer : CallStack} (continues : frame.Continues changed) :
      Turns aborted (frame :: outer) (changed :: outer)
  | enter {frame changed entered : CallFrame} {outer : CallStack}
      (continues : frame.Continues changed)
      (above : frame.kind.isController = true → entered.kind = .block)
      (codeless : entered.kind.isController = true → entered.code = []) :
      Turns aborted (frame :: outer) (entered :: changed :: outer)
  | fall {before after : CallStack} (falls : Falls before after) : Turns aborted before after
  | skip {loop frame : CallFrame} {outer : CallStack} (given : aborted)
      (loops : loop.kind.isController = true) :
      Turns aborted (loop :: frame :: outer) (frame.skipStatement :: outer)

/-- The frame at the bottom is a block, only a block stands on a loop, and a loop has no code of its
own. -/
inductive Layered : CallStack → Prop where
  | bottom {frame : CallFrame} (block : frame.kind = .block) : Layered [frame]
  | above {frame below : CallFrame} {outer : CallStack}
      (block : below.kind.isController = true → frame.kind = .block)
      (codeless : frame.kind.isController = true → frame.code = [])
      (rest : Layered (below :: outer)) : Layered (frame :: below :: outer)

/-- What becomes of a frame that others stand on, in a step that leads to `after`. -/
inductive Fares (aborted : Prop) (inner : CallStack) (frame : CallFrame) (outer : CallStack) :
    CallStack → Prop where
  | waits {above : CallStack} (covered : above ≠ []) :
      Fares aborted inner frame outer (above ++ frame :: outer)
  | receives (value : Value) : Fares aborted inner frame outer (frame.receive value :: outer)
  | skips {loop : CallFrame} (given : aborted) (alone : inner = [loop])
      (loops : loop.kind.isController = true) :
      Fares aborted inner frame outer (frame.skipStatement :: outer)
  | leaves {after : CallStack} (shorter : after.length ≤ outer.length) :
      Fares aborted inner frame outer after

end CallStack

namespace CallFrame

variable {frame changed : CallFrame}

theorem Continues.ofSame (kind : changed.kind = frame.kind) (code : changed.code = frame.code) :
    frame.Continues changed :=
  ⟨.inl kind, code⟩

theorem Continues.isController (continues : frame.Continues changed) :
    changed.kind.isController = frame.kind.isController := by
  rcases continues.kind with same | ⟨before, after⟩
  · rw [same]
  · rw [before, after]

theorem Continues.trans {last : CallFrame} (first : frame.Continues changed)
    (second : changed.Continues last) : frame.Continues last := by
  refine ⟨?_, second.code.trans first.code⟩
  rcases second.kind with same | ⟨_, after⟩
  · rw [same]
    exact first.kind
  · exact .inr ⟨first.isController ▸ second.isController ▸ after, after⟩

theorem receive_continues (value : Value) : frame.Continues (frame.receive value) := by
  unfold receive
  split <;> exact .ofSame rfl rfl

end CallFrame

namespace CallStack

variable {aborted : Prop} {before after inner outer : CallStack} {frame below changed : CallFrame}

theorem Falls.length_lt (falls : Falls before after) : after.length < before.length := by
  cases falls with
  | outside left => exact List.length_pos_iff.mpr left
  | onto left frame outer value =>
      have pos := List.length_pos_iff.mpr left
      simp only [List.length_append, List.length_cons]
      omega

theorem Turns.length_le (turns : Turns aborted before after) :
    after.length ≤ before.length + 1 := by
  cases turns with
  | stay | enter | skip => simp
  | fall falls => exact Nat.le_succ_of_le (Nat.le_of_lt falls.length_lt)

namespace Layered

theorem ne_nil (layered : Layered before) : before ≠ [] := by
  cases layered <;> simp

theorem codeless (layered : Layered (frame :: outer))
    (loop : frame.kind.isController = true) : frame.code = [] := by
  cases layered with
  | bottom block => simp [block, FrameKind.isController] at loop
  | above _ codeless _ => exact codeless loop

theorem below_loop (layered : Layered (frame :: outer))
    (loop : frame.kind.isController = true) :
    ∃ below rest, outer = below :: rest ∧ below.kind.isController = false := by
  cases layered with
  | bottom block => simp [block, FrameKind.isController] at loop
  | @above _ below rest block _ _ =>
      refine ⟨below, rest, rfl, ?_⟩
      by_contra stacked
      simp [block (by simpa using stacked), FrameKind.isController] at loop

theorem suffix (layered : Layered (inner ++ frame :: outer)) : Layered (frame :: outer) := by
  induction inner with
  | nil => exact layered
  | cons first inner induction =>
      apply induction
      cases inner with
      | nil =>
          cases layered with
          | above _ _ rest => exact rest
      | cons second inner =>
          cases layered with
          | above _ _ rest => exact rest

theorem change (layered : Layered (frame :: outer)) (continues : frame.Continues changed) :
    Layered (changed :: outer) := by
  have same : frame.kind = .block → changed.kind = .block := by
    intro block
    rcases continues.kind with same | ⟨loop, _⟩
    · rw [same, block]
    · simp [block, FrameKind.isController] at loop
  cases layered with
  | bottom block => exact .bottom (same block)
  | above block codeless rest =>
      refine .above (fun loop => same (block loop)) (fun loop => ?_) rest
      rw [continues.code]
      exact codeless (continues.isController ▸ loop)

end Layered

/-- A step keeps the layers, as long as any frame is left. -/
theorem Turns.layered (turns : Turns aborted before after) (layered : Layered before)
    (inside : after ≠ []) : Layered after := by
  cases turns with
  | stay continues => exact layered.change continues
  | enter continues above codeless =>
      refine .above (fun loop => above ?_) codeless (layered.change continues)
      rwa [continues.isController] at loop
  | fall falls =>
      cases falls with
      | outside => exact absurd rfl inside
      | onto _ frame outer value => exact layered.suffix.change (frame.receive_continues value)
  | skip _ _ =>
      cases layered with
      | above _ _ rest => exact rest.change (.ofSame rfl rfl)

/-- Where frames are left, those that stay are covered as before or take a value. -/
theorem Falls.fares (falls : Falls (inner ++ frame :: outer) after) :
    Fares aborted inner frame outer after := by
  generalize whole : inner ++ frame :: outer = stack at falls
  cases falls with
  | outside => exact .leaves (Nat.zero_le _)
  | @onto left _ reached rest value =>
      -- The frame that takes the value is above, at or below the one in question.
      rcases List.append_eq_append_iff.mp whole with
        ⟨between, _, remaining⟩ | ⟨between, _, remaining⟩
      · cases between with
        | nil =>
            obtain ⟨rfl, rfl⟩ := List.cons.inj remaining
            exact .receives value
        | cons first between =>
            have longer := congrArg List.length remaining
            simp only [List.length_append, List.length_cons] at longer
            refine .leaves ?_
            simp only [List.length_cons]
            omega
      · cases between with
        | nil =>
            obtain ⟨rfl, rfl⟩ := List.cons.inj remaining
            exact .receives value
        | cons first between =>
            obtain ⟨rfl, rfl⟩ := List.cons.inj remaining
            exact .waits (List.cons_ne_nil (reached.receive value) between)

theorem Fares.mono {weaker : Prop} (fares : Fares aborted inner frame outer after)
    (implies : aborted → weaker) : Fares weaker inner frame outer after := by
  cases fares with
  | waits covered => exact .waits covered
  | receives value => exact .receives value
  | skips given alone loops => exact .skips (implies given) alone loops
  | leaves shorter => exact .leaves shorter

/-- What a step can do to a frame that others stand on. -/
theorem Turns.fares (turns : Turns aborted (inner ++ frame :: outer) after)
    (covered : inner ≠ []) : Fares aborted inner frame outer after := by
  obtain ⟨top, inner, rfl⟩ := List.exists_cons_of_ne_nil covered
  generalize whole : (top :: inner) ++ frame :: outer = stack at turns
  cases turns with
  | @stay _ changed =>
      obtain ⟨rfl, rfl⟩ := List.cons.inj whole
      exact .waits (List.cons_ne_nil changed inner)
  | @enter _ changed entered =>
      obtain ⟨rfl, rfl⟩ := List.cons.inj whole
      exact .waits (List.cons_ne_nil entered (changed :: inner))
  | fall falls =>
      rw [← whole] at falls
      exact falls.fares
  | skip given loops =>
      cases inner with
      | nil =>
          obtain ⟨rfl, rest⟩ := List.cons.inj whole
          obtain ⟨rfl, rfl⟩ := List.cons.inj rest
          exact .skips given rfl loops
      | cons second inner =>
          obtain ⟨rfl, rest⟩ := List.cons.inj whole
          obtain ⟨rfl, rfl⟩ := List.cons.inj rest
          exact .waits (List.cons_ne_nil second.skipStatement inner)

theorem unwind_congr {first second : CallStack} {scopes : Scopes}
    (same : first.map CallFrame.scope = second.map CallFrame.scope) :
    first.unwind scopes = second.unwind scopes := by
  have folded : ∀ stack : CallStack, stack.unwind scopes =
      (stack.map CallFrame.scope).foldl Scopes.release scopes :=
    fun stack => List.foldl_map.symm
  rw [folded, folded, same]

end CallStack

namespace Execution

variable {exec failed after : Execution} {frame : CallFrame} {outer before : CallStack}
  {aborted : Prop}

/-! ## The frames after each part of a step -/

theorem leave_stack (exec : Execution) : exec.leave.handle.stack = exec.handle.stack.drop 1 := by
  unfold leave
  split
  case h_1 outside => simp [outside]
  case h_2 frame outer inside => simp [inside, withStack]

theorem terminate_stack (exec : Execution) : exec.terminate.handle.stack = [] := by
  simp [terminate, withStack]

theorem change_stack (change : Change) (exec : Execution) :
    (change.perform exec).handle.stack = exec.handle.stack := by
  cases change with
  | nameScope name =>
      dsimp only [Change.perform]
      split <;> rfl
  | _ => rfl

theorem pushOperand_stack {value : Value} (stack : exec.handle.stack = frame :: outer) :
    (exec.pushOperand value).handle.stack = frame.push value :: outer := by
  simp [pushOperand, mapTop, stack, withStack]

theorem answer_stack (change : Change) (reply : Reply)
    (stack : exec.handle.stack = frame :: outer) :
    ∃ value, ((Effect.answer change reply).perform exec).handle.stack =
      frame.push value :: outer := by
  let replied := reply.make (change.perform exec).world.store
  have changed : ((change.perform exec).withStore replied.2).handle.stack = frame :: outer :=
    (change_stack change exec).trans stack
  exact ⟨replied.1, pushOperand_stack changed⟩

theorem setLoop_stack {kind : FrameKind} (stack : exec.handle.stack = frame :: outer) :
    (exec.setLoop kind).handle.stack = { frame with kind, delivered := none } :: outer := by
  simp [setLoop, mapTop, stack, withStack]

/-- Frames have been left, and where none is left the handle has come to its end. -/
structure Fallen (before : CallStack) (after : Execution) : Prop where
  falls : CallStack.Falls before after.handle.stack
  ended : after.handle.stack = [] → after.handle.isAbsorbed = true

/-- What a step has made of the frames, and of the handle where none is left. -/
structure Turned (aborted : Prop) (before : CallStack) (after : Execution) : Prop where
  turns : CallStack.Turns aborted before after.handle.stack
  ended : after.handle.stack = [] → after.handle.isAbsorbed = true

theorem Fallen.turned (fallen : Fallen before after) : Turned aborted before after :=
  ⟨.fall fallen.falls, fallen.ended⟩

/-- As long as a frame is left, the handle does not matter. -/
theorem Turned.ofCons {top : CallFrame} {rest : CallStack}
    (stack : after.handle.stack = top :: rest)
    (turns : CallStack.Turns aborted before (top :: rest)) : Turned aborted before after where
  turns := stack ▸ turns
  ended := by simp [stack]

theorem leave_state (exec : Execution) : exec.leave.handle.state = exec.handle.state := by
  unfold leave
  split <;> rfl

theorem terminate_state (running : exec.handle.state = .running) :
    exec.terminate.handle.state = .terminated := by
  simp [terminate, withStack, withScopes, Handle.become, running, HandleState.canBecome,
    HandleState.isAbsorbed]

theorem terminate_isAbsorbed (running : exec.handle.state = .running) :
    exec.terminate.handle.isAbsorbed = true :=
  Handle.absorbed_of_terminated (terminate_state running)

theorem terminate_fallen (running : exec.handle.state = .running) (inside : before ≠ []) :
    Fallen before exec.terminate where
  falls := by
    rw [terminate_stack]
    exact .outside inside
  ended := fun _ => terminate_isAbsorbed running

theorem abandonHandle_fallen (running : exec.handle.state = .running) (inside : before ≠ []) :
    Fallen before exec.abandonHandle := by
  have ended : Fallen before exec.terminate := terminate_fallen running inside
  exact ⟨ended.falls, ended.ended⟩

/-- A value is handed on after at least one frame has been left. -/
theorem deliver_fallen {count : Nat} {value : Value} (running : exec.handle.state = .running)
    (inside : before ≠ []) (rest : exec.handle.stack = before.drop (count + 1)) :
    Fallen before (exec.deliver value) := by
  have leaving : before.take (count + 1) ≠ [] := by simpa using inside
  have whole : before.take (count + 1) ++ exec.handle.stack = before := by
    rw [rest, List.take_append_drop]
  unfold deliver
  split
  case h_1 outside =>
      constructor
      · simp only [finish, Handle.become_stack, outside]
        exact .outside inside
      · intro _
        simp [finish, Handle.become, running, HandleState.canBecome, Handle.isAbsorbed,
          HandleState.isAbsorbed]
  case h_2 frame outer remaining =>
      rw [remaining] at whole
      have onto := CallStack.Falls.onto leaving frame outer value
      rw [whole, CallFrame.receive] at onto
      split
      case isTrue loop =>
          rw [if_pos loop] at onto
          exact ⟨onto, by simp [withStack]⟩
      case isFalse block =>
          rw [if_neg block] at onto
          exact ⟨onto, by simp [withStack]⟩

theorem complete_fallen (running : exec.handle.state = .running)
    (inside : exec.handle.stack ≠ []) : Fallen exec.handle.stack (exec.complete frame) := by
  have once := leave_stack exec
  have twice : exec.leave.leave.handle.stack = exec.handle.stack.drop 2 := by
    rw [leave_stack, once, List.drop_drop]
  have thrice : exec.leave.leave.leave.handle.stack = exec.handle.stack.drop 3 := by
    rw [leave_stack, twice, List.drop_drop]
  have running₁ := (leave_state exec).trans running
  have running₂ := (leave_state exec.leave).trans running₁
  have running₃ := (leave_state exec.leave.leave).trans running₂
  unfold complete
  dsimp only
  split
  · exact deliver_fallen running₁ inside once
  · split
    · exact deliver_fallen running₃ inside thrice
    · exact deliver_fallen running₂ inside twice
  · exact deliver_fallen running₁ inside once

/-! ## Whole steps -/

theorem Due.stack (due : exec.Due frame) : ∃ outer, exec.handle.stack = frame :: outer :=
  List.head?_eq_some_iff.mp due.top

theorem Loops.turned (loops : exec.Loops after) (running : exec.handle.state = .running)
    (stack : exec.handle.stack = frame :: outer) (loop : frame.kind.isController = true) :
    Turned aborted exec.handle.stack after := by
  cases loops with
  | leave =>
      have left := (leave_state exec).trans running
      exact (deliver_fallen left (by simp [stack]) (leave_stack exec)).turned
  | @wait kind controls =>
      have waiting : ((exec.setLoop kind).suspend .nextTurn).handle.stack =
          { frame with kind, delivered := none } :: outer := by
        simp only [suspend, Handle.become_stack, setLoop_stack stack]
      rw [stack]
      exact .ofCons waiting (.stay ⟨.inr ⟨loop, controls⟩, rfl⟩)
  | @enter kind scopes code controls declared =>
      have set : (exec.setLoop kind).handle.stack = _ := setLoop_stack stack
      rw [stack]
      refine .ofCons rfl ?_
      dsimp only [withScopes]
      rw [set]
      exact .enter ⟨.inr ⟨loop, controls⟩, rfl⟩ (fun _ => rfl) (by simp [FrameKind.isController])

theorem Computes.state (computed : exec.Computes after) :
    after.handle.state = exec.handle.state := by
  obtain ⟨stack, operands, store⟩ := computed
  rfl

/-- An instruction stays in its frame, enters one, or breaks out of some. -/
theorem Does.turned {original : CallFrame} {target : Option HandleId}
    (does : exec.Does target after) (running : exec.handle.state = .running)
    (stack : exec.handle.stack = frame :: outer) (continues : original.Continues frame)
    (block : frame.kind.isController = false) : Turned aborted (original :: outer) after := by
  have stay : ∀ {operands}, CallStack.Turns aborted (original :: outer)
      ({ frame with operands } :: outer) := .stay (continues.trans (.ofSame rfl rfl))
  have computes : ∀ {later : Execution}, exec.Computes later →
      Turned aborted (original :: outer) later := by
    intro later computed
    obtain ⟨operands, computedStack⟩ := computed.stack stack
    exact .ofCons computedStack stay
  cases does with
  | compute computed => exact computes computed
  | assign computed name value =>
      have turned := computes computed
      exact ⟨turned.turns, turned.ended⟩
  | declare computed declared =>
      have turned := computes computed
      exact ⟨turned.turns, turned.ended⟩
  | @perform middle effect computed sanctioned _ =>
      obtain ⟨operands, middleStack⟩ := computed.stack stack
      cases effect with
      | answer change reply =>
          obtain ⟨value, answered⟩ := answer_stack change reply middleStack
          exact .ofCons answered stay
      | enter kind code environment bindings =>
          refine .ofCons rfl ?_
          rw [middleStack]
          refine .enter (continues.trans (.ofSame rfl rfl)) ?_ sanctioned.loops
          simp [← continues.isController, block]
      | breakOut depth value =>
          have rest : (middle.leaveTo depth).handle.stack =
              (original :: outer).drop (outer.length - depth + 1) := by
            obtain ⟨name, found⟩ := sanctioned.1
            have shallow := CallStack.findNamed?_lt found
            simp only [middleStack, List.length_cons] at shallow
            have leaving : outer.length + 1 - depth = outer.length - depth + 1 := by omega
            simp [leaveTo, withStack, middleStack, leaving]
          have left : (middle.leaveTo depth).handle.state = .running :=
            computed.state.trans running
          exact (deliver_fallen left (by simp) rest).turned
      | suspend wake =>
          have waiting : ((middle.pushOperand .nil).suspend wake).handle.stack = _ :=
            (Handle.become_stack _ _).trans (pushOperand_stack middleStack)
          exact .ofCons waiting stay

theorem leaveLoops_of_block (stack : exec.handle.stack = frame :: outer)
    (block : frame.kind.isController = false) : exec.leaveLoops.handle.stack = frame :: outer := by
  simp [leaveLoops, leaveTo, withStack, stack, block]

theorem leaveLoops_of_loop {below : CallFrame}
    (stack : exec.handle.stack = frame :: below :: outer)
    (loop : frame.kind.isController = true) (block : below.kind.isController = false) :
    exec.leaveLoops.handle.stack = below :: outer := by
  simp [leaveLoops, leaveTo, withStack, stack, loop, block]

theorem abandonStatement_stack (remaining : exec.leaveLoops.handle.stack = frame :: outer) :
    exec.abandonStatement.handle.stack = frame.skipStatement :: outer := by
  simp [abandonStatement, mapTop, remaining, withStack]

theorem block_of_fetch {moved : CallFrame} {instruction : Instruction}
    (layered : CallStack.Layered (frame :: outer))
    (fetched : frame.fetch? = some (instruction, moved)) :
    moved.kind.isController = false ∧ frame.Continues moved := by
  obtain ⟨_, found, same⟩ := Option.map_eq_some_iff.mp fetched
  obtain ⟨rfl, rfl⟩ := Prod.mk.inj same
  refine ⟨?_, .ofSame rfl rfl⟩
  by_contra loop
  have empty := layered.codeless (by simpa using loop)
  simp [empty] at found

/-- Where a statement is given up, its frame goes on; or it is the frame below a loop. -/
theorem Fails.turned (given : aborted) (fails : exec.Fails failed)
    (layered : exec.handle.stack.Layered) :
    Turned aborted exec.handle.stack failed.abandonStatement := by
  cases fails with
  | loop due paid loops =>
      obtain ⟨outer, stack⟩ := due.stack
      rw [stack] at layered ⊢
      obtain ⟨below, rest, rfl, block⟩ := layered.below_loop loops
      have remaining : exec.charged.leaveLoops.handle.stack = below :: rest :=
        leaveLoops_of_loop stack loops block
      exact .ofCons (abandonStatement_stack remaining) (.skip given loops)
  | dispatch due paid fetched computed =>
      obtain ⟨outer, stack⟩ := due.stack
      rw [stack] at layered ⊢
      obtain ⟨block, continues⟩ := block_of_fetch layered fetched
      obtain ⟨operands, computedStack⟩ := computed.stack (placed_stack stack)
      have remaining := leaveLoops_of_block computedStack block
      exact .ofCons (abandonStatement_stack remaining) (.stay (continues.trans (.ofSame rfl rfl)))

theorem placed_state {instruction : Instruction} {moved : CallFrame} :
    (exec.placed instruction moved).handle.state = exec.handle.state := by
  simp only [placed, mapTop]
  split <;> rfl

theorem Fails.state (fails : exec.Fails failed) : failed.handle.state = exec.handle.state := by
  cases fails with
  | loop due paid loops => rfl
  | dispatch due paid fetched computed => exact computed.state.trans placed_state

/-- Whatever a step does, it does to the frame on top, or above it, or to frames that are left; and
where no frame is left, the handle has come to its end. -/
theorem advance_turned (running : exec.handle.state = .running)
    (layered : exec.handle.stack.Layered) :
    Turned (exec.step.1.result = .error .statement) exec.handle.stack exec.advance.2 := by
  have inside := layered.ne_nil
  obtain ⟨after, advances, same⟩ := exec.advance_cases
  suffices turned : Turned (exec.step.1.result = .error .statement) exec.handle.stack after by
    rw [same]
    exact ⟨turned.turns, turned.ended⟩
  cases advances with
  | terminate requested => exact (terminate_fallen running inside).turned
  | finish outside => exact absurd outside inside
  | complete top exhausted block => exact (complete_fallen running inside).turned
  | refuse due unpaid => exact (abandonHandle_fallen running inside).turned
  | loop due paid loops done =>
      obtain ⟨outer, stack⟩ := due.stack
      exact done.turned running stack loops
  | dispatch due paid fetched done =>
      obtain ⟨outer, stack⟩ := due.stack
      rw [stack] at layered ⊢
      obtain ⟨block, continues⟩ := block_of_fetch layered fetched
      exact done.turned (placed_state.trans running) (placed_stack stack) continues block
  | giveUpStatement given fails => exact fails.turned given layered
  | giveUpHandle fails => exact (abandonHandle_fallen (fails.state.trans running) inside).turned

end Execution

end SimScript
