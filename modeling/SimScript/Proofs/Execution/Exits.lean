import SimScript.Proofs.Execution.Breaking

/-!
# How frames are left

A step that makes the frames fewer hands a value to what remains, unless it ends the
handle or gives up a loop.  The frames that it leaves are those of code or a loop that
has come to its end, those that `exitWith` leaves, or those up to a scope with a name.
So a frame that code stands on is on top again in few ways.
-/

namespace SimScript

/-- What code hands on when it has come to its end. -/
def CallFrame.outcome (frame : CallFrame) : Value :=
  match frame.kind with
  | .isNil => .boolean frame.result.isNil
  | _ => frame.result

namespace CallStack

def receive (value : Value) : CallStack → CallStack
  | [] => []
  | frame :: outer => frame.receive value :: outer

/-- The frames beyond a loop on top that `exitWith` leaves. -/
def pastLoop (stack : CallStack) : CallStack :=
  if stack.head?.any fun frame => frame.kind.isLoop then stack.drop 1 else stack

@[simp] theorem receive_length (value : Value) (stack : CallStack) :
    (stack.receive value).length = stack.length := by
  cases stack <;> rfl

theorem pastLoop_length (stack : CallStack) :
    stack.pastLoop.length ≤ stack.length ∧ stack.length ≤ stack.pastLoop.length + 1 := by
  unfold pastLoop
  split
  · rw [List.length_drop]
    omega
  · exact ⟨Nat.le_refl _, Nat.le_succ _⟩

theorem pastLoop_of_block {frame : CallFrame} {outer : CallStack}
    (block : frame.kind.isController = false) : pastLoop (frame :: outer) = frame :: outer := by
  have stays : frame.kind.isLoop = false := by
    cases kind : frame.kind <;> simp_all [FrameKind.isController, FrameKind.isLoop]
  simp [pastLoop, stays]

variable {aborted : Prop} {inner outer after : CallStack} {cover frame : CallFrame}

/-- Code that stands on a frame stays code of its kind, or it is left. -/
theorem Turns.covers (turns : Turns aborted (inner ++ cover :: frame :: outer) after)
    (block : cover.kind.isController = false) :
    (∃ above changed, after = above ++ changed :: frame :: outer ∧ changed.kind = cover.kind) ∨
      after.length ≤ outer.length + 1 := by
  have sameKind : ∀ {changed}, cover.Continues changed → changed.kind = cover.kind := by
    intro changed continues
    rcases continues.kind with same | ⟨loop, _⟩
    · exact same
    · simp [block] at loop
  cases inner with
  | nil =>
      generalize whole : [] ++ cover :: frame :: outer = stack at turns
      cases turns with
      | @stay _ changed _ continues =>
          obtain ⟨rfl, rfl⟩ := List.cons.inj whole
          exact .inl ⟨[], changed, rfl, sameKind continues⟩
      | @enter _ changed entered _ continues =>
          obtain ⟨rfl, rfl⟩ := List.cons.inj whole
          exact .inl ⟨[entered], changed, rfl, sameKind continues⟩
      | fall falls =>
          have fewer := falls.length_lt
          rw [← whole, List.nil_append, List.length_cons, List.length_cons] at fewer
          exact .inr (Nat.le_of_lt_succ fewer)
      | skip _ loops =>
          obtain ⟨rfl, _⟩ := List.cons.inj whole
          simp [block] at loops
  | cons first inner =>
      cases turns.fares (List.cons_ne_nil first inner) with
      | @waits above _ => exact .inl ⟨above, cover, rfl, rfl⟩
      | receives value =>
          exact .inl ⟨[], cover.receive value, rfl, sameKind (cover.receive_continues value)⟩
      | skips => exact .inl ⟨[], cover.skipStatement, rfl, rfl⟩
      | leaves shorter => exact .inr shorter

end CallStack

namespace Execution

/-- The frames that remain when a step hands a value on, and the value. -/
inductive Lands (exec : Execution) : CallStack → Value → Prop where
  | code {top : CallFrame} {outer : CallStack} (stack : exec.handle.stack = top :: outer)
      (exhausted : top.isExhausted = true) (plain : top.kind ≠ .exitWith) :
      Lands exec outer top.outcome
  | exit {top : CallFrame} {outer : CallStack} (stack : exec.handle.stack = top :: outer)
      (exhausted : top.isExhausted = true) (exits : top.kind = .exitWith) :
      Lands exec (CallStack.pastLoop (outer.drop 1)) top.result
  | loop {top : CallFrame} {outer : CallStack} (stack : exec.handle.stack = top :: outer)
      (loops : top.kind.isController = true) : Lands exec outer .nil
  | breakOut {op : Op} {moved target : CallFrame} {under above below : CallStack} {name : String}
      {value : Value} {rest : List Value} (carries : exec.CarriesOut op moved under)
      (breaks : moved.BreaksOut name op value rest)
      (innermost :
        CallStack.Innermost exec.world.scopes name exec.handle.stack above target below) :
      Lands exec below value

variable {exec middle failed after : Execution} {top changed : CallFrame} {outer : CallStack}

theorem deliver_stack (value : Value) :
    (exec.deliver value).handle.stack = exec.handle.stack.receive value := by
  unfold deliver
  split
  case h_1 outside => simp [finish, outside, CallStack.receive]
  case h_2 frame outer inside =>
      rw [inside, CallStack.receive, CallFrame.receive]
      split <;> rfl

theorem deliver_world (value : Value) : (exec.deliver value).world = exec.world := by
  unfold deliver
  split
  · rfl
  · split <;> rfl

/-- Where frames remain, the handle that a value is delivered to goes on. -/
theorem deliver_state (value : Value) (inside : exec.handle.stack ≠ []) :
    (exec.deliver value).handle.state = exec.handle.state := by
  unfold deliver
  split
  · contradiction
  · split <;> rfl

theorem deliver_of_nil {value : Value} (running : exec.handle.state = .running)
    (outside : exec.handle.stack = []) :
    (exec.deliver value).handle.state = .finished ∧ (exec.deliver value).handle.result = value := by
  simp [deliver, outside, finish, Handle.become, running, HandleState.canBecome,
    HandleState.isAbsorbed]

theorem step_of_exhausted (proceeds : exec.handle.terminateRequested = false)
    (stack : exec.handle.stack = top :: outer) (exhausted : top.isExhausted = true)
    (block : top.kind.isController = false) :
    exec.step = (⟨.ok (), []⟩, exec.complete top) := by
  simp [step, stepFrame, proceeds, stack, exhausted, block]

/-- Code after `exitWith` leaves the frame below it and a loop around that, and hands its value to
what remains. -/
theorem complete_exit (stack : exec.handle.stack = top :: outer) (exits : top.kind = .exitWith) :
    ∃ left : Execution, left.handle.stack = CallStack.pastLoop (outer.drop 1) ∧
      left.handle.state = exec.handle.state ∧ exec.complete top = left.deliver top.result := by
  have twice : exec.leave.leave.handle.stack = outer.drop 1 := by
    simp [leave_stack, stack]
  have state : exec.leave.leave.handle.state = exec.handle.state := by
    rw [leave_state, leave_state]
  simp only [complete, exits, CallStack.pastLoop, ← twice, Handle.top?]
  by_cases loops : exec.leave.leave.handle.stack.head?.any fun frame => frame.kind.isLoop
  · refine ⟨exec.leave.leave.leave, ?_, (leave_state _).trans state, if_pos loops⟩
    rw [leave_stack, if_pos loops]
  · refine ⟨exec.leave.leave, ?_, state, if_neg loops⟩
    rw [if_neg loops]

/-- Code that has come to its end hands on what it leaves. -/
theorem complete_lands (stack : exec.handle.stack = top :: outer)
    (exhausted : top.isExhausted = true) :
    ∃ remaining value, exec.Lands remaining value ∧
      (exec.complete top).handle.stack = remaining.receive value := by
  by_cases exits : top.kind = .exitWith
  · obtain ⟨left, remaining, _, completes⟩ := complete_exit stack exits
    refine ⟨_, top.result, .exit stack exhausted exits, ?_⟩
    rw [completes, deliver_stack, remaining]
  · refine ⟨outer, top.outcome, .code stack exhausted exits, ?_⟩
    have once : exec.leave.handle.stack = outer := by
      rw [leave_stack, stack, List.drop_one, List.tail_cons]
    have completes : exec.complete top = exec.leave.deliver top.outcome := by
      cases kind : top.kind <;> simp_all [complete, CallFrame.outcome]
    rw [completes, deliver_stack, once]

/-- A step that makes the frames fewer and leaves some hands a value on to them; or it gives up the
loop on top. -/
theorem advance_lands (layered : exec.handle.stack.Layered)
    (fewer : exec.advance.2.handle.stack.length < exec.handle.stack.length)
    (inside : exec.advance.2.handle.stack ≠ []) :
    (∃ remaining value, exec.Lands remaining value ∧
      exec.advance.2.handle.stack = remaining.receive value) ∨
    ∃ loop outer, exec.handle.stack = loop :: outer ∧ loop.kind.isController = true ∧
      exec.advance.2.handle.stack.length = outer.length := by
  have advances := exec.settle_cases
  have settled : exec.advance.2.handle.stack = exec.settle.2.handle.stack := rfl
  generalize exec.settle.2 = last at advances settled
  have wasFewer := fewer
  have wasInside := inside
  rw [settled] at fewer inside
  rw [settled]
  cases advances with
  | terminate requested => exact absurd (terminate_stack exec) inside
  | finish outside => exact absurd outside layered.ne_nil
  | refuse due unpaid => exact absurd (terminate_stack exec) inside
  | @giveUpHandle failed fails => exact absurd (terminate_stack failed) inside
  | complete topmost exhausted block =>
      obtain ⟨outer, stack⟩ := List.head?_eq_some_iff.mp topmost
      exact .inl (complete_lands stack exhausted)
  | @loop frame _ due paid loops done =>
      obtain ⟨outer, stack⟩ := due.stack
      have charged : exec.charged.handle.stack = frame :: outer := stack
      rw [stack, List.length_cons] at fewer
      cases done with
      | leave =>
          refine .inl ⟨outer, .nil, .loop stack loops, ?_⟩
          rw [leaveLoop, deliver_stack, leave_stack, charged, List.drop_one, List.tail_cons]
      | wait _ _ =>
          simp [suspend, setLoop_stack charged] at fewer
      | @enter kind scopes code _ _ =>
          have set : (exec.charged.setLoop kind).handle.stack = _ := setLoop_stack charged
          simp only [enterBlock, enter, withStack, withScopes, set, List.length_cons] at fewer
          omega
  | @dispatch frame moved instruction _ due paid fetched =>
      obtain ⟨outer, stack⟩ := due.stack
      have carries : exec.CarriesOut instruction.op moved outer :=
        ⟨paid, frame, instruction, due, stack, fetched, rfl⟩
      obtain ⟨name, value, rest, above, target, below, breaks, innermost⟩ :=
        carries.breaks layered wasFewer wasInside
      obtain ⟨left, remaining, _, _, advanced⟩ := carries.leavesTo breaks innermost
      refine .inl ⟨below, value, .breakOut carries breaks innermost, ?_⟩
      rw [← settled, advanced, deliver_stack, remaining]
  | giveUpStatement given fails =>
      cases fails with
      | @loop loop due paid loops =>
          obtain ⟨outer, stack⟩ := due.stack
          rw [stack] at layered
          obtain ⟨below, rest, rfl, block⟩ := layered.below_loop loops
          have remaining : exec.charged.leaveLoops.handle.stack = below :: rest :=
            leaveLoops_of_loop stack loops block
          refine .inr ⟨loop, _, stack, loops, ?_⟩
          rw [abandonStatement_stack remaining, List.length_cons, List.length_cons]
      | dispatch due paid fetched computed =>
          obtain ⟨outer, stack⟩ := due.stack
          rw [stack] at layered fewer
          obtain ⟨block, _⟩ := block_of_fetch layered fetched
          obtain ⟨operands, kept⟩ := computed.stack (placed_stack stack)
          have remaining := leaveLoops_of_block kept block
          rw [abandonStatement_stack remaining] at fewer
          simp at fewer

/-- A step leaves the innermost frame whose scope has a name, by a call of `breakOut` with it. -/
def BreaksTo (exec : Execution) (above : CallStack) (target : CallFrame) (below : CallStack) :
    Prop :=
  ∃ op moved under name value rest, exec.CarriesOut op moved under ∧
    moved.BreaksOut name op value rest ∧
    CallStack.Innermost exec.world.scopes name exec.handle.stack above target below

/-- How a frame is on top again that code stood on: the code has come to its end; or code after
`exitWith` has, which the code itself issued; or the scope of the code has been broken out of. -/
theorem uncovers {inner : CallStack} {cover frame : CallFrame}
    (layered : exec.handle.stack.Layered)
    (stack : exec.handle.stack = inner ++ cover :: frame :: outer)
    (block : cover.kind.isController = false)
    (uncovered : exec.advance.2.handle.stack.length = outer.length + 1) :
    (inner = [] ∧ cover.isExhausted = true ∧ cover.kind ≠ .exitWith ∧
      exec.advance.2.handle.stack = frame.receive cover.outcome :: outer) ∨
    (∃ exit, inner = [exit] ∧ exit.kind = .exitWith ∧ exit.isExhausted = true) ∨
    exec.BreaksTo inner cover (frame :: outer) := by
  have total : exec.handle.stack.length = inner.length + (outer.length + 2) := by
    rw [stack, List.length_append, List.length_cons, List.length_cons]
  have inside : exec.advance.2.handle.stack ≠ [] := by
    intro outside
    simp [outside] at uncovered
  -- Where one frame is left, it is the cover.
  have alone : ∀ {top rest}, exec.handle.stack = top :: rest → rest.length = outer.length + 1 →
      inner = [] ∧ top = cover ∧ rest = frame :: outer := by
    intro top rest topmost shorter
    have empty : inner = [] := by
      apply List.eq_nil_of_length_eq_zero
      rw [topmost, List.length_cons] at total
      omega
    subst empty
    obtain ⟨same, rest⟩ := List.cons.inj (topmost.symm.trans stack)
    exact ⟨rfl, same, rest⟩
  rcases advance_lands layered (by omega) inside with
    ⟨remaining, value, lands, after⟩ | ⟨loop, rest, topmost, loops, shorter⟩
  · rw [after, CallStack.receive_length] at uncovered
    rw [after]
    cases lands with
    | code topmost exhausted plain =>
        obtain ⟨rfl, rfl, rfl⟩ := alone topmost uncovered
        exact .inl ⟨rfl, exhausted, plain, rfl⟩
    | loop topmost loops =>
        obtain ⟨_, rfl, _⟩ := alone topmost uncovered
        simp [block] at loops
    | @breakOut op moved target under above below name value rest carries breaks innermost =>
        have parts := List.append_inj' (stack.symm.trans innermost.whole) (by simp [uncovered])
        obtain ⟨rfl, whole⟩ := parts
        obtain ⟨rfl, rfl⟩ := List.cons.inj whole
        exact .inr (.inr ⟨op, moved, under, name, _, rest, carries, breaks, innermost⟩)
    | @exit top rest topmost exhausted exits =>
        have past := CallStack.pastLoop_length (rest.drop 1)
        rw [List.length_drop] at past
        rw [topmost, List.length_cons] at total
        match inner with
        | [] =>
            simp only [List.length_nil] at total
            omega
        | [first] =>
            obtain ⟨rfl, _⟩ := List.cons.inj (topmost.symm.trans stack)
            exact .inr (.inl ⟨top, rfl, exits, exhausted⟩)
        | first :: second :: inner =>
            obtain ⟨_, rfl⟩ := List.cons.inj (topmost.symm.trans stack)
            cases inner with
            | nil =>
                simp [CallStack.pastLoop_of_block block] at uncovered
            | cons third inner =>
                simp only [List.length_cons] at total
                omega
  · obtain ⟨_, rfl, _⟩ := alone topmost (shorter.symm.trans uncovered)
    simp [block] at loops

end Execution

end SimScript
