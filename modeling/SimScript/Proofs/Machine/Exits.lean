import SimScript.Proofs.Execution.Exits
import SimScript.Proofs.Machine.FrameDiscipline

/-!
# Leaving a frame early, and testing code for nil

`exitWith` covers the frame that issued it with its code, and that frame is left when
the code has come to its end.  `isNil` covers the frame that called it with the code to
test, and answers when the code has come to its end.  Both depend on the end of the
covering code, and there are two ways past it: an `exitWith` that the code issues itself
hands its value to the frame below, and so does breaking out of the scope of the code.
A scope that has a name but is not broken out of makes no difference.
-/

namespace SimScript

/-- The step under way bypasses the end of some code: code after an `exitWith` that it issued has
come to its end, or an instruction breaks out of its scope. -/
def CallFrame.Bypassed (exec : Execution) (inner : CallStack) (cover : CallFrame)
    (below : CallStack) : Prop :=
  (∃ exit, inner = [exit] ∧ exit.kind = .exitWith ∧ exit.isExhausted = true) ∨
    exec.BreaksTo inner cover below

def Op.callsBreakOut : Op → Bool
  | .callUnary command | .callBinary command => Text.sameName command "breakOut"
  | _ => false

def CallFrame.isPlain (frame : CallFrame) : Bool :=
  frame.code.all fun instruction => !instruction.op.callsBreakOut

theorem CallFrame.BreaksOut.calls {frame : CallFrame} {name : String} {op : Op} {value : Value}
    {rest : List Value} (breaks : frame.BreaksOut name op value rest) :
    op.callsBreakOut = true := by
  cases breaks with
  | alone called _ | valued called _ => exact called

theorem Execution.not_breaksTo {exec : Execution} {inner below : CallStack} {cover : CallFrame}
    (plain : ∀ frame ∈ exec.handle.stack, frame.isPlain = true) :
    ¬ exec.BreaksTo inner cover below := by
  rintro ⟨op, moved, under, name, value, rest, carries, breaks, _⟩
  obtain ⟨_, frame, instruction, _, whole, fetched, rfl⟩ := carries
  obtain ⟨_, found, same⟩ := Option.map_eq_some_iff.mp fetched
  obtain ⟨rfl, _⟩ := Prod.mk.inj same
  have member : frame ∈ exec.handle.stack := whole ▸ List.mem_cons_self
  have silent := List.all_eq_true.mp (plain frame member) _ (List.mem_of_getElem? found)
  rw [breaks.calls] at silent
  cases silent

theorem Value.isNil_iff {value : Value} : value.isNil = true ↔ value = .nil := by
  cases value <;> simp [isNil]

namespace Situation

/-- The handle of a number is at work, and its next step bypasses the end of the code on a frame. -/
def Bypasses (id : HandleId) (frame : CallFrame) (outer : CallStack) (situation : Situation) :
    Prop :=
  ∃ exec batch inner cover, situation = .atWork exec batch ∧ exec.handle.id = id ∧
    exec.handle.stack = inner ++ cover :: frame :: outer ∧
    cover.Bypassed exec inner (frame :: outer)

/-- One situation leads to the next, in which there are frames above a height; the end of the code
on a frame is not bypassed. -/
def NextHeld (permits : Store → Value → Prop) (id : HandleId) (height : Nat) (frame : CallFrame)
    (outer : CallStack) (before after : Situation) : Prop :=
  NextCovered permits id height before after ∧ ¬ before.Bypasses id frame outer

variable {permits : Store → Value → Prop} {before after : Situation} {handle later : Handle}
  {inner outer : CallStack} {cover frame : CallFrame} {id : HandleId} {height : Nat}

theorem not_bypasses {exec : Execution} {batch : Option (List HandleId)}
    (height : exec.handle.stack.length = outer.length + 2)
    (plain : ∀ frame ∈ exec.handle.stack, frame.isPlain = true) :
    ¬ (Situation.atWork exec batch).Bypasses id frame outer := by
  rintro ⟨_, _, inner, other, ⟨⟩, _, whole, bypassed⟩
  have length := congrArg List.length whole
  simp only [List.length_append, List.length_cons] at length
  obtain rfl : inner = [] := List.eq_nil_of_length_eq_zero (by omega)
  rcases bypassed with ⟨exit, impossible, _⟩ | breaks
  · simp at impossible
  · exact Execution.not_breaksTo plain breaks

theorem heldFor {exec : Nat → Execution} {first last : Nat} (order : first ≤ last)
    (above : height ≤ outer.length + 1)
    (next : ∀ steps < last,
      Next permits (.atWork (exec steps) none) (.atWork (exec (steps + 1)) none))
    (covered : ∀ steps ≤ last, first ≤ steps → (exec steps).handle.id = id ∧
      (exec steps).handle.stack.length = outer.length + 2 ∧
      ∀ frame ∈ (exec steps).handle.stack, frame.isPlain = true) :
    Relation.ReflTransGen (NextHeld permits id height frame outer) (.atWork (exec first) none)
      (.atWork (exec last) none) := by
  induction last, order using Nat.le_induction with
  | base => exact .refl
  | succ last order induction =>
      obtain ⟨_, here, plain⟩ := covered last (Nat.le_succ last) order
      obtain ⟨number, there, _⟩ := covered (last + 1) (Nat.le_refl _) (Nat.le_succ_of_le order)
      refine .tail (induction (fun steps bound => next steps (by omega))
        fun steps bound => covered steps (by omega)) ⟨⟨next last (Nat.lt_succ_self last),
          (exec (last + 1)).handle, List.mem_cons_self, number, ?_⟩, not_bypasses here plain⟩
      omega

/-- What becomes of a frame with code on it, where the end of the code is not bypassed: the code
goes on, or it has come to its end, or the frame is left. -/
theorem held_of_passes (passed : handle.Passes before later)
    (layered : handle.isAbsorbed = false → handle.stack.Layered)
    (stack : handle.stack = inner ++ cover :: frame :: outer)
    (block : cover.kind.isController = false) (intact : ¬ before.Bypasses handle.id frame outer) :
    (∃ above changed, later.stack = above ++ changed :: frame :: outer ∧
      changed.kind = cover.kind) ∨
    (inner = [] ∧ cover.isExhausted = true ∧ cover.kind ≠ .exitWith ∧
      later.stack = frame.receive cover.outcome :: outer) ∨
    later.stack.length ≤ outer.length := by
  cases passed with
  | stays => exact .inl ⟨inner, cover, stack, rfl⟩
  | starts =>
      rw [Handle.become_stack]
      exact .inl ⟨inner, cover, stack, rfl⟩
  | stops => exact .inr (.inr (Nat.zero_le _))
  | @steps exec batch atWork running =>
      have layers := layered (Handle.live_of_running running)
      have turns := (Execution.advance_turned running layers).turns
      rw [stack] at turns
      rcases turns.covers block with goesOn | shorter
      · exact .inl goesOn
      · rcases Nat.lt_or_eq_of_le shorter with left | uncovered
        · exact .inr (.inr (Nat.le_of_lt_succ left))
        · rcases Execution.uncovers layers stack block uncovered with ended | bypassed
          · exact .inr (.inl ended)
          · exact absurd ⟨exec, batch, inner, cover, atWork, rfl, stack, bypassed⟩ intact

/-- Code stays on a frame through any number of steps of any handles, as long as the frame is not
left and the end of the code is neither reached nor bypassed. -/
theorem Reachable.held (reached : Reachable permits before)
    (history : Relation.ReflTransGen (NextHeld permits id height frame outer) before after)
    (member : handle ∈ before.handles) (number : handle.id = id)
    (stack : handle.stack = inner ++ cover :: frame :: outer)
    (block : cover.kind.isController = false) (above : outer.length ≤ height)
    (plain : cover.kind ≠ .exitWith → outer.length < height) :
    ∃ later ∈ after.handles, later.id = id ∧
      ∃ inner changed, later.stack = inner ++ changed :: frame :: outer ∧
        changed.kind = cover.kind := by
  suffices carried : Reachable permits after ∧ ∃ later ∈ after.handles, later.id = id ∧
      ∃ inner changed, later.stack = inner ++ changed :: frame :: outer ∧
        changed.kind = cover.kind from carried.2
  induction history with
  | refl => exact ⟨reached, handle, member, number, inner, cover, stack, rfl⟩
  | @tail middle last _ step induction =>
      obtain ⟨reached, holding, held, sameId, inner, changed, holdingStack, kind⟩ := induction
      obtain ⟨⟨next, later, laterMember, laterId, longer⟩, intact⟩ := step
      have passed := passes_of_sameId reached next held laterMember (laterId.trans sameId.symm)
      refine ⟨reached.next next, later, laterMember, laterId, ?_⟩
      rw [← sameId] at intact
      rcases held_of_passes passed (reached.layered holding held) holdingStack (kind ▸ block)
        intact with ⟨inner, again, laterStack, sameKind⟩ | ⟨_, _, other, ended⟩ | left
      · exact ⟨inner, again, laterStack, sameKind.trans kind⟩
      · have low := plain (kind ▸ other)
        rw [ended, List.length_cons] at longer
        omega
      · omega

/-- A frame that called for a test is on top again with the answer. -/
theorem Reachable.tested (reached : Reachable permits before) (next : Next permits before after)
    (earlier : handle ∈ before.handles) (member : later ∈ after.handles)
    (same : later.id = handle.id) (stack : handle.stack = inner ++ cover :: frame :: outer)
    (tests : cover.kind = .isNil) (intact : ¬ before.Bypasses handle.id frame outer)
    (uncovered : later.stack.length = outer.length + 1) :
    inner = [] ∧ cover.isExhausted = true ∧ ∃ answer,
      later.stack = { frame with operands := .boolean answer :: frame.operands } :: outer ∧
        (answer = true ↔ cover.result = .nil) := by
  have live : handle.isAbsorbed = false := by
    by_contra absorbed
    have empty := reached.tidy.ended handle earlier (by simpa using absorbed)
    simp [stack] at empty
  have layered := reached.layered handle earlier
  have block : cover.kind.isController = false := by rw [tests, FrameKind.isController]
  -- Only a block stands on a loop, so the caller is none.
  have called : frame.kind.isController = false := by
    by_contra loop
    have above := (layered live).ordered.above inner cover frame outer stack (by simpa using loop)
    simp [tests] at above
  have passed := passes_of_sameId reached next earlier member same
  rcases held_of_passes passed layered stack block intact with
    ⟨above, changed, laterStack, _⟩ | ⟨alone, exhausted, _, answered⟩ | left
  · rw [laterStack, List.length_append, List.length_cons, List.length_cons] at uncovered
    omega
  · refine ⟨alone, exhausted, cover.result.isNil, ?_, Value.isNil_iff⟩
    rw [answered]
    simp [CallFrame.receive, called, CallFrame.push, CallFrame.outcome, tests]
  · omega

end Situation

namespace Execution

variable {exec after : Execution} {moved exit frame : CallFrame} {outer : CallStack} {name : String}
  {op : Op} {block : BlockId} {rest : List Value}

theorem CarriesOut.enters {kind : FrameKind} {environment : Environment} {operands : List Value}
    (carries : exec.CarriesOut op moved outer)
    (dispatches : ∀ {exec : Execution}, exec.handle.stack = moved :: outer →
      exec.dispatch op = (⟨.ok (), []⟩,
        (exec.withStack ({ moved with operands } :: outer)).enter kind
          (exec.world.store.codeOf (.code block)) environment [])) :
    ∃ entered, exec.advance.2.handle.stack = entered :: { moved with operands } :: outer ∧
      entered.kind = kind ∧ entered.code = exec.world.store.codeOf (.code block) ∧
      entered.ip = 0 := by
  obtain ⟨instruction, placed, made⟩ := carries.step
  rw [dispatches placed] at made
  rw [advance_of_silent made, placed_world]
  exact ⟨_, rfl, rfl, rfl, rfl⟩

theorem dispatch_exitWith {frame : CallFrame} (named : Text.sameName name "exitWith" = true)
    (stack : exec.handle.stack = frame :: outer)
    (operands : frame.operands = .code block :: .ifPart true :: rest) :
    exec.dispatch (.callBinary name) = (⟨.ok (), []⟩,
      (exec.withStack ({ frame with operands := rest } :: outer)).enter .exitWith
        (exec.world.store.codeOf (.code block)) frame.environment []) := by
  have found : Command.binariesOf name =
      [⟨"exitWith", .ifPart, .code, Command.whenHolds .exitWith⟩] := by
    rw [Command.binariesOf, Command.named_sameName Command.binaryTable named]
    rfl
  rw [dispatch_callBinary stack operands, callBinary, found]
  rfl

theorem dispatch_isNilCode {frame : CallFrame} (named : Text.sameName name "isNil" = true)
    (stack : exec.handle.stack = frame :: outer) (operands : frame.operands = .code block :: rest) :
    exec.dispatch (.callUnary name) = (⟨.ok (), []⟩,
      (exec.withStack ({ frame with operands := rest } :: outer)).enter .isNil
        (exec.world.store.codeOf (.code block)) .unscheduled []) := by
  have found : Command.unaryFor? (Command.unariesOf name) .code =
      some ⟨"isNil", .code, Command.enterIsNil⟩ := by
    rw [Command.unariesOf, Command.named_sameName Command.unaryTable named]
    rfl
  rw [dispatch_callUnary stack operands, callUnary]
  split
  case h_1 nothing => simp [nothing, Command.unaryFor?] at found
  case h_2 =>
      have type : (Value.code block).type = .code := rfl
      rw [type, found]
      rfl

theorem advance_of_exhausted (proceeds : exec.handle.terminateRequested = false)
    (stack : exec.handle.stack = frame :: outer) (exhausted : frame.isExhausted = true)
    (block : frame.kind.isController = false) : exec.advance.2 = exec.complete frame := by
  rw [advance_of_silent (step_of_exhausted proceeds stack exhausted block)]

/-- When code after `exitWith` has come to its end, the frame that issued it is left, and a loop
around that; the value goes to what remains, or becomes the result of the handle. -/
theorem exitWith_completes (running : exec.handle.state = .running)
    (proceeds : exec.handle.terminateRequested = false)
    (stack : exec.handle.stack = exit :: frame :: outer) (exits : exit.kind = .exitWith)
    (exhausted : exit.isExhausted = true) :
    exec.advance.2.handle.stack = (CallStack.pastLoop outer).receive exit.result ∧
      (CallStack.pastLoop outer = [] → exec.advance.2.handle.state = .finished ∧
        exec.advance.2.handle.result = exit.result) := by
  have block : exit.kind.isController = false := by rw [exits, FrameKind.isController]
  obtain ⟨left, remaining, state, completes⟩ := complete_exit stack exits
  rw [advance_of_exhausted proceeds stack exhausted block, completes, deliver_stack, remaining]
  refine ⟨rfl, fun outside => ?_⟩
  exact deliver_of_nil (state.trans running) (remaining.trans outside)

end Execution

/-- A frame that issued `exitWith` with a condition that holds is covered by the code after it.  It
stays covered, and so carries out no further instruction, until it is left, as long as the end of
that code is not bypassed.  When the code has come to its end, the frame is left, and a loop
directly below it too, and the value goes to the frame below. -/
theorem exitWith_leaves_the_frame_that_issued_it (permits : Store → Value → Prop) :
    (∀ exec name moved outer block rest, Execution.CarriesOut exec (.callBinary name) moved outer →
      Text.sameName name "exitWith" = true →
      moved.operands = .code block :: .ifPart true :: rest →
      ∃ exit, exec.advance.2.handle.stack = exit :: { moved with operands := rest } :: outer ∧
        exit.kind = .exitWith ∧ exit.code = exec.world.store.codeOf (.code block) ∧
        exit.ip = 0) ∧
    (∀ before after handle inner exit frame outer, Situation.Reachable permits before →
      handle ∈ before.handles → handle.stack = inner ++ exit :: frame :: outer →
      exit.kind = .exitWith →
      Relation.ReflTransGen (Situation.NextHeld permits handle.id outer.length frame outer)
        before after →
      ∃ later ∈ after.handles, later.id = handle.id ∧ ∃ above exit,
        later.stack = above ++ exit :: frame :: outer ∧ exit.kind = .exitWith) ∧
    (∀ (exec : Execution) exit frame outer, exec.handle.state = .running →
      exec.handle.terminateRequested = false → exec.handle.stack = exit :: frame :: outer →
      exit.kind = .exitWith → exit.isExhausted = true →
      exec.advance.2.handle.stack = (CallStack.pastLoop outer).receive exit.result ∧
        (CallStack.pastLoop outer = [] → exec.advance.2.handle.state = .finished ∧
          exec.advance.2.handle.result = exit.result)) := by
  refine ⟨?_, ?_, ?_⟩
  · intro exec name moved outer block rest carries named operands
    exact carries.enters fun stack => Execution.dispatch_exitWith named stack operands
  · intro before after handle inner exit frame outer reached member stack exits history
    have block : exit.kind.isController = false := by rw [exits, FrameKind.isController]
    obtain ⟨later, laterMember, number, above, changed, laterStack, kind⟩ := reached.held history
      member rfl stack block (Nat.le_refl _) fun plain => absurd exits plain
    exact ⟨later, laterMember, number, above, changed, laterStack, kind.trans exits⟩
  · intro exec exit frame outer running proceeds stack exits exhausted
    exact Execution.exitWith_completes running proceeds stack exits exhausted

/-- `exitWith` in a flat block, with code that names its scope: the frame that issued it stays as it
is until it is left. -/
theorem flat_exitWith_leaves_its_frame :
    let body : CodeBlock := [⟨.push (.text "t"), Location.host⟩,
      ⟨.callUnary "scopeName", Location.host⟩, ⟨.endStatement, Location.host⟩,
      ⟨.push (.scalar 5), Location.host⟩]
    let code : CodeBlock := [⟨.push (.boolean true), Location.host⟩,
      ⟨.callUnary "if", Location.host⟩, ⟨.push (.code 0), Location.host⟩,
      ⟨.callBinary "exitWith", Location.host⟩, ⟨.push (.scalar 1), Location.host⟩]
    let world := World.ofSettings {}
    let stocked := { world with store := (world.store.newBlock body).2 }
    let exec (steps : Nat) := (fun exec => exec.advance.2)^[steps] (stocked.startAtOnce code)
    ∃ exit held frame, (exec 4).handle.stack = [exit, frame] ∧ exit.kind = .exitWith ∧
      (exec 8).handle.stack = [held, frame] ∧ held.kind = .exitWith ∧ frame.ip = 4 ∧
      (exec 8).world.scopes.name? held.scope = some "t" ∧
      (exec 9).handle.stack = [] ∧ (exec 9).handle.state = .finished ∧
      (exec 9).handle.result = held.result := by
  intro body code world stocked exec
  obtain ⟨running, free, covered, nobody, names, exhausted, proceeds⟩ :
      (∀ steps < 9, (exec steps).handle.state = .running) ∧
      ((exec 3).world.settings.instructionBudget = none ∧
        (exec 3).handle.terminateRequested = false) ∧
      (∀ steps ≤ 8, 4 ≤ steps → (exec steps).handle.id = 1 ∧
        (exec steps).handle.stack.length = 2 ∧
        ∀ frame ∈ (exec steps).handle.stack, frame.isPlain = true) ∧
      (exec 8).world.scheduler.handles.length = 0 ∧
      ((exec 8).handle.stack.map fun frame => (exec 8).world.scopes.name? frame.scope) =
        [some "t", none] ∧
      (exec 8).handle.stack.map CallFrame.isExhausted = [true, false] ∧
      (exec 8).handle.terminateRequested = false := by
    decide +kernel
  have reached : ∀ steps ≤ 4, Situation.Reachable (fun _ _ => True) (.atWork (exec steps) none) :=
    fun steps bound => Situation.Reachable.iterate
      (.execute (.tend (.fresh {}) (.newBlock fun _ _ => trivial)) fun _ _ => trivial)
      fun made earlier => running made (by omega)
  have next : ∀ steps < 9, Situation.Next (fun _ _ => True) (.atWork (exec steps) none)
      (.atWork (exec (steps + 1)) none) := fun steps bound => .iterate (running steps bound)
  let issuer : CallFrame :=
    { kind := .block, code, ip := 3, operands := [.code 0, .ifPart true], scope := 1,
      environment := .unscheduled, origin := Location.host }
  have carries : (exec 3).CarriesOut (.callBinary "exitWith") { issuer with ip := 4 } [] := by
    have stack : (exec 3).handle.stack = [issuer] := rfl
    exact Execution.carriesOut_of_fetch free.1 free.2 stack rfl
  have same : exec 4 = (exec 3).advance.2 := Function.iterate_succ_apply' _ _ _
  have last : exec 9 = (exec 8).advance.2 := Function.iterate_succ_apply' _ _ _
  clear_value exec
  obtain ⟨dispatches, holds, completes⟩ := exitWith_leaves_the_frame_that_issued_it fun _ _ => True
  obtain ⟨exit, stack, exits, -⟩ := dispatches _ _ _ _ _ _ carries (Text.sameName_self _) rfl
  rw [← same] at stack
  have number : (exec 4).handle.id = 1 := (covered 4 (by omega) (by omega)).1
  have history : Relation.ReflTransGen (Situation.NextHeld (fun _ _ => True) (exec 4).handle.id 0
      { issuer with ip := 4, operands := [] } []) (.atWork (exec 4) none)
        (.atWork (exec 8) none) := by
    rw [number]
    exact Situation.heldFor (by omega) (Nat.zero_le _) (fun steps bound => next steps (by omega))
      covered
  obtain ⟨later, member, -, above, held, laterStack, kind⟩ := holds _ _ _ [] exit _ []
    (reached 4 (by omega)) List.mem_cons_self stack exits history
  obtain rfl : later = (exec 8).handle := by
    simpa [Situation.handles, List.eq_nil_of_length_eq_zero nobody] using member
  obtain rfl : above = [] := by
    have two := congrArg List.length exhausted
    simpa [laterStack] using two
  rw [laterStack] at exhausted names
  obtain ⟨outside, ended⟩ := completes (exec 8) held _ [] (running 8 (by omega)) proceeds
    laterStack kind (List.cons.inj exhausted).1
  rw [← last] at outside ended
  exact ⟨exit, held, _, stack, exits, laterStack, kind, rfl, (List.cons.inj names).1, outside,
    ended rfl⟩

/-- An `exitWith` in the code of another: when the inner one is over, the frame that issued the
outer one is on top again and goes on with its next statement. -/
theorem nested_exitWith_resumes_the_frame_that_issued_it :
    let nested : CodeBlock := [⟨.push (.boolean true), Location.host⟩,
      ⟨.callUnary "if", Location.host⟩, ⟨.push (.code 0), Location.host⟩,
      ⟨.callBinary "exitWith", Location.host⟩]
    let code : CodeBlock := [⟨.push (.boolean true), Location.host⟩,
      ⟨.callUnary "if", Location.host⟩, ⟨.push (.code 1), Location.host⟩,
      ⟨.callBinary "exitWith", Location.host⟩, ⟨.endStatement, Location.host⟩,
      ⟨.push (.scalar 1), Location.host⟩, ⟨.assignTo "x", Location.host⟩]
    let world := World.ofSettings {}
    let stocked := { world with store := ((world.store.newBlock []).2.newBlock nested).2 }
    let exec (steps : Nat) := (fun exec => exec.advance.2)^[steps] (stocked.startAtOnce code)
    let frames (steps : Nat) := (exec steps).handle.stack.map fun frame =>
      (frame.kind.label, frame.scope, frame.ip)
    (∀ steps ≤ 12, Situation.Reachable (fun _ _ => True) (.atWork (exec steps) none)) ∧
      frames 4 = [("exitWith", 2, 0), ("block", 1, 4)] ∧
      frames 8 = [("exitWith", 3, 0), ("exitWith", 2, 4), ("block", 1, 4)] ∧
      frames 9 = [("block", 1, 4)] ∧ frames 12 = [("block", 1, 7)] ∧
      ((exec 12).world.scopes.global.get? "x").isSome = true := by
  intro nested code world stocked exec frames
  obtain ⟨running, seen⟩ : (∀ steps < 12, (exec steps).handle.state = .running) ∧
      frames 4 = [("exitWith", 2, 0), ("block", 1, 4)] ∧
      frames 8 = [("exitWith", 3, 0), ("exitWith", 2, 4), ("block", 1, 4)] ∧
      frames 9 = [("block", 1, 4)] ∧ frames 12 = [("block", 1, 7)] ∧
      ((exec 12).world.scopes.global.get? "x").isSome = true := by
    decide +kernel
  refine ⟨fun steps bound => Situation.Reachable.iterate (.execute ?_ fun _ _ => trivial)
    fun made earlier => running made (by omega), seen⟩
  exact .tend (.tend (.fresh {}) (.newBlock fun _ _ => trivial)) (.newBlock fun _ _ => trivial)

/-- Code that is tested for nil covers the frame that called for the test until it has come to its
end, as long as its end is not bypassed.  When the frame is on top again it has taken a truth value,
which tells whether the code has left nil. -/
theorem isNil_tells_whether_its_code_left_nil (permits : Store → Value → Prop) :
    (∀ exec name moved outer block rest, Execution.CarriesOut exec (.callUnary name) moved outer →
      Text.sameName name "isNil" = true → moved.operands = .code block :: rest →
      ∃ test, exec.advance.2.handle.stack = test :: { moved with operands := rest } :: outer ∧
        test.kind = .isNil ∧ test.code = exec.world.store.codeOf (.code block) ∧ test.ip = 0) ∧
    (∀ before after handle inner test caller outer, Situation.Reachable permits before →
      handle ∈ before.handles → handle.stack = inner ++ test :: caller :: outer →
      test.kind = .isNil →
      Relation.ReflTransGen (Situation.NextHeld permits handle.id (outer.length + 1) caller outer)
        before after →
      ∃ later ∈ after.handles, later.id = handle.id ∧ ∃ above test,
        later.stack = above ++ test :: caller :: outer ∧ test.kind = .isNil) ∧
    (∀ before after handle later inner test caller outer, Situation.Reachable permits before →
      Situation.Next permits before after → handle ∈ before.handles → later ∈ after.handles →
      later.id = handle.id → handle.stack = inner ++ test :: caller :: outer →
      test.kind = .isNil → ¬ before.Bypasses handle.id caller outer →
      later.stack.length = outer.length + 1 →
      inner = [] ∧ test.isExhausted = true ∧ ∃ answer,
        later.stack = { caller with operands := .boolean answer :: caller.operands } :: outer ∧
          (answer = true ↔ test.result = .nil)) := by
  refine ⟨?_, ?_, ?_⟩
  · intro exec name moved outer block rest carries named operands
    exact carries.enters fun stack => Execution.dispatch_isNilCode named stack operands
  · intro before after handle inner test caller outer reached member stack tests history
    have block : test.kind.isController = false := by rw [tests, FrameKind.isController]
    obtain ⟨later, laterMember, number, above, changed, laterStack, kind⟩ := reached.held history
      member rfl stack block (Nat.le_succ _) fun _ => Nat.lt_succ_self _
    exact ⟨later, laterMember, number, above, changed, laterStack, kind.trans tests⟩
  · intro before after handle later inner test caller outer reached next earlier member same stack
      tests intact uncovered
    exact reached.tested next earlier member same stack tests intact uncovered

/-- Code that names its scope and leaves a number: the frame that called for the test waits below
it, and takes the answer. -/
theorem isNil_of_code_that_leaves_a_number :
    let body : CodeBlock := [⟨.push (.text "t"), Location.host⟩,
      ⟨.callUnary "scopeName", Location.host⟩, ⟨.endStatement, Location.host⟩,
      ⟨.push (.scalar 5), Location.host⟩]
    let code : CodeBlock := [⟨.push (.code 0), Location.host⟩, ⟨.callUnary "isNil", Location.host⟩]
    let world := World.ofSettings {}
    let stocked := { world with store := (world.store.newBlock body).2 }
    let exec (steps : Nat) := (fun exec => exec.advance.2)^[steps] (stocked.startAtOnce code)
    ∃ test held caller answer, (exec 2).handle.stack = [test, caller] ∧ test.kind = .isNil ∧
      (exec 6).handle.stack = [held, caller] ∧ held.kind = .isNil ∧
      (exec 6).world.scopes.name? held.scope = some "t" ∧
      (exec 7).handle.stack =
        [{ caller with operands := .boolean answer :: caller.operands }] ∧
      (answer = true ↔ held.result = .nil) := by
  intro body code world stocked exec
  obtain ⟨running, free, covered, last, nobody, names, lengths⟩ :
      (∀ steps < 7, (exec steps).handle.state = .running) ∧
      ((exec 1).world.settings.instructionBudget = none ∧
        (exec 1).handle.terminateRequested = false) ∧
      (∀ steps ≤ 6, 2 ≤ steps → (exec steps).handle.id = 1 ∧
        (exec steps).handle.stack.length = 2 ∧
        ∀ frame ∈ (exec steps).handle.stack, frame.isPlain = true) ∧
      (exec 7).handle.id = 1 ∧ (exec 6).world.scheduler.handles.length = 0 ∧
      ((exec 6).handle.stack.map fun frame => (exec 6).world.scopes.name? frame.scope) =
        [some "t", none] ∧
      (exec 7).handle.stack.length = 1 := by
    decide +kernel
  have reached : ∀ steps ≤ 6, Situation.Reachable (fun _ _ => True) (.atWork (exec steps) none) :=
    fun steps bound => Situation.Reachable.iterate
      (.execute (.tend (.fresh {}) (.newBlock fun _ _ => trivial)) fun _ _ => trivial)
      fun made earlier => running made (by omega)
  have next : ∀ steps < 7, Situation.Next (fun _ _ => True) (.atWork (exec steps) none)
      (.atWork (exec (steps + 1)) none) := fun steps bound => .iterate (running steps bound)
  let asking : CallFrame :=
    { kind := .block, code, ip := 1, operands := [.code 0], scope := 1,
      environment := .unscheduled, origin := Location.host }
  have carries : (exec 1).CarriesOut (.callUnary "isNil") { asking with ip := 2 } [] := by
    have stack : (exec 1).handle.stack = [asking] := rfl
    exact Execution.carriesOut_of_fetch free.1 free.2 stack rfl
  have same : exec 2 = (exec 1).advance.2 := Function.iterate_succ_apply' _ _ _
  clear_value exec
  obtain ⟨dispatches, holds, answers⟩ := isNil_tells_whether_its_code_left_nil fun _ _ => True
  obtain ⟨test, stack, tests, -⟩ := dispatches _ _ _ _ _ _ carries (Text.sameName_self _) rfl
  rw [← same] at stack
  have first : (exec 2).handle.id = 1 := (covered 2 (by omega) (by omega)).1
  have history : Relation.ReflTransGen (Situation.NextHeld (fun _ _ => True) (exec 2).handle.id 1
      { asking with ip := 2, operands := [] } []) (.atWork (exec 2) none)
        (.atWork (exec 6) none) := by
    rw [first]
    exact Situation.heldFor (by omega) (Nat.le_refl _) (fun steps bound => next steps (by omega))
      covered
  obtain ⟨later, member, -, above, held, laterStack, kind⟩ := holds _ _ _ [] test _ []
    (reached 2 (by omega)) List.mem_cons_self stack tests history
  obtain rfl : later = (exec 6).handle := by
    simpa [Situation.handles, List.eq_nil_of_length_eq_zero nobody] using member
  obtain ⟨number, two, plain⟩ := covered 6 (by omega) (by omega)
  obtain rfl : above = [] := by simpa [laterStack] using two
  rw [laterStack] at names
  have intact : ¬ (Situation.atWork (exec 6) none).Bypasses (exec 6).handle.id
      { asking with ip := 2, operands := [] } [] := Situation.not_bypasses two plain
  obtain ⟨-, -, answer, answered, tells⟩ := answers _ _ (exec 6).handle (exec 7).handle [] held _ []
    (reached 6 (by omega)) (next 6 (by omega)) List.mem_cons_self List.mem_cons_self
    (by rw [last, number]) laterStack kind intact lengths
  exact ⟨test, held, _, answer, stack, tests, laterStack, kind, (List.cons.inj names).1, answered,
    tells⟩

/-- Code that leaves by `exitWith` is tested for nil: the frame that called for the test takes the
number that the code after `exitWith` has left, and no truth value. -/
theorem isNil_of_code_that_exits_answers_a_number :
    let tested : CodeBlock := [⟨.push (.boolean true), Location.host⟩,
      ⟨.callUnary "if", Location.host⟩, ⟨.push (.code 0), Location.host⟩,
      ⟨.callBinary "exitWith", Location.host⟩]
    let code : CodeBlock := [⟨.push (.code 1), Location.host⟩, ⟨.callUnary "isNil", Location.host⟩]
    let world := World.ofSettings {}
    let five := (world.store.newBlock [⟨.push (.scalar 5), Location.host⟩]).2
    let stocked := { world with store := (five.newBlock tested).2 }
    let exec (steps : Nat) := (fun exec => exec.advance.2)^[steps] (stocked.startAtOnce code)
    let frames (steps : Nat) := (exec steps).handle.stack.map fun frame =>
      (frame.kind.label, frame.scope, frame.operands.map Value.type)
    (∀ steps ≤ 8, Situation.Reachable (fun _ _ => True) (.atWork (exec steps) none)) ∧
      frames 2 = [("isNil", 2, []), ("block", 1, [])] ∧
      frames 7 = [("exitWith", 3, [.scalar]), ("isNil", 2, []), ("block", 1, [])] ∧
      frames 8 = [("block", 1, [.scalar])] := by
  intro tested code world five stocked exec frames
  obtain ⟨running, seen⟩ : (∀ steps < 8, (exec steps).handle.state = .running) ∧
      frames 2 = [("isNil", 2, []), ("block", 1, [])] ∧
      frames 7 = [("exitWith", 3, [.scalar]), ("isNil", 2, []), ("block", 1, [])] ∧
      frames 8 = [("block", 1, [.scalar])] := by
    decide +kernel
  refine ⟨fun steps bound => Situation.Reachable.iterate (.execute ?_ fun _ _ => trivial)
    fun made earlier => running made (by omega), seen⟩
  exact .tend (.tend (.fresh {}) (.newBlock fun _ _ => trivial)) (.newBlock fun _ _ => trivial)

end SimScript
