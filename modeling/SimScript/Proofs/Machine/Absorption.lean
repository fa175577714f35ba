import SimScript.Proofs.Execution.Atomicity
import SimScript.Proofs.Execution.Calls
import SimScript.Proofs.Machine.Session

/-!
# Scripts that have come to their end

Nothing but what it once waited for is ever forgotten of a script that has finished or
has been terminated: not in a turn that takes it out and puts it back, and not when it
is to be ended once more.  Its number is never given to another script.  It has a trace
exactly where a fatal fault has given it up.
-/

namespace SimScript

/-- What a script has come to agrees with its state. -/
structure Handle.Concluded (handle : Handle) : Prop where
  result : handle.state ≠ .finished → handle.result = .nil
  trace : handle.trace.isSome = true → handle.state = .terminated

namespace Execution

variable {exec : Execution}

/-- A script that a step gives up is terminated, with a trace and nothing else. -/
structure Abandoned (exec after : Execution) : Prop where
  id : after.handle.id = exec.handle.id
  state : after.handle.state = .terminated
  stack : after.handle.stack = []
  result : after.handle.result = .nil
  trace : after.handle.trace = some exec.step.2.trace

theorem advance_abandoned (running : exec.handle.state = .running) (givesUp : exec.GivesUp) :
    exec.Abandoned exec.advance.2 := by
  have still := (step_stopsIn (.inl rfl) givesUp).state.trans running
  have id := advance_id running
  rw [advance, settle_of_givesUp givesUp] at id ⊢
  exact ⟨id, terminate_state still, terminate_stack _, rfl, rfl⟩

end Execution

namespace Handle.Concluded

variable {handle : Handle} {exec : Execution}

theorem fresh (fresh : handle.Fresh) : handle.Concluded := by
  obtain ⟨result, trace⟩ := Prod.mk.inj fresh.verdict
  exact ⟨fun _ => result, by simp [trace]⟩

theorem nothing (concluded : handle.Concluded) (live : handle.isAbsorbed = false) :
    handle.verdict = (.nil, none) := by
  have unfinished : handle.state ≠ .finished ∧ handle.state ≠ .terminated := by
    constructor <;> intro state <;> simp [isAbsorbed, state, HandleState.isAbsorbed] at live
  have untraced : handle.trace = none := by
    cases trace : handle.trace with
    | none => rfl
    | some frames => exact absurd (concluded.trace (by simp [trace])) unfinished.2
  exact Prod.ext (concluded.result unfinished.1) untraced

theorem of_verdict (verdict : handle.verdict = (.nil, none)) : handle.Concluded := by
  obtain ⟨result, trace⟩ := Prod.mk.inj verdict
  exact ⟨fun _ => result, by simp [trace]⟩

theorem advance (concluded : exec.handle.Concluded) (running : exec.handle.state = .running) :
    exec.advance.2.handle.Concluded := by
  have nothing := concluded.nothing (live_of_running running)
  by_cases givesUp : exec.GivesUp
  · have abandoned := Execution.advance_abandoned running givesUp
    exact ⟨fun _ => abandoned.result, fun _ => abandoned.state⟩
  · cases Execution.advance_concludes running givesUp with
    | silent same => exact of_verdict (same.trans nothing)
    | finished state trace =>
        refine ⟨absurd state, fun traced => ?_⟩
        have none : exec.handle.trace = none := congrArg Prod.snd nothing
        simp [trace, none] at traced

end Handle.Concluded

namespace Situation

variable {permits : Store → Value → Prop} {before after situation : Situation} {handle : Handle}

theorem Reachable.concluded (reached : Reachable permits situation) :
    ∀ handle ∈ situation.handles, handle.Concluded := by
  refine reached.everyHandle (motive := fun _ handle => handle.Concluded) ?_ ?_
  · exact fun _ handle fresh => .fresh fresh
  · intro situation handle later reached concluded passed
    cases absorbed : handle.isAbsorbed with
    | true =>
        have lasts := passed.lasts absorbed
        rw [lasts]
        exact ⟨concluded.result, concluded.trace⟩
    | false =>
        have nothing := concluded.nothing absorbed
        cases passed with
        | stays => exact concluded
        | starts =>
            apply Handle.Concluded.of_verdict
            rw [Handle.become_verdict]
            exact nothing
        | stops =>
            apply Handle.Concluded.of_verdict
            exact (Handle.become_verdict handle .terminated).trans nothing
        | steps atWork running => exact concluded.advance running

/-! ## Who gave a script up -/

/-- At some time before, a step of the script of a number has given the script up. -/
def GaveUp (permits : Store → Value → Prop) (id : HandleId) (situation : Situation) : Prop :=
  ∃ exec batch, Reachable permits (.atWork exec batch) ∧ exec.handle.state = .running ∧
    exec.handle.id = id ∧ exec.GivesUp ∧
    History permits (.atWork exec.advance.2 batch) situation

theorem GaveUp.next {id : HandleId} (gaveUp : before.GaveUp permits id)
    (next : Next permits before after) : after.GaveUp permits id := by
  obtain ⟨exec, batch, reached, running, same, givesUp, history⟩ := gaveUp
  exact ⟨exec, batch, reached, running, same, givesUp, history.tail next⟩

theorem Reachable.gaveUp (reached : Reachable permits situation) :
    ∀ handle ∈ situation.handles, handle.trace.isSome = true →
      situation.GaveUp permits handle.id := by
  refine reached.along (motive := fun situation => ∀ handle ∈ situation.handles,
    handle.trace.isSome = true → situation.GaveUp permits handle.id) ?_ ?_
  · intro settings handle member
    simp [Situation.handles, World.ofSettings] at member
  · intro earlier later reached gaveUp next last member traced
    have before : ∀ handle ∈ earlier.handles, last.trace = handle.trace → last.id = handle.id →
        later.GaveUp permits last.id := by
      intro handle held same number
      rw [same] at traced
      rw [number]
      exact (gaveUp handle held traced).next next
    rcases next.origin member with ⟨handle, held, passed⟩ | ⟨_, fresh⟩
    · cases passed with
      | stays => exact before last held rfl rfl
      | starts =>
          apply before handle held
          · exact congrArg Prod.snd (Handle.become_verdict { handle with wake := none } .running)
          · exact Handle.become_id _ _
      | stops =>
          apply before handle held
          · exact congrArg Prod.snd (Handle.become_verdict handle .terminated)
          · exact Handle.become_id _ _
      | @steps exec batch atWork running =>
          subst atWork
          have number := Execution.advance_id running
          by_cases givesUp : exec.GivesUp
          · cases next with
            | advance =>
                exact ⟨exec, batch, reached, running, number.symm, givesUp, .refl⟩
            | keep yielded => exact absurd running yielded
            | close yielded => exact absurd running yielded
          · apply before exec.handle held _ number
            cases Execution.advance_concludes running givesUp with
            | silent same => exact congrArg Prod.snd same
            | finished _ trace => exact trace
    · have none : last.trace = none := congrArg Prod.snd fresh.verdict
      simp [none] at traced

/-! ## What lasts -/

/-- Whatever a situation has under the number of a handle is that handle, as it lasts. -/
structure Rests (handle : Handle) (situation : Situation) : Prop where
  issued : handle.id ≤ situation.world.scheduler.lastId
  lasts : ∀ later ∈ situation.handles, later.id = handle.id → handle.Lasts later

theorem Reachable.rests (reached : Reachable permits situation)
    (member : handle ∈ situation.handles) : situation.Rests handle := by
  have tidy := reached.tidy
  refine ⟨tidy.issued handle member, fun later held same => ?_⟩
  obtain rfl := List.inj_on_of_nodup_map tidy.ids held member same
  rfl

theorem Rests.next (rests : before.Rests handle) (absorbed : handle.isAbsorbed = true)
    (next : Next permits before after) : after.Rests handle := by
  refine ⟨Nat.le_trans rests.issued next.lastId_le, fun last member same => ?_⟩
  rcases next.origin member with ⟨later, held, passed⟩ | ⟨new, _⟩
  · have lasts := rests.lasts later held (passed.id.symm.trans same)
    exact lasts.trans (passed.lasts (lasts.isAbsorbed.trans absorbed))
  · rw [same] at new
    exact absurd rests.issued (Nat.not_le.mpr new)

theorem Rests.history (rests : before.Rests handle) (absorbed : handle.isAbsorbed = true)
    (history : History permits before after) : after.Rests handle := by
  induction history with
  | refl => exact rests
  | tail _ next induction => exact induction.next absorbed next

theorem Rests.present (rests : before.Rests handle) (absorbed : handle.isAbsorbed = true)
    (member : handle ∈ before.handles) (history : History permits before after) :
    (∃ later ∈ after.handles, handle.Lasts later) ∨
      ∃ whole reaped, History permits before whole ∧ whole.Reaps reaped ∧
        History permits reaped after := by
  induction history with
  | refl => exact .inl ⟨handle, member, rfl⟩
  | @tail middle last history next induction =>
      rcases induction with ⟨later, held, lasts⟩ | ⟨whole, reaped, earlier, reaps, rest⟩
      · rcases next.retains with reaps | retains
        · exact .inr ⟨middle, last, history, reaps, .refl⟩
        · obtain ⟨final, kept, same⟩ := retains later held
          have still := (rests.history absorbed history).next absorbed next
          exact .inl ⟨final, kept, still.lasts final kept (same.trans lasts.id)⟩
      · exact .inr ⟨whole, reaped, earlier, reaps, rest.tail next⟩

theorem Reachable.trace_isSome_iff (reached : Reachable permits situation)
    (member : handle ∈ situation.handles) :
    handle.trace.isSome = true ↔
      handle.state = .terminated ∧ situation.GaveUp permits handle.id := by
  constructor
  · intro traced
    exact ⟨(reached.concluded handle member).trace traced, reached.gaveUp handle member traced⟩
  · rintro ⟨_, exec, batch, atWork, running, number, givesUp, history⟩
    have abandoned := Execution.advance_abandoned running givesUp
    have absorbed := Handle.absorbed_of_terminated abandoned.state
    have rests := (atWork.advance running).rests List.mem_cons_self
    have lasts := (rests.history absorbed history).lasts handle member
      (number.symm.trans abandoned.id.symm)
    rw [lasts.trace, abandoned.trace]
    rfl

end Situation

/-! ## What is answered -/

theorem HandleState.endNotice_of_absorbed {state : HandleState}
    (absorbed : state.isAbsorbed = true) :
    ∃ notice, state.endNotice? = some notice ∧ Message.severity notice = .warning := by
  cases state with
  | finished => exact ⟨_, rfl, rfl⟩
  | terminated => exact ⟨_, rfl, rfl⟩
  | created | running | suspended => cases absorbed

theorem Command.unariesOf_terminate {name : String}
    (named : Text.sameName name "terminate" = true) :
    unariesOf name = [⟨"terminate", .script, terminate⟩] := by
  rw [unariesOf, named_sameName unaryTable named]
  rfl

section Answers

variable {exec : Execution} {world : World} {machine : Machine} {handle : Handle}
  {id : HandleId} {notice : Fault} {name : String}

theorem World.stateOf?_of_get? (found : world.scheduler.get? id = some handle) :
    world.stateOf? id = some handle.state := by
  rw [stateOf?, found]
  rfl

theorem World.terminate_of_absorbed (found : world.scheduler.get? id = some handle)
    (absorbed : handle.isAbsorbed = true) : world.terminate id = world := by
  simp only [terminate, found, absorbed, if_true]

def Machine.noted (machine : Machine) (notice : Fault) : Machine :=
  machine.mapLogger fun logger => logger.emitAll #[⟨notice, Location.host⟩]

theorem Machine.inspect_of_absorbed (found : machine.handle? id = some handle)
    (notes : handle.state.endNotice? = some notice) :
    machine.inspect id = .ok (handle.state, machine.noted notice) := by
  have state : machine.world.stateOf? id = some handle.state := World.stateOf?_of_get? found
  simp only [inspect, state, notes]
  rfl

theorem Machine.terminate_of_absorbed (found : machine.handle? id = some handle)
    (absorbed : handle.isAbsorbed = true) (notes : handle.state.endNotice? = some notice) :
    machine.terminate id = .ok (handle.state, machine.noted notice) := by
  have same : machine.world.terminate id = machine.world :=
    World.terminate_of_absorbed found absorbed
  have unchanged : (machine.noted notice).mapWorld (fun world => world.terminate id) =
      machine.noted notice := by
    have kept : (machine.noted notice).world.terminate id =
        { machine.world.terminate id with logger := (machine.noted notice).world.logger } :=
      World.terminate_logger _ _ _
    rw [Machine.mapWorld, kept, same]
    rfl
  have state : (machine.noted notice).world.stateOf? id = some handle.state :=
    World.stateOf?_of_get? found
  simp only [terminate, inspect_of_absorbed found notes, bind, Except.bind, unchanged, state]
  rfl

theorem Machine.scriptDone_of_absorbed (found : machine.handle? id = some handle)
    (absorbed : handle.isAbsorbed = true) (notes : handle.state.endNotice? = some notice) :
    machine.scriptDone id = .ok (true, machine.noted notice) := by
  have ended : handle.state.isAbsorbed = true := absorbed
  simp only [scriptDone, inspect_of_absorbed found notes, bind, Except.bind, ended]
  rfl

theorem Execution.callUnary_terminate_of_absorbed
    (found : exec.world.scheduler.get? id = some handle) (other : id ≠ exec.handle.id)
    (notes : handle.state.endNotice? = some notice)
    (named : Text.sameName name "terminate" = true) :
    exec.callUnary name (.script (some id)) =
      (⟨.ok (), [⟨notice, exec.location⟩]⟩, exec.pushOperand .nil) := by
  have state := World.stateOf?_of_get? found
  have plan : Plan.terminate (.script (some id)) exec =
      (do Report.note notice; Plan.nothing) := by
    simp only [Plan.terminate, Command.handleOf?, if_neg other, state, notes]
  rw [Execution.callUnary_of_plan (Command.unariesOf_terminate named)
    (Command.terminate_follows _) rfl]
  simp only [attempt, follow, plan]
  rfl

end Answers

/-! ## The law -/

/-- The law of scripts that have come to their end, for one that has in some situation. -/
structure Situation.EndLaw (permits : Store → Value → Prop) (situation : Situation)
    (handle : Handle) (notice : Fault) : Prop where
  stack : handle.stack = []
  result : handle.state = .terminated → handle.result = .nil
  trace : handle.trace.isSome = true ↔
    handle.state = .terminated ∧ situation.GaveUp permits handle.id
  /-- Whatever is ever found under its number is the handle itself. -/
  lasts : ∀ later, History permits situation later → ∀ last ∈ later.handles,
    last.id = handle.id → handle.Lasts last
  present : ∀ later, History permits situation later →
    (∃ last ∈ later.handles, handle.Lasts last) ∨
      ∃ whole reaped, History permits situation whole ∧ whole.Reaps reaped ∧
        History permits reaped later
  rests : ∀ exec batch, History permits situation (.atWork exec batch) →
    exec.handle.id = handle.id → exec.handle.state ≠ .running
  /-- Scripts that want to end it are warned, and nothing else happens. -/
  warns : ∀ exec batch name, History permits situation (.atWork exec batch) →
    (exec.world.scheduler.get? handle.id).isSome = true →
    Text.sameName name "terminate" = true →
    exec.callUnary name (.script (some handle.id)) =
      (⟨.ok (), [⟨notice, exec.location⟩]⟩, exec.pushOperand .nil)

theorem Situation.Reachable.endLaw {permits : Store → Value → Prop} {situation : Situation}
    {handle : Handle} {notice : Fault} (reached : Reachable permits situation)
    (member : handle ∈ situation.handles) (absorbed : handle.isAbsorbed = true)
    (notes : handle.state.endNotice? = some notice) : situation.EndLaw permits handle notice := by
  have rests := reached.rests member
  constructor
  · exact reached.tidy.ended handle member absorbed
  · intro terminated
    apply (reached.concluded handle member).result
    simp [terminated]
  · exact reached.trace_isSome_iff member
  · intro later history
    exact (rests.history absorbed history).lasts
  · intro later history
    exact rests.present absorbed member history
  · intro exec batch history same running
    have lasts := (rests.history absorbed history).lasts exec.handle List.mem_cons_self same
    have ended := lasts.isAbsorbed.trans absorbed
    simp [Handle.live_of_running running] at ended
  · intro exec batch name history held named
    obtain ⟨later, found⟩ := Option.isSome_iff_exists.mp held
    have kept := Scheduler.mem_of_get? found
    have number : later.id = handle.id := Scheduler.id_of_get? found
    have lasts := (rests.history absorbed history).lasts later (List.mem_cons_of_mem _ kept) number
    -- No two scripts have the same number, so the one at work is another one.
    have other : handle.id ≠ exec.handle.id := by
      intro same
      apply (List.nodup_cons.mp (history.reachable reached).tidy.ids).1
      rw [← same, ← number]
      exact List.mem_map_of_mem kept
    exact Execution.callUnary_terminate_of_absorbed found other (lasts.state ▸ notes) named

/-- Whatever a host does: a script that has finished or has been terminated obeys the law of its
end.  As long as the host does not drop it, it is found under its number as it was; and whenever the
host wants to end it or asks whether it has ended, the answer is the same, the log takes one
warning, and nothing else happens. -/
theorem absorbed_scripts_last_until_dropped (permits : Store → Value → Prop) :
    (∀ situation, Situation.Reachable permits situation →
      ∀ handle ∈ situation.handles, handle.isAbsorbed = true →
        ∃ notice : Fault, Message.severity notice = .warning ∧
          situation.EndLaw permits handle notice) ∧
    (∀ (machine : Machine) operations after, machine.Reachable permits →
      machine.Session permits operations after →
      ∀ id handle, machine.handle? id = some handle → handle.isAbsorbed = true →
        ((∀ operation ∈ operations, operation ≠ .reap) → (after.handle? id).isSome = true) ∧
        ∃ notice : Fault, Message.severity notice = .warning ∧
          ∀ later, after.handle? id = some later → handle.Lasts later ∧
            after.terminate id = .ok (handle.state, after.noted notice) ∧
            after.scriptDone id = .ok (true, after.noted notice)) := by
  constructor
  · intro situation reached handle member absorbed
    obtain ⟨notice, notes, warning⟩ := HandleState.endNotice_of_absorbed absorbed
    exact ⟨notice, warning, reached.endLaw member absorbed notes⟩
  · intro machine operations after reached session id handle found absorbed
    have member := Scheduler.mem_of_get? found
    obtain rfl : handle.id = id := by simpa using List.find?_some found
    have idle := reached.idle
    constructor
    · intro keeps
      obtain ⟨later, kept, same⟩ := session.retains keeps handle member
      apply Option.isSome_iff_exists.mpr
      refine ⟨later, ?_⟩
      rw [← same]
      exact Scheduler.get?_of_mem (session.history.reachable idle).tidy.ids kept
    · obtain ⟨notice, notes, warning⟩ := HandleState.endNotice_of_absorbed absorbed
      refine ⟨notice, warning, fun later held => ?_⟩
      have rests := (idle.rests member).history absorbed session.history
      have number : later.id = handle.id := by simpa using List.find?_some held
      have lasts := rests.lasts later (Scheduler.mem_of_get? held) number
      have ended := lasts.isAbsorbed.trans absorbed
      have noted : later.state.endNotice? = some notice := lasts.state ▸ notes
      refine ⟨lasts, ?_, Machine.scriptDone_of_absorbed held ended noted⟩
      rw [← lasts.state]
      exact Machine.terminate_of_absorbed held ended noted

/-- A script that was given up has a trace, and is still there after it is to be ended twice. -/
theorem script_given_up_lasts :
    let code : CodeBlock := [⟨.makeArray 1, Location.host⟩]
    ∃ answer machine handle,
      (Machine.ofSettings {}).serve 3 (.execute code) = some (answer, machine) ∧
      machine.handle? 1 = some handle ∧ handle.isAbsorbed = true ∧
      handle.state = .terminated ∧ Situation.GaveUp (fun _ _ => True) 1 (.idle machine.world) ∧
      ∃ after, ∃ notice : Fault, machine.terminate 1 = .ok (.terminated, after) ∧
        (after.handle? 1).isSome = true ∧ Message.severity notice = .warning ∧
        after.terminate 1 = .ok (.terminated, after.noted notice) := by
  intro code
  obtain ⟨situations, sessions⟩ := absorbed_scripts_last_until_dropped fun _ _ => True
  have seen : ((Machine.ofSettings {}).serve 3 (.execute code)).any (fun served =>
      (served.2.handle? 1).any fun handle =>
        handle.state = .terminated && handle.trace.isSome) = true := by
    decide +kernel
  obtain ⟨⟨answer, machine⟩, served, seen⟩ := (Option.any_eq_true _ _).mp seen
  obtain ⟨handle, found, seen⟩ := (Option.any_eq_true _ _).mp seen
  obtain ⟨terminated, traced⟩ : handle.state = .terminated ∧ handle.trace.isSome = true := by
    simpa using seen
  have absorbed := Handle.absorbed_of_terminated terminated
  have reached : machine.Reachable fun _ _ => True := (Machine.Reachable.fresh {}).serve
    (fun _ _ => trivial) served
  have number : handle.id = 1 := by simpa using List.find?_some found
  obtain ⟨_, _, law⟩ := situations _ reached.idle handle (Scheduler.mem_of_get? found) absorbed
  have gaveUp := (law.trace.mp traced).2
  rw [number] at gaveUp
  obtain ⟨_, _, _, first⟩ :=
    sessions machine [] machine reached (.done machine) 1 handle found absorbed
  obtain ⟨_, ended, _⟩ := first handle found
  rw [terminated] at ended
  have asked : machine.serve 0 (.terminate 1) =
      some (machine.orRefused .state (machine.terminate 1)) := rfl
  rw [ended] at asked
  obtain ⟨present, notice, warning, again⟩ := sessions machine [.terminate 1] _ reached
    (.next (fun _ _ => trivial) asked (.done _)) 1 handle found absorbed
  obtain ⟨later, held⟩ := Option.isSome_iff_exists.mp (present (by simp))
  obtain ⟨_, endedAgain, _⟩ := again later held
  rw [terminated] at endedAgain
  exact ⟨answer, machine, handle, served, found, absorbed, terminated, gaveUp, _, notice, ended,
    Option.isSome_iff_exists.mpr ⟨later, held⟩, warning, endedAgain⟩

end SimScript
