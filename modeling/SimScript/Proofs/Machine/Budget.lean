import SimScript.Proofs.Machine.FrameDiscipline

/-!
# The instruction budget

No handle does more work than its budget allows.  A step for which nothing is left is
not made: the handle is given up with a trace, and that is reported once in its life.
-/

namespace SimScript

/-- A handle has done no more work than its budget allows, and it has no more frames than it has
done work for. -/
structure Handle.Metered (settings : Settings) (handle : Handle) : Prop where
  within : ∀ budget, settings.instructionBudget = some budget → handle.executed ≤ budget
  depth : handle.stack.length ≤ handle.executed + 1

namespace Execution

variable {exec after : Execution} {budget : Nat}

/-- The next step is to do work that the budget does not cover. -/
def Overdraws (exec : Execution) : Prop :=
  (∃ frame, exec.Due frame) ∧ exec.charge? = none

/-- Nothing has been done, and the handle has been given up: of all that scripts share, only the
scopes of its own frames have changed, and the log has taken the report. -/
structure CutOff (exec after : Execution) : Prop where
  undone : exec.step.2 = exec
  world : after.world = { (exec.logged exec.advance.1).world with scopes := after.world.scopes }
  global : after.world.scopes.global = exec.world.scopes.global
  others : ∀ other ∈ exec.world.scheduler.handles, ∀ frame ∈ other.stack,
    after.world.scopes.get? frame.scope = exec.world.scopes.get? frame.scope
  state : after.handle.state = .terminated
  executed : after.handle.executed = exec.handle.executed
  trace : after.handle.trace = some exec.trace

theorem executed_lt_of_charge (limit : exec.world.settings.instructionBudget = some budget)
    (paid : exec.charge? = some after) : exec.handle.executed < budget := by
  by_contra spent
  have refused := charge?_eq_none_iff.mpr ⟨budget, limit, Nat.not_lt.mp spent⟩
  simp [refused] at paid

theorem step_of_overdraws (overdraws : exec.Overdraws) :
    exec.step = (⟨.error .handle,
      [⟨Fault.maximumInstructionCountReached (exec.world.settings.instructionBudget.getD 0),
        exec.location⟩]⟩, exec) := by
  obtain ⟨⟨frame, due⟩, unpaid⟩ := overdraws
  have steps := exec.step_cases
  generalize exec.step = outcome at steps ⊢
  cases steps with
  | terminate requested => simp [due.proceeds] at requested
  | finish outside =>
      have top := due.top
      simp [Handle.top?, outside] at top
  | complete top exhausted block =>
      obtain rfl := Option.some.inj (due.top.symm.trans top)
      rcases due.unfinished with unfinished | loop
      · simp [exhausted] at unfinished
      · simp [block] at loop
  | refuse _ _ => rfl
  | loop _ paid _ _ => simp [unpaid] at paid
  | dispatch _ paid _ _ => simp [unpaid] at paid

theorem advance_of_overdraws (overdraws : exec.Overdraws) :
    exec.advance.2 = exec.abandonHandle.logged exec.advance.1 := by
  have settles : exec.settle.2 = exec.abandonHandle := by
    rw [settle, step_of_overdraws overdraws]
  rw [← settles]
  rfl

theorem advance_unmetered (covered : ¬exec.Overdraws) :
    ∀ event ∈ exec.advance.1, event.message.reportsBudget = false := by
  have silent : ∀ event ∈ exec.step.1.events, event.message.reportsBudget = false := by
    have steps := exec.step_cases
    generalize exec.step = outcome at steps ⊢
    cases steps with
    | terminate | finish | complete => simp
    | refuse due unpaid => exact absurd ⟨⟨_, due⟩, unpaid⟩ covered
    | loop _ _ _ comes => exact comes.unmetered
    | dispatch _ _ _ comes => exact comes.unmetered
  unfold advance settle
  dsimp only
  split
  · exact silent
  · exact silent
  · exact List.forall_mem_append.mpr ⟨silent, by simp [Message.reportsBudget]⟩

/-- A step speaks of the budget at most once. -/
theorem countP_advance_le (exec : Execution) :
    exec.advance.1.countP (fun event => event.message.reportsBudget) ≤ 1 := by
  by_cases overdraws : exec.Overdraws
  · rw [advance, settle, step_of_overdraws overdraws]
    simp [Message.reportsBudget]
  · have none : exec.advance.1.countP (fun event => event.message.reportsBudget) = 0 := by
      rw [List.countP_eq_zero]
      intro event member
      simp [advance_unmetered overdraws event member]
    omega

theorem reports_iff_overdraws :
    (∃ event ∈ exec.advance.1, event.message.reportsBudget = true) ↔ exec.Overdraws := by
  constructor
  · rintro ⟨event, member, reports⟩
    by_contra covered
    simp [advance_unmetered covered event member] at reports
  · intro overdraws
    rw [advance, settle, step_of_overdraws overdraws]
    exact ⟨_, List.mem_cons_self, rfl⟩

theorem overdraws_iff (limit : exec.world.settings.instructionBudget = some budget)
    (within : exec.handle.executed ≤ budget) :
    exec.Overdraws ↔ exec.handle.executed = budget ∧ ∃ frame, exec.Due frame := by
  have unpaid : exec.charge? = none ↔ exec.handle.executed = budget := by
    rw [charge?_eq_none_iff]
    constructor
    · rintro ⟨other, same, spent⟩
      obtain rfl : budget = other := Option.some.inj (limit.symm.trans same)
      omega
    · intro spent
      exact ⟨budget, limit, by omega⟩
  rw [Overdraws, unpaid, and_comm]

theorem advance_cutOff (tidy : exec.Tidy) (running : exec.handle.state = .running)
    (overdraws : exec.Overdraws) : exec.CutOff exec.advance.2 := by
  rw [advance_of_overdraws overdraws]
  exact {
    undone := by rw [step_of_overdraws overdraws]
    world := rfl
    global := CallStack.unwind_global _ _
    others := by
      intro other member frame theirs
      exact CallStack.get?_unwind fun own ours => tidy.apart member theirs ours
    state := terminate_state running
    executed := congrArg Standing.executed abandonHandle_standing
    trace := rfl }

end Execution

namespace Situation

variable {permits : Store → Value → Prop} {before after : Situation} {id : HandleId}

/-- No handle overdraws its budget, in any reachable situation. -/
theorem Reachable.metered (reached : Reachable permits before) :
    ∀ handle ∈ before.handles, handle.Metered before.world.settings := by
  refine reached.everyHandle (motive := fun settings handle => handle.Metered settings) ?_ ?_
  · intro _ handle fresh
    obtain ⟨frame, stack, _⟩ := fresh.block
    constructor
    · intro budget _
      rw [fresh.executed]
      exact Nat.zero_le _
    · simp [stack]
  · intro situation handle later reached metered passed
    cases passed with
    | stays => exact metered
    | starts => exact ⟨by simpa using metered.within, by simpa using metered.depth⟩
    | stops => exact ⟨by simpa [Handle.stopped] using metered.within, Nat.zero_le _⟩
    | @steps exec batch atWork running =>
        subst atWork
        -- A step that enters a frame is paid for, so the frames never outnumber the work.
        have layered := reached.layered exec.handle List.mem_cons_self
          (Handle.live_of_running running)
        have turned := Execution.advance_turned running layered
        have deeper := turned.turns.length_le
        have depth := metered.depth
        cases Execution.advance_settled running with
        | free same shorter =>
            have executed : exec.advance.2.handle.executed = exec.handle.executed :=
              congrArg Standing.executed same
            have fewer := shorter layered.ne_nil
            constructor
            · rw [executed]
              exact metered.within
            · omega
        | paid paid _ counted =>
            have executed : exec.advance.2.handle.executed = exec.handle.executed + 1 :=
              congrArg Standing.executed counted
            constructor
            · intro budget limit
              have covered := Execution.executed_lt_of_charge limit paid
              omega
            · omega

def raised (id : HandleId) : Situation → List Event
  | .atWork exec _ =>
      if exec.handle.id = id ∧ exec.handle.state = .running then exec.advance.1 else []
  | .idle _ | .turn _ _ => []

/-- A handle of a number has been there, and will never run again. -/
structure Past (id : HandleId) (situation : Situation) : Prop where
  issued : id ≤ situation.world.scheduler.lastId
  ended : ∀ handle ∈ situation.handles, handle.id = id → handle.isAbsorbed = true

theorem Past.next (past : before.Past id) (next : Next permits before after) : after.Past id := by
  refine ⟨Nat.le_trans past.issued next.lastId_le, ?_⟩
  intro later member same
  rcases next.origin member with ⟨handle, held, passed⟩ | ⟨new, _⟩
  · have absorbed := past.ended handle held (passed.id ▸ same)
    exact (passed.lasts absorbed).isAbsorbed.trans absorbed
  · rw [same] at new
    exact absurd past.issued (Nat.not_le.mpr new)

theorem Past.raised (past : before.Past id) : before.raised id = [] := by
  unfold Situation.raised
  split
  case h_1 exec batch =>
      rw [if_neg]
      rintro ⟨same, running⟩
      have absorbed := past.ended exec.handle List.mem_cons_self same
      simp [Handle.live_of_running running] at absorbed
  all_goals rfl

/-- After its budget has been reported, a handle is over. -/
theorem past_of_reported (reached : Reachable permits before) (next : Next permits before after)
    (reported : ∃ event ∈ before.raised id, event.message.reportsBudget = true) :
    after.Past id := by
  obtain ⟨event, member, reports⟩ := reported
  unfold raised at member
  split at member
  case h_1 exec batch =>
      split at member
      case isTrue working =>
          obtain ⟨rfl, running⟩ := working
          have overdraws := Execution.reports_iff_overdraws.mp ⟨event, member, reports⟩
          have tidy := reached.tidy
          cases next with
          | advance =>
              rw [Execution.advance_of_overdraws overdraws]
              refine ⟨tidy.issued exec.handle List.mem_cons_self, ?_⟩
              intro handle held same
              rcases List.mem_cons.mp held with rfl | others
              · exact Execution.terminate_isAbsorbed running
              · have twice := (List.nodup_cons.mp tidy.ids).1
                exact absurd (same ▸ List.mem_map_of_mem others) twice
          | keep yielded => exact absurd running yielded
          | close yielded => exact absurd running yielded
      · simp at member
  all_goals simp at member

/-- How often the budget of a handle is reported while a machine goes through some situations. -/
def reports (id : HandleId) (situations : List Situation) : Nat :=
  (situations.flatMap (raised id)).countP fun event => event.message.reportsBudget

theorem reports_cons (situation : Situation) (rest : List Situation) :
    reports id (situation :: rest) =
      (situation.raised id).countP (fun event => event.message.reportsBudget) +
        reports id rest := by
  simp [reports, List.countP_append]

theorem Past.reports {rest : List Situation} (past : before.Past id)
    (chain : (before :: rest).IsChain (Next permits)) :
    Situation.reports id (before :: rest) = 0 := by
  induction rest generalizing before with
  | nil => simp [Situation.reports, past.raised]
  | cons after rest induction =>
      obtain ⟨next, chain⟩ := List.isChain_cons_cons.mp chain
      rw [reports_cons, past.raised, induction (past.next next) chain]
      rfl

theorem countP_raised_le (situation : Situation) :
    (situation.raised id).countP (fun event => event.message.reportsBudget) ≤ 1 := by
  unfold raised
  split
  case h_1 exec batch =>
      split
      · exact exec.countP_advance_le
      · exact Nat.zero_le _
  all_goals exact Nat.zero_le _

/-- Whatever happens to a machine, the budget of a handle is reported once at most. -/
theorem reports_le_one {rest : List Situation} (reached : Reachable permits before)
    (chain : (before :: rest).IsChain (Next permits)) : reports id (before :: rest) ≤ 1 := by
  induction rest generalizing before with
  | nil =>
      rw [reports_cons]
      exact countP_raised_le before
  | cons after rest induction =>
      obtain ⟨next, chain⟩ := List.isChain_cons_cons.mp chain
      rw [reports_cons]
      -- Where the budget is reported now, the handle is over and silent from the next situation on.
      by_cases reported : ∃ event ∈ before.raised id, event.message.reportsBudget = true
      · have past := past_of_reported reached next reported
        rw [past.reports chain]
        exact countP_raised_le before
      · have silent : (before.raised id).countP (fun event => event.message.reportsBudget) = 0 := by
          rw [List.countP_eq_zero]
          intro event member reports
          exact reported ⟨event, member, reports⟩
        rw [silent, Nat.zero_add]
        exact induction (reached.next next) chain

end Situation

/-- With a budget of `budget`: no handle ever does more work than that; the end of the budget is
reported at most once in the life of a handle, however often it waits in between; it is reported
exactly when work is due and none is left; and then nothing is done, and the handle is ended. -/
theorem budget_is_reported_once_and_never_overdrawn (permits : Store → Value → Prop)
    (budget : Nat) :
    (∀ situation, Situation.Reachable permits situation →
      situation.world.settings.instructionBudget = some budget →
      ∀ handle ∈ situation.handles, handle.executed ≤ budget) ∧
    (∀ id first rest, Situation.Reachable permits first →
      first.world.settings.instructionBudget = some budget →
      (first :: rest).IsChain (Situation.Next permits) →
      Situation.reports id (first :: rest) ≤ 1) ∧
    (∀ exec batch, Situation.Reachable permits (.atWork exec batch) →
      exec.world.settings.instructionBudget = some budget → exec.handle.state = .running →
      ((∃ event ∈ exec.advance.1, event.message.reportsBudget = true) ↔
        exec.handle.executed = budget ∧ ∃ frame, exec.Due frame) ∧
      (exec.handle.executed = budget → (∃ frame, exec.Due frame) →
        exec.CutOff exec.advance.2 ∧ exec.advance.2.handle.executed = budget)) := by
  refine ⟨?_, ?_, ?_⟩
  · intro situation reached limit handle member
    exact (reached.metered handle member).within budget limit
  · intro id first rest reached _ chain
    exact Situation.reports_le_one reached chain
  · intro exec batch reached limit running
    have within := (reached.metered exec.handle List.mem_cons_self).within budget limit
    have iff := Execution.overdraws_iff limit within
    refine ⟨Execution.reports_iff_overdraws.trans iff, fun spent due => ?_⟩
    have overdraws := iff.mpr ⟨spent, due⟩
    have cut := Execution.advance_cutOff reached.tidy running overdraws
    exact ⟨cut, cut.executed.trans spent⟩

/-- Two instructions and a budget of one: the second is not carried out. -/
theorem budget_of_one_ends_two_instructions :
    let code : CodeBlock := [⟨.push (.boolean true), Location.host⟩,
      ⟨.push (.boolean true), Location.host⟩]
    let world := World.ofSettings { instructionBudget := some 1 }
    let exec := (world.startAtOnce code).advance.2
    exec.handle.executed ≤ 1 ∧ (∃ frame, exec.Due frame) ∧
      (∃ event ∈ exec.advance.1, event.message.reportsBudget = true) ∧
      exec.CutOff exec.advance.2 ∧ exec.advance.2.handle.executed = 1 ∧
      Situation.reports 1 [.atWork exec none, .atWork exec.advance.2 none] = 1 := by
  intro code world exec
  have running : exec.handle.state = .running := by decide +kernel
  have limit : exec.world.settings.instructionBudget = some 1 := by decide +kernel
  have reached : Situation.Reachable (fun _ _ => True) (.atWork exec none) :=
    .advance (.execute (.fresh _) fun _ _ => trivial) (by decide +kernel)
  obtain ⟨within, once, exactly⟩ :=
    budget_is_reported_once_and_never_overdrawn (fun _ _ => True) 1
  obtain ⟨iff, cut⟩ := exactly exec none reached limit running
  have reports : ∃ event ∈ exec.advance.1, event.message.reportsBudget = true :=
    List.any_eq_true.mp (by decide +kernel)
  obtain ⟨spent, due⟩ := iff.mp reports
  obtain ⟨cutOff, executed⟩ := cut spent due
  refine ⟨within _ reached limit _ List.mem_cons_self, due, reports, cutOff, executed, ?_⟩
  apply Nat.le_antisymm
  · exact once 1 _ _ reached limit (.cons_cons (.advance running) (.singleton _))
  · decide +kernel

end SimScript
