import Mathlib.Data.List.Sublists
import SimScript.Proofs.Machine.Tally
import SimScript.Proofs.Machine.Termination
import SimScript.Proofs.Scalar.Order

/-!
# Turns

In a turn, every script that is ready when it begins gets to run once, in the order of
the queue, and nobody else does.  Here the scripts that get to run are a list of
visits; each of them is made in the world that the one before has left.
-/

namespace SimScript

/-! ## Who is ready -/

/-- A script may run at a time: it has not begun, waits for the next turn, or sleeps until a time
that has come. -/
inductive Handle.Ready (handle : Handle) (now : Float) : Prop where
  | created (state : handle.state = .created)
  | nextTurn (state : handle.state = .suspended) (wake : handle.wake = some .nextTurn)
  | awake (time : Float) (state : handle.state = .suspended)
      (wake : handle.wake = some (.at time)) (come : now ≥ time)

theorem Handle.ready_iff {handle : Handle} {now : Float} (still : handle.state ≠ .running)
    (waits : handle.Waits) :
    handle.Ready now ↔ handle.isAbsorbed = false ∧ handle.isReady now = true := by
  constructor
  · intro ready
    cases ready with
    | created state => simp [isAbsorbed, HandleState.isAbsorbed, isReady, state]
    | nextTurn state wake => simp [isAbsorbed, HandleState.isAbsorbed, isReady, state, wake]
    | awake time state wake come =>
        simpa [isAbsorbed, HandleState.isAbsorbed, isReady, state, wake] using come
  · rintro ⟨live, ready⟩
    cases state : handle.state with
    | created => exact .created state
    | running => exact absurd state still
    | finished | terminated => simp [isAbsorbed, HandleState.isAbsorbed, state] at live
    | suspended =>
        obtain ⟨wake, known⟩ := Option.isSome_iff_exists.mp (waits state)
        cases wake with
        | nextTurn => exact .nextTurn state known
        | «at» time => exact .awake time state known (by simpa [isReady, state, known] using ready)

theorem Handle.not_ready_of_asleep {handle : Handle} {now time : Float}
    (state : handle.state = .suspended) (wake : handle.wake = some (.at time))
    (ahead : now < time) : ¬handle.Ready now := by
  intro ready
  cases ready with
  | created created => simp [state] at created
  | nextTurn _ next => simp [wake] at next
  | awake _ _ known come =>
      obtain rfl : time = _ := by simpa [wake] using known
      exact Scalar.not_ge_of_lt ahead come

/-! ## Visits -/

/-- A script gets to run: the handle that is taken from the scheduler, and what it yields with. -/
structure Visit where
  taken : Handle
  yielded : Execution

namespace Visit

def id (visit : Visit) : HandleId :=
  visit.taken.id

def executed (visit : Visit) : Nat :=
  visit.yielded.handle.executed - visit.taken.executed

end Visit

/-- Scripts get to run one after the other. -/
inductive World.Visits (fuel : Nat) : World → List Visit → World → Prop where
  | done (world : World) : Visits fuel world [] world
  | next {world after : World} {visit : Visit} {rest : List Visit} {before raised : Array Event}
      (found : world.scheduler.get? visit.id = some visit.taken)
      (ran : (world.startKept visit.taken).run fuel before = some (raised, visit.yielded))
      (others : Visits fuel (World.keep visit.yielded.handle visit.yielded.world) rest after) :
      Visits fuel world (visit :: rest) after

/-- What one visit does to the scripts that the scheduler keeps. -/
structure Visit.Changes (visit : Visit) (before after : Scheduler) : Prop where
  spares : ∀ id, id ≠ visit.id → before.Spares after id
  kept : after.get? visit.id = some visit.yielded.handle
  total : after.executed = before.executed + visit.executed

/-- What some visits do to the scripts that the scheduler keeps.  A script is spared until it is
visited, and again afterwards. -/
structure Scheduler.Visited (before : Scheduler) (visits : List Visit) (after : Scheduler) :
    Prop where
  spares : ∀ id ∉ visits.map Visit.id, before.Spares after id
  taken : ∀ visit ∈ visits, ∃ handle, before.get? visit.id = some handle ∧
    handle.Spared visit.taken
  kept : ∀ visit ∈ visits, ∃ later, after.get? visit.id = some later ∧
    visit.yielded.handle.Spared later
  total : after.executed = before.executed + (visits.map Visit.executed).sum

theorem Scheduler.Visited.nil (scheduler : Scheduler) : scheduler.Visited [] scheduler :=
  ⟨fun _ _ => .refl _, by simp, by simp, by simp⟩

theorem Scheduler.Visited.cons {before middle after : Scheduler} {visit : Visit}
    {rest : List Visit} (found : before.get? visit.id = some visit.taken)
    (changes : visit.Changes before middle) (visited : middle.Visited rest after)
    (once : visit.id ∉ rest.map Visit.id)
    (present : ∀ other ∈ rest, (before.get? other.id).isSome = true) :
    before.Visited (visit :: rest) after := by
  constructor
  · intro id apart
    rw [List.map_cons, List.mem_cons, not_or] at apart
    exact (changes.spares id apart.1).trans (visited.spares id apart.2)
  · intro other member
    rcases List.mem_cons.mp member with rfl | behind
    · exact ⟨other.taken, found, .same⟩
    · have different : other.id ≠ visit.id := by
        intro same
        exact once (same ▸ List.mem_map_of_mem behind)
      obtain ⟨handle, held⟩ := Option.isSome_iff_exists.mp (present other behind)
      obtain ⟨later, kept, stays⟩ := (changes.spares other.id different).held handle held
      obtain ⟨again, same, spared⟩ := visited.taken other behind
      obtain rfl := Option.some.inj (kept.symm.trans same)
      exact ⟨handle, held, stays.trans spared⟩
  · intro other member
    rcases List.mem_cons.mp member with rfl | behind
    · exact (visited.spares other.id once).held _ changes.kept
    · exact visited.kept other behind
  · rw [visited.total, changes.total, List.map_cons, List.sum_cons, Nat.add_assoc]

/-! ## What one visit does -/

theorem Execution.run_of_yielded {exec : Execution} {fuel : Nat} {events : Array Event}
    {done : Array Event × Execution} (yielded : exec.handle.state ≠ .running)
    (ran : exec.run fuel events = some done) : done.2 = exec := by
  cases runsTo_of_run ran with
  | yields => rfl
  | works running _ => exact absurd running yielded

/-- How a script yields: it has come to its end or waits, and it has executed nothing if it had been
ended before. -/
structure Visit.Yields (visit : Visit) : Prop where
  state : visit.yielded.handle.state = .finished ∨ visit.yielded.handle.state = .terminated ∨
    visit.yielded.handle.state = .suspended
  ended : visit.taken.isAbsorbed = true → visit.executed = 0

namespace Situation.Reachable

variable {permits : Store → Value → Prop} {fuel : Nat} {world after : World} {visit : Visit}
  {rest : List HandleId} {events raised : Array Event}

theorem visit_yields (reached : Reachable permits (.turn (visit.id :: rest) world))
    (found : world.scheduler.get? visit.id = some visit.taken)
    (ran : (world.startKept visit.taken).run fuel events = some (raised, visit.yielded)) :
    visit.Yields := by
  obtain ⟨atWork, yielded⟩ := (reached.take found).run ran
  have begun := (atWork.poised.working _ _ rfl).1
  constructor
  · cases state : visit.yielded.handle.state <;> simp_all
  · intro absorbed
    have resting : (world.startKept visit.taken).handle = { visit.taken with wake := none } :=
      Handle.become_of_absorbed absorbed
    have same : visit.yielded = world.startKept visit.taken := by
      apply Execution.run_of_yielded _ ran
      rw [resting]
      exact (Handle.absorbed_poised absorbed).1
    rw [Visit.executed, same, resting]
    exact Nat.sub_self _

theorem visit_changes (reached : Reachable permits (.turn (visit.id :: rest) world))
    (found : world.scheduler.get? visit.id = some visit.taken)
    (ran : (world.startKept visit.taken).run fuel events = some (raised, visit.yielded)) :
    visit.Changes world.scheduler
      (World.keep visit.yielded.handle visit.yielded.world).scheduler := by
  have atWork := reached.take found
  have alone := atWork.run_worksAlone ran
  have number : visit.yielded.handle.id = visit.id := alone.id.trans World.startKept_id
  constructor
  · intro id different
    have removed : world.scheduler.Spares (world.scheduler.remove visit.id) id :=
      .of_get? (Scheduler.get?_remove_of_ne different)
    have worked : (world.scheduler.remove visit.id).Spares visit.yielded.world.scheduler id :=
      alone.spares id
    apply (removed.trans worked).trans
    apply Scheduler.Spares.of_get?
    exact World.keep_get?_of_ne (number ▸ different)
  · rw [← number]
    exact World.keep_get?_self
  · have ids : (visit.yielded.world.scheduler.handles.map Handle.id).Nodup :=
      (List.nodup_cons.mp (atWork.run ran).1.tidy.ids).2
    have put := Scheduler.executed_put ids visit.yielded.handle
    have removed := Scheduler.executed_remove reached.tidy.ids visit.id
    -- While it works the script is not among those that the scheduler keeps.
    have nobody : visit.yielded.world.scheduler.executedBy visit.yielded.handle.id = 0 := by
      have worked : visit.yielded.world.scheduler.executedBy visit.id =
          (world.scheduler.remove visit.id).executedBy visit.id := (alone.spares visit.id).executed
      rw [number, worked, Scheduler.executedBy, Scheduler.get?_remove]
      rfl
    have taken : world.scheduler.executedBy visit.id = visit.taken.executed := by
      simp [Scheduler.executedBy, found]
    have rested : visit.yielded.world.scheduler.executed =
        (world.scheduler.remove visit.id).executed := alone.total
    have more : visit.taken.executed ≤ visit.yielded.handle.executed := by
      have worked := alone.executed
      rw [World.startKept, Execution.resume, Handle.become_executed] at worked
      exact worked
    have total : (World.keep visit.yielded.handle visit.yielded.world).scheduler.executed =
        (visit.yielded.world.scheduler.put visit.yielded.handle).executed := by
      rw [Scheduler.executed, World.keep_handles, Scheduler.executed]
    rw [Visit.executed]
    omega

/-! ## What a whole turn does -/

theorem get?_isSome {id : HandleId} {situation : Situation}
    (reached : Reachable permits situation) (waiting : id ∈ situation.batch) :
    (situation.world.scheduler.get? id).isSome = true := by
  obtain ⟨handle, member, rfl⟩ := reached.present id waiting
  apply List.find?_isSome.mpr
  exact ⟨handle, member, by simp⟩

theorem visited {visits : List Visit} (made : World.Visits fuel world visits after)
    (reached : Reachable permits (.turn (visits.map Visit.id) world)) :
    world.scheduler.Visited visits after.scheduler ∧ ∀ visit ∈ visits, visit.Yields := by
  induction made with
  | done world => exact ⟨.nil _, by simp⟩
  | @next world after visit rest before raised found ran others induction =>
      obtain ⟨atWork, yielded⟩ := (reached.take found).run ran
      obtain ⟨visited, yields⟩ := induction (atWork.keep yielded)
      have once : visit.id ∉ rest.map Visit.id := by
        intro again
        have line := (List.nodup_cons.mp reached.inLine.once).1
        exact line (List.mem_append_left _ again)
      have present : ∀ other ∈ rest, (world.scheduler.get? other.id).isSome = true := by
        intro other member
        exact reached.get?_isSome (List.mem_cons_of_mem _ (List.mem_map_of_mem member))
      refine ⟨.cons found (reached.visit_changes found ran) visited once present, ?_⟩
      exact List.forall_mem_cons.mpr ⟨reached.visit_yields found ran, yields⟩

end Situation.Reachable

/-! ## What is reported -/

namespace TurnReport

variable {report : TurnReport} {state : HandleState} {instructions : Nat}

theorem count_ran : (report.count state instructions).ran = report.ran + 1 := by
  cases state <;> rfl

theorem count_instructions :
    (report.count state instructions).instructions = report.instructions + instructions := by
  cases state <;> rfl

/-- Every script that got to run is counted by what became of it. -/
def Balanced (report : TurnReport) : Prop :=
  report.ran = report.finished + report.terminated + report.suspended

theorem Balanced.count (balanced : report.Balanced)
    (yields : state = .finished ∨ state = .terminated ∨ state = .suspended) :
    (report.count state instructions).Balanced := by
  rw [Balanced] at balanced ⊢
  rcases yields with rfl | rfl | rfl <;> simp only [TurnReport.count] <;> omega

def countAll (report : TurnReport) (visits : List Visit) : TurnReport :=
  visits.foldl (fun report visit => report.count visit.yielded.handle.state visit.executed) report

theorem countAll_spec {visits : List Visit} (balanced : report.Balanced)
    (yields : ∀ visit ∈ visits, visit.Yields) :
    (report.countAll visits).Balanced ∧
      (report.countAll visits).ran = report.ran + visits.length ∧
      (report.countAll visits).instructions =
        report.instructions + (visits.map Visit.executed).sum := by
  induction visits generalizing report with
  | nil => exact ⟨balanced, rfl, rfl⟩
  | cons visit rest induction =>
      obtain ⟨first, others⟩ := List.forall_mem_cons.mp yields
      obtain ⟨even, ran, instructions⟩ := induction (balanced.count first.state) others
      rw [count_ran] at ran
      rw [count_instructions] at instructions
      refine ⟨even, ?_, ?_⟩
      · rw [List.length_cons]
        exact ran.trans (by omega)
      · rw [List.map_cons, List.sum_cons, ← Nat.add_assoc]
        exact instructions

end TurnReport

theorem Situation.Reachable.runBatch_visits {permits : Store → Value → Prop} {fuel : Nat}
    {world : World} {batch : List HandleId} {events : Array Event} {report : TurnReport}
    {done : Performed TurnReport} (reached : Reachable permits (.turn batch world))
    (ran : World.runBatch fuel batch events report world = some done) :
    ∃ visits, visits.map Visit.id = batch ∧ World.Visits fuel world visits done.world ∧
      done.answer = report.countAll visits := by
  induction batch generalizing events report world with
  | nil =>
      obtain rfl := Option.some.inj ran
      exact ⟨[], rfl, .done _, rfl⟩
  | cons id rest induction =>
      unfold World.runBatch at ran
      split at ran
      case h_1 gone =>
          have present := reached.get?_isSome List.mem_cons_self
          dsimp only [Situation.world] at present
          simp [gone] at present
      case h_2 handle found =>
          split at ran
          · simp at ran
          case h_2 raised exec yielded =>
              have number : handle.id = id := Scheduler.id_of_get? found
              obtain ⟨atWork, stopped⟩ := (reached.take found).run yielded
              obtain ⟨visits, ids, made, counted⟩ := induction (atWork.keep stopped) ran
              refine ⟨⟨handle, exec⟩ :: visits, ?_, .next ?_ yielded made, counted⟩
              · rw [List.map_cons, ids, Visit.id, number]
              · rw [Visit.id, number]
                exact found

/-- The law of turns, for a turn that begins in a world and in which some scripts are visited. -/
structure World.TurnLaw (fuel : Nat) (world : World) (visits : List Visit)
    (done : Performed TurnReport) : Prop where
  made : World.Visits fuel { world with scheduler := world.scheduler.beginTurn.2 } visits done.world
  order : (visits.map Visit.id).Sublist world.scheduler.queue
  once : (visits.map Visit.id).Nodup
  ready : ∀ handle ∈ world.scheduler.handles,
    (handle.id ∈ visits.map Visit.id ↔ handle.Ready world.now)
  /-- A script is as it was when the turn began, or has been ended and executes nothing. -/
  taken : ∀ visit ∈ visits, ∃ handle ∈ world.scheduler.handles, handle.Ready world.now ∧
    (visit.taken = handle ∨ visit.taken = handle.stopped ∧ visit.executed = 0)
  asleep : ∀ handle ∈ world.scheduler.handles, ∀ time, handle.state = .suspended →
    handle.wake = some (.at time) → world.now < time → handle.id ∉ visits.map Visit.id
  visited : ∀ visit ∈ visits, ∃ later ∈ done.world.scheduler.handles,
    visit.yielded.handle.Spared later
  others : ∀ handle ∈ world.scheduler.handles, handle.id ∉ visits.map Visit.id →
    ∃ later ∈ done.world.scheduler.handles, handle.Spared later ∧
      later.executed = handle.executed
  spawned : ∀ later ∈ done.world.scheduler.handles, world.scheduler.lastId < later.id →
    later.id ∉ visits.map Visit.id ∧ later.executed = 0
  ran : done.answer.ran = visits.length
  balanced : done.answer.ran =
    done.answer.finished + done.answer.terminated + done.answer.suspended
  instructions : (done.world.scheduler.handles.map Handle.executed).sum =
    (world.scheduler.handles.map Handle.executed).sum + done.answer.instructions

theorem Situation.Reachable.mem_beginTurn {permits : Store → Value → Prop} {world : World}
    {handle : Handle} (reached : Reachable permits (.idle world))
    (member : handle ∈ world.scheduler.handles) :
    handle.id ∈ world.scheduler.beginTurn.1 ↔ handle.Ready world.now := by
  have found := Scheduler.get?_of_mem reached.tidy.ids member
  obtain ⟨still, waits⟩ := reached.poised.kept handle member
  have queued := reached.inLine.live handle member
  rw [Handle.ready_iff still waits]
  simp only [Scheduler.beginTurn, List.partition_eq_filter_filter, List.mem_filter,
    Scheduler.isLive, Scheduler.isReady, found, Option.any_some, Bool.not_eq_true']
  constructor
  · rintro ⟨⟨_, live⟩, ready⟩
    exact ⟨live, ready⟩
  · rintro ⟨live, ready⟩
    exact ⟨⟨queued live, live⟩, ready⟩

theorem Scheduler.beginTurn_sublist (scheduler : Scheduler) :
    scheduler.beginTurn.1.Sublist scheduler.queue := by
  simp only [beginTurn, List.partition_eq_filter_filter]
  exact List.filter_sublist.trans List.filter_sublist

theorem Situation.Reachable.turnLaw {permits : Store → Value → Prop} {fuel : Nat} {world : World}
    {done : Performed TurnReport} (reached : Reachable permits (.idle world))
    (ran : world.runTurn fuel = some done) : ∃ visits, world.TurnLaw fuel visits done := by
  let opened : TurnReport := { turn := world.scheduler.beginTurn.2.turns }
  obtain ⟨visits, ids, made, counted⟩ : ∃ visits,
      visits.map Visit.id = world.scheduler.beginTurn.1 ∧
        World.Visits fuel { world with scheduler := world.scheduler.beginTurn.2 } visits
          done.world ∧
        done.answer = opened.countAll visits := reached.beginTurn.runBatch_visits ran
  obtain ⟨visited, yields⟩ : world.scheduler.beginTurn.2.Visited visits done.world.scheduler ∧
      ∀ visit ∈ visits, visit.Yields :=
    Situation.Reachable.visited made (ids.symm ▸ reached.beginTurn)
  have even : opened.Balanced := rfl
  obtain ⟨balanced, length, instructions⟩ := TurnReport.countAll_spec even yields
  rw [← counted] at balanced length instructions
  have tidy := reached.tidy
  have order : (visits.map Visit.id).Sublist world.scheduler.queue := by
    rw [ids]
    exact Scheduler.beginTurn_sublist _
  have ready : ∀ handle ∈ world.scheduler.handles,
      (handle.id ∈ visits.map Visit.id ↔ handle.Ready world.now) := by
    intro handle member
    rw [ids]
    exact reached.mem_beginTurn member
  refine ⟨visits, made, order, order.nodup reached.inLine.once, ready, ?_, ?_, ?_, ?_, ?_, ?_,
    balanced, ?_⟩
  · intro visit member
    obtain ⟨handle, found, spared⟩ := visited.taken visit member
    have held : handle ∈ world.scheduler.handles := Scheduler.mem_of_get? found
    have number : handle.id = visit.id := Scheduler.id_of_get? found
    refine ⟨handle, held, (ready handle held).mp (number ▸ List.mem_map_of_mem member), ?_⟩
    rcases spared.eq_or with same | ⟨live, stopped⟩
    · exact .inl same
    · refine .inr ⟨stopped, (yields visit member).ended ?_⟩
      rw [stopped]
      exact Handle.stopped_isAbsorbed live
  · intro handle member time state wake ahead visit
    exact Handle.not_ready_of_asleep state wake ahead ((ready handle member).mp visit)
  · intro visit member
    obtain ⟨later, found, spared⟩ := visited.kept visit member
    exact ⟨later, Scheduler.mem_of_get? found, spared⟩
  · intro handle member apart
    have found := Scheduler.get?_of_mem tidy.ids member
    obtain ⟨later, kept, spared⟩ := (visited.spares handle.id apart).held handle found
    exact ⟨later, Scheduler.mem_of_get? kept, spared, spared.executed⟩
  · intro later member new
    have apart : later.id ∉ visits.map Visit.id := by
      intro visit
      exact Nat.not_le_of_lt new (reached.inLine.issued later.id (order.subset visit))
    refine ⟨apart, ?_⟩
    have nobody : world.scheduler.beginTurn.2.get? later.id = none :=
      Scheduler.get?_eq_none_of_lt tidy.issued new
    have found := Scheduler.get?_of_mem (reached.runTurn ran).tidy.ids member
    have spares := (visited.spares later.id apart).executed
    rw [Scheduler.executedBy, Scheduler.executedBy, nobody] at spares
    simpa [found] using spares
  · rw [length, Nat.zero_add]
  · rw [instructions, Nat.zero_add]
    exact visited.total

theorem Situation.Next.new_number {permits : Store → Value → Prop}
    {earlier before after : Situation} {later : Handle} (reached : Reachable permits earlier)
    (history : History permits earlier before) (next : Next permits before after)
    (member : later ∈ after.handles) :
    (∃ handle ∈ before.handles, handle.Passes before later) ∨
      ∀ handle ∈ earlier.handles, handle.id ≠ later.id := by
  rcases next.origin member with passed | ⟨new, _⟩
  · exact .inl passed
  · refine .inr fun handle held same => ?_
    have issued := reached.tidy.issued handle held
    rw [same] at issued
    exact Nat.not_le_of_lt new (Nat.le_trans issued history.lastId_le)

/-- Whatever a host does.  Between two operations, and between two turns of one operation, the queue
names nobody twice, and every script that has not come to its end once.  At all times no two scripts
have the same number, a script that waits knows what for, and a number is never given out again.
Every turn obeys the law of turns, and comes to its end wherever there is a budget and fuel for
it. -/
theorem every_ready_script_runs_once_in_a_turn (permits : Store → Value → Prop) :
    (∀ machine : Machine, machine.Reachable permits →
      Situation.Reachable permits (.idle machine.world)) ∧
    (∀ world, Situation.Reachable permits (.idle world) → world.scheduler.queue.Nodup ∧
      ∀ handle ∈ world.scheduler.handles, handle.isAbsorbed = false →
        world.scheduler.queue.count handle.id = 1) ∧
    (∀ situation, Situation.Reachable permits situation →
      (situation.handles.map Handle.id).Nodup ∧
      (∀ handle ∈ situation.handles, handle.state = .suspended → handle.wake.isSome = true) ∧
      ∀ before after, Situation.History permits situation before →
        Situation.Next permits before after → ∀ later ∈ after.handles,
          (∃ handle ∈ before.handles, handle.Passes before later) ∨
            ∀ handle ∈ situation.handles, handle.id ≠ later.id) ∧
    (∀ world fuel, Situation.Reachable permits (.idle world) →
      (∀ done, world.runTurn fuel = some done → ∃ visits, world.TurnLaw fuel visits done) ∧
      ∀ budget, world.settings.instructionBudget = some budget → 2 * budget + 2 ≤ fuel →
        (world.runTurn fuel).isSome = true) := by
  refine ⟨fun machine reached => reached.idle, ?_, ?_, ?_⟩
  · intro world reached
    have inLine := reached.inLine
    refine ⟨inLine.once, fun handle member live => ?_⟩
    exact List.count_eq_one_of_mem inLine.once (inLine.live handle member live)
  · intro situation reached
    refine ⟨reached.tidy.ids, fun handle member => reached.waits_for member, ?_⟩
    intro before after history next later member
    exact next.new_number reached history member
  · intro world fuel reached
    refine ⟨fun done ran => reached.turnLaw ran, ?_⟩
    intro budget limit enough
    exact reached.runTurn_isSome limit enough

theorem World.TurnLaw.visited_of_created {fuel : Nat} {world : World} {visits : List Visit}
    {done : Performed TurnReport} {id : HandleId} (law : world.TurnLaw fuel visits done)
    (found : (world.scheduler.get? id).any (·.state = .created) = true) :
    id ∈ visits.map Visit.id := by
  obtain ⟨handle, held, state⟩ := (Option.any_eq_true _ _).mp found
  obtain rfl : handle.id = id := Scheduler.id_of_get? held
  exact (law.ready handle (Scheduler.mem_of_get? held)).mpr (.created (by simpa using state))

theorem World.TurnLaw.not_visited_of_asleep {fuel : Nat} {world : World} {visits : List Visit}
    {done : Performed TurnReport} {id : HandleId} (law : world.TurnLaw fuel visits done)
    (asleep : ((world.scheduler.get? id).bind Scheduler.wakeTime?).any (world.now < ·) = true) :
    id ∉ visits.map Visit.id := by
  obtain ⟨time, found, ahead⟩ := (Option.any_eq_true _ _).mp asleep
  obtain ⟨handle, held, wakes⟩ := Option.bind_eq_some_iff.mp found
  obtain rfl : handle.id = id := Scheduler.id_of_get? held
  unfold Scheduler.wakeTime? at wakes
  split at wakes
  case h_1 _ _ _ state wake =>
      obtain rfl := Option.some.inj wakes
      exact law.asleep handle (Scheduler.mem_of_get? held) _ state wake (by simpa using ahead)
  case h_2 => simp at wakes

/-- The second turn of three scripts: the first sleeps, and the second ends the third before its
turn comes. -/
theorem sleeper_waits_while_others_take_their_turn :
    let sleeps : CodeBlock :=
      [⟨.push (.scalar 1), Location.host⟩, ⟨.callUnary "sleep", Location.host⟩]
    let ends : CodeBlock :=
      [⟨.push (.script (some 3)), Location.host⟩, ⟨.callUnary "terminate", Location.host⟩]
    let answers : CodeBlock := [⟨.push (.scalar 1), Location.host⟩]
    let fresh := World.ofSettings { instructionBudget := some 5 }
    let begun := (fresh.spawn sleeps [] Location.host).2
    ∃ first, begun.runTurn 12 = some first ∧
      let joined := (first.world.spawn ends [] Location.host).2
      let world := (joined.spawn answers [] Location.host).2
      world.scheduler.queue = [1, 2, 3] ∧
        (∀ handle ∈ world.scheduler.handles, handle.isAbsorbed = false →
          world.scheduler.queue.count handle.id = 1) ∧
        (∀ later ∈ joined.scheduler.handles,
          (∃ handle ∈ first.world.scheduler.handles,
            handle.Passes (.idle first.world) later) ∨
          ∀ handle ∈ begun.scheduler.handles, handle.id ≠ later.id) ∧
        ∃ done visits, world.runTurn 12 = some done ∧ world.TurnLaw 12 visits done ∧
          visits.map Visit.id = [2, 3] ∧ done.answer.ran = 2 ∧
          done.answer.finished + done.answer.terminated + done.answer.suspended = 2 := by
  intro sleeps ends answers fresh begun
  obtain ⟨_, queued, numbers, turns⟩ := every_ready_script_runs_once_in_a_turn fun _ _ => True
  have reached : Situation.Reachable (fun _ _ => True) (.idle begun) :=
    (Situation.Reachable.fresh _).tend (.spawn (fun _ _ => trivial) fun _ _ => trivial)
  obtain ⟨first, ran⟩ := Option.isSome_iff_exists.mp ((turns begun 12 reached).2 5 rfl (by omega))
  refine ⟨first, ran, ?_⟩
  intro joined world
  have history : Situation.History (fun _ _ => True) (.idle begun) (.idle first.world) :=
    Situation.History.runTurn ran
  have next : Situation.Next (fun _ _ => True) (.idle first.world) (.idle joined) :=
    .tend (.spawn (fun _ _ => trivial) fun _ _ => trivial)
  have second : Situation.Reachable (fun _ _ => True) (.idle world) :=
    ((history.reachable reached).next next).tend (.spawn (fun _ _ => trivial) fun _ _ => trivial)
  have limit : world.settings.instructionBudget = some 5 := by
    have same : world.settings = begun.settings := history.settings
    rw [same]
    rfl
  have seen : ((begun.runTurn 12).all fun first =>
      let world := ((first.world.spawn ends [] Location.host).2.spawn answers [] Location.host).2
      world.scheduler.queue = [1, 2, 3] ∧
        ((world.scheduler.get? 1).bind Scheduler.wakeTime?).any (world.now < ·) ∧
        (world.scheduler.get? 2).any (·.state = .created) ∧
        (world.scheduler.get? 3).any (·.state = .created)) = true := by
    decide +kernel
  rw [ran, Option.all_some, decide_eq_true_iff] at seen
  obtain ⟨queue, asleep, ready, spared⟩ : world.scheduler.queue = [1, 2, 3] ∧
      ((world.scheduler.get? 1).bind Scheduler.wakeTime?).any (world.now < ·) ∧
      (world.scheduler.get? 2).any (·.state = .created) ∧
      (world.scheduler.get? 3).any (·.state = .created) := seen
  refine ⟨queue, (queued world second).2, (numbers _ reached).2.2 _ _ history next, ?_⟩
  obtain ⟨obeys, comesToAnEnd⟩ := turns world 12 second
  obtain ⟨done, ranAgain⟩ := Option.isSome_iff_exists.mp (comesToAnEnd 5 limit (by omega))
  obtain ⟨visits, law⟩ := obeys done ranAgain
  have visited : visits.map Visit.id = [2, 3] := by
    have sublists : ∀ ids ∈ [1, 2, 3].sublists, 1 ∉ ids → 2 ∈ ids → 3 ∈ ids → ids = [2, 3] := by
      decide
    have order := law.order
    rw [queue] at order
    exact sublists _ (List.mem_sublists.mpr order) (law.not_visited_of_asleep asleep)
      (law.visited_of_created ready) (law.visited_of_created spared)
  have length : visits.length = 2 := by
    rw [← List.length_map Visit.id, visited]
    rfl
  have ran := law.ran.trans length
  exact ⟨done, visits, ranAgain, law, visited, ran, law.balanced.symm.trans ran⟩

end SimScript
