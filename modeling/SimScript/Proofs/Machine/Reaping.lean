import SimScript.Proofs.Execution.Forgetting
import SimScript.Proofs.Machine.Absorption
import SimScript.Proofs.Machine.Rounds

/-!
# Reaping

Of the two drivers one drops the scripts that have come to their end after each turn,
and the other keeps them.  A script can tell them apart in one way only: where it ends
a script that has been dropped it is given up with an error, and where the script is
kept it is warned.  As long as no script does so, the two drivers do the same.
-/

namespace SimScript

/-! ## Ending a script that is not kept -/

def Message.unknownScript (id : HandleId) : Message :=
  Fault.errorMessage "terminate" s!"unknown script handle {id}"

/-- An event tells that a script was to be ended which was forgotten. -/
def Event.Misses (gone : HandleId → Bool) (event : Event) : Prop :=
  ∃ id, gone id = true ∧ event.message = .unknownScript id

theorem Event.Misses.mono {gone later : HandleId → Bool} {event : Event}
    (misses : event.Misses gone) (all : ∀ id, gone id = true → later id = true) :
    event.Misses later := by
  obtain ⟨id, lost, message⟩ := misses
  exact ⟨id, all id lost, message⟩

namespace Execution

variable {exec : Execution} {gone : HandleId → Bool} {id : HandleId} {name : String}

theorem carriesOut_of_target? (aimed : exec.target? = some id) :
    ∃ name moved outer rest, exec.CarriesOut (.callUnary name) moved outer ∧
      Text.sameName name "terminate" = true ∧ moved.operands = .script (some id) :: rest := by
  unfold target? at aimed
  split at aimed
  · cases aimed
  case isFalse proceeds =>
      simp only [Bool.or_eq_true, not_or, Bool.not_eq_true, Option.isNone_eq_false_iff,
        Option.isSome_iff_exists] at proceeds
      obtain ⟨proceeds, charged, paid⟩ := proceeds
      obtain rfl := charge?_eq_some charged paid
      obtain ⟨frame, top, aimed⟩ := Option.bind_eq_some_iff.mp aimed
      obtain ⟨⟨⟨op, location⟩, moved⟩, fetched, aimed⟩ := Option.bind_eq_some_iff.mp aimed
      obtain ⟨outer, stack⟩ : ∃ outer, exec.handle.stack = frame :: outer := by
        cases stack : exec.handle.stack with
        | nil => simp [Handle.top?, stack] at top
        | cons first outer =>
            obtain rfl : first = frame := by simpa [Handle.top?, stack] using top
            exact ⟨outer, rfl⟩
      have due : exec.Due frame := ⟨proceeds, top, .inl (CallFrame.unfinished_of_fetch fetched)⟩
      cases op with
      | callUnary name =>
          obtain ⟨right, operand, aimed⟩ := Option.bind_eq_some_iff.mp aimed
          unfold Command.target? at aimed
          split at aimed
          case isTrue named =>
              obtain ⟨rest, operands⟩ : ∃ rest, moved.operands = right :: rest := by
                cases operands : moved.operands <;> simp_all
              obtain rfl : right = .script (some id) := by
                cases right <;> simp_all [Command.handleOf?]
              exact ⟨name, moved, outer, rest, ⟨paid, frame, _, due, stack, fetched, rfl⟩, named,
                operands⟩
          case isFalse => cases aimed
      | _ => cases aimed

theorem callUnary_terminate_of_unknown (nobody : exec.world.scheduler.get? id = none)
    (other : id ≠ exec.handle.id) (named : Text.sameName name "terminate" = true) :
    exec.callUnary name (.script (some id)) =
      (⟨.error .statement, [⟨.unknownScript id, exec.location⟩]⟩, exec) := by
  have state : exec.world.stateOf? id = none := congrArg (Option.map Handle.state) nobody
  have plan : Plan.terminate (.script (some id)) exec =
      Plan.fail (.errorMessage "terminate" s!"unknown script handle {id}") := by
    simp only [Plan.terminate, Command.handleOf?, if_neg other, state]
  rw [callUnary_of_plan (Command.unariesOf_terminate named) (Command.terminate_follows _) rfl]
  simp only [attempt, follow, plan]
  rfl

theorem advance_of_unknown (aimed : exec.target? = some id)
    (nobody : exec.world.scheduler.get? id = none) (other : id ≠ exec.handle.id) :
    ∃ location, exec.advance.1 = [⟨.unknownScript id, location⟩] := by
  obtain ⟨name, moved, outer, rest, carries, named, operands⟩ := carriesOut_of_target? aimed
  obtain ⟨instruction, stack, step⟩ := carries.step
  let taken := (exec.placed instruction moved).withStack
    ({ moved with operands := rest } :: outer)
  have world : (exec.placed instruction moved).world = exec.world := placed_world
  have same : (exec.placed instruction moved).standing = exec.standing.counted := placed_standing
  have unknown : taken.world.scheduler.get? id = none := world.symm ▸ nobody
  have number : taken.handle.id = exec.handle.id := congrArg Standing.id same
  have refused : exec.step =
      (⟨.error .statement, [⟨.unknownScript id, taken.location⟩]⟩, taken) := by
    rw [step, dispatch_callUnary stack operands]
    exact callUnary_terminate_of_unknown unknown (number ▸ other) named
  refine ⟨taken.location, ?_⟩
  rw [advance_of_statement (by rw [refused]), refused]

theorem without_target? : (exec.without gone).target? = exec.target? := by
  unfold target?
  rw [without_charge?, Option.isNone_map]
  rfl

end Execution

/-! ## Scripts that may be forgotten -/

/-- Some scripts that have come to their end, or that are not there any more. -/
structure Situation.MayForget (situation : Situation) (gone : HandleId → Bool) : Prop where
  ended : ∀ handle ∈ situation.handles, gone handle.id = true → handle.isAbsorbed = true
  issued : ∀ id, gone id = true → id ≤ situation.world.scheduler.lastId

namespace Situation

variable {permits : Store → Value → Prop} {before after situation : Situation}
  {gone : HandleId → Bool}

theorem MayForget.scheduler (forgets : situation.MayForget gone) :
    situation.world.scheduler.MayForget gone := by
  refine ⟨fun handle member => forgets.ended handle ?_, forgets.issued⟩
  cases situation with
  | idle | turn => exact member
  | atWork => exact List.mem_cons_of_mem _ member

theorem Next.mayForget (next : Next permits before after) (forgets : before.MayForget gone) :
    after.MayForget gone := by
  constructor
  · intro later member lost
    rcases next.origin member with ⟨handle, held, passed⟩ | ⟨new, _⟩
    · have absorbed := forgets.ended handle held (passed.id ▸ lost)
      rw [(passed.lasts absorbed).isAbsorbed]
      exact absorbed
    · exact absurd (forgets.issued later.id lost) (Nat.not_le_of_lt new)
  · exact fun id lost => Nat.le_trans (forgets.issued id lost) next.lastId_le

/-- Whoever may be forgotten once may be forgotten ever after. -/
theorem History.mayForget (history : History permits before after)
    (forgets : before.MayForget gone) : after.MayForget gone := by
  induction history with
  | refl => exact forgets
  | tail _ next induction => exact next.mayForget induction

end Situation

section MayForget

variable {world : World} {scheduler : Scheduler} {gone : HandleId → Bool} {handle : Handle}

theorem Scheduler.MayForget.put (forgets : scheduler.MayForget gone)
    (kept : gone handle.id = false) : (scheduler.put handle).MayForget gone := by
  refine ⟨fun later member lost => ?_, forgets.issued⟩
  rcases Scheduler.mem_put member with held | rfl
  · exact forgets.ended later held lost
  · simp [kept] at lost

theorem World.startKept_without :
    (world.without gone).startKept handle = (world.startKept handle).without gone := by
  have removed : (world.scheduler.without gone).remove handle.id =
      (world.scheduler.remove handle.id).without gone := by
    simp only [Scheduler.remove, Scheduler.without, List.filter_filter, Bool.and_comm]
  exact congrArg (fun scheduler => Execution.resume { world with scheduler }
    ({ handle with wake := none }.become .running)) removed

theorem Scheduler.any_without (forgets : scheduler.MayForget gone) {holds : Handle → Bool}
    (live : ∀ handle, handle.isAbsorbed = true → holds handle = false) (id : HandleId) :
    ((scheduler.without gone).get? id).any holds = (scheduler.get? id).any holds := by
  cases lost : gone id with
  | false => rw [get?_without lost]
  | true =>
      rw [get?_without_of_gone lost]
      cases found : scheduler.get? id with
      | none => rfl
      | some handle =>
          have number : handle.id = id := Scheduler.id_of_get? found
          have absorbed := forgets.ended handle (mem_of_get? found) (number.symm ▸ lost)
          exact (live handle absorbed).symm

theorem Scheduler.isLive_without (forgets : scheduler.MayForget gone) :
    (scheduler.without gone).isLive = scheduler.isLive :=
  funext (any_without forgets fun handle absorbed => by simp [absorbed])

theorem Handle.not_isReady_of_absorbed {now : Float} (absorbed : handle.isAbsorbed = true) :
    handle.isReady now = false := by
  cases state : handle.state <;>
    simp_all [isAbsorbed, HandleState.isAbsorbed, isReady]

theorem Scheduler.isReady_without (forgets : scheduler.MayForget gone) :
    (scheduler.without gone).isReady = scheduler.isReady :=
  funext (any_without forgets fun _ absorbed => Handle.not_isReady_of_absorbed absorbed)

theorem Scheduler.requeue_without (forgets : scheduler.MayForget gone) (id : HandleId) :
    (scheduler.without gone).requeue id = (scheduler.requeue id).without gone := by
  have queue : (scheduler.without gone).queue = scheduler.queue := rfl
  unfold requeue
  rw [isLive_without forgets, queue]
  split <;> rfl

theorem World.keep_without (forgets : world.scheduler.MayForget gone)
    (kept : gone handle.id = false) :
    World.keep handle (world.without gone) = (World.keep handle world).without gone := by
  have put : (world.scheduler.without gone).put handle =
      (world.scheduler.put handle).without gone := Scheduler.put_without kept
  have queued : ((world.scheduler.put handle).without gone).requeue handle.id =
      ((world.scheduler.put handle).requeue handle.id).without gone :=
    Scheduler.requeue_without (forgets.put kept) handle.id
  have both : ((world.scheduler.without gone).put handle).requeue handle.id =
      ((world.scheduler.put handle).requeue handle.id).without gone := put ▸ queued
  exact congrArg (fun scheduler => { world with scheduler }) both

theorem Scheduler.beginTurn_without (forgets : scheduler.MayForget gone) :
    (scheduler.without gone).beginTurn =
      (scheduler.beginTurn.1, scheduler.beginTurn.2.without gone) := by
  have queue : (scheduler.without gone).queue = scheduler.queue := rfl
  unfold beginTurn
  rw [isLive_without forgets, isReady_without forgets, queue]
  rfl

end MayForget

/-! ## Runs and turns -/

namespace Execution

variable {exec : Execution} {gone : HandleId → Bool} {fuel : Nat} {events : Array Event}
  {done : Array Event × Execution} {batch : Option (List HandleId)}

theorem run_of_running (running : exec.handle.state = .running) :
    exec.run (fuel + 1) events = exec.advance.2.run fuel (events ++ exec.advance.1) := by
  rw [run, if_pos running]

theorem run_events (ran : exec.run fuel events = some done) : events.toList ⊆ done.1.toList := by
  replace ran := runsTo_of_run ran
  induction ran with
  | yields => exact List.Subset.refl _
  | works _ _ later =>
      rw [Array.toList_appendList] at later
      exact List.Subset.trans (List.subset_append_left _ _) later

theorem run_id (ran : exec.run fuel events = some done) : done.2.handle.id = exec.handle.id := by
  replace ran := runsTo_of_run ran
  induction ran with
  | yields => rfl
  | works running _ later => exact later.trans (advance_id running)

/-- A run among fewer scripts is the same, unless it tells that a script is missing. -/
theorem run_without (forgets : Situation.MayForget (.atWork exec batch) gone)
    (front : gone exec.handle.id = false) :
    (exec.without gone).run fuel events =
        (exec.run fuel events).map (fun done => (done.1, done.2.without gone)) ∨
      ∀ done, (exec.without gone).run fuel events = some done →
        ∃ event ∈ done.1.toList, event.Misses gone := by
  induction fuel generalizing exec events with
  | zero => exact .inl rfl
  | succ fuel induction =>
      by_cases running : exec.handle.state = .running
      case neg => exact .inl (by simp [run, running])
      have still : (exec.without gone).handle.state = .running := running
      rw [run_of_running running, run_of_running still]
      by_cases aimed : ∃ id, exec.target? = some id ∧ gone id = true
      · obtain ⟨id, aimed, lost⟩ := aimed
        have unknown : (exec.without gone).world.scheduler.get? id = none :=
          Scheduler.get?_without_of_gone lost
        have other : id ≠ exec.handle.id := by
          rintro rfl
          simp [front] at lost
        obtain ⟨location, raised⟩ := advance_of_unknown (without_target?.trans aimed) unknown other
        refine .inr fun done ran => ⟨⟨.unknownScript id, location⟩, ?_, id, lost, rfl⟩
        apply run_events ran
        rw [Array.toList_appendList, raised]
        exact List.mem_append_right _ (List.mem_singleton_self _)
      · have spared : ∀ id, exec.target? = some id → gone id = false := by
          intro id target
          by_contra lost
          exact aimed ⟨id, target, by simpa using lost⟩
        rw [advance_without forgets.scheduler spared]
        have same : exec.advance.2.handle.id = exec.handle.id := advance_id running
        have next : Situation.Next (fun _ _ => True) (.atWork exec batch)
            (.atWork exec.advance.2 batch) := .advance running
        exact induction (next.mayForget forgets) (same ▸ front)

end Execution

def Performed.without {α : Type} (done : Performed α) (gone : HandleId → Bool) : Performed α :=
  { done with world := done.world.without gone }

namespace World

variable {world : World} {gone : HandleId → Bool} {fuel : Nat} {events : Array Event}
  {batch : List HandleId} {report : TurnReport} {done : Performed TurnReport}

theorem runBatch_events (ran : runBatch fuel batch events report world = some done) :
    events.toList ⊆ done.events.toList := by
  induction batch generalizing events report world with
  | nil =>
      obtain rfl := Option.some.inj ran
      exact List.Subset.refl _
  | cons id rest induction =>
      unfold runBatch at ran
      split at ran
      case h_1 => exact induction ran
      case h_2 handle _ =>
          split at ran
          · cases ran
          case h_2 raised exec yielded =>
              have run : (world.startKept handle).run fuel events = some (raised, exec) := yielded
              exact List.Subset.trans (Execution.run_events run) (induction ran)

theorem runBatch_without (forgets : Situation.MayForget (.turn batch world) gone)
    (kept : ∀ id ∈ batch, gone id = false) :
    runBatch fuel batch events report (world.without gone) =
        (runBatch fuel batch events report world).map (fun done => done.without gone) ∨
      ∀ done, runBatch fuel batch events report (world.without gone) = some done →
        ∃ event ∈ done.events.toList, event.Misses gone := by
  induction batch generalizing events report world with
  | nil => exact .inl rfl
  | cons id rest induction =>
      obtain ⟨front, others⟩ := List.forall_mem_cons.mp kept
      have found : (world.without gone).scheduler.get? id = world.scheduler.get? id :=
        Scheduler.get?_without front
      unfold runBatch
      rw [found]
      cases held : world.scheduler.get? id with
      | none =>
          have next : Situation.Next (fun _ _ => True) (.turn (id :: rest) world)
              (.turn rest world) := .skip held
          exact induction (next.mayForget forgets) others
      | some handle =>
          have number : handle.id = id := Scheduler.id_of_get? held
          have taken : Situation.Next (fun _ _ => True) (.turn (id :: rest) world)
              (.atWork (world.startKept handle) (some rest)) := .take held
          have working := taken.mayForget forgets
          have started : ∀ world : World, runHandle fuel events handle world =
              (world.startKept handle).run fuel events := fun _ => rfl
          have front : gone (world.startKept handle).handle.id = false := by
            rw [startKept_id, number]
            exact front
          dsimp only
          rw [started, started, startKept_without]
          rcases Execution.run_without working front with same | misses
          · rw [same]
            cases ran : (world.startKept handle).run fuel events with
            | none => exact .inl rfl
            | some performed =>
                obtain ⟨raised, exec⟩ := performed
                have stays : gone exec.handle.id = false := Execution.run_id ran ▸ front
                have worked : Situation.History (fun _ _ => True)
                    (.atWork (world.startKept handle) (some rest)) (.atWork exec (some rest)) ∧
                      exec.handle.state ≠ .running := Situation.History.run ran
                have yielded := worked.1.mayForget working
                have resting : exec.world.scheduler.MayForget gone := yielded.scheduler
                have returns : Situation.Next (fun _ _ => True) (.atWork exec (some rest))
                    (.turn rest (World.keep exec.handle exec.world)) := .keep worked.2
                dsimp only [Option.map_some, Execution.without_handle]
                rw [Execution.without_world, keep_without resting stays]
                exact induction (returns.mayForget yielded) others
          · cases ran : ((world.startKept handle).without gone).run fuel events with
            | none => exact .inr fun _ never => by cases never
            | some performed =>
                obtain ⟨event, raised, missing⟩ := misses performed ran
                exact .inr fun done rest => ⟨event, runBatch_events rest raised, missing⟩

theorem runTurn_without (forgets : Situation.MayForget (.idle world) gone) :
    runTurn fuel (world.without gone) =
        (runTurn fuel world).map (fun done => done.without gone) ∨
      ∀ done, runTurn fuel (world.without gone) = some done →
        ∃ event ∈ done.events.toList, event.Misses gone := by
  have begun : (world.without gone).scheduler.beginTurn =
      (world.scheduler.beginTurn.1, world.scheduler.beginTurn.2.without gone) :=
    Scheduler.beginTurn_without forgets.scheduler
  have next : Situation.Next (fun _ _ => True) (.idle world) (.turn world.scheduler.beginTurn.1
      { world with scheduler := world.scheduler.beginTurn.2 }) := .beginTurn
  -- Nobody who is ready has come to its end.
  have kept : ∀ id ∈ world.scheduler.beginTurn.1, gone id = false := by
    intro id member
    simp only [Scheduler.beginTurn, List.partition_eq_filter_filter, List.mem_filter] at member
    obtain ⟨⟨_, live⟩, _⟩ := member
    obtain ⟨handle, found, live⟩ := (Option.any_eq_true _ _).mp live
    have number : handle.id = id := Scheduler.id_of_get? found
    by_contra lost
    have absorbed := forgets.ended handle (Scheduler.mem_of_get? found)
        (by simpa [number] using lost)
    simp [absorbed] at live
  unfold runTurn
  rw [begun]
  exact runBatch_without (next.mayForget forgets) kept

end World

/-! ## Drivers -/

def World.hasEnded (world : World) (id : HandleId) : Bool :=
  (world.scheduler.get? id).any Handle.isAbsorbed

theorem World.hasEnded_iff {world : World} {id : HandleId} :
    world.hasEnded id = true ↔
      ∃ handle, world.scheduler.get? id = some handle ∧ handle.isAbsorbed = true := by
  simp [hasEnded, Option.any_eq_true]

namespace Situation.Reachable

variable {permits : Store → Value → Prop} {world : World}

theorem hasEnded_of_mem {handle : Handle} (reached : Reachable permits (.idle world))
    (member : handle ∈ world.scheduler.handles) :
    world.hasEnded handle.id = handle.isAbsorbed := by
  rw [World.hasEnded, Scheduler.get?_of_mem reached.tidy.ids member]
  rfl

theorem mayForget (reached : Reachable permits (.idle world)) :
    MayForget (.idle world) world.hasEnded := by
  constructor
  · intro handle member ended
    rwa [reached.hasEnded_of_mem member] at ended
  · intro id ended
    obtain ⟨handle, found, _⟩ := World.hasEnded_iff.mp ended
    have number : handle.id = id := Scheduler.id_of_get? found
    exact number ▸ reached.tidy.issued handle (Scheduler.mem_of_get? found)

/-- To drop the scripts that have come to their end is to forget them. -/
theorem tidied_eq_without (reached : Reachable permits (.idle world)) :
    world.tidied true = world.without world.hasEnded := by
  have same : world.scheduler.reap.2 = world.scheduler.without world.hasEnded := by
    refine congrArg (fun handles => { world.scheduler with handles }) ?_
    apply List.filter_congr
    intro handle member
    rw [reached.hasEnded_of_mem member]
  exact congrArg (fun scheduler => { world with scheduler }) same

end Situation.Reachable

theorem World.without_tidied {world : World} {gone : HandleId → Bool}
    (forgets : world.scheduler.MayForget gone) :
    (world.without gone).tidied true = world.tidied true := by
  have same : (world.scheduler.without gone).reap.2 = world.scheduler.reap.2 := by
    refine congrArg (fun handles => { world.scheduler with handles }) ?_
    rw [Scheduler.without, List.filter_filter]
    apply List.filter_congr
    intro handle member
    cases lost : gone handle.id with
    | false => simp
    | true => simp [forgets.ended handle member lost]
  exact congrArg (fun scheduler => { world with scheduler }) same

theorem World.tidied_advance (world : World) (seconds : Float) :
    (world.advance seconds).tidied true = (world.tidied true).advance seconds := by
  have same : (world.scheduler.advance seconds).reap.2 =
      world.scheduler.reap.2.advance seconds := by
    unfold Scheduler.advance
    split <;> rfl
  exact congrArg (fun scheduler => { world with scheduler }) same

theorem World.without_hasEnded {world : World} {gone : HandleId → Bool} {id : HandleId}
    (kept : gone id = false) : (world.without gone).hasEnded id = world.hasEnded id :=
  congrArg (Option.any Handle.isAbsorbed) (Scheduler.get?_without kept)

theorem Performed.goesOn_hasEnded (turn : Performed TurnReport) :
    (turn.goesOn false).hasEnded = turn.world.hasEnded := by
  have handles : (turn.goesOn false).scheduler.handles = turn.world.scheduler.handles := by
    unfold goesOn
    dsimp only
    split
    · exact Scheduler.advance_handles _
    · rfl
  funext id
  exact congrArg (Option.any Handle.isAbsorbed) (Scheduler.get?_congr handles)

theorem Performed.without_goesOn {turn : Performed TurnReport} {gone : HandleId → Bool}
    (forgets : turn.world.scheduler.MayForget gone) :
    (turn.without gone).goesOn true = (turn.goesOn false).tidied true := by
  have kept : (turn.without gone).world.tidied true = turn.world.tidied true :=
    World.without_tidied forgets
  have wakes : (turn.world.tidied true).scheduler.nextWake? =
      (turn.world.tidied false).scheduler.nextWake? := World.tidied_nextWake? true turn.world
  have answer : (turn.without gone).answer = turn.answer := rfl
  unfold goesOn
  dsimp only
  rw [kept, wakes, answer]
  split
  · exact (World.tidied_advance _ _).symm
  · rfl

/-- Some rounds of one driver agree with those of the other: the same is reported, and what is kept
is the same apart from the scripts that have come to their end. -/
structure DriversAgree (kept reaped : List (Performed TurnReport) × World) : Prop where
  turns : reaped.1.map (fun turn => (turn.answer, turn.events)) =
    kept.1.map fun turn => (turn.answer, turn.events)
  world : reaped.2 = kept.2.tidied true

namespace DriversAgree

variable {turn : Performed TurnReport} {gone : HandleId → Bool}
  {kept reaped : List (Performed TurnReport) × World}

theorem nil {world : World} : DriversAgree ([], world) ([], world.tidied true) :=
  ⟨rfl, rfl⟩

theorem cons (agree : DriversAgree kept reaped) :
    DriversAgree (turn :: kept.1, kept.2) (turn.without gone :: reaped.1, reaped.2) :=
  ⟨congrArg (List.cons (turn.answer, turn.events)) agree.turns, agree.world⟩

theorem length (agree : DriversAgree kept reaped) : reaped.1.length = kept.1.length := by
  have length := congrArg List.length agree.turns
  rwa [List.length_map, List.length_map] at length

end DriversAgree

theorem roundEvents_cons (turn : Performed TurnReport) (rounds : List (Performed TurnReport)) :
    (roundEvents (turn :: rounds)).toList = turn.events.toList ++ (roundEvents rounds).toList :=
  Array.toList_append

namespace Situation.Reachable

variable {permits : Store → Value → Prop} {world : World} {fuel turns : Nat}

/-- The two drivers agree, unless a script is missing that one of them has dropped: one that has
come to its end before, or by the end of some turn. -/
theorem drivers_agree {reaped : List (Performed TurnReport) × World}
    (reached : Reachable permits (.idle world))
    (drove : (world.tidied true).drive fuel true turns = some reaped) :
    (∃ kept, world.drive fuel false turns = some kept ∧ DriversAgree kept reaped) ∨
      ∃ event ∈ (roundEvents reaped.1).toList, event.Misses fun id =>
        world.hasEnded id || reaped.1.any fun turn => turn.world.hasEnded id := by
  induction turns generalizing world reaped with
  | zero =>
      obtain rfl := Option.some.inj drove
      exact .inl ⟨_, rfl, .nil⟩
  | succ turns induction =>
      have idle : (world.tidied true).scheduler.isIdle = world.scheduler.isIdle :=
        Scheduler.reap_isIdle
      unfold World.drive at drove ⊢
      rw [idle] at drove
      split at drove
      case isTrue finished =>
          obtain rfl := Option.some.inj drove
          exact .inl ⟨_, by rw [if_pos finished], .nil⟩
      case isFalse busy =>
          rw [if_neg busy]
          rw [reached.tidied_eq_without] at drove
          obtain ⟨turn, ran, drove⟩ := Option.bind_eq_some_iff.mp drove
          obtain ⟨rest, others, rfl⟩ := Option.map_eq_some_iff.mp drove
          have forgets := reached.mayForget
          rcases World.runTurn_without forgets with same | misses
          · rw [same] at ran
            obtain ⟨turn, turned, rfl⟩ := Option.map_eq_some_iff.mp ran
            have history : History permits (.idle world) (.idle turn.world) := .runTurn turned
            have ended : turn.world.scheduler.MayForget world.hasEnded :=
              (history.mayForget forgets).scheduler
            rw [Performed.without_goesOn ended] at others
            rw [turned, Option.bind_some]
            rcases induction (reached.goesOn turned) others with
              ⟨kept, keeps, agree⟩ | ⟨event, raised, misses⟩
            · rw [keeps]
              exact .inl ⟨_, rfl, agree.cons⟩
            · refine .inr ⟨event, ?_, misses.mono fun id dropped => ?_⟩
              · rw [roundEvents_cons]
                exact List.mem_append_right _ raised
              · rw [Performed.goesOn_hasEnded] at dropped
                dsimp only at dropped ⊢
                rw [List.any_cons]
                -- Whoever has come to its end is forgotten before the turn, or is kept after it.
                cases lost : world.hasEnded id with
                | true => rfl
                | false =>
                    have same : (turn.without world.hasEnded).world.hasEnded id =
                        turn.world.hasEnded id := World.without_hasEnded lost
                    rw [same]
                    exact dropped
          · obtain ⟨event, raised, misses⟩ := misses turn ran
            refine .inr ⟨event, ?_, misses.mono fun id lost => by simp [lost]⟩
            rw [roundEvents_cons]
            exact List.mem_append_left _ raised

end Situation.Reachable

theorem World.tidied_of_living {world : World}
    (living : ∀ handle ∈ world.scheduler.handles, handle.isAbsorbed = false) :
    world.tidied true = world := by
  have same : world.scheduler.reap.2 = world.scheduler := by
    have all : world.scheduler.handles.filter (fun handle => !handle.isAbsorbed) =
        world.scheduler.handles :=
      List.filter_eq_self.mpr fun handle member => by simp [living handle member]
    exact congrArg (fun handles => { world.scheduler with handles }) all
  exact congrArg (fun scheduler => { world with scheduler }) same

/-- Whatever a host does: from a machine whose scripts have not come to their end, a run that drops
those that do and a run that keeps them take the same number of turns and leave the same machine,
with the same clock, variables, arrays, objects, scripts and log, once the scripts that have come to
their end are dropped from it.  Only a script can make them differ that is to end another one which
the run has dropped after some turn, and is told that there is no such script. -/
theorem drivers_agree_unless_a_dropped_script_is_missing (permits : Store → Value → Prop)
    (host : Host) (fuel turns : Nat)
    (reached : Situation.Reachable permits (.idle host.machine.world))
    (living : ∀ handle ∈ host.machine.world.scheduler.handles, handle.isAbsorbed = false) :
    (∀ summary after, host.run fuel turns = some (summary, after) →
      (∃ machine, host.machine.runUntilIdle fuel turns = some (summary.turns, machine) ∧
        after.machine = machine.reap.2) ∨
      ∃ rounds, host.machine.world.drive fuel true turns = some (rounds, after.machine.world) ∧
        ∃ event ∈ (roundEvents rounds).toList,
          event.Misses fun id => rounds.any fun turn => turn.world.hasEnded id) ∧
    ∀ budget, host.machine.world.settings.instructionBudget = some budget →
      2 * budget + 2 ≤ fuel →
        (host.run fuel turns).isSome = true ∧
          (host.machine.runUntilIdle fuel turns).isSome = true := by
  have nobody : ∀ id, host.machine.world.hasEnded id = false := by
    intro id
    by_contra ended
    obtain ⟨handle, found, absorbed⟩ := World.hasEnded_iff.mp (by simpa using ended)
    simp [living handle (Scheduler.mem_of_get? found)] at absorbed
  unfold Host.run Machine.runUntilIdle
  rw [reached.runTurns_eq_drive, reached.runUntilIdle_eq_drive, Option.map_map, Option.map_map]
  constructor
  · intro summary after ran
    obtain ⟨⟨rounds, last⟩, drove, same⟩ := Option.map_eq_some_iff.mp ran
    obtain ⟨rfl, rfl⟩ := Prod.mk.inj same
    have reaped : (host.machine.world.tidied true).drive fuel true turns = some (rounds, last) := by
      rwa [World.tidied_of_living living]
    rcases reached.drivers_agree reaped with ⟨⟨kept, world⟩, keeps, agree⟩ | misses
    · have length : (RunSummary.countAll {} rounds).turns = kept.length := by
        rw [RunSummary.countAll_turns, Nat.zero_add]
        exact agree.length
      have leaves : last = world.tidied true := agree.world
      refine .inl ⟨⟨world⟩, ?_, ?_⟩
      · dsimp only
        rw [keeps, length]
        rfl
      · dsimp only
        rw [leaves]
        rfl
    · obtain ⟨event, raised, misses⟩ := misses
      refine .inr ⟨rounds, drove, event, raised, misses.mono fun id dropped => ?_⟩
      simpa [nobody id] using dropped
  · intro budget limit enough
    rw [Option.isSome_map, Option.isSome_map]
    exact ⟨reached.drive_isSome limit enough, reached.drive_isSome limit enough⟩

/-- A host with two scripts: one comes to its end at once, and the other calls a command with it
after it has slept. -/
def Host.looksBack (command : String) : Host :=
  .ofScripts 12
    [[⟨.push (.scalar 1), Location.host⟩],
      [⟨.push (.scalar 1), Location.host⟩, ⟨.callUnary "sleep", Location.host⟩,
        ⟨.endStatement, Location.host⟩, ⟨.push (.script (some 1)), Location.host⟩,
        ⟨.callUnary command, Location.host⟩, ⟨.assignTo "x", Location.host⟩]]

/-- To ask whether a script has come to its end makes no difference. -/
theorem drivers_agree_where_a_dropped_script_is_asked_for :
    let host := Host.looksBack "scriptDone"
    Situation.Reachable (fun _ _ => True) (.idle host.machine.world) ∧
    (∀ handle ∈ host.machine.world.scheduler.handles, handle.isAbsorbed = false) ∧
    ∃ summary after machine, host.run 26 9 = some (summary, after) ∧
      host.machine.runUntilIdle 26 9 = some (summary.turns, machine) ∧
      after.machine = machine.reap.2 ∧ summary.turns = 3 ∧ summary.reaped = 2 := by
  intro host
  have reached : Situation.Reachable (fun _ _ => True) (.idle host.machine.world) :=
    Host.ofScripts_reachable _ _
  have living : ∀ handle ∈ host.machine.world.scheduler.handles, handle.isAbsorbed = false := by
    decide +kernel
  obtain ⟨agree, ends⟩ :=
    drivers_agree_unless_a_dropped_script_is_missing (fun _ _ => True) host 26 9 reached living
  obtain ⟨⟨summary, after⟩, ran⟩ :=
    Option.isSome_iff_exists.mp (ends 12 rfl (by omega)).1
  have told : (host.run 26 9).all (fun done => done.1.turns = 3 && done.1.reaped = 2) = true ∧
      (host.machine.world.drive 26 true 9).all
        (fun done => (roundEvents done.1).toList.isEmpty) = true := by
    decide +kernel
  obtain ⟨told, silent⟩ := told
  rw [ran, Option.all_some] at told
  simp only [Bool.and_eq_true, decide_eq_true_eq] at told
  rcases agree summary after ran with ⟨machine, kept, same⟩ | ⟨rounds, drove, event, raised, _⟩
  · exact ⟨reached, living, summary, after, machine, ran, kept, same, told⟩
  · rw [drove, Option.all_some] at silent
    rw [List.isEmpty_iff.mp silent] at raised
    cases raised

theorem drivers_differ_where_a_dropped_script_is_ended :
    ¬ ∀ (host : Host) (fuel turns : Nat) (summary : RunSummary) (after : Host) (count : Nat)
      (machine : Machine), Situation.Reachable (fun _ _ => True) (.idle host.machine.world) →
      (∀ handle ∈ host.machine.world.scheduler.handles, handle.isAbsorbed = false) →
      host.run fuel turns = some (summary, after) →
      host.machine.runUntilIdle fuel turns = some (count, machine) →
        ∀ name, after.machine.global? name = machine.global? name := by
  intro agree
  have living : ∀ handle ∈ (Host.looksBack "terminate").machine.world.scheduler.handles,
      handle.isAbsorbed = false := by
    decide +kernel
  have unset : ((Host.looksBack "terminate").run 26 9).any (fun done =>
      (done.2.machine.global? "x").isNone) = true := by
    decide +kernel
  have assigned : ((Host.looksBack "terminate").machine.runUntilIdle 26 9).any (fun done =>
      (done.2.global? "x").isSome) = true := by
    decide +kernel
  obtain ⟨⟨summary, after⟩, ran, unset⟩ := (Option.any_eq_true _ _).mp unset
  obtain ⟨⟨count, machine⟩, kept, assigned⟩ := (Option.any_eq_true _ _).mp assigned
  have same := agree _ 26 9 summary after count machine (Host.ofScripts_reachable _ _) living ran
    kept "x"
  simp_all

end SimScript
