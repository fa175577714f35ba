import SimScript.Proofs.Machine.Rounds

/-!
# What a run accounts for

A driver that drops the scripts that have come to their end tells how many it has
dropped, and how many of those that got to run had come to their end by then.  Every
script is dropped once.  The two totals differ by the scripts that others have ended
while they did not wait for a slot of their own: asleep, after their slot, or spawned in
the same turn.
-/

namespace SimScript

/-! ## How many scripts there are -/

/-- No script is lost, and each new one has a new number. -/
def Situation.Tallies (before after : Situation) : Prop :=
  after.handles.length + before.world.scheduler.lastId =
    before.handles.length + after.world.scheduler.lastId

namespace Scheduler

variable {scheduler : Scheduler} {handle : Handle} {id : HandleId}

theorem length_put_of_mem (ids : (scheduler.handles.map Handle.id).Nodup)
    (found : scheduler.get? id = some handle) {changed : Handle} (same : changed.id = handle.id) :
    (scheduler.put changed).handles.length = scheduler.handles.length := by
  have split := (scheduler.perm_remove ids (mem_of_get? found)).length_eq
  rw [put_handles, List.length_append, same, split]
  simp

theorem length_put_of_not_mem (new : ∀ other ∈ scheduler.handles, other.id ≠ handle.id) :
    (scheduler.put handle).handles.length = scheduler.handles.length + 1 := by
  rw [put_handles, List.length_append, remove_eq_self new]
  rfl

theorem length_reap (scheduler : Scheduler) :
    scheduler.reap.1 + scheduler.reap.2.handles.length = scheduler.handles.length := by
  have fewer := List.length_filter_le (fun handle : Handle => !handle.isAbsorbed) scheduler.handles
  simp only [reap]
  omega

end Scheduler

theorem World.Meets.tallies {world : World} {target : Option HandleId} {scheduler : Scheduler}
    (meets : world.Meets target scheduler)
    (ids : (world.scheduler.handles.map Handle.id).Nodup)
    (issued : ∀ handle ∈ world.scheduler.handles, handle.id ≤ world.scheduler.lastId) :
    scheduler.handles.length + world.scheduler.lastId =
      world.scheduler.handles.length + scheduler.lastId := by
  cases meets.met with
  | nobody same => rw [same]
  | @spawned new _ _ number handles _ lastId =>
      have apart : ∀ other ∈ world.scheduler.handles, other.id ≠ new.id := by
        intro other member same
        have old := issued other member
        rw [same, number] at old
        exact Nat.not_succ_le_self _ old
      have longer : (world.scheduler.put new).handles.length =
          world.scheduler.handles.length + 1 := Scheduler.length_put_of_not_mem apart
      rw [handles, longer, lastId]
      omega
  | @ended handle _ found _ put =>
      have same : handle.stopped.id = handle.id := by simp [Handle.stopped]
      have long : (world.scheduler.put handle.stopped).handles.length =
          world.scheduler.handles.length := Scheduler.length_put_of_mem ids found same
      have issues : (world.scheduler.put handle.stopped).lastId = world.scheduler.lastId := rfl
      rw [put, long, issues]

namespace Situation

variable {permits : Store → Value → Prop} {before after : Situation}

theorem Next.tallies (reached : Reachable permits before) (next : Next permits before after)
    (works : ¬∃ world changed, before = .idle world ∧ after = .idle changed) :
    before.Tallies after := by
  have tidy := reached.tidy
  -- The handle at work is not among those that the scheduler keeps.
  have returns : ∀ exec batch (ended : Handle), before = .atWork exec batch →
      ended.id = exec.handle.id → (exec.world.scheduler.put ended).handles.length =
        exec.world.scheduler.handles.length + 1 := by
    rintro exec batch ended rfl same
    apply Scheduler.length_put_of_not_mem
    intro other member alike
    have apart := (List.nodup_cons.mp tidy.ids).1
    exact apart (same ▸ alike ▸ List.mem_map_of_mem member)
  cases next with
  | @tend world after tended => exact absurd ⟨world, after, rfl, rfl⟩ works
  | @execute world code _ =>
      have more : (world.startAtOnce code).world.scheduler.lastId =
          world.scheduler.lastId + 1 := rfl
      have handles : (world.startAtOnce code).world.scheduler.handles =
          world.scheduler.handles := rfl
      simp only [Tallies, Situation.handles, Situation.world, more, handles, List.length_cons]
      omega
  | @take id rest world handle found =>
      have split := (Scheduler.perm_remove tidy.ids (Scheduler.mem_of_get? found)).length_eq
      exact congrArg (· + world.scheduler.lastId) split.symm
  | @advance exec batch running =>
      have met := (Execution.advance_meets running).tallies (List.nodup_cons.mp tidy.ids).2
        fun handle member => tidy.issued handle (List.mem_cons_of_mem _ member)
      simp only [Tallies, Situation.handles, Situation.world, List.length_cons]
      omega
  | @keep exec rest _ =>
      have longer := returns exec _ exec.handle rfl rfl
      simp only [Tallies, Situation.handles, Situation.world, World.keep_handles,
        World.keep_lastId, List.length_cons, longer]
  | @close exec _ =>
      obtain ⟨ended, spared, _, _, scheduler⟩ := exec.closed_eq
      have longer := returns exec _ ended rfl spared.id
      have issues : (exec.world.scheduler.put ended).lastId = exec.world.scheduler.lastId := rfl
      simp only [Tallies, Situation.handles, Situation.world, scheduler, List.length_cons, longer,
        issues]
  | beginTurn | skip | endTurn => rfl

theorem Tallies.follows (permits : Store → Value → Prop) :
    Follows permits fun before after => Reachable permits before →
      Reachable permits after ∧ before.Tallies after where
  refl _ reached := ⟨reached, rfl⟩
  trans first second reached := by
    obtain ⟨middle, earlier⟩ := first reached
    obtain ⟨last, later⟩ := second middle
    refine ⟨last, ?_⟩
    unfold Tallies at *
    omega
  works next apart reached := ⟨reached.next next, next.tallies reached apart⟩
  clock world seconds reached := by
    refine ⟨reached.tend (.advance seconds), ?_⟩
    simp [Tallies, Situation.handles, Situation.world, World.advance]

end Situation

/-! ## Who comes to an end -/

/-- A script ends another one, which is not at work and has not come to its end. -/
structure Execution.Ends (exec : Execution) (handle : Handle) : Prop where
  aimed : exec.target? = some handle.id
  found : exec.world.scheduler.get? handle.id = some handle
  live : handle.isAbsorbed = false

/-- A script ends another one on its way from one moment to a later one. -/
def Execution.EndsMeanwhile (exec last : Execution) (handle : Handle) : Prop :=
  ∃ made rest, (∀ step ≤ made,
      ((fun exec => exec.advance.2)^[step] exec).handle.state = .running) ∧
    ((fun exec => exec.advance.2)^[made] exec).Ends handle ∧
    (fun exec => exec.advance.2)^[made + rest] exec = last

/-- A script ends another one at a visit. -/
def Visit.Ends (visit : Visit) (handle : Handle) : Prop :=
  ∃ world : World, world.scheduler.get? visit.id = some visit.taken ∧
    (world.startKept visit.taken).EndsMeanwhile visit.yielded handle

section Ended

variable {fuel : Nat} {world after : World} {exec : Execution} {later : Handle}

theorem Execution.RunsTo.iterate {events : Array Event} {done : Array Event × Execution}
    (runs : RunsTo done events exec) :
    ∃ steps, (fun exec => exec.advance.2)^[steps] exec = done.2 := by
  induction runs with
  | yields => exact ⟨0, rfl⟩
  | works _ _ induction =>
      obtain ⟨steps, same⟩ := induction
      exact ⟨steps + 1, same⟩

/-- While a script is at work, nobody else comes to an end unless the script ends it. -/
theorem Execution.absorbed_of_run {events : Array Event} {done : Array Event × Execution}
    (ran : exec.run fuel events = some done) (member : later ∈ done.2.world.scheduler.handles)
    (absorbed : later.isAbsorbed = true) :
    later ∈ exec.world.scheduler.handles ∨
      ∃ handle, exec.EndsMeanwhile done.2 handle ∧ later = handle.stopped := by
  replace ran := runsTo_of_run ran
  induction ran with
  | yields => exact .inl member
  | @works events exec running runs induction =>
      rcases induction with kept | ⟨handle, ⟨made, rest, works, ends, last⟩, same⟩
      · cases (advance_meets running).met with
        | nobody same => exact .inl (same ▸ kept)
        | spawned _ created _ handles _ _ =>
            rw [handles] at kept
            rcases Scheduler.mem_put kept with held | rfl
            · exact .inl held
            · simp [Handle.isAbsorbed, HandleState.isAbsorbed, created] at absorbed
        | @ended handle aimed found live put =>
            rw [put] at kept
            rcases Scheduler.mem_put kept with held | rfl
            · exact .inl held
            · obtain ⟨steps, last⟩ := runs.iterate
              have works : ∀ step ≤ 0,
                  ((fun exec => exec.advance.2)^[step] exec).handle.state = .running := by
                simpa using running
              refine .inr ⟨handle, ⟨0, steps + 1, works, ⟨aimed, found, live⟩, ?_⟩, rfl⟩
              rw [Nat.zero_add]
              exact last
      · refine .inr ⟨handle, ⟨made + 1, rest, ?_, ends, ?_⟩, same⟩
        · intro step early
          cases step with
          | zero => exact running
          | succ step => exact works step (Nat.le_of_succ_le_succ early)
        · rwa [Nat.add_right_comm]

/-- Who has come to an end after some visits had before, comes to it at a visit, or is ended by
another script at a visit. -/
theorem World.Visits.absorbed {visits : List Visit} (made : World.Visits fuel world visits after)
    (member : later ∈ after.scheduler.handles) (absorbed : later.isAbsorbed = true) :
    later ∈ world.scheduler.handles ∨ (∃ visit ∈ visits, visit.yielded.handle = later) ∨
      ∃ visit ∈ visits, ∃ handle, visit.Ends handle ∧ later = handle.stopped := by
  induction made with
  | done world => exact .inl member
  | @next world after visit rest before raised found ran others induction =>
      rcases induction member with kept | ⟨other, behind, yields⟩ | ⟨other, behind, ends⟩
      · have put : later ∈ (visit.yielded.world.scheduler.put visit.yielded.handle).handles := by
          rwa [World.keep_handles] at kept
        rcases Scheduler.mem_put put with held | rfl
        · rcases Execution.absorbed_of_run ran held absorbed with earlier | ⟨handle, ends, same⟩
          · exact .inl (List.mem_filter.mp earlier).1
          · exact .inr (.inr ⟨visit, List.mem_cons_self, handle, ⟨world, found, ends⟩, same⟩)
        · exact .inr (.inl ⟨visit, List.mem_cons_self, rfl⟩)
      · exact .inr (.inl ⟨other, List.mem_cons_of_mem _ behind, yields⟩)
      · exact .inr (.inr ⟨other, List.mem_cons_of_mem _ behind, ends⟩)

end Ended

/-! ## What a turn tells -/

theorem TurnReport.countAll_ended (report : TurnReport) (visits : List Visit) :
    (report.countAll visits).finished + (report.countAll visits).terminated =
      report.finished + report.terminated +
        visits.countP fun visit => visit.yielded.handle.isAbsorbed := by
  induction visits generalizing report with
  | nil => rfl
  | cons visit rest induction =>
      have others : (report.countAll (visit :: rest)).finished +
          (report.countAll (visit :: rest)).terminated = _ :=
        induction (report.count visit.yielded.handle.state visit.executed)
      rw [others, List.countP_cons]
      cases state : visit.yielded.handle.state <;>
        simp [Handle.isAbsorbed, HandleState.isAbsorbed, TurnReport.count, state] <;> omega

/-- A turn, with the world in which it begins and the visits that are made. -/
structure Round where
  before : World
  turn : Performed TurnReport
  visits : List Visit

namespace Round

def tellsOf (round : Round) (id : HandleId) : Bool :=
  round.visits.any fun visit => visit.id = id && visit.yielded.handle.isAbsorbed

/-- Those who have come to their end by the end of the turn, but not at a visit of their own. -/
def aside (round : Round) : List Handle :=
  round.turn.world.scheduler.handles.filter fun handle =>
    handle.isAbsorbed && !round.tellsOf handle.id

/-- The account of a turn.  It tells who comes to an end at a visit; all others who do are ended by
another script. -/
structure Accounted (fuel : Nat) (round : Round) : Prop where
  ran : round.before.runTurn fuel = some round.turn
  order : round.visits.map Visit.id = round.before.scheduler.beginTurn.1
  made : World.Visits fuel { round.before with scheduler := round.before.scheduler.beginTurn.2 }
    round.visits round.turn.world
  told : round.turn.answer.finished + round.turn.answer.terminated =
    round.visits.countP fun visit => visit.yielded.handle.isAbsorbed
  reaped : round.turn.world.scheduler.reap.1 =
    round.turn.answer.finished + round.turn.answer.terminated + round.aside.length
  ended : ∀ later ∈ round.aside, ∃ visit ∈ round.visits, ∃ handle, visit.Ends handle ∧
    later = handle.stopped

end Round

theorem Scheduler.reap_count (scheduler : Scheduler) :
    scheduler.reap.1 = scheduler.handles.countP Handle.isAbsorbed := by
  have all : scheduler.handles.length = scheduler.handles.countP Handle.isAbsorbed +
      scheduler.handles.countP fun handle => !handle.isAbsorbed := by
    simpa using List.length_eq_countP_add_countP Handle.isAbsorbed
  simp only [reap, ← List.countP_eq_length_filter]
  omega

namespace Situation.Reachable

variable {permits : Store → Value → Prop} {fuel : Nat} {world after : World}
  {turn : Performed TurnReport}

theorem told_of_visits {visits : List Visit} (made : World.Visits fuel world visits after)
    (reached : Reachable permits (.turn (visits.map Visit.id) world))
    (ids : (after.scheduler.handles.map Handle.id).Nodup)
    (round : Round) (same : round.visits = visits) :
    (after.scheduler.handles.filter fun handle =>
      handle.isAbsorbed && round.tellsOf handle.id).length =
        visits.countP fun visit => visit.yielded.handle.isAbsorbed := by
  obtain ⟨visited, _⟩ := visited made reached
  have once : (visits.map Visit.id).Nodup := (List.nodup_append.mp reached.inLine.once).1
  let told := after.scheduler.handles.filter fun handle =>
    handle.isAbsorbed && round.tellsOf handle.id
  let ends := visits.filter fun visit => visit.yielded.handle.isAbsorbed
  suffices perm : (told.map Handle.id).Perm (ends.map Visit.id) by
    have length := perm.length_eq
    rw [List.length_map, List.length_map] at length
    rw [List.countP_eq_length_filter]
    exact length
  have tellsOnce : (told.map Handle.id).Nodup := (List.filter_sublist.map Handle.id).nodup ids
  have endsOnce : (ends.map Visit.id).Nodup := (List.filter_sublist.map Visit.id).nodup once
  refine (List.perm_ext_iff_of_nodup tellsOnce endsOnce).mpr fun id => ?_
  constructor
  · intro member
    obtain ⟨handle, kept, rfl⟩ := List.mem_map.mp member
    have tells := (List.mem_filter.mp kept).2
    simp only [Round.tellsOf, same, Bool.and_eq_true, List.any_eq_true, decide_eq_true_eq] at tells
    obtain ⟨_, visit, listed, number, absorbed⟩ := tells
    exact List.mem_map.mpr ⟨visit, List.mem_filter.mpr ⟨listed, absorbed⟩, number⟩
  · intro member
    obtain ⟨visit, kept, rfl⟩ := List.mem_map.mp member
    obtain ⟨listed, absorbed⟩ := List.mem_filter.mp kept
    obtain ⟨later, found, spared⟩ := visited.kept visit listed
    have number : later.id = visit.id := Scheduler.id_of_get? found
    -- A script that has come to its end is not ended again.
    have still : later.isAbsorbed = true := by
      rcases spared.eq_or with rfl | ⟨live, _⟩
      · exact absorbed
      · simp [live] at absorbed
    refine List.mem_map.mpr ⟨later, List.mem_filter.mpr ⟨Scheduler.mem_of_get? found, ?_⟩, number⟩
    simp only [Round.tellsOf, same, still, Bool.true_and, List.any_eq_true, Bool.and_eq_true,
      decide_eq_true_eq]
    exact ⟨visit, listed, number.symm, absorbed⟩

theorem accounted (reached : Reachable permits (.idle world))
    (living : ∀ handle ∈ world.scheduler.handles, handle.isAbsorbed = false)
    (ran : world.runTurn fuel = some turn) :
    ∃ visits, Round.Accounted fuel ⟨world, turn, visits⟩ := by
  let opened : TurnReport := { turn := world.scheduler.beginTurn.2.turns }
  obtain ⟨visits, order, made, counted⟩ : ∃ visits,
      visits.map Visit.id = world.scheduler.beginTurn.1 ∧
        World.Visits fuel { world with scheduler := world.scheduler.beginTurn.2 } visits
          turn.world ∧
        turn.answer = opened.countAll visits := reached.beginTurn.runBatch_visits ran
  let round : Round := ⟨world, turn, visits⟩
  have told : turn.answer.finished + turn.answer.terminated =
      visits.countP fun visit => visit.yielded.handle.isAbsorbed := by
    rw [counted, TurnReport.countAll_ended]
    simp [opened]
  refine ⟨visits, ran, order, made, told, ?_, ?_⟩
  · have tells := told_of_visits made (order.symm ▸ reached.beginTurn)
      (reached.runTurn ran).tidy.ids round rfl
    have split := List.countP_eq_countP_filter_add turn.world.scheduler.handles
      Handle.isAbsorbed fun handle => round.tellsOf handle.id
    rw [Scheduler.reap_count, told, ← tells, split, List.countP_filter, List.countP_filter,
      List.countP_eq_length_filter, List.countP_eq_length_filter]
    rfl
  · intro later member
    obtain ⟨kept, ends⟩ := List.mem_filter.mp member
    obtain ⟨absorbed, untold⟩ := Bool.and_eq_true_iff.mp ends
    rcases made.absorbed kept absorbed with before | ⟨visit, listed, rfl⟩ | ended
    · simp [living later before] at absorbed
    · have tells : round.tellsOf visit.yielded.handle.id = true := by
        obtain ⟨visited, _⟩ := visited made (order.symm ▸ reached.beginTurn)
        obtain ⟨last, found, spared⟩ := visited.kept visit listed
        have number : last.id = visit.id := Scheduler.id_of_get? found
        refine List.any_eq_true.mpr ⟨visit, listed, ?_⟩
        simp [absorbed, ← spared.id, number]
      simp [round, tells] at untold
    · exact ended

end Situation.Reachable

/-! ## What a run tells -/

namespace RunSummary

theorem countAll_totals (summary : RunSummary) (rounds : List (Performed TurnReport)) :
    (summary.countAll rounds).finished =
        summary.finished + (rounds.map fun turn => turn.answer.finished).sum ∧
      (summary.countAll rounds).terminated =
        summary.terminated + (rounds.map fun turn => turn.answer.terminated).sum ∧
      (summary.countAll rounds).reaped =
        summary.reaped + (rounds.map fun turn => turn.world.scheduler.reap.1).sum := by
  induction rounds generalizing summary with
  | nil => exact ⟨rfl, rfl, rfl⟩
  | cons turn rest induction =>
      let counted := summary.count turn.answer turn.world.scheduler.reap.1
      obtain ⟨finished, terminated, reaped⟩ := induction counted
      have first : summary.countAll (turn :: rest) = counted.countAll rest := rfl
      rw [first, finished, terminated, reaped]
      simp only [counted, count, List.map_cons, List.sum_cons]
      omega

end RunSummary

/-- The account of a run that drops the scripts that have come to their end after each turn. -/
structure World.Accounted (permits : Store → Value → Prop) (fuel : Nat) (world : World)
    (rounds : List Round) (after : World) : Prop where
  history : ∀ round ∈ rounds, Situation.History permits (.idle world) (.idle round.before)
  each : ∀ round ∈ rounds, round.Accounted fuel
  once : ((rounds.flatMap Round.aside).map Handle.id).Nodup
  living : ∀ handle ∈ after.scheduler.handles, handle.isAbsorbed = false
  /-- Every script that there was or that is new is dropped once, or is still there. -/
  dropped : (rounds.map fun round => round.turn.world.scheduler.reap.1).sum +
      after.scheduler.handles.length + world.scheduler.lastId =
    world.scheduler.handles.length + after.scheduler.lastId

theorem World.Accounted.total {permits : Store → Value → Prop} {fuel : Nat} {world after : World}
    {rounds : List Round} (accounted : world.Accounted permits fuel rounds after) :
    (rounds.map fun round => round.turn.world.scheduler.reap.1).sum =
      (rounds.map fun round => round.turn.answer.finished).sum +
        (rounds.map fun round => round.turn.answer.terminated).sum +
          (rounds.flatMap Round.aside).length := by
  have each := accounted.each
  clear accounted
  induction rounds with
  | nil => rfl
  | cons round rest induction =>
      obtain ⟨first, others⟩ := List.forall_mem_cons.mp each
      have reaped := first.reaped
      have later := induction others
      simp only [List.map_cons, List.sum_cons, List.flatMap_cons, List.length_append]
      omega

theorem Situation.History.numbers {permits : Store → Value → Prop} {before after : Situation}
    {later : Handle} (history : History permits before after) (member : later ∈ after.handles) :
    (∃ handle ∈ before.handles, handle.id = later.id) ∨
      before.world.scheduler.lastId < later.id := by
  induction history generalizing later with
  | refl => exact .inl ⟨later, member, rfl⟩
  | tail earlier next induction =>
      rcases next.origin member with ⟨handle, held, passed⟩ | ⟨new, _⟩
      · rw [passed.id]
        exact induction held
      · exact .inr (Nat.lt_of_le_of_lt (lastId_le earlier) new)

theorem Performed.goesOn_scheduler (turn : Performed TurnReport) :
    (turn.goesOn true).scheduler.handles = turn.world.scheduler.reap.2.handles ∧
      (turn.goesOn true).scheduler.lastId = turn.world.scheduler.lastId := by
  unfold goesOn World.tidied
  dsimp only
  split <;> simp [World.advance, Scheduler.reap]

theorem Situation.History.goesOn {permits : Store → Value → Prop} (turn : Performed TurnReport) :
    History permits (.idle turn.world) (.idle (turn.goesOn true)) := by
  have reaped : History permits (.idle turn.world) (.idle (turn.world.tidied true)) :=
    .single (.tend .reap)
  unfold Performed.goesOn
  dsimp only
  split
  · exact reaped.tail (.tend (.advance _))
  · exact reaped

namespace World.Accounted

variable {permits : Store → Value → Prop} {fuel : Nat} {world after : World} {round : Round}
  {rounds : List Round}

theorem nil (living : ∀ handle ∈ world.scheduler.handles, handle.isAbsorbed = false) :
    world.Accounted permits fuel [] world :=
  ⟨by simp, by simp, by simp, living, by simp⟩

/-- Whoever is dropped after a turn has a number that no script has in a later turn. -/
theorem aside_apart {handle later : Handle}
    (ended : Situation.Reachable permits (.idle round.turn.world))
    (account : (round.turn.goesOn true).Accounted permits fuel rounds after)
    (held : handle ∈ round.aside) (late : later ∈ rounds.flatMap Round.aside) :
    handle.id ≠ later.id := by
  intro same
  obtain ⟨kept, issues⟩ := round.turn.goesOn_scheduler
  obtain ⟨member, absorbed⟩ := List.mem_filter.mp held
  obtain ⟨other, listed, aside⟩ := List.mem_flatMap.mp late
  have turned : Situation.History permits (.idle other.before) (.idle other.turn.world) :=
    Situation.History.runTurn (account.each other listed).ran
  have come : Situation.History permits (.idle (round.turn.goesOn true))
      (.idle other.turn.world) := (account.history other listed).trans turned
  rcases come.numbers (List.mem_filter.mp aside).1 with ⟨before, there, alike⟩ | new
  · have there : before ∈ round.turn.world.scheduler.reap.2.handles := kept ▸ there
    obtain ⟨among, live⟩ := List.mem_filter.mp there
    obtain rfl : before = handle :=
      List.inj_on_of_nodup_map ended.tidy.ids among member (alike.trans same.symm)
    simp_all
  · have old := ended.tidy.issued handle member
    dsimp only [Situation.world] at old new
    rw [← same, issues] at new
    exact Nat.not_le_of_lt new old

theorem cons (reached : Situation.Reachable permits (.idle round.before))
    (first : round.Accounted fuel)
    (account : (round.turn.goesOn true).Accounted permits fuel rounds after) :
    round.before.Accounted permits fuel (round :: rounds) after := by
  have turned : Situation.History permits (.idle round.before) (.idle round.turn.world) :=
    Situation.History.runTurn first.ran
  have ended := turned.reachable reached
  constructor
  · intro other member
    rcases List.mem_cons.mp member with rfl | behind
    · exact .refl
    · have goesOn : Situation.History permits (.idle round.turn.world)
          (.idle (round.turn.goesOn true)) := .goesOn round.turn
      exact (turned.trans goesOn).trans (account.history other behind)
  · exact List.forall_mem_cons.mpr ⟨first, account.each⟩
  · rw [List.flatMap_cons, List.map_append]
    have once : (round.aside.map Handle.id).Nodup :=
      (List.filter_sublist.map Handle.id).nodup ended.tidy.ids
    refine List.nodup_append.mpr ⟨once, account.once, ?_⟩
    intro id early other late
    obtain ⟨handle, aside, rfl⟩ := List.mem_map.mp early
    obtain ⟨later, among, rfl⟩ := List.mem_map.mp late
    exact account.aside_apart ended aside among
  · exact account.living
  · have tallies : Situation.Tallies (.idle round.before) (.idle round.turn.world) :=
      ((Situation.Tallies.follows permits).runTurn first.ran reached).2
    have fewer := Scheduler.length_reap round.turn.world.scheduler
    have dropped := account.dropped
    obtain ⟨kept, issues⟩ := round.turn.goesOn_scheduler
    rw [kept, issues] at dropped
    simp only [Situation.Tallies, Situation.handles, Situation.world] at tallies
    rw [List.map_cons, List.sum_cons]
    omega

end World.Accounted

namespace Situation.Reachable

variable {permits : Store → Value → Prop} {fuel turns : Nat} {world after : World}
  {done : List (Performed TurnReport)}

/-- The driver that drops those who have come to their end. -/
theorem drive_accounted (reached : Reachable permits (.idle world))
    (living : ∀ handle ∈ world.scheduler.handles, handle.isAbsorbed = false)
    (drove : world.drive fuel true turns = some (done, after)) :
    ∃ rounds, rounds.map Round.turn = done ∧ world.Accounted permits fuel rounds after := by
  induction turns generalizing world done with
  | zero =>
      obtain ⟨rfl, rfl⟩ := Prod.mk.inj (Option.some.inj drove)
      exact ⟨[], rfl, .nil living⟩
  | succ turns induction =>
      unfold World.drive at drove
      split at drove
      case isTrue =>
          obtain ⟨rfl, rfl⟩ := Prod.mk.inj (Option.some.inj drove)
          exact ⟨[], rfl, .nil living⟩
      case isFalse =>
          obtain ⟨turn, ran, drove⟩ := Option.bind_eq_some_iff.mp drove
          obtain ⟨⟨rest, last⟩, others, same⟩ := Option.map_eq_some_iff.mp drove
          obtain ⟨rfl, rfl⟩ := Prod.mk.inj same
          have alive : ∀ handle ∈ (turn.goesOn true).scheduler.handles,
              handle.isAbsorbed = false := by
            intro handle member
            rw [turn.goesOn_scheduler.1] at member
            simpa using (List.mem_filter.mp member).2
          obtain ⟨visits, accounted⟩ := reached.accounted living ran
          obtain ⟨rounds, told, account⟩ := induction (reached.goesOn ran) alive others
          let round : Round := ⟨world, turn, visits⟩
          have first : round.Accounted fuel := accounted
          exact ⟨round :: rounds, congrArg (turn :: ·) told, .cons reached first account⟩

end Situation.Reachable

/-- Whatever a host does: a run that begins with scripts that have not come to their end drops every
script that does, once, and each turn tells of those that come to their end at a visit of their
own.  All others that it drops were ended by another script in the turn after which they are
dropped.  So the run tells of fewer than it drops, by as many. -/
theorem run_drops_who_ends_at_a_visit_or_is_ended_by_another (permits : Store → Value → Prop)
    (host : Host) (fuel turns : Nat)
    (reached : Situation.Reachable permits (.idle host.machine.world))
    (living : ∀ handle ∈ host.machine.world.scheduler.handles, handle.isAbsorbed = false) :
    (∀ summary after, host.run fuel turns = some (summary, after) →
      ∃ rounds, host.machine.world.Accounted permits fuel rounds after.machine.world ∧
        summary.turns = rounds.length ∧
        summary.finished = (rounds.map fun round => round.turn.answer.finished).sum ∧
        summary.terminated = (rounds.map fun round => round.turn.answer.terminated).sum ∧
        summary.reaped = (rounds.map fun round => round.turn.world.scheduler.reap.1).sum ∧
        summary.reaped =
          summary.finished + summary.terminated + (rounds.flatMap Round.aside).length) ∧
    ∀ budget, host.machine.world.settings.instructionBudget = some budget →
      2 * budget + 2 ≤ fuel → (host.run fuel turns).isSome = true := by
  unfold Host.run
  rw [reached.runTurns_eq_drive, Option.map_map]
  constructor
  · intro summary after ran
    obtain ⟨⟨done, last⟩, drove, same⟩ := Option.map_eq_some_iff.mp ran
    obtain ⟨rfl, rfl⟩ := Prod.mk.inj same
    obtain ⟨rounds, rfl, account⟩ := reached.drive_accounted living drove
    obtain ⟨finished, terminated, reaped⟩ :=
      RunSummary.countAll_totals {} (rounds.map Round.turn)
    have turns := RunSummary.countAll_turns {} (rounds.map Round.turn)
    simp only [List.map_map, List.length_map, Nat.zero_add] at finished terminated reaped turns
    refine ⟨rounds, account, turns, finished, terminated, reaped, ?_⟩
    have total := account.total
    dsimp only [Function.comp_def] at finished terminated reaped ⊢
    omega
  · intro budget limit enough
    rw [Option.isSome_map]
    exact reached.drive_isSome limit enough

/-- A host with two scripts: one sleeps, and the other ends it after that. -/
def Host.endsSleeper : Host :=
  .ofScripts 5
    [[⟨.push (.scalar 100), Location.host⟩, ⟨.callUnary "sleep", Location.host⟩],
      [⟨.push (.script (some 1)), Location.host⟩, ⟨.callUnary "terminate", Location.host⟩]]

/-- The sleeper is dropped, and the run does not tell that it was terminated. -/
theorem run_drops_a_sleeper_that_it_does_not_tell_of :
    Situation.Reachable (fun _ _ => True) (.idle Host.endsSleeper.machine.world) ∧
    (∀ handle ∈ Host.endsSleeper.machine.world.scheduler.handles, handle.isAbsorbed = false) ∧
    ∃ summary after rounds, Host.endsSleeper.run 12 5 = some (summary, after) ∧
      Host.endsSleeper.machine.world.Accounted (fun _ _ => True) 12 rounds after.machine.world ∧
      summary.reaped =
        summary.finished + summary.terminated + (rounds.flatMap Round.aside).length ∧
      summary.finished = 1 ∧ summary.terminated = 0 ∧
        (rounds.flatMap Round.aside).length = 1 := by
  have living : ∀ handle ∈ Host.endsSleeper.machine.world.scheduler.handles,
      handle.isAbsorbed = false := by
    decide +kernel
  obtain ⟨account, ends⟩ := run_drops_who_ends_at_a_visit_or_is_ended_by_another
    (fun _ _ => True) Host.endsSleeper 12 5 (Host.ofScripts_reachable _ _) living
  obtain ⟨⟨summary, after⟩, ran⟩ := Option.isSome_iff_exists.mp (ends 5 rfl (by omega))
  obtain ⟨rounds, accounted, _, _, _, _, total⟩ := account summary after ran
  have told : (Host.endsSleeper.run 12 5).all (fun done =>
      done.1.finished = 1 && done.1.terminated = 0 && done.1.reaped = 2) = true := by
    decide +kernel
  rw [ran, Option.all_some] at told
  simp only [Bool.and_eq_true, decide_eq_true_eq] at told
  obtain ⟨⟨finished, terminated⟩, reaped⟩ := told
  refine ⟨Host.ofScripts_reachable _ _, living, summary, after, rounds, ran, accounted, total,
    finished, terminated, ?_⟩
  omega

theorem run_does_not_tell_of_all_that_it_drops :
    ¬ ∀ (host : Host) (fuel turns : Nat) (summary : RunSummary) (after : Host),
      Situation.Reachable (fun _ _ => True) (.idle host.machine.world) →
      (∀ handle ∈ host.machine.world.scheduler.handles, handle.isAbsorbed = false) →
      host.run fuel turns = some (summary, after) →
        summary.reaped = summary.finished + summary.terminated := by
  intro tells
  have living : ∀ handle ∈ Host.endsSleeper.machine.world.scheduler.handles,
      handle.isAbsorbed = false := by
    decide +kernel
  have told : (Host.endsSleeper.run 12 5).any (fun done =>
      done.1.finished = 1 && done.1.terminated = 0 && done.1.reaped = 2) = true := by
    decide +kernel
  obtain ⟨⟨summary, after⟩, ran, told⟩ := (Option.any_eq_true _ _).mp told
  simp only [Bool.and_eq_true, decide_eq_true_eq] at told
  have total := tells _ 12 5 summary after (Host.ofScripts_reachable _ _) living ran
  omega

end SimScript
