import SimScript.Host.Basic
import SimScript.Proofs.Diagnostics.Logging
import SimScript.Proofs.Machine.Idleness

/-!
# Drivers

Two drivers run one turn after the other: one keeps all handles, the other drops those
that have come to their end after each turn.  Both have a way out where nobody ran and
nobody sleeps, but no machine ever takes it.  So each of them is the loop below, which
stops only where all scripts have come to their end or no turns are left.
-/

namespace SimScript

/-! ## The loop -/

def World.tidied (reaps : Bool) (world : World) : World :=
  if reaps then { world with scheduler := world.scheduler.reap.2 } else world

/-- Where a driver goes on after a turn: the clock jumps where nobody ran. -/
def Performed.goesOn (reaps : Bool) (turn : Performed TurnReport) : World :=
  let kept := turn.world.tidied reaps
  match turn.answer.ran, kept.scheduler.nextWake? with
  | 0, some wake => kept.advance (wake - kept.now)
  | _, _ => kept

/-- Runs turns until every handle has come to its end or `turns` turns were run. -/
def World.drive (fuel : Nat) (reaps : Bool) :
    (turns : Nat) → World → Option (List (Performed TurnReport) × World)
  | 0, world => some ([], world)
  | turns + 1, world =>
      if world.scheduler.isIdle then some ([], world)
      else (world.runTurn fuel).bind fun turn =>
        (drive fuel reaps turns (turn.goesOn reaps)).map fun done => (turn :: done.1, done.2)

/-- All events of some turns. -/
def roundEvents (rounds : List (Performed TurnReport)) : Array Event :=
  rounds.foldr (fun turn rest => turn.events ++ rest) #[]

def RunSummary.countAll (summary : RunSummary) (rounds : List (Performed TurnReport)) :
    RunSummary :=
  rounds.foldl (fun summary turn => summary.count turn.answer turn.world.scheduler.reap.1) summary

theorem Scheduler.advance_larger (scheduler : Scheduler) (seconds : Float) :
    scheduler.advance (Scalar.larger seconds 0) = scheduler.advance seconds := by
  unfold advance
  by_cases positive : seconds > 0
  · rw [Scalar.larger_of_pos positive]
  · rw [if_neg positive, if_neg fun moved => positive (Scalar.pos_of_larger_pos moved)]

namespace World

variable {permits : Store → Value → Prop} {world after : World} {fuel turns : Nat}
  {reaps : Bool} {rounds : List (Performed TurnReport)} {turn : Performed TurnReport}

theorem drive_stops (drove : world.drive fuel reaps turns = some (rounds, after)) :
    rounds.length ≤ turns ∧ (rounds.length = turns ∨ after.scheduler.isIdle = true) := by
  induction turns generalizing world rounds with
  | zero =>
      obtain ⟨rfl, rfl⟩ := Prod.mk.inj (Option.some.inj drove)
      exact ⟨Nat.le_refl _, .inl rfl⟩
  | succ turns induction =>
      unfold drive at drove
      split at drove
      case isTrue idle =>
          obtain ⟨rfl, rfl⟩ := Prod.mk.inj (Option.some.inj drove)
          exact ⟨Nat.zero_le _, .inr idle⟩
      case isFalse busy =>
          obtain ⟨turn, ran, drove⟩ := Option.bind_eq_some_iff.mp drove
          obtain ⟨⟨rest, last⟩, others, same⟩ := Option.map_eq_some_iff.mp drove
          obtain ⟨rfl, rfl⟩ := Prod.mk.inj same
          obtain ⟨few, stops⟩ := induction others
          rw [List.length_cons]
          exact ⟨Nat.succ_le_succ few, stops.imp_left (congrArg Nat.succ)⟩

end World

namespace Performed

variable {permits : Store → Value → Prop} {world : World} {fuel : Nat} {reaps : Bool}
  {turn : Performed TurnReport}

theorem goesOn_of_sleepers {wake : Float} (nobody : turn.answer.ran = 0)
    (wakes : (turn.world.tidied reaps).scheduler.nextWake? = some wake) :
    turn.goesOn reaps =
      (turn.world.tidied reaps).advance (wake - (turn.world.tidied reaps).now) := by
  simp only [goesOn, nobody, wakes]

theorem goesOn_of_ran (ran : turn.answer.ran ≠ 0) :
    turn.goesOn reaps = turn.world.tidied reaps := by
  unfold goesOn
  dsimp only
  split
  case h_1 nobody _ => exact absurd nobody ran
  case h_2 => rfl

end Performed

theorem Performed.goesOn_settings {reaps : Bool} (turn : Performed TurnReport) :
    (turn.goesOn reaps).settings = turn.world.settings := by
  unfold goesOn World.tidied
  dsimp only
  split <;> cases reaps <;> rfl

theorem World.tidied_nextWake? (reaps : Bool) (world : World) :
    (world.tidied reaps).scheduler.nextWake? = world.scheduler.nextWake? := by
  cases reaps with
  | false => rfl
  | true => exact Scheduler.reap_nextWake?

namespace Situation.Reachable

variable {permits : Store → Value → Prop} {world : World} {fuel : Nat} {reaps : Bool}
  {turn : Performed TurnReport}

/-- The way out of the drivers is never taken. -/
theorem somebody_wakes (reached : Reachable permits (.idle world))
    (busy : world.scheduler.isIdle = false) (ran : world.runTurn fuel = some turn)
    (nobody : turn.answer.ran = 0) : ∃ wake, turn.world.scheduler.nextWake? = some wake := by
  have same := (reached.handles_of_ran_eq_zero ran nobody).1
  have still : turn.world.scheduler.isIdle = false := by
    rw [same]
    exact busy
  obtain ⟨wake, first, _⟩ := (reached.onlySleepers ran nobody still).first
  exact ⟨wake, first⟩

theorem tidied (reached : Reachable permits (.idle world)) (reaps : Bool) :
    Reachable permits (.idle (world.tidied reaps)) := by
  cases reaps with
  | false => exact reached
  | true => exact reached.tend .reap

theorem goesOn (reached : Reachable permits (.idle world)) (ran : world.runTurn fuel = some turn) :
    Reachable permits (.idle (turn.goesOn reaps)) := by
  have kept := (reached.runTurn ran).tidied reaps
  unfold Performed.goesOn
  dsimp only
  split
  · exact kept.tend (.advance _)
  · exact kept

theorem runUntilIdle_eq_drive {turns : Nat} (reached : Reachable permits (.idle world)) :
    world.runUntilIdle fuel turns = (world.drive fuel false turns).map fun done =>
      ⟨done.1.length, roundEvents done.1, done.2⟩ := by
  induction turns generalizing world with
  | zero => rfl
  | succ turns induction =>
      unfold World.runUntilIdle World.drive
      split
      case isTrue => rfl
      case isFalse busy =>
          cases ran : world.runTurn fuel with
          | none => rfl
          | some turn =>
              have later : (turn.goesOn false).runUntilIdle fuel turns = _ :=
                induction (reached.goesOn ran)
              simp only [Option.bind_eq_bind, Option.bind_some]
              split
              case h_1 nobody gone =>
                  obtain ⟨wake, first⟩ := reached.somebody_wakes (by simpa using busy) ran nobody
                  simp [first] at gone
              case h_2 wake nobody first =>
                  have goes : turn.goesOn false = turn.world.advance (wake - turn.world.now) :=
                    Performed.goesOn_of_sleepers nobody first
                  rw [← goes, later]
                  cases (turn.goesOn false).drive fuel false turns <;> rfl
              case h_3 stuck asleep =>
                  have goes : turn.goesOn false = turn.world := by
                    apply Performed.goesOn_of_ran
                    intro nobody
                    obtain ⟨wake, first⟩ := reached.somebody_wakes (by simpa using busy) ran nobody
                    exact asleep wake nobody first
                  rw [← goes, later]
                  cases (turn.goesOn false).drive fuel false turns <;> rfl

theorem runTurns_eq_drive {turns : Nat} {summary : RunSummary} {machine : Machine}
    (reached : Reachable permits (.idle machine.world)) :
    Host.runTurns fuel turns summary machine =
      (machine.world.drive fuel true turns).map fun done =>
        (summary.countAll done.1, ⟨done.2⟩) := by
  induction turns generalizing summary machine with
  | zero => rfl
  | succ turns induction =>
      by_cases idle : machine.world.scheduler.isIdle = true
      · simp only [Host.runTurns, World.drive, idle, if_true]
        rfl
      cases ran : machine.world.runTurn fuel with
      | none => simp [Host.runTurns, World.drive, idle, Machine.runTurn, ran]
      | some turn =>
          let counted := summary.count turn.answer turn.world.scheduler.reap.1
          let kept : Machine := ⟨turn.world.tidied true⟩
          let next : Machine := ⟨turn.goesOn true⟩
          have goesOn : Host.runTurns fuel (turns + 1) summary machine =
              Host.runTurns fuel turns counted next := by
            have taken : machine.runTurn fuel = some (Machine.ofPerformed turn) := by
              rw [Machine.runTurn, ran]
              rfl
            have answer : (Machine.ofPerformed turn).1 = turn.answer := rfl
            have tidied : (Machine.ofPerformed turn).2.reap =
                (turn.world.scheduler.reap.1, kept) := rfl
            have wakes (nobody : turn.answer.ran = 0) :
                ∃ wake, kept.world.scheduler.nextWake? = some wake := by
              obtain ⟨wake, first⟩ := reached.somebody_wakes (by simpa using idle) ran nobody
              exact ⟨wake, (World.tidied_nextWake? true turn.world).trans first⟩
            simp only [Host.runTurns, if_neg idle, taken, Option.bind_eq_bind, Option.bind_some,
              answer, tidied]
            split
            case h_1 nobody gone =>
                obtain ⟨wake, first⟩ := wakes nobody
                simp [first] at gone
            case h_2 wake nobody first =>
                have goes : turn.goesOn true = kept.world.advance (wake - kept.world.now) :=
                  Performed.goesOn_of_sleepers nobody first
                simp only [next, goes, Machine.advance, Machine.mapWorld, World.advance,
                  Scheduler.advance_larger]
                rfl
            case h_3 asleep =>
                have goes : turn.goesOn true = kept.world := by
                  apply Performed.goesOn_of_ran
                  intro nobody
                  obtain ⟨wake, first⟩ := wakes nobody
                  exact asleep wake nobody first
                simp only [next, goes]
                rfl
          have later : Host.runTurns fuel turns counted next = _ := induction (reached.goesOn ran)
          rw [goesOn, later]
          simp only [next, World.drive, idle, ran, Option.bind_some]
          cases (turn.goesOn true).drive fuel true turns <;> rfl

theorem drive_isSome {budget turns : Nat} (reached : Reachable permits (.idle world))
    (limit : world.settings.instructionBudget = some budget) (enough : 2 * budget + 2 ≤ fuel) :
    (world.drive fuel reaps turns).isSome = true := by
  induction turns generalizing world with
  | zero => rfl
  | succ turns induction =>
      obtain ⟨turn, ran⟩ := Option.isSome_iff_exists.mp (reached.runTurn_isSome limit enough)
      have history : History permits (.idle world) (.idle turn.world) := History.runTurn ran
      have same : (turn.goesOn reaps).settings = world.settings :=
        (Performed.goesOn_settings turn).trans history.settings
      have later := induction (reached.goesOn ran) (same ▸ limit)
      obtain ⟨done, others⟩ := Option.isSome_iff_exists.mp later
      unfold World.drive
      split
      · rfl
      · simp [ran, others]

end Situation.Reachable

theorem RunSummary.countAll_turns (summary : RunSummary) (rounds : List (Performed TurnReport)) :
    (summary.countAll rounds).turns = summary.turns + rounds.length := by
  induction rounds generalizing summary with
  | nil => rfl
  | cons turn rest induction =>
      have later := induction (summary.count turn.answer turn.world.scheduler.reap.1)
      have once : (summary.count turn.answer turn.world.scheduler.reap.1).turns =
          summary.turns + 1 := rfl
      rw [List.length_cons, countAll, List.foldl_cons, ← countAll, later, once]
      omega

/-- A host with some scripts that have not begun, and with a budget for each of them. -/
def Host.ofScripts (budget : Nat) (scripts : List CodeBlock) : Host :=
  let fresh := World.ofSettings { instructionBudget := some budget }
  let world := scripts.foldl (fun world code => (world.spawn code [] Location.host).2) fresh
  { settings := { logging := { filter := "info" } }, machine := ⟨world⟩ }

theorem Host.ofScripts_reachable (budget : Nat) (scripts : List CodeBlock) :
    Situation.Reachable (fun _ _ => True)
      (.idle (Host.ofScripts budget scripts).machine.world) := by
  unfold ofScripts
  dsimp only
  generalize start : World.ofSettings { instructionBudget := some budget } = world
  have reached : Situation.Reachable (fun _ _ => True) (.idle world) := start ▸ .fresh _
  clear start
  induction scripts generalizing world with
  | nil => exact reached
  | cons code rest induction =>
      exact induction _ (reached.tend (.spawn (fun _ _ => trivial) fun _ _ => trivial))

/-- Whatever a host does: a turn in which nobody runs leaves sleepers only, and the first of them to
wake is known to both drivers.  So each driver stops only where all scripts have come to their end
or no turns are left, and stops wherever there is a budget and fuel for it. -/
theorem drivers_never_give_up_early (permits : Store → Value → Prop) :
    (∀ world fuel done, Situation.Reachable permits (.idle world) →
      world.runTurn fuel = some done → done.answer.ran = 0 →
      done.world.scheduler.isIdle = false →
      done.world.scheduler.OnlySleepers ∧
        done.world.scheduler.reap.2.nextWake? = done.world.scheduler.nextWake?) ∧
    (∀ world fuel turns, Situation.Reachable permits (.idle world) →
      (∀ done, world.runUntilIdle fuel turns = some done →
        done.answer = turns ∨ done.world.scheduler.isIdle = true) ∧
      ∀ budget, world.settings.instructionBudget = some budget → 2 * budget + 2 ≤ fuel →
        (world.runUntilIdle fuel turns).isSome = true) ∧
    (∀ (host : Host) fuel turns, Situation.Reachable permits (.idle host.machine.world) →
      (∀ summary after, host.run fuel turns = some (summary, after) →
        summary.turns = turns ∨ after.machine.world.scheduler.isIdle = true) ∧
      ∀ budget, host.machine.world.settings.instructionBudget = some budget →
        2 * budget + 2 ≤ fuel → (host.run fuel turns).isSome = true) := by
  refine ⟨?_, ?_, ?_⟩
  · intro world fuel done reached ran nobody busy
    exact ⟨reached.onlySleepers ran nobody busy, Scheduler.reap_nextWake?⟩
  · intro world fuel turns reached
    refine ⟨fun done ran => ?_, fun budget => reached.runUntilIdle_isSome⟩
    rw [reached.runUntilIdle_eq_drive] at ran
    obtain ⟨⟨rounds, after⟩, drove, rfl⟩ := Option.map_eq_some_iff.mp ran
    exact (World.drive_stops drove).2
  · intro host fuel turns reached
    constructor
    · intro summary after ran
      unfold Host.run at ran
      rw [reached.runTurns_eq_drive, Option.map_map] at ran
      obtain ⟨⟨rounds, last⟩, drove, same⟩ := Option.map_eq_some_iff.mp ran
      obtain ⟨rfl, rfl⟩ := Prod.mk.inj same
      refine (World.drive_stops drove).2.imp_left fun all => ?_
      rw [← all, RunSummary.countAll_turns]
      exact Nat.zero_add _
    · intro budget limit enough
      unfold Host.run
      rw [reached.runTurns_eq_drive, Option.map_map, Option.isSome_map]
      exact reached.drive_isSome limit enough

/-- A script that sleeps: nobody runs in the second turn, and the third is the last. -/
theorem drivers_wait_for_a_sleeper :
    let sleeps : CodeBlock :=
      [⟨.push (.scalar 2), Location.host⟩, ⟨.callUnary "sleep", Location.host⟩]
    let world := ((World.ofSettings { instructionBudget := some 5 }).spawn sleeps []
      Location.host).2
    let host : Host :=
      { settings := { logging := { filter := "info" } }, machine := ⟨world⟩ }
    ∃ first second, world.runTurn 12 = some first ∧ first.world.runTurn 12 = some second ∧
      second.answer.ran = 0 ∧ second.world.scheduler.isIdle = false ∧
      second.world.scheduler.OnlySleepers ∧
      second.world.scheduler.reap.2.nextWake? = second.world.scheduler.nextWake? ∧
      ∃ done summary after, world.runUntilIdle 12 9 = some done ∧
        host.run 12 9 = some (summary, after) ∧
        (done.answer = 9 ∨ done.world.scheduler.isIdle = true) ∧
        (summary.turns = 9 ∨ after.machine.world.scheduler.isIdle = true) ∧
        done.answer = 3 ∧ summary.turns = 3 := by
  intro sleeps world host
  obtain ⟨nobody, waits, reaps⟩ := drivers_never_give_up_early fun _ _ => True
  have reached : Situation.Reachable (fun _ _ => True) (.idle world) :=
    (Situation.Reachable.fresh _).tend (.spawn (fun _ _ => trivial) fun _ _ => trivial)
  have seen : (world.runTurn 12).any (fun first => (first.world.runTurn 12).any fun second =>
      second.answer.ran = 0 && !second.world.scheduler.isIdle) = true := by
    decide +kernel
  obtain ⟨first, begun, seen⟩ := (Option.any_eq_true _ _).mp seen
  obtain ⟨second, again, seen⟩ := (Option.any_eq_true _ _).mp seen
  simp only [Bool.and_eq_true, decide_eq_true_eq, Bool.not_eq_true'] at seen
  obtain ⟨sleepers, known⟩ :=
    nobody first.world 12 second (reached.runTurn begun) again seen.1 seen.2
  obtain ⟨done, ran⟩ := Option.isSome_iff_exists.mp
    ((waits world 12 9 reached).2 5 rfl (by omega))
  obtain ⟨⟨summary, after⟩, drove⟩ := Option.isSome_iff_exists.mp
    ((reaps host 12 9 reached).2 5 rfl (by omega))
  have counted : (world.runUntilIdle 12 9).all (fun done => done.answer = 3) = true ∧
      (host.run 12 9).all (fun done => done.1.turns = 3) = true := by
    decide +kernel
  rw [ran, drove] at counted
  refine ⟨first, second, begun, again, seen.1, seen.2, sleepers, known, done, summary, after, ran,
    drove, (waits world 12 9 reached).1 done ran, (reaps host 12 9 reached).1 summary after drove,
      ?_⟩
  simpa using counted

end SimScript
