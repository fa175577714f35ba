import SimScript.Proofs.Execution.Verdict
import SimScript.Proofs.Machine.ScopeOwnership

/-!
# The history of a machine

A history leads from one situation to another by some steps, so that something can be said
about everything that happens between the two.  Little can happen to a handle in one
step: it stays as it is, starts to run, is ended, or is the one at work and makes a step
of its own.
-/

namespace SimScript

/-- A handle after it has been ended. -/
def Handle.stopped (handle : Handle) : Handle :=
  { handle.become .terminated with stack := [] }

/-- A handle that does not run stays as it is or is ended. -/
inductive Handle.Spared (handle : Handle) : Handle → Prop where
  | same : Spared handle handle
  | stopped (live : handle.isAbsorbed = false) : Spared handle handle.stopped

/-- A handle that has come to its end, seen later: a turn that takes it forgets what it waited for,
and nothing else changes. -/
def Handle.Lasts (handle later : Handle) : Prop :=
  later = { handle with wake := later.wake }

/-- A handle that has one block to run, and has done nothing and come to nothing yet. -/
structure Handle.Fresh (handle : Handle) : Prop where
  block : ∃ frame, handle.stack = [frame] ∧ frame.kind = .block
  executed : handle.executed = 0
  verdict : handle.verdict = (.nil, none)
  begins : handle.state = .created ∨ handle.state = .running

/-- What becomes of a handle when a situation leads to the next. -/
inductive Handle.Passes (situation : Situation) : Handle → Handle → Prop where
  | stays (handle : Handle) : Passes situation handle handle
  | starts (handle : Handle) :
      Passes situation handle ({ handle with wake := none }.become .running)
  | stops (handle : Handle) (live : handle.isAbsorbed = false) :
      Passes situation handle handle.stopped
  | steps {exec : Execution} {batch : Option (List HandleId)}
      (atWork : situation = .atWork exec batch) (running : exec.handle.state = .running) :
      Passes situation exec.handle exec.advance.2.handle

section Handles

variable {world : World} {scheduler : Scheduler} {target : Option HandleId}
  {handle later last : Handle}

theorem Handle.Fresh.start (fresh : handle.Fresh) : (handle.become .running).Fresh := by
  refine ⟨by simpa using fresh.block, by simpa using fresh.executed,
    by simpa using fresh.verdict, .inr ?_⟩
  rcases fresh.begins with created | running
  · simp [become, created, HandleState.canBecome]
  · simp [become, running, HandleState.canBecome]

theorem World.newHandle_fresh (code : CodeBlock) (bindings : Bindings)
    (environment : Environment) (origin : Location) :
    (world.newHandle code bindings environment origin).1.Fresh :=
  ⟨⟨_, rfl, rfl⟩, rfl, rfl, .inl rfl⟩

theorem Handle.become_of_absorbed {state : HandleState} (absorbed : handle.isAbsorbed = true) :
    handle.become state = handle := by
  have impossible : ∀ held : HandleState, held.isAbsorbed = true →
      held.canBecome state = false := by
    intro held ended
    cases held <;> cases state <;> first | rfl | cases ended
  simp [become, impossible handle.state absorbed]

theorem Handle.live_of_become {state : HandleState}
    (live : (handle.become state).isAbsorbed = false) : handle.isAbsorbed = false := by
  by_contra absorbed
  rw [become_of_absorbed (by simpa using absorbed)] at live
  exact absorbed live

theorem Handle.live_of_running (running : handle.state = .running) :
    handle.isAbsorbed = false := by
  rw [isAbsorbed, running]
  rfl

theorem Handle.stopped_isAbsorbed (live : handle.isAbsorbed = false) :
    handle.stopped.isAbsorbed = true := by
  have possible : handle.state.canBecome .terminated = true := by
    rw [isAbsorbed] at live
    simp [HandleState.canBecome, live]
  simp [stopped, become, possible, isAbsorbed, HandleState.isAbsorbed]

theorem Handle.Spared.eq_or (spared : handle.Spared later) :
    later = handle ∨ handle.isAbsorbed = false ∧ later = handle.stopped := by
  cases spared with
  | same => exact .inl rfl
  | stopped live => exact .inr ⟨live, rfl⟩

theorem Handle.Spared.executed (spared : handle.Spared later) :
    later.executed = handle.executed := by
  cases spared with
  | same => rfl
  | stopped live => simp [Handle.stopped]

theorem Handle.Spared.id (spared : handle.Spared later) : later.id = handle.id := by
  cases spared with
  | same => rfl
  | stopped live => simp [Handle.stopped]

theorem Handle.Spared.trans (first : handle.Spared later)
    (second : later.Spared last) : handle.Spared last := by
  cases first with
  | same => exact second
  | stopped live =>
      cases second with
      | same => exact .stopped live
      | stopped impossible =>
          rw [Handle.stopped_isAbsorbed live] at impossible
          cases impossible

theorem Execution.terminate_handle (exec : Execution) :
    exec.terminate.handle = exec.handle.stopped := by
  by_cases possible : exec.handle.state.canBecome .terminated
  · simp [terminate, withStack, withScopes, Handle.stopped, Handle.become, possible]
  · simp [terminate, withStack, withScopes, Handle.stopped, Handle.become, possible]

theorem Execution.closed_eq (exec : Execution) :
    ∃ ended, exec.handle.Spared ended ∧ ended.isAbsorbed = true ∧
      exec.closed.settings = exec.world.settings ∧
      exec.closed.scheduler = exec.world.scheduler.put ended := by
  unfold Execution.closed
  split
  case isTrue absorbed => exact ⟨exec.handle, .same, absorbed, rfl, rfl⟩
  case isFalse live =>
      have ending : exec.handle.isAbsorbed = false := by simpa using live
      have same : exec.terminate.world.scheduler = exec.world.scheduler :=
        congrArg Standing.scheduler exec.terminate_standing
      refine ⟨exec.handle.stopped, .stopped ending, Handle.stopped_isAbsorbed ending, ?_, ?_⟩
      · exact congrArg Standing.settings exec.terminate_standing
      · dsimp only
        rw [exec.terminate_handle, same]

theorem Execution.advance_id {exec : Execution} (running : exec.handle.state = .running) :
    exec.advance.2.handle.id = exec.handle.id := by
  cases Execution.advance_settled running with
  | free same _ => exact congrArg Standing.id same
  | paid _ _ counted => exact congrArg Standing.id counted

theorem Handle.Passes.id {situation : Situation} (passed : handle.Passes situation later) :
    later.id = handle.id := by
  cases passed with
  | stays => rfl
  | starts => simp
  | stops => simp [Handle.stopped]
  | steps _ running => exact Execution.advance_id running

theorem Handle.Lasts.trans (first : handle.Lasts later) (second : later.Lasts last) :
    handle.Lasts last :=
  calc
    last = { later with wake := last.wake } := second
    _ = { handle with wake := last.wake } := by rw [first]

theorem Handle.Lasts.id (lasts : handle.Lasts later) : later.id = handle.id := by
  rw [lasts]

theorem Handle.Lasts.state (lasts : handle.Lasts later) : later.state = handle.state := by
  rw [lasts]

theorem Handle.Lasts.trace (lasts : handle.Lasts later) : later.trace = handle.trace := by
  rw [lasts]

theorem Handle.Lasts.isAbsorbed (lasts : handle.Lasts later) :
    later.isAbsorbed = handle.isAbsorbed :=
  congrArg HandleState.isAbsorbed lasts.state

theorem Handle.Passes.lasts {situation : Situation} (passed : handle.Passes situation later)
    (absorbed : handle.isAbsorbed = true) : handle.Lasts later := by
  cases passed with
  | stays => rfl
  | starts =>
      have asleep : { handle with wake := none }.isAbsorbed = true := absorbed
      rw [Handle.become_of_absorbed asleep]
      rfl
  | stops _ live => simp [absorbed] at live
  | steps _ running => simp [Handle.live_of_running running] at absorbed

theorem Scheduler.mem_put_apart (member : later ∈ (scheduler.put handle).handles) :
    later ∈ scheduler.handles ∧ later.id ≠ handle.id ∨ later = handle := by
  rw [put_handles, List.mem_append, List.mem_singleton] at member
  apply member.imp_left
  intro kept
  obtain ⟨held, different⟩ := List.mem_filter.mp kept
  exact ⟨held, bne_iff_ne.mp different⟩

theorem Scheduler.mem_put (member : later ∈ (scheduler.put handle).handles) :
    later ∈ scheduler.handles ∨ later = handle :=
  (mem_put_apart member).imp_left And.left

/-- What becomes of the scheduler when a script is met. -/
inductive Scheduler.Met (before : Scheduler) (target : Option HandleId) (after : Scheduler) :
    Prop where
  | nobody (same : after = before)
  | spawned {new : Handle} (fresh : new.Fresh) (created : new.state = .created)
      (number : new.id = before.lastId + 1) (handles : after.handles = (before.put new).handles)
      (queue : after.queue = before.queue ++ [new.id]) (lastId : after.lastId = before.lastId + 1)
  | ended {handle : Handle} (aimed : target = some handle.id)
      (found : before.get? handle.id = some handle) (live : handle.isAbsorbed = false)
      (put : after = before.put handle.stopped)

theorem World.Meets.met (meets : world.Meets target scheduler) :
    world.scheduler.Met target scheduler := by
  cases meets with
  | nobody => exact .nobody rfl
  | spawned code bindings origin =>
      exact .spawned (newHandle_fresh code bindings .scheduled origin) rfl rfl rfl rfl rfl
  | @ended id aimed =>
      unfold World.terminate
      split
      · exact .nobody rfl
      case h_2 handle found =>
          obtain rfl : handle.id = id := Scheduler.id_of_get? found
          split
          · exact .nobody rfl
          case isFalse live => exact .ended aimed found (by simpa using live) rfl

theorem World.Meets.origin (meets : world.Meets target scheduler)
    (member : later ∈ scheduler.handles) :
    later ∈ world.scheduler.handles ∨
      (∃ handle ∈ world.scheduler.handles, handle.isAbsorbed = false ∧ later = handle.stopped) ∨
      world.scheduler.lastId < later.id ∧ later.Fresh ∧ later.state = .created := by
  cases meets.met with
  | nobody same => exact .inl (same ▸ member)
  | spawned fresh created number handles _ _ =>
      rw [handles] at member
      rcases Scheduler.mem_put member with kept | rfl
      · exact .inl kept
      · exact .inr (.inr ⟨Nat.lt_of_lt_of_eq (Nat.lt_succ_self _) number.symm, fresh, created⟩)
  | ended _ found live put =>
      rw [put] at member
      rcases Scheduler.mem_put member with kept | rfl
      · exact .inl kept
      · exact .inr (.inl ⟨_, Scheduler.mem_of_get? found, live, rfl⟩)

theorem World.Meets.kept {other : Handle} (meets : world.Meets target scheduler)
    (issued : ∀ handle ∈ world.scheduler.handles, handle.id ≤ world.scheduler.lastId)
    (member : other ∈ world.scheduler.handles) (spared : target ≠ some other.id) :
    other ∈ scheduler.handles := by
  cases meets.met with
  | nobody same => exact same.symm ▸ member
  | spawned _ _ number handles _ _ =>
      rw [handles]
      apply Scheduler.mem_put_of_ne member
      intro same
      have old := issued other member
      rw [same, number] at old
      exact Nat.not_succ_le_self _ old
  | ended aimed _ _ put =>
      rw [put]
      apply Scheduler.mem_put_of_ne member
      intro same
      apply spared
      rw [same, aimed]
      simp [Handle.stopped]

theorem Scheduler.get?_of_mem (ids : (scheduler.handles.map Handle.id).Nodup)
    (member : handle ∈ scheduler.handles) : scheduler.get? handle.id = some handle := by
  obtain ⟨before, after, split⟩ := List.append_of_mem member
  rw [split, List.map_append, List.map_cons] at ids
  have unique := (List.nodup_cons.mp (List.nodup_middle.mp ids)).1
  refine List.find?_eq_some_iff_append.mpr ⟨by simp, before, after, split, ?_⟩
  intro other earlier
  suffices different : other.id ≠ handle.id by simpa using different
  intro same
  refine unique (List.mem_append_left _ ?_)
  rw [← same]
  exact List.mem_map_of_mem earlier

theorem World.Meets.lastId_le (meets : world.Meets target scheduler) :
    world.scheduler.lastId ≤ scheduler.lastId := by
  cases meets.met with
  | nobody same => exact Nat.le_of_eq (congrArg Scheduler.lastId same).symm
  | spawned _ _ _ _ _ lastId =>
      rw [lastId]
      exact Nat.le_succ _
  | ended _ _ _ put => exact Nat.le_of_eq (congrArg Scheduler.lastId put).symm

/-- A host meets at most one script, unless it drops those that have come to their end. -/
theorem World.Tended.origin {permits : Store → Value → Prop} {after : World}
    (tended : world.Tended permits after) :
    after.settings = world.settings ∧
      ((∃ target, world.Meets target after.scheduler) ∨
        after.scheduler.handles ⊆ world.scheduler.handles ∧
          after.scheduler.lastId = world.scheduler.lastId ∧
          after.scheduler.queue = world.scheduler.queue) := by
  cases tended with
  | spawn _ _ => exact ⟨rfl, .inl ⟨none, .spawned _ _ _⟩⟩
  | terminate id =>
      refine ⟨?_, .inl ⟨some id, .ended rfl⟩⟩
      unfold World.terminate
      split
      · rfl
      · split <;> rfl
  | advance seconds =>
      refine ⟨rfl, .inr ?_⟩
      simp [World.advance]
  | reap => exact ⟨rfl, .inr ⟨fun _ member => (List.mem_filter.mp member).1, rfl, rfl⟩⟩
  | setGlobal | newArray | newBlock | objects | equip => exact ⟨rfl, .inl ⟨none, .nobody⟩⟩

end Handles

namespace Situation

variable {permits : Store → Value → Prop} {before after : Situation} {later : Handle}

/-- What holds of every fresh machine, and is kept by every step from one situation to the next,
holds in every reachable situation. -/
theorem Reachable.along {motive : Situation → Prop} (reached : Reachable permits before)
    (fresh : ∀ settings, motive (.idle (.ofSettings settings)))
    (each : ∀ earlier later, Reachable permits earlier → motive earlier →
      Next permits earlier later → motive later) : motive before := by
  induction reached with
  | fresh settings => exact fresh settings
  | tend reached tended induction => exact each _ _ reached induction (.tend tended)
  | execute reached permitted induction => exact each _ _ reached induction (.execute permitted)
  | beginTurn reached induction => exact each _ _ reached induction .beginTurn
  | skip reached gone induction => exact each _ _ reached induction (.skip gone)
  | take reached found induction => exact each _ _ reached induction (.take found)
  | advance reached running induction => exact each _ _ reached induction (.advance running)
  | keep reached yielded induction => exact each _ _ reached induction (.keep yielded)
  | close reached yielded induction => exact each _ _ reached induction (.close yielded)
  | endTurn reached induction => exact each _ _ reached induction .endTurn

theorem Next.settings (next : Next permits before after) :
    after.world.settings = before.world.settings := by
  cases next with
  | tend tended => exact tended.origin.1
  | advance running =>
      cases Execution.advance_settled running with
      | free same _ => exact congrArg Standing.settings same
      | paid _ _ counted => exact congrArg Standing.settings counted
  | @close exec _ =>
      obtain ⟨_, _, _, settings, _⟩ := exec.closed_eq
      exact settings
  | execute | beginTurn | skip | take | keep | endTurn => rfl

/-- Numbers of handles are never given out twice. -/
theorem Next.lastId_le (next : Next permits before after) :
    before.world.scheduler.lastId ≤ after.world.scheduler.lastId := by
  cases next with
  | tend tended =>
      rcases tended.origin.2 with ⟨target, meets⟩ | ⟨_, same, _⟩
      · exact meets.lastId_le
      · exact Nat.le_of_eq same.symm
  | advance running => exact (Execution.advance_meets running).lastId_le
  | @close exec _ =>
      obtain ⟨_, _, _, _, scheduler⟩ := exec.closed_eq
      exact Nat.le_of_eq (congrArg Scheduler.lastId scheduler).symm
  | keep => exact Nat.le_of_eq World.keep_lastId.symm
  | execute => exact Nat.le_succ _
  | beginTurn | skip | take | endTurn => exact Nat.le_refl _

theorem Next.origin (next : Next permits before after) (member : later ∈ after.handles) :
    (∃ handle ∈ before.handles, handle.Passes before later) ∨
      before.world.scheduler.lastId < later.id ∧ later.Fresh := by
  have unchanged : later ∈ before.handles →
      (∃ handle ∈ before.handles, handle.Passes before later) :=
    fun kept => ⟨later, kept, .stays later⟩
  have met : ∀ {target scheduler}, before.world.Meets target scheduler →
      before.world.scheduler.handles ⊆ before.handles → later ∈ scheduler.handles →
      (∃ handle ∈ before.handles, handle.Passes before later) ∨
        before.world.scheduler.lastId < later.id ∧ later.Fresh := by
    intro target scheduler meets inside found
    rcases meets.origin found with kept | ⟨handle, held, live, rfl⟩ | ⟨new, fresh, _⟩
    · exact .inl (unchanged (inside kept))
    · exact .inl ⟨handle, inside held, .stops handle live⟩
    · exact .inr ⟨new, fresh⟩
  cases next with
  | tend tended =>
      rcases tended.origin.2 with ⟨target, meets⟩ | ⟨fewer, _⟩
      · exact met meets (List.Subset.refl _) member
      · exact .inl (unchanged (fewer member))
  | @execute world code _ =>
      rcases List.mem_cons.mp member with rfl | kept
      · let created := (world.newHandle code [] .unscheduled Location.host).1
        have fresh : (created.become .running).Fresh := (World.newHandle_fresh _ _ _ _).start
        have number : (created.become .running).id = created.id := Handle.become_id _ _
        have new : world.scheduler.lastId < (created.become .running).id := by
          rw [number]
          exact Nat.lt_succ_self _
        exact .inr ⟨new, fresh⟩
      · exact .inl (unchanged kept)
  | @take id rest world handle found =>
      rcases List.mem_cons.mp member with rfl | kept
      · exact .inl ⟨handle, Scheduler.mem_of_get? found, .starts handle⟩
      · exact .inl (unchanged (List.mem_filter.mp kept).1)
  | @advance exec batch running =>
      rcases List.mem_cons.mp member with rfl | kept
      · exact .inl ⟨exec.handle, List.mem_cons_self, .steps rfl running⟩
      · exact met (Execution.advance_meets running) (List.subset_cons_self _ _) kept
  | @keep exec rest _ =>
      have put : later ∈ (exec.world.scheduler.put exec.handle).handles := by
        rwa [Situation.handles, World.keep_handles] at member
      rcases Scheduler.mem_put put with kept | rfl
      · exact .inl (unchanged (List.mem_cons_of_mem _ kept))
      · exact .inl (unchanged List.mem_cons_self)
  | @close exec _ =>
      obtain ⟨ended, spared, _, _, scheduler⟩ := exec.closed_eq
      dsimp only [Situation.handles] at member
      rw [scheduler] at member
      rcases Scheduler.mem_put member with kept | rfl
      · exact .inl (unchanged (List.mem_cons_of_mem _ kept))
      · cases spared with
        | same => exact .inl (unchanged List.mem_cons_self)
        | stopped live => exact .inl ⟨exec.handle, List.mem_cons_self, .stops _ live⟩
  | beginTurn | skip | endTurn => exact .inl (unchanged member)

/-- What holds of every new handle, and of a handle after each step if it did before, holds of all
handles in every reachable situation. -/
theorem Reachable.everyHandle {motive : Settings → Handle → Prop}
    (reached : Reachable permits after)
    (fresh : ∀ settings handle, handle.Fresh → motive settings handle)
    (passes : ∀ situation handle later, Reachable permits situation →
      motive situation.world.settings handle → handle.Passes situation later →
      motive situation.world.settings later) :
    ∀ handle ∈ after.handles, motive after.world.settings handle := by
  apply reached.along
  · intro settings handle member
    simp [Situation.handles, World.ofSettings] at member
  · intro earlier later reached holds next handle member
    rw [next.settings]
    rcases next.origin member with ⟨before, held, passed⟩ | ⟨_, new⟩
    · exact passes earlier before handle reached (holds before held) passed
    · exact fresh _ handle new

theorem Next.iterate {exec : Execution} {batch : Option (List HandleId)} {steps : Nat}
    (running : ((fun exec => exec.advance.2)^[steps] exec).handle.state = .running) :
    Next permits (.atWork ((fun exec => exec.advance.2)^[steps] exec) batch)
      (.atWork ((fun exec => exec.advance.2)^[steps + 1] exec) batch) := by
  rw [Function.iterate_succ_apply']
  exact .advance running

theorem Reachable.iterate {exec : Execution} {batch : Option (List HandleId)} {steps : Nat}
    (reached : Reachable permits (.atWork exec batch))
    (running : ∀ made < steps,
      ((fun exec => exec.advance.2)^[made] exec).handle.state = .running) :
    Reachable permits (.atWork ((fun exec => exec.advance.2)^[steps] exec) batch) := by
  induction steps with
  | zero => exact reached
  | succ steps induction =>
      have earlier := induction fun made bound => running made (Nat.lt_succ_of_lt bound)
      exact earlier.next (.iterate (running steps (Nat.lt_succ_self _)))

def History (permits : Store → Value → Prop) : Situation → Situation → Prop :=
  Relation.ReflTransGen (Next permits)

namespace History

variable {fuel : Nat} {world : World}

theorem follows (permits : Store → Value → Prop) : Follows permits (History permits) where
  refl _ := .refl
  trans first second := Relation.ReflTransGen.trans first second
  works next _ := .single next
  clock _ seconds := .single (.tend (.advance seconds))

theorem settings (history : History permits before after) :
    after.world.settings = before.world.settings := by
  induction history with
  | refl => rfl
  | tail _ next induction => exact next.settings.trans induction

theorem lastId_le (history : History permits before after) :
    before.world.scheduler.lastId ≤ after.world.scheduler.lastId := by
  induction history with
  | refl => exact Nat.le_refl _
  | tail _ next induction => exact Nat.le_trans induction next.lastId_le

theorem reachable (history : History permits before after)
    (reached : Reachable permits before) : Reachable permits after := by
  induction history with
  | refl => exact reached
  | tail _ next induction => exact induction.next next

theorem run {events : Array Event} {exec : Execution} {batch : Option (List HandleId)}
    {done : Array Event × Execution} (ran : exec.run fuel events = some done) :
    History permits (.atWork exec batch) (.atWork done.2 batch) ∧
      done.2.handle.state ≠ .running :=
  (follows permits).run ran

theorem runTurn {done : Performed TurnReport} (ran : world.runTurn fuel = some done) :
    History permits (.idle world) (.idle done.world) :=
  (follows permits).runTurn ran

end History

end Situation

end SimScript
