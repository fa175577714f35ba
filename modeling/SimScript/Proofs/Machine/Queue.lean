import SimScript.Proofs.Execution.Environment
import SimScript.Proofs.Machine.History

/-!
# The queue

A script that has not come to its end stands in line exactly once: in the queue, among
those that are still to run in this turn, or at the front, at work.  A script that the
scheduler keeps never runs, and one that waits knows what for.
-/

namespace SimScript

/-- Nobody stands in line twice or without a number, and everybody who has not come to an end stands
in line. -/
structure InLine (line : List HandleId) (lastId : Nat) (handles : List Handle) : Prop where
  once : line.Nodup
  issued : ∀ id ∈ line, id ≤ lastId
  live : ∀ handle ∈ handles, handle.isAbsorbed = false → handle.id ∈ line

namespace InLine

variable {line others : List HandleId} {lastId : Nat} {id : HandleId}
  {handles changed : List Handle}

theorem perm (inLine : InLine line lastId handles) (same : line.Perm others) :
    InLine others lastId handles := by
  constructor
  · exact same.nodup_iff.mp inLine.once
  · exact fun id member => inLine.issued id (same.mem_iff.mpr member)
  · exact fun handle member live => same.mem_iff.mp (inLine.live handle member live)

theorem mono (inLine : InLine line lastId handles)
    (stood : ∀ later ∈ changed, later.isAbsorbed = false →
      ∃ handle ∈ handles, handle.isAbsorbed = false ∧ handle.id = later.id) :
    InLine line lastId changed := by
  refine ⟨inLine.once, inLine.issued, ?_⟩
  intro later member live
  obtain ⟨handle, held, before, same⟩ := stood later member live
  rw [← same]
  exact inLine.live handle held before

theorem subset (inLine : InLine line lastId handles) (fewer : changed ⊆ handles) :
    InLine line lastId changed :=
  inLine.mono fun later member live => ⟨later, fewer member, live, rfl⟩

theorem change {handle later : Handle} (inLine : InLine line lastId (handle :: handles))
    (same : later.id = handle.id) (live : later.isAbsorbed = false → handle.isAbsorbed = false) :
    InLine line lastId (later :: handles) := by
  apply inLine.mono
  intro other member alive
  rcases List.mem_cons.mp member with rfl | behind
  · exact ⟨handle, List.mem_cons_self, live alive, same.symm⟩
  · exact ⟨other, List.mem_cons_of_mem _ behind, alive, rfl⟩

theorem join {handle : Handle} (inLine : InLine line lastId handles)
    (new : handle.id = lastId + 1) :
    InLine (line ++ [handle.id]) (lastId + 1) (handle :: handles) := by
  rw [new]
  constructor
  · refine List.nodup_append.mpr ⟨inLine.once, List.nodup_singleton _, ?_⟩
    rintro id member _ last rfl
    obtain rfl := List.mem_singleton.mp last
    exact absurd (inLine.issued _ member) (Nat.not_succ_le_self _)
  · intro id member
    rcases List.mem_append.mp member with earlier | last
    · exact Nat.le_succ_of_le (inLine.issued id earlier)
    · exact Nat.le_of_eq (List.mem_singleton.mp last)
  · intro other member live
    rcases List.mem_cons.mp member with rfl | earlier
    · rw [new]
      exact List.mem_append_right _ (List.mem_singleton_self _)
    · exact List.mem_append_left _ (inLine.live other earlier live)

theorem leave (inLine : InLine (id :: line) lastId handles)
    (ended : ∀ handle ∈ handles, handle.id = id → handle.isAbsorbed = true) :
    InLine line lastId handles := by
  refine ⟨(List.nodup_cons.mp inLine.once).2, ?_, ?_⟩
  · exact fun id member => inLine.issued id (List.mem_cons_of_mem _ member)
  · intro handle member live
    rcases List.mem_cons.mp (inLine.live handle member live) with same | behind
    · simp [ended handle member same] at live
    · exact behind

end InLine

/-- Those who stand in line, those at the front first. -/
def Situation.line : Situation → List HandleId
  | .idle world => world.scheduler.queue
  | .turn batch world => batch ++ world.scheduler.queue
  | .atWork exec batch => exec.handle.id :: (batch.getD [] ++ exec.world.scheduler.queue)

/-- Those who are still to run in this turn. -/
def Situation.batch : Situation → List HandleId
  | .idle _ => []
  | .turn batch _ => batch
  | .atWork _ batch => batch.getD []

section Scheduler

variable {world : World} {scheduler : Scheduler} {target : Option HandleId} {handle : Handle}
  {front : List HandleId} {others : List Handle}

theorem Scheduler.get?_remove (id : HandleId) : (scheduler.remove id).get? id = none := by
  apply List.find?_eq_none.mpr
  intro other member
  simpa using (List.mem_filter.mp member).2

theorem Scheduler.get?_put : (scheduler.put handle).get? handle.id = some handle := by
  have nobody := scheduler.get?_remove handle.id
  rw [Scheduler.get?] at nobody
  simp [Scheduler.get?, put_handles, List.find?_append, nobody]

theorem World.keep_queue (world : World) (handle : Handle)
    (behind : handle.id ∉ world.scheduler.queue) :
    (World.keep handle world).scheduler.queue =
      world.scheduler.queue ++ if handle.isAbsorbed then [] else [handle.id] := by
  have queue : (world.scheduler.put handle).queue = world.scheduler.queue := rfl
  cases ended : handle.isAbsorbed <;>
    simp [World.keep, Scheduler.requeue, Scheduler.isLive, Scheduler.get?_put, queue, behind, ended]

theorem World.Meets.present (meets : world.Meets target scheduler)
    (member : handle ∈ world.scheduler.handles) :
    ∃ later ∈ scheduler.handles, later.id = handle.id := by
  cases meets.met with
  | nobody same => exact ⟨handle, same.symm ▸ member, rfl⟩
  | spawned _ _ _ handles _ _ =>
      rw [handles]
      exact Scheduler.present_put _ member
  | ended _ _ _ put =>
      rw [put]
      exact Scheduler.present_put _ member

/-- Whoever is met keeps the place, and a new script joins the end of the line. -/
theorem World.Meets.inLine (meets : world.Meets target scheduler)
    (inLine : InLine (front ++ world.scheduler.queue) world.scheduler.lastId
      (others ++ world.scheduler.handles)) :
    InLine (front ++ scheduler.queue) scheduler.lastId (others ++ scheduler.handles) := by
  cases meets.met with
  | nobody same =>
      rw [same]
      exact inLine
  | @spawned new _ _ number handles queue lastId =>
      have joined : InLine (front ++ world.scheduler.queue ++ [new.id])
          (world.scheduler.lastId + 1) (new :: (others ++ world.scheduler.handles)) :=
        inLine.join number
      rw [handles, queue, lastId, ← List.append_assoc]
      apply joined.subset
      intro later member
      rcases List.mem_append.mp member with other | put
      · exact List.mem_cons_of_mem _ (List.mem_append_left _ other)
      · rcases Scheduler.mem_put put with kept | rfl
        · exact List.mem_cons_of_mem _ (List.mem_append_right _ kept)
        · exact List.mem_cons_self
  | @ended handle _ _ alive put =>
      rw [put]
      apply inLine.mono
      intro later member live
      refine ⟨later, List.mem_append.mpr ?_, live, rfl⟩
      apply (List.mem_append.mp member).imp_right
      intro held
      rcases Scheduler.mem_put held with kept | rfl
      · exact kept
      · cases (Handle.stopped_isAbsorbed alive).symm.trans live

/-- At the beginning of a turn, those who may run come to the front. -/
theorem Scheduler.beginTurn_inLine (ids : (scheduler.handles.map Handle.id).Nodup)
    (inLine : InLine scheduler.queue scheduler.lastId scheduler.handles) :
    InLine (scheduler.beginTurn.1 ++ scheduler.beginTurn.2.queue) scheduler.lastId
      scheduler.handles := by
  have living : InLine (scheduler.queue.filter scheduler.isLive) scheduler.lastId
      scheduler.handles := by
    constructor
    · exact inLine.once.filter _
    · exact fun id member => inLine.issued id (List.mem_filter.mp member).1
    · intro handle member live
      refine List.mem_filter.mpr ⟨inLine.live handle member live, ?_⟩
      simp [isLive, Scheduler.get?_of_mem ids member, live]
  apply living.perm
  simp only [beginTurn, List.partition_eq_filter_filter]
  exact (List.filter_append_perm _ _).symm

theorem World.startKept_id : (world.startKept handle).handle.id = handle.id :=
  Handle.become_id { handle with wake := none } .running

theorem World.startKept_live (live : (world.startKept handle).handle.isAbsorbed = false) :
    handle.isAbsorbed = false := by
  have awake : { handle with wake := none }.isAbsorbed = false := Handle.live_of_become live
  exact awake

end Scheduler

namespace Situation

variable {permits : Store → Value → Prop} {situation : Situation}

def AllInLine (situation : Situation) : Prop :=
  InLine situation.line situation.world.scheduler.lastId situation.handles

variable {world after : World} {exec : Execution} {batch : Option (List HandleId)}
  {id : HandleId} {rest : List HandleId} {handle : Handle}

theorem allInLine_of_tended (tended : world.Tended permits after)
    (inLine : (idle world).AllInLine) : (idle after).AllInLine := by
  rcases tended.origin.2 with ⟨target, meets⟩ | ⟨fewer, lastId, queue⟩
  · have met : InLine ([] ++ after.scheduler.queue) after.scheduler.lastId
        ([] ++ after.scheduler.handles) := meets.inLine inLine
    exact met
  · have same : (Situation.idle after).line = world.scheduler.queue := queue
    dsimp only [AllInLine, Situation.world]
    rw [same, lastId]
    exact inLine.subset fewer

theorem allInLine_of_executed {code : CodeBlock} (inLine : (idle world).AllInLine) :
    (atWork (world.startAtOnce code) none).AllInLine := by
  let created := (world.newHandle code [] .unscheduled Location.host).1
  have joined : InLine (world.scheduler.queue ++ [created.id]) (world.scheduler.lastId + 1)
      (created :: world.scheduler.handles) := InLine.join inLine rfl
  exact (joined.perm (List.perm_append_singleton _ _)).change rfl fun _ => rfl

/-- A number whose handle is gone leaves the line. -/
theorem allInLine_of_skipped (gone : world.scheduler.get? id = none)
    (inLine : (turn (id :: rest) world).AllInLine) : (turn rest world).AllInLine := by
  have front : InLine (id :: (rest ++ world.scheduler.queue)) world.scheduler.lastId
      world.scheduler.handles := inLine
  apply front.leave
  intro handle member same
  have different := List.find?_eq_none.mp gone handle member
  simp [same] at different

/-- Who is taken to work keeps the place at the front. -/
theorem allInLine_of_taken (found : world.scheduler.get? id = some handle)
    (inLine : (turn (id :: rest) world).AllInLine) :
    (atWork (world.startKept handle) (some rest)).AllInLine := by
  have number : (world.startKept handle).handle.id = id := by
    rw [World.startKept_id]
    exact Scheduler.id_of_get? found
  have stays : InLine (id :: (rest ++ world.scheduler.queue)) world.scheduler.lastId
      ((world.startKept handle).handle :: (world.scheduler.remove handle.id).handles) := by
    apply InLine.mono inLine
    intro later member live
    rcases List.mem_cons.mp member with rfl | kept
    · exact ⟨handle, Scheduler.mem_of_get? found, World.startKept_live live,
        World.startKept_id.symm⟩
    · exact ⟨later, (List.mem_filter.mp kept).1, live, rfl⟩
  rw [← number] at stays
  exact stays

theorem allInLine_of_advanced (running : exec.handle.state = .running)
    (inLine : (atWork exec batch).AllInLine) : (atWork exec.advance.2 batch).AllInLine := by
  have number : exec.advance.2.handle.id = exec.handle.id := Execution.advance_id running
  have met : InLine ((exec.handle.id :: batch.getD []) ++ exec.advance.2.world.scheduler.queue)
      exec.advance.2.world.scheduler.lastId
      ([exec.handle] ++ exec.advance.2.world.scheduler.handles) :=
    (Execution.advance_meets running).inLine inLine
  dsimp only [AllInLine, line, handles, Situation.world]
  rw [number]
  exact met.change number fun _ => Handle.live_of_running running

/-- Who leaves work goes to the end of the line or has come to the end. -/
theorem allInLine_of_kept (inLine : (atWork exec (some rest)).AllInLine) :
    (turn rest (World.keep exec.handle exec.world)).AllInLine := by
  have front : InLine (exec.handle.id :: (rest ++ exec.world.scheduler.queue))
      exec.world.scheduler.lastId (exec.handle :: exec.world.scheduler.handles) := inLine
  have behind : exec.handle.id ∉ exec.world.scheduler.queue :=
    fun queued => (List.nodup_cons.mp front.once).1 (List.mem_append_right _ queued)
  have kept : InLine (exec.handle.id :: (rest ++ exec.world.scheduler.queue))
      exec.world.scheduler.lastId (exec.world.scheduler.put exec.handle).handles := by
    apply front.subset
    intro later member
    rcases Scheduler.mem_put member with held | rfl
    · exact List.mem_cons_of_mem _ held
    · exact List.mem_cons_self
  dsimp only [AllInLine, line, handles, Situation.world]
  rw [World.keep_queue _ _ behind, World.keep_lastId, World.keep_handles]
  split
  case isTrue ended =>
      rw [List.append_nil]
      apply kept.leave
      intro later member same
      rcases Scheduler.mem_put_apart member with ⟨_, different⟩ | rfl
      · exact absurd same different
      · exact ended
  case isFalse =>
      rw [← List.append_assoc]
      exact kept.perm (List.perm_append_singleton _ _).symm

theorem allInLine_of_closed (inLine : (atWork exec none).AllInLine) :
    (idle exec.closed).AllInLine := by
  obtain ⟨ended, spared, absorbed, _, scheduler⟩ := exec.closed_eq
  have put : InLine (exec.handle.id :: exec.world.scheduler.queue)
      exec.world.scheduler.lastId (exec.world.scheduler.put ended).handles := by
    apply InLine.mono inLine
    intro later member live
    rcases Scheduler.mem_put member with held | rfl
    · exact ⟨later, List.mem_cons_of_mem _ held, live, rfl⟩
    · simp [absorbed] at live
  dsimp only [AllInLine, line, handles, Situation.world]
  rw [scheduler]
  apply put.leave
  intro later member same
  rcases Scheduler.mem_put_apart member with ⟨_, different⟩ | rfl
  · exact absurd (same.trans spared.id.symm) different
  · exact absorbed

theorem allInLine_of_next {earlier later : Situation}
    (ids : (earlier.handles.map Handle.id).Nodup) (next : Next permits earlier later)
    (inLine : earlier.AllInLine) : later.AllInLine := by
  cases next with
  | tend tended => exact allInLine_of_tended tended inLine
  | execute => exact allInLine_of_executed inLine
  | beginTurn => exact Scheduler.beginTurn_inLine ids inLine
  | skip gone => exact allInLine_of_skipped gone inLine
  | take found => exact allInLine_of_taken found inLine
  | advance running => exact allInLine_of_advanced running inLine
  | keep => exact allInLine_of_kept inLine
  | close => exact allInLine_of_closed inLine
  | endTurn => exact inLine

theorem Reachable.inLine (reached : Reachable permits situation) :
    InLine situation.line situation.world.scheduler.lastId situation.handles := by
  refine reached.along (motive := AllInLine) ?_ ?_
  · intro settings
    constructor <;> simp [line, handles, World.ofSettings]
  · intro earlier later reached inLine next
    exact allInLine_of_next reached.tidy.ids next inLine

theorem Reachable.present (reached : Reachable permits situation) :
    ∀ id ∈ situation.batch, ∃ handle ∈ situation.world.scheduler.handles, handle.id = id := by
  refine reached.along (motive := fun situation => ∀ id ∈ situation.batch,
    ∃ handle ∈ situation.world.scheduler.handles, handle.id = id) ?_ ?_
  · intro settings id member
    simp [batch] at member
  · intro earlier later reached present next id member
    cases next with
    | tend | execute | close | endTurn => simp [batch] at member
    | beginTurn =>
        simp only [batch, Scheduler.beginTurn, List.partition_eq_filter_filter,
          List.mem_filter] at member
        obtain ⟨handle, found, _⟩ := (Option.any_eq_true _ _).mp member.1.2
        exact ⟨handle, Scheduler.mem_of_get? found, Scheduler.id_of_get? found⟩
    | skip gone => exact present id (List.mem_cons_of_mem _ member)
    | @take first rest world handle found =>
        obtain ⟨other, held, same⟩ := present id (List.mem_cons_of_mem _ member)
        refine ⟨other, List.mem_filter.mpr ⟨held, bne_iff_ne.mpr ?_⟩, same⟩
        have number : handle.id = first := Scheduler.id_of_get? found
        have once := (List.nodup_cons.mp reached.inLine.once).1
        rw [same, number]
        rintro rfl
        exact once (List.mem_append_left _ member)
    | @advance exec batch running =>
        obtain ⟨handle, held, same⟩ := present id member
        obtain ⟨later, kept, number⟩ := (Execution.advance_meets running).present held
        exact ⟨later, kept, number.trans same⟩
    | @keep exec rest yielded =>
        obtain ⟨handle, held, same⟩ := present id member
        obtain ⟨later, kept, number⟩ := Scheduler.present_put exec.handle held
        refine ⟨later, ?_, number.trans same⟩
        dsimp only [Situation.world]
        rwa [World.keep_handles]

end Situation

/-! ## What scripts wait for -/

/-- A handle that waits knows what for. -/
def Handle.Waits (handle : Handle) : Prop :=
  handle.state = .suspended → handle.wake.isSome = true

/-- The handles that the scheduler keeps do not run, and the one at work has begun. -/
structure Situation.Poised (situation : Situation) : Prop where
  kept : ∀ handle ∈ situation.world.scheduler.handles,
    handle.state ≠ .running ∧ handle.Waits
  working : ∀ exec batch, situation = .atWork exec batch →
    exec.handle.state ≠ .created ∧ exec.handle.Waits

section Poised

variable {permits : Store → Value → Prop} {situation : Situation} {world : World}
  {scheduler : Scheduler} {target : Option HandleId} {handle : Handle}

theorem Handle.absorbed_poised (absorbed : handle.isAbsorbed = true) :
    handle.state ≠ .running ∧ handle.state ≠ .created ∧ handle.Waits := by
  unfold Handle.Waits
  cases state : handle.state <;> simp_all [Handle.isAbsorbed, HandleState.isAbsorbed]

theorem World.Meets.kept_poised (meets : world.Meets target scheduler)
    (kept : ∀ handle ∈ world.scheduler.handles, handle.state ≠ .running ∧ handle.Waits) :
    ∀ handle ∈ scheduler.handles, handle.state ≠ .running ∧ handle.Waits := by
  intro later member
  rcases meets.origin member with before | ⟨handle, _, live, rfl⟩ | ⟨_, _, created⟩
  · exact kept later before
  · have ended := Handle.absorbed_poised (Handle.stopped_isAbsorbed live)
    exact ⟨ended.1, ended.2.2⟩
  · simp [Handle.Waits, created]

theorem World.startKept_poised :
    (world.startKept handle).handle.state ≠ .created ∧
      (world.startKept handle).handle.state ≠ .suspended := by
  unfold startKept Execution.resume Handle.become
  cases handle.state <;> simp [HandleState.canBecome]

theorem Situation.poised_of_next {earlier later : Situation} (poised : earlier.Poised)
    (next : Next permits earlier later) : later.Poised := by
  obtain ⟨kept, working⟩ := poised
  cases next with
  | tend tended =>
      refine ⟨?_, by simp⟩
      rcases tended.origin.2 with ⟨target, meets⟩ | ⟨fewer, _⟩
      · exact meets.kept_poised kept
      · exact fun handle member => kept handle (fewer member)
  | @execute world code permitted =>
      refine ⟨kept, ?_⟩
      rintro _ _ ⟨⟩
      have begun : (world.startAtOnce code).handle.state = .running := rfl
      simp [Handle.Waits, begun]
  | beginTurn | skip | endTurn => exact ⟨kept, by simp⟩
  | take found =>
      refine ⟨fun handle member => kept handle (List.mem_filter.mp member).1, ?_⟩
      rintro _ _ ⟨⟩
      refine ⟨World.startKept_poised.1, fun suspended => ?_⟩
      exact absurd suspended World.startKept_poised.2
  | @advance exec batch running =>
      refine ⟨(Execution.advance_meets running).kept_poised kept, ?_⟩
      rintro _ _ ⟨⟩
      cases Execution.advance_rests running with
      | runs state => simp [Handle.Waits, state]
      | waits state wake _ =>
          obtain ⟨condition, known, _⟩ := wake
          exact ⟨by simp [state], fun _ => by simp [known]⟩
      | ends absorbed => exact (Handle.absorbed_poised absorbed).2
  | @keep exec rest yielded =>
      refine ⟨?_, by simp⟩
      dsimp only [Situation.world]
      rw [World.keep_handles]
      intro handle member
      rcases Scheduler.mem_put member with held | rfl
      · exact kept handle held
      · exact ⟨yielded, (working exec _ rfl).2⟩
  | @close exec yielded =>
      refine ⟨?_, by simp⟩
      obtain ⟨ended, _, absorbed, _, scheduler⟩ := exec.closed_eq
      dsimp only [Situation.world]
      rw [scheduler]
      intro handle member
      rcases Scheduler.mem_put member with held | rfl
      · exact kept handle held
      · have poised := Handle.absorbed_poised absorbed
        exact ⟨poised.1, poised.2.2⟩

theorem Situation.Reachable.poised (reached : Reachable permits situation) : situation.Poised := by
  refine reached.along (motive := Situation.Poised) ?_ ?_
  · intro settings
    exact ⟨by simp [Situation.world, World.ofSettings], by simp⟩
  · intro earlier later _ poised next
    exact Situation.poised_of_next poised next

theorem Situation.Reachable.waits_for (reached : Reachable permits situation)
    (member : handle ∈ situation.handles) : handle.Waits := by
  have poised := reached.poised
  cases situation with
  | idle | turn => exact (poised.kept handle member).2
  | atWork exec batch =>
      rcases List.mem_cons.mp member with rfl | kept
      · exact (poised.working exec batch rfl).2
      · exact (poised.kept handle kept).2

end Poised

end SimScript
