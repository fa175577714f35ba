import SimScript.Proofs.Machine.Queue

/-!
# How much scripts have executed

While one script is at work the others rest: they stay as they are or are ended, and in
neither case do they execute anything.  So all that is executed between two moments is
executed by the scripts that were at work.
-/

namespace SimScript

namespace Scheduler

variable {scheduler changed : Scheduler} {handle : Handle} {id : HandleId}

def executedBy (scheduler : Scheduler) (id : HandleId) : Nat :=
  ((scheduler.get? id).map Handle.executed).getD 0

def executed (scheduler : Scheduler) : Nat :=
  (scheduler.handles.map Handle.executed).sum

theorem get?_congr (same : changed.handles = scheduler.handles) :
    changed.get? id = scheduler.get? id := by
  rw [get?, get?, same]

theorem get?_remove_of_ne {other : HandleId} (different : id ≠ other) :
    (scheduler.remove other).get? id = scheduler.get? id := by
  rw [get?, get?, remove, List.find?_filter]
  congr 1
  funext handle
  by_cases same : handle.id = id
  · simp [same, different]
  · simp [same]

theorem get?_put_of_ne (different : id ≠ handle.id) :
    (scheduler.put handle).get? id = scheduler.get? id := by
  have others : (scheduler.remove handle.id).get? id = scheduler.get? id :=
    get?_remove_of_ne different
  rw [get?, put_handles, List.find?_append, ← others]
  simp [get?, Ne.symm different]

theorem get?_eq_none_of_lt (issued : ∀ handle ∈ scheduler.handles, handle.id ≤ scheduler.lastId)
    (new : scheduler.lastId < id) : scheduler.get? id = none := by
  apply List.find?_eq_none.mpr
  intro handle member same
  have old := issued handle member
  have number : handle.id = id := by simpa using same
  exact Nat.not_le_of_lt new (number ▸ old)

theorem executed_remove (ids : (scheduler.handles.map Handle.id).Nodup) (id : HandleId) :
    (scheduler.remove id).executed + scheduler.executedBy id = scheduler.executed := by
  cases found : scheduler.get? id with
  | none =>
      have different : ∀ other ∈ scheduler.handles, other.id != id := by
        intro other member
        simpa using List.find?_eq_none.mp found other member
      have same : (scheduler.remove id).handles = scheduler.handles :=
        List.filter_eq_self.mpr different
      simp [executed, executedBy, found, same]
  | some handle =>
      have number : handle.id = id := Scheduler.id_of_get? found
      have first := (perm_remove ids (mem_of_get? found)).map Handle.executed
      rw [number] at first
      rw [executed, executed, first.sum_nat]
      simp [executedBy, found, Nat.add_comm]

theorem executed_put (ids : (scheduler.handles.map Handle.id).Nodup) (handle : Handle) :
    (scheduler.put handle).executed + scheduler.executedBy handle.id =
      scheduler.executed + handle.executed := by
  have put : (scheduler.put handle).executed =
      (scheduler.remove handle.id).executed + handle.executed := by
    simp [executed, put_handles]
  have rest := executed_remove ids handle.id
  omega

end Scheduler

section Keep

variable {world : World} {handle : Handle} {id : HandleId}

theorem World.keep_get?_self :
    (World.keep handle world).scheduler.get? handle.id = some handle :=
  (Scheduler.get?_congr World.keep_handles).trans Scheduler.get?_put

theorem World.keep_get?_of_ne (different : id ≠ handle.id) :
    (World.keep handle world).scheduler.get? id = world.scheduler.get? id :=
  (Scheduler.get?_congr World.keep_handles).trans (Scheduler.get?_put_of_ne different)

end Keep

/-! ## Who rests -/

/-- The script of a number rests between two moments.  There may be no such script before, and one
that has executed nothing afterwards. -/
structure Scheduler.Spares (before after : Scheduler) (id : HandleId) : Prop where
  executed : after.executedBy id = before.executedBy id
  held : ∀ handle, before.get? id = some handle →
    ∃ later, after.get? id = some later ∧ handle.Spared later

namespace Scheduler.Spares

variable {before middle after : Scheduler} {id : HandleId}

theorem refl (scheduler : Scheduler) : scheduler.Spares scheduler id :=
  ⟨rfl, fun handle found => ⟨handle, found, .same⟩⟩

theorem trans (first : before.Spares middle id) (second : middle.Spares after id) :
    before.Spares after id := by
  refine ⟨second.executed.trans first.executed, ?_⟩
  intro handle found
  obtain ⟨later, held, spared⟩ := first.held handle found
  obtain ⟨last, kept, stays⟩ := second.held later held
  exact ⟨last, kept, spared.trans stays⟩

theorem of_get? (same : after.get? id = before.get? id) : before.Spares after id := by
  refine ⟨by rw [executedBy, executedBy, same], ?_⟩
  intro handle found
  exact ⟨handle, same.trans found, .same⟩

end Scheduler.Spares

section Meets

variable {world : World} {scheduler : Scheduler} {target : Option HandleId}

/-- One handle at most is kept anew when a script is met, and it counts as much as the one in whose
place it is kept. -/
theorem World.Meets.replaces (meets : world.Meets target scheduler)
    (issued : ∀ handle ∈ world.scheduler.handles, handle.id ≤ world.scheduler.lastId) :
    scheduler.handles = world.scheduler.handles ∨
      ∃ met : Handle, scheduler.handles = (world.scheduler.put met).handles ∧
        world.scheduler.executedBy met.id = met.executed ∧
        ∀ handle, world.scheduler.get? met.id = some handle → handle.Spared met := by
  cases meets.met with
  | nobody same => exact .inl (congrArg Scheduler.handles same)
  | @spawned new fresh _ number handles _ _ =>
      have nobody : world.scheduler.get? new.id = none := by
        apply Scheduler.get?_eq_none_of_lt issued
        exact Nat.lt_of_lt_of_eq (Nat.lt_succ_self _) number.symm
      refine .inr ⟨new, handles, ?_, by simp [nobody]⟩
      simp [Scheduler.executedBy, nobody, fresh.executed]
  | @ended handle _ found live put =>
      have spared : handle.Spared handle.stopped := .stopped live
      rw [← spared.id] at found
      refine .inr ⟨handle.stopped, congrArg Scheduler.handles put, ?_, ?_⟩
      · simp [Scheduler.executedBy, found, spared.executed]
      · intro held same
        obtain rfl := Option.some.inj (found.symm.trans same)
        exact spared

theorem World.Meets.spares {id : HandleId} (meets : world.Meets target scheduler)
    (issued : ∀ handle ∈ world.scheduler.handles, handle.id ≤ world.scheduler.lastId) :
    world.scheduler.Spares scheduler id := by
  rcases meets.replaces issued with same | ⟨met, put, count, spared⟩
  · exact .of_get? (Scheduler.get?_congr same)
  by_cases number : id = met.id
  · subst number
    have kept : scheduler.get? met.id = some met :=
      (Scheduler.get?_congr put).trans Scheduler.get?_put
    refine ⟨?_, fun handle found => ⟨met, kept, spared handle found⟩⟩
    rw [count, Scheduler.executedBy, kept]
    rfl
  · exact .of_get? ((Scheduler.get?_congr put).trans (Scheduler.get?_put_of_ne number))

theorem World.Meets.executed (meets : world.Meets target scheduler)
    (ids : (world.scheduler.handles.map Handle.id).Nodup)
    (issued : ∀ handle ∈ world.scheduler.handles, handle.id ≤ world.scheduler.lastId) :
    scheduler.executed = world.scheduler.executed := by
  rcases meets.replaces issued with same | ⟨met, put, count, _⟩
  · rw [Scheduler.executed, same, Scheduler.executed]
  · have replaced := Scheduler.executed_put ids met
    have total : scheduler.executed = (world.scheduler.put met).executed := by
      rw [Scheduler.executed, put, Scheduler.executed]
    omega

end Meets

/-! ## Who works -/

/-- One script works while all others rest. -/
structure Execution.WorksAlone (exec after : Execution) : Prop where
  id : after.handle.id = exec.handle.id
  executed : exec.handle.executed ≤ after.handle.executed
  spares : ∀ id, exec.world.scheduler.Spares after.world.scheduler id
  total : after.world.scheduler.executed = exec.world.scheduler.executed

namespace Execution.WorksAlone

variable {exec middle after : Execution}

theorem refl (exec : Execution) : exec.WorksAlone exec :=
  ⟨rfl, Nat.le_refl _, fun _ => .refl _, rfl⟩

theorem trans (first : exec.WorksAlone middle) (second : middle.WorksAlone after) :
    exec.WorksAlone after where
  id := second.id.trans first.id
  executed := Nat.le_trans first.executed second.executed
  spares := fun id => (first.spares id).trans (second.spares id)
  total := second.total.trans first.total

end Execution.WorksAlone

namespace Situation.Reachable

variable {permits : Store → Value → Prop} {exec : Execution} {batch : Option (List HandleId)}

theorem advance_worksAlone (reached : Reachable permits (.atWork exec batch))
    (running : exec.handle.state = .running) : exec.WorksAlone exec.advance.2 := by
  have tidy := reached.tidy
  have ids : (exec.world.scheduler.handles.map Handle.id).Nodup :=
    (List.nodup_cons.mp tidy.ids).2
  have issued : ∀ handle ∈ exec.world.scheduler.handles,
      handle.id ≤ exec.world.scheduler.lastId :=
    fun handle member => tidy.issued handle (List.mem_cons_of_mem _ member)
  have meets := Execution.advance_meets running
  constructor
  · exact Execution.advance_id running
  · cases Execution.advance_settled running with
    | free same _ => exact Nat.le_of_eq (congrArg Standing.executed same).symm
    | paid _ _ counted =>
        have more : exec.advance.2.handle.executed = exec.handle.executed + 1 :=
          congrArg Standing.executed counted
        omega
  · exact fun id => meets.spares issued
  · exact meets.executed ids issued

theorem run_worksAlone {fuel : Nat} {events : Array Event} {done : Array Event × Execution}
    (reached : Reachable permits (.atWork exec batch))
    (ran : exec.run fuel events = some done) : exec.WorksAlone done.2 := by
  replace ran := Execution.runsTo_of_run ran
  induction ran with
  | yields => exact .refl done.2
  | works running _ induction =>
      exact (reached.advance_worksAlone running).trans (induction (reached.advance running))

end Situation.Reachable

end SimScript
