import SimScript.Proofs.Machine.History
import SimScript.Proofs.Scope.Isolation

/-!
# Scripts are isolated from each other

A step of one script leaves every other script alone, but for the one that it ends: the
record of the script stays as it is, and so do the scopes of its frames.  Of the
variables that all scripts share, a step changes public ones only.
-/

namespace SimScript

namespace Scopes

/-- What it takes for a script to keep to the scopes that it may touch: they are its own, they are
not the global one, and look-ups do not leave them. -/
structure Guards (touched : ScopeId → Prop) (scopes : Scopes) (chain : List ScopeId) : Prop where
  tight : scopes.Tight
  own : ∀ id ∈ chain, touched id
  locals : ∀ id, touched id → id ≠ globalScope
  lineage : ∀ {id ancestors}, chain = id :: ancestors → scopes.Lineage id ancestors

theorem Declares.spares {touched : ScopeId → Prop} {scopes after : Scopes} {id : ScopeId}
    (declares : scopes.Declares id after) (tight : scopes.Tight) (own : touched id)
    (local_ : id ≠ globalScope) : Spares touched scopes after ∧ after.Tight := by
  induction declares with
  | refl => exact ⟨.refl scopes, tight⟩
  | tail _ declared induction =>
      obtain ⟨spares, tight⟩ := induction
      obtain ⟨name, value, done⟩ := declared
      have bound := Execution.bind_of_declare done
      refine ⟨spares.trans (.bind (.inr own) (fun _ => local_) bound), ?_⟩
      obtain ⟨scope, opened, rfl⟩ := Option.map_eq_some_iff.mp bound
      exact set_tight tight (by simp [opened])

end Scopes

namespace Execution

variable {touched : ScopeId → Prop} {exec middle after : Execution} {frame : CallFrame}
  {outer : CallStack} {target : Option HandleId}

/-! ## Scopes -/

abbrev Spares (touched : ScopeId → Prop) (exec after : Execution) : Prop :=
  Scopes.Spares touched exec.world.scopes after.world.scopes

theorem scope_eq (stack : exec.handle.stack = frame :: outer) : exec.scope = frame.scope := by
  simp [scope, Handle.top?, stack]

theorem chain_eq (stack : exec.handle.stack = frame :: outer) :
    exec.handle.chain = frame.scope :: outer.map CallFrame.scope := by
  simp [Handle.chain, stack]

theorem deliver_scopes (value : Value) :
    (exec.deliver value).world.scopes = exec.world.scopes := by
  unfold deliver
  split
  · rfl
  · split <;> rfl

theorem leave_spares (own : ∀ id ∈ exec.handle.chain, touched id) :
    Spares touched exec exec.leave ∧ ∀ id ∈ exec.leave.handle.chain, touched id := by
  unfold leave
  split
  · exact ⟨.refl _, own⟩
  case h_2 frame outer stack =>
      rw [chain_eq stack] at own
      exact ⟨.release (own _ List.mem_cons_self), fun id member =>
        own id (List.mem_cons_of_mem _ member)⟩

theorem leaveTo_spares (own : ∀ id ∈ exec.handle.chain, touched id) (depth : Nat) :
    Spares touched exec (exec.leaveTo depth) := by
  refine .unwind fun frame member => own _ ?_
  exact List.mem_map_of_mem (List.mem_of_mem_take member)

theorem terminate_spares (own : ∀ id ∈ exec.handle.chain, touched id) :
    Spares touched exec exec.terminate :=
  .unwind fun _ member => own _ (List.mem_map_of_mem member)

theorem abandonStatement_spares (own : ∀ id ∈ exec.handle.chain, touched id) :
    Spares touched exec exec.abandonStatement := by
  have left : Spares touched exec exec.leaveLoops := leaveTo_spares own _
  rwa [Spares, abandonStatement, mapTop_world]

theorem complete_spares (own : ∀ id ∈ exec.handle.chain, touched id) :
    Spares touched exec (exec.complete frame) := by
  obtain ⟨once, own₁⟩ := leave_spares own
  obtain ⟨twice, own₂⟩ := leave_spares own₁
  obtain ⟨thrice, _⟩ := leave_spares own₂
  unfold complete
  dsimp only
  split
  · rwa [Spares, deliver_scopes]
  · split
    · rw [Spares, deliver_scopes]
      exact once.trans (twice.trans thrice)
    · rw [Spares, deliver_scopes]
      exact once.trans twice
  · rwa [Spares, deliver_scopes]

theorem Loops.spares (loops : exec.Loops after)
    (guards : exec.world.scopes.Guards touched exec.handle.chain)
    (stack : exec.handle.stack = frame :: outer) : Spares touched exec after := by
  cases loops with
  | leave =>
      rw [Spares, leaveLoop, deliver_scopes]
      exact (leave_spares guards.own).1
  | @wait kind _ =>
      have same : (exec.setLoop kind).world = exec.world := mapTop_world _
      rw [Spares, suspend, same]
      exact .refl _
  | enter _ declared =>
      rw [chain_eq stack] at guards
      rw [scope_eq stack] at declared
      have own := guards.own frame.scope List.mem_cons_self
      obtain ⟨spares, tight⟩ := declared.spares guards.tight own (guards.locals _ own)
      exact spares.trans (.push tight _ _)

/-- Of the scopes, a change touches those of the handle at work and of a script that it ends. -/
theorem change_spares {change : Change}
    (guards : exec.world.scopes.Guards touched exec.handle.chain)
    (stack : exec.handle.stack = frame :: outer)
    (aimed : ∀ handle ∈ exec.world.scheduler.handles, change = .terminate handle.id →
      ∀ id ∈ handle.chain, touched id) : Spares touched exec (change.perform exec) := by
  rw [chain_eq stack] at guards
  have own : touched exec.scope := scope_eq stack ▸ guards.own _ List.mem_cons_self
  have local_ := guards.locals _ own
  cases change with
  | declare names =>
      exact Scopes.bindAll_keeps
        (motive := fun scopes => Scopes.Spares touched exec.world.scopes scopes) (.refl _)
        (fun _ _ _ spares bound => spares.trans (.bind (.inr own) (fun _ => local_) bound)) names
  | nameScope name =>
      dsimp only [Spares, Change.perform]
      split
      case h_1 scopes named => exact .setName own local_ named
      case h_2 => exact .refl _
  | spawn code bindings => exact .push guards.tight none bindings
  | terminate id =>
      dsimp only [Spares, Change.perform, World.terminate]
      split
      · exact .refl _
      case h_2 handle found =>
          split
          · exact .refl _
          · have member := Scheduler.mem_of_get? found
            have number : handle.id = id := Scheduler.id_of_get? found
            refine .unwind fun below inside => aimed handle member (by rw [number]) _ ?_
            exact List.mem_map_of_mem inside
  | nothing | write | nameScript | terminateSelf | updateObjects | createObject | deleteObject
  | extensions | network => exact .refl _

theorem Computes.alike (computed : exec.Computes middle) :
    middle.world.scopes = exec.world.scopes ∧ middle.handle.chain = exec.handle.chain := by
  obtain ⟨stack, operands, store⟩ := computed
  exact ⟨rfl, by simp [Handle.chain, stack, withStack]⟩

theorem Does.spares (does : exec.Does target after)
    (guards : exec.world.scopes.Guards touched exec.handle.chain)
    (aimed : ∀ handle ∈ exec.world.scheduler.handles, target = some handle.id →
      ∀ id ∈ handle.chain, touched id) : Spares touched exec after := by
  cases does with
  | compute computed =>
      rw [Spares, computed.alike.1]
      exact .refl _
  | @assign middle computed name value =>
      -- The variable is sought along the chain of the handle at work, and no further.
      obtain ⟨top, rest, middleStack⟩ := computed.inside
      rw [← computed.alike.1, ← computed.alike.2, chain_eq middleStack] at guards
      rw [Spares, ← computed.alike.1, scope_eq middleStack]
      exact (guards.lineage rfl).assign_spares guards.own guards.locals
  | @declare middle scopes computed declared =>
      obtain ⟨top, rest, middleStack⟩ := computed.inside
      rw [← computed.alike.1, ← computed.alike.2, chain_eq middleStack] at guards
      rw [scope_eq middleStack] at declared
      rw [Spares, ← computed.alike.1]
      have own := guards.own top.scope List.mem_cons_self
      exact (declared.spares guards.tight own (guards.locals _ own)).1
  | @perform middle effect computed sanctioned ends =>
      obtain ⟨top, rest, middleStack⟩ := computed.inside
      rw [← computed.alike.1, ← computed.alike.2] at guards
      rw [Spares, ← computed.alike.1]
      cases effect with
      | answer change reply =>
          have scheduler : middle.world.scheduler = exec.world.scheduler :=
            congrArg Standing.scheduler computed.standing
          have changed : Spares touched middle (change.perform middle) := by
            refine change_spares guards middleStack fun handle member same => ?_
            rw [scheduler] at member
            exact aimed handle member (ends handle.id (by rw [same]; rfl))
          rwa [Effect.perform_answer, give_world]
      | enter kind code environment bindings => exact .push guards.tight _ _
      | breakOut depth value =>
          change Scopes.Spares touched _ ((middle.leaveTo depth).deliver value).world.scopes
          rw [deliver_scopes]
          exact leaveTo_spares guards.own depth
      | suspend wake =>
          have same : (middle.pushOperand .nil).world = middle.world := mapTop_world _
          change Scopes.Spares touched _ (middle.pushOperand .nil).world.scopes
          rw [same]
          exact .refl _

/-! ## Whole steps -/

/-- The scopes that a step may touch: those of the handle at work, and those of the script that it
ends. -/
def Touches (exec : Execution) (id : ScopeId) : Prop :=
  id ∈ exec.handle.chain ∨ ∃ handle ∈ exec.world.scheduler.handles,
    exec.target? = some handle.id ∧ id ∈ handle.chain

/-- Every script but the one that is ended is kept, and no scopes are touched but those that may
be. -/
structure Isolates (exec after : Execution) : Prop where
  handles : ∀ other ∈ exec.world.scheduler.handles, exec.target? ≠ some other.id →
    other ∈ after.world.scheduler.handles
  scopes : Spares exec.Touches exec after

theorem Tidy.guards (tidy : exec.Tidy) :
    exec.world.scopes.Guards exec.Touches exec.handle.chain where
  tight := tidy.owned.tight
  own := fun _ => .inl
  locals := by
    have owned : ∀ handle ∈ exec.handle :: exec.world.scheduler.handles, ∀ id ∈ handle.chain,
        id ≠ globalScope := by
      intro handle member id inside
      refine ((tidy.owned.live id).mp ?_).1
      exact List.mem_flatten_of_mem (List.mem_map_of_mem member) inside
    rintro id (own | ⟨handle, member, _, theirs⟩)
    · exact owned exec.handle List.mem_cons_self id own
    · exact owned handle (List.mem_cons_of_mem _ member) id theirs
  lineage := by
    intro id ancestors chain
    apply tidy.owned.lineage
    simp [chain]

section Isolates

variable {instruction : Instruction} {moved : CallFrame}

theorem Isolates.ofStanding (same : after.standing = exec.standing)
    (scopes : Spares exec.Touches exec after) : exec.Isolates after := by
  have scheduler : after.world.scheduler = exec.world.scheduler :=
    congrArg Standing.scheduler same
  refine ⟨fun other member _ => ?_, scopes⟩
  rwa [scheduler]

theorem placed_chain (stack : exec.handle.stack = frame :: outer)
    (fetched : frame.fetch? = some (instruction, moved)) :
    (exec.placed instruction moved).handle.chain = exec.handle.chain := by
  obtain ⟨_, _, same⟩ := Option.map_eq_some_iff.mp fetched
  obtain ⟨rfl, rfl⟩ := Prod.mk.inj same
  rw [chain_eq (placed_stack stack), chain_eq stack]

theorem Tidy.guards_placed (tidy : exec.Tidy) (stack : exec.handle.stack = frame :: outer)
    (fetched : frame.fetch? = some (instruction, moved)) :
    (exec.placed instruction moved).world.scopes.Guards exec.Touches
      (exec.placed instruction moved).handle.chain := by
  rw [placed_world, placed_chain stack fetched]
  exact tidy.guards

theorem Loops.isolates (tidy : exec.Tidy) (due : exec.Due frame)
    (loops : exec.charged.Loops after) : exec.Isolates after := by
  obtain ⟨outer, stack⟩ := due.stack
  have guards : exec.charged.world.scopes.Guards exec.Touches exec.charged.handle.chain :=
    tidy.guards
  have scheduler : after.world.scheduler = exec.world.scheduler :=
    congrArg Standing.scheduler loops.standing
  refine ⟨fun other member _ => ?_, loops.spares guards stack⟩
  rwa [scheduler]

theorem Does.isolates (tidy : exec.Tidy) (due : exec.Due frame)
    (paid : exec.charge? = some exec.charged)
    (fetched : frame.fetch? = some (instruction, moved))
    (does : (exec.placed instruction moved).Does (moved.target? instruction.op) after) :
    exec.Isolates after := by
  obtain ⟨outer, stack⟩ := due.stack
  obtain ⟨scheduler, meets, changed⟩ := does.standing
  rw [placed_world] at meets
  rw [← target?_of_fetch due paid fetched] at does meets
  have aimed : ∀ handle ∈ (exec.placed instruction moved).world.scheduler.handles,
      exec.target? = some handle.id → ∀ id ∈ handle.chain, exec.Touches id := by
    intro handle member named id theirs
    rw [placed_world] at member
    exact .inr ⟨handle, member, named, theirs⟩
  have spares := does.spares (tidy.guards_placed stack fetched) aimed
  rw [Spares, placed_world] at spares
  refine ⟨fun other member spared => ?_, spares⟩
  have met : after.world.scheduler = scheduler := congrArg Standing.scheduler changed
  rw [met]
  refine meets.kept (fun handle held => ?_) member spared
  exact tidy.issued handle (List.mem_cons_of_mem _ held)

theorem Fails.alike (fails : exec.Fails after) :
    after.world.scheduler = exec.world.scheduler ∧ after.world.scopes = exec.world.scopes ∧
      after.handle.chain = exec.handle.chain := by
  cases fails with
  | loop => exact ⟨rfl, rfl, rfl⟩
  | dispatch due paid fetched computed =>
      obtain ⟨outer, stack⟩ := due.stack
      have scheduler : after.world.scheduler = exec.world.scheduler :=
        congrArg Standing.scheduler (computed.standing.trans placed_standing)
      rw [computed.alike.1, computed.alike.2, placed_chain stack fetched, placed_world]
      exact ⟨scheduler, rfl, rfl⟩

theorem Fails.isolates (fails : exec.Fails after) : exec.Isolates after := by
  obtain ⟨scheduler, scopes, _⟩ := fails.alike
  refine ⟨fun other member _ => scheduler ▸ member, ?_⟩
  rw [Spares, scopes]
  exact .refl _

/-- What is given up is given up by the handle at work alone. -/
theorem Fails.isolates_abandoned {failed : Execution} (fails : exec.Fails failed)
    (same : after.standing = failed.standing)
    (scopes : (∀ id ∈ failed.handle.chain, exec.Touches id) → Spares exec.Touches failed after) :
    exec.Isolates after := by
  obtain ⟨scheduler, before, chain⟩ := fails.alike
  have spares := scopes fun id member => .inl (chain ▸ member)
  have kept : after.world.scheduler = exec.world.scheduler :=
    (congrArg Standing.scheduler same).trans scheduler
  refine ⟨fun other member _ => kept ▸ member, ?_⟩
  rwa [Spares, before] at spares

theorem step_isolates (tidy : exec.Tidy) : exec.Isolates exec.step.2 := by
  have own : ∀ id ∈ exec.handle.chain, exec.Touches id := fun _ => .inl
  have steps := exec.step_cases
  generalize exec.step = outcome at steps ⊢
  cases steps with
  | terminate requested => exact .ofStanding terminate_standing (terminate_spares own)
  | finish outside => exact .ofStanding (finish_standing _) (.refl _)
  | complete top exhausted block => exact .ofStanding complete_standing (complete_spares own)
  | refuse due unpaid => exact .ofStanding rfl (.refl _)
  | loop due paid loops comes =>
      cases result : outcome.1.result with
      | ok => exact (comes.done result).isolates tidy due
      | error abort =>
          rw [comes.failed abort result]
          exact (Fails.loop due paid loops).isolates
  | dispatch due paid fetched comes =>
      cases result : outcome.1.result with
      | ok => exact (comes.done result).isolates tidy due paid fetched
      | error abort =>
          exact (Fails.dispatch due paid fetched (comes.failed abort result)).isolates

theorem advance_isolates (tidy : exec.Tidy) : exec.Isolates exec.advance.2 := by
  have own : ∀ id ∈ exec.handle.chain, exec.Touches id := fun _ => .inl
  obtain ⟨after, advances, same⟩ := exec.advance_cases
  rw [same]
  suffices isolates : exec.Isolates after from ⟨isolates.handles, isolates.scopes⟩
  cases advances with
  | terminate requested => exact .ofStanding terminate_standing (terminate_spares own)
  | finish outside => exact .ofStanding (finish_standing _) (.refl _)
  | complete top exhausted block => exact .ofStanding complete_standing (complete_spares own)
  | refuse due unpaid => exact .ofStanding abandonHandle_standing (terminate_spares own)
  | loop due paid loops done => exact done.isolates tidy due
  | dispatch due paid fetched done => exact done.isolates tidy due paid fetched
  | giveUpStatement given fails =>
      exact fails.isolates_abandoned abandonStatement_standing abandonStatement_spares
  | giveUpHandle fails => exact fails.isolates_abandoned abandonHandle_standing terminate_spares

theorem Tidy.untouched {other : Handle} (tidy : exec.Tidy)
    (member : other ∈ exec.world.scheduler.handles) (spared : exec.target? ≠ some other.id)
    (theirs : frame ∈ other.stack) : ¬exec.Touches frame.scope := by
  rintro (own | ⟨ended, held, aimed, inside⟩)
  · obtain ⟨ours, place, same⟩ := List.mem_map.mp own
    exact tidy.apart member theirs place same.symm
  · obtain ⟨below, place, same⟩ := List.mem_map.mp inside
    have different : other.id ≠ ended.id := fun sameId => spared (sameId ▸ aimed)
    exact SimScript.Tidy.apart tidy (List.mem_cons_of_mem _ member) (List.mem_cons_of_mem _ held)
      different theirs place same.symm

/-- A script that is not ended is kept as it is, with all its scopes. -/
theorem Isolates.keeps {other : Handle} (isolates : exec.Isolates after) (tidy : exec.Tidy)
    (tidied : after.Tidy) (member : other ∈ exec.world.scheduler.handles)
    (spared : exec.target? ≠ some other.id) :
    after.world.scheduler.get? other.id = some other ∧ ∀ frame ∈ other.stack, ∃ scope,
      exec.world.scopes.get? frame.scope = some scope ∧
      after.world.scopes.get? frame.scope = some scope := by
  constructor
  · have ids := (List.nodup_cons.mp tidied.ids).2
    exact Scheduler.get?_of_mem ids (isolates.handles other member spared)
  · intro frame theirs
    have owned : frame.scope ∈
        ((exec.handle :: exec.world.scheduler.handles).map Handle.chain).flatten :=
      List.mem_flatten_of_mem (List.mem_map_of_mem (List.mem_cons_of_mem _ member))
        (List.mem_map_of_mem theirs)
    obtain ⟨local_, isOpen⟩ := (tidy.owned.live frame.scope).mp owned
    have kept := isolates.scopes.locals frame.scope local_ (tidy.untouched member spared theirs)
      isOpen
    obtain ⟨scope, opened⟩ := Option.isSome_iff_exists.mp isOpen
    exact ⟨scope, opened, kept.trans opened⟩

end Isolates

end Execution

end SimScript
