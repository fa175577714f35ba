import SimScript.Proofs.Execution.Resources
import SimScript.Proofs.Machine.Holdings
import SimScript.Proofs.Store.Depth

/-!
# No array ever contains itself

Scripts share arrays and change them in place, yet in every reachable situation the
store is sound and everything that is held anywhere names arrays of the store.  So
following arrays always ends, and copying, comparing and writing out values do.
-/

namespace SimScript

/-- The store is sound, and every value that is held anywhere names arrays of the store. -/
structure Grounded (world : World) (handles : List Handle) : Prop where
  store : world.store.Sound
  scopes : world.scopes.Hold world.store.Has
  handles : ∀ handle ∈ handles, handle.Holds world.store.Has

namespace Grounded

variable {world : World} {handles : List Handle}

theorem ofHolds (sound : world.store.Sound) (held : world.Holds world.store.Has handles) :
    Grounded world handles :=
  ⟨sound, held.scopes, held.handles⟩

theorem held (grounded : Grounded world handles) : world.Holds world.store.Has handles :=
  ⟨grounded.scopes, grounded.handles⟩

theorem has_nil {store : Store} : store.Has .nil := .ofPlain rfl

end Grounded

namespace Execution

variable {start exec after : Execution}

/-- What the handle at work and all others hold names arrays of the store. -/
def Grounded (exec : Execution) : Prop :=
  SimScript.Grounded exec.world (exec.handle :: exec.world.scheduler.handles)

namespace Grounded

theorem has_of_knows {value : Value} (grounded : exec.Grounded) (known : exec.Knows value) :
    exec.world.store.Has value := by
  have own := grounded.handles exec.handle (by simp)
  cases known with
  | plain plain => exact .ofPlain (Value.asArray?_of_isPlain plain)
  | mentioned mentioned => exact .ofMentioned mentioned
  | frame member held => exact (own.frames _ member).values _ held
  | constant member pushed =>
      exact (own.frames _ member).constants _ (by simp [CallFrame.codes]) _ pushed
  | item member => exact grounded.store.closed _ _ member
  | bound found member => exact grounded.scopes _ _ found _ member

theorem has_of_supplies {code : CodeBlock} (grounded : exec.Grounded)
    (supplied : exec.Supplies code) :
    ∀ value ∈ code.constants, exec.world.store.Has value := by
  intro value constant
  cases supplied with
  | stored stored => exact grounded.store.codeOf stored constant
  | loop member held =>
      have own := grounded.handles exec.handle (by simp)
      exact (own.frames _ member).constants _ (by simp [CallFrame.codes, held]) _ constant

end Grounded

section Moves

variable {knows : Value → Prop} {supplies : CodeBlock → Prop} {recruits : Prop}
  {asked : Change} {given : Reply}

/-- A store that is sound and at least as large as another. -/
structure Outgrows (before after : Store) : Prop where
  sound : after.Sound
  cells : before.cells.size ≤ after.cells.size

theorem Outgrows.refl {store : Store} (sound : store.Sound) : Outgrows store store :=
  ⟨sound, Nat.le_refl _⟩

theorem change_outgrows (sound : exec.world.store.Sound)
    (known : ∀ value, knows value → exec.world.store.Has value)
    (sanctioned : asked.Sanctioned knows supplies recruits exec) :
    Outgrows exec.world.store (asked.perform exec).world.store := by
  cases asked with
  | write cell items =>
      have held : ∀ item ∈ items, exec.world.store.Has item :=
        fun item member => known item (sanctioned.1 item member)
      exact ⟨sound.write held sanctioned.2, by simp [Change.perform, withStore, Store.write]⟩
  | updateObjects | createObject | deleteObject =>
      exact ⟨sound.withObjects fun table => Change.objects table _, Nat.le_refl _⟩
  | nameScope name =>
      dsimp only [Change.perform]
      split <;> exact .refl sound
  | terminate id => exact (exec.world.terminate_spares id).1.symm ▸ .refl sound
  | _ => exact .refl sound

/-- Every move leaves a sound store that is at least as large. -/
theorem move_outgrows (sound : exec.world.store.Sound)
    (known : ∀ value, start.Knows value → exec.world.store.Has value)
    (move : Move start exec after) : Outgrows exec.world.store after.world.store := by
  cases move with
  | change asked sanctioned => exact change_outgrows sound known sanctioned
  | reply given sanctioned =>
      have made := Store.reply_made sound
        (sanctioned.mono fun value => Or.rec (known value) .ofMentioned)
      rw [reply_store]
      exact ⟨made.sound, made.grows.cells⟩
  | leave => exact leave_store.symm ▸ .refl sound
  | _ => exact .refl sound

/-- In the middle of a step the store is at least as large as when the step began. -/
structure GroundedSince (start exec : Execution) : Prop where
  grounded : exec.Grounded
  cells : start.world.store.cells.size ≤ exec.world.store.cells.size

theorem GroundedSince.move (since : GroundedSince start exec) (first : start.Grounded)
    (move : Move start exec after) : GroundedSince start after := by
  obtain ⟨grounded, cells⟩ := since
  have known : ∀ value, start.Knows value → exec.world.store.Has value :=
    fun value atStart => (first.has_of_knows atStart).mono cells
  obtain ⟨sound, larger⟩ := move_outgrows grounded.store known move
  have held : exec.Holds after.world.store.Has :=
    (SimScript.Grounded.held grounded).mono fun _ has => has.mono larger
  refine ⟨.ofHolds sound (held.move move ?_ ?_ ?_), Nat.le_trans cells larger⟩
  · exact fun value atStart => (known value atStart).mono larger
  · intro code atStart value constant
    exact ((first.has_of_supplies atStart value constant).mono cells).mono larger
  · rintro given sanctioned rfl
    have made := Store.reply_made grounded.store
      (sanctioned.mono fun value => Or.rec (known value) .ofMentioned)
    rw [reply_store]
    exact made.has

theorem Grounded.moves (grounded : start.Grounded) (moves : start.Moves after) :
    after.Grounded := by
  have first : GroundedSince start start := ⟨grounded, Nat.le_refl _⟩
  have last : GroundedSince start after :=
    moves.preserves first fun _ _ kept made => kept.move grounded made
  exact last.grounded

end Moves

end Execution

theorem World.Tended.outgrows {world after : World} (tended : world.Tended Store.Has after)
    (sound : world.store.Sound) : Execution.Outgrows world.store after.store := by
  cases tended with
  | terminate id => exact (world.terminate_spares id).1.symm ▸ .refl sound
  | newArray permitted =>
      have made := sound.newArray fun item member => permitted item (List.mem_toArray.mp member)
      exact ⟨made.sound, made.grows.cells⟩
  | newBlock permitted => exact ⟨sound.newBlock permitted, Nat.le_refl _⟩
  | objects update => exact ⟨sound.withObjects update, Nat.le_refl _⟩
  | _ => exact .refl sound

namespace Situation

variable {situation before after : Situation}

theorem Next.grounded (next : before.Next Store.Has after)
    (grounded : Grounded before.world before.handles) : Grounded after.world after.handles := by
  by_cases steps : before.Steps after
  · obtain ⟨exec, batch, rfl, rfl⟩ := steps
    exact Execution.Grounded.moves grounded (Execution.advance_moves exec)
  · have held := next.holds steps Grounded.has_nil (fun _ => id) grounded.held
    have larger : Execution.Outgrows before.world.store after.world.store := by
      by_cases works : ∃ world changed, before = .idle world ∧ after = .idle changed
      · obtain ⟨world, changed, rfl, rfl⟩ := works
        cases next with
        | tend tended => exact tended.outgrows grounded.store
      · rw [(next.spares works steps).1]
        exact .refl grounded.store
    exact .ofHolds larger.sound (held.mono fun _ has => has.mono larger.cells)

/-- Where the host names only arrays that exist, so does everything that is held anywhere. -/
theorem Reachable.grounded (reached : Situation.Reachable Store.Has situation) :
    Grounded situation.world situation.handles :=
  reached.preserved (motive := fun situation => Grounded situation.world situation.handles)
    (fun settings => .ofHolds Store.sound_empty (.fresh settings))
    fun _ _ grounded next => next.grounded grounded

end Situation

/-- Following arrays ends in a world with some handles. -/
structure World.ArraysEnd (world : World) (handles : List Handle) : Prop where
  /-- No array leads back to itself. -/
  acyclic : world.store.Acyclic
  /-- There is no endless way from array to array. -/
  ends : WellFounded fun next cell => next ∈ world.store.links cell
  /-- Every value that is held anywhere names arrays of the store. -/
  held : Grounded world handles
  /-- The bounds on the depth of copies, comparisons and texts never cut anything off. -/
  copies : ∀ value, world.store.Has value → ∀ depth, world.store.depthBound ≤ depth →
    Store.copyTo depth value world.store = world.store.copy value
  compares : ∀ left right, world.store.Has left → ∀ depth, world.store.depthBound ≤ depth →
    world.store.equalsTo depth left right = world.store.equals left right
  renders : ∀ value, world.store.Has value → ∀ depth, world.store.depthBound ≤ depth →
    world.store.render depth true value = world.store.literal value ∧
      world.store.render depth false value = world.store.display value

theorem Grounded.arraysEnd {world : World} {handles : List Handle}
    (grounded : Grounded world handles) : world.ArraysEnd handles := by
  have sound := grounded.store
  refine ⟨sound.acyclic, Store.wellFounded_links sound.acyclic, grounded, ?_, ?_, ?_⟩
  · intro value has depth enough
    exact Store.copyTo_of_nests sound.acyclic.loopless.nests has sound enough (.refl _) sound
  · intro left right has depth enough
    exact Store.equalsTo_of_nests sound.acyclic.loopless.nests enough
  · intro value has depth enough
    have nests : world.store.Nests world.store.depthBound value := sound.acyclic.loopless.nests
    exact ⟨Store.render_of_nests nests enough, Store.render_of_nests nests enough⟩

/-- Whatever scripts do to the arrays that they share, no array comes to contain itself: between any
two operations of a host that names only arrays that exist, and before and after every step of the
handle at work. -/
theorem arrays_never_contain_themselves :
    (∀ machine : Machine, machine.Reachable Store.Has →
      machine.world.ArraysEnd machine.world.scheduler.handles) ∧
    (∀ exec batch, Situation.Reachable Store.Has (.atWork exec batch) →
      exec.world.ArraysEnd (exec.handle :: exec.world.scheduler.handles) ∧
      exec.step.2.world.ArraysEnd (exec.step.2.handle :: exec.step.2.world.scheduler.handles)) := by
  refine ⟨fun machine reached => reached.idle.grounded.arraysEnd, fun exec batch reached => ?_⟩
  have grounded : exec.Grounded := reached.grounded
  exact ⟨Grounded.arraysEnd grounded, Grounded.arraysEnd (grounded.moves exec.step_proper.moves)⟩

/-- A script that is about to put an array into its own element: also after that step no array leads
back to itself. -/
theorem array_put_into_its_element :
    let code : CodeBlock :=
      [.makeArray 0, .assignTo "inner", .getVariable "inner", .makeArray 1, .assignTo "outer",
        .getVariable "inner", .getVariable "outer", .callBinary "pushBack"].map
          fun op => ⟨op, Location.host⟩
    let exec := (fun exec : Execution => exec.advance.2)^[7]
      ((World.ofSettings {}).startAtOnce code)
    Situation.Reachable Store.Has (.atWork exec none) ∧
      exec.world.store.links 1 = [0] ∧ ¬exec.world.store.Reaches 0 1 ∧
      exec.step.2.world.store.Acyclic := by
  intro code exec
  have reached : Situation.Reachable Store.Has (.atWork exec none) := by
    refine .advance (.advance (.advance (.advance (.advance (.advance (.advance
      (.execute (.fresh {}) ?_) ?_) ?_) ?_) ?_) ?_) ?_) ?_
    · simp [code, CodeBlock.constants, Op.constant?]
    all_goals decide +kernel
  obtain ⟨before, after⟩ := arrays_never_contain_themselves.2 exec none reached
  have link : exec.world.store.links 1 = [0] := by decide +kernel
  exact ⟨reached, link, before.acyclic 1 0 (by simp [link]), after.acyclic⟩

end SimScript
