import Mathlib.Algebra.GroupWithZero.Nat
import Mathlib.Data.List.Pairwise
import SimScript.Proofs.Machine.Reachable
import SimScript.Proofs.Scope.Ownership

/-!
# The open scopes are those of the frames

In every reachable situation, and after every step, each frame of each handle owns an
open scope, every open local scope is owned by one frame, and the parents of a scope
are the scopes of the frames below.  A handle that has come to its end has no frames.
-/

namespace SimScript

/-- The scopes of the frames of a handle, the innermost first. -/
def Handle.chain (handle : Handle) : List ScopeId :=
  handle.stack.map CallFrame.scope

/-- The open scopes are those of the frames of some handles, which have numbers of their own; and a
handle that has come to its end has no frames. -/
structure Tidy (scopes : Scopes) (lastId : Nat) (handles : List Handle) : Prop where
  owned : scopes.Owned (handles.map Handle.chain)
  ids : (handles.map Handle.id).Nodup
  issued : ∀ handle ∈ handles, handle.id ≤ lastId
  ended : ∀ handle ∈ handles, handle.isAbsorbed → handle.stack = []

namespace Tidy

variable {scopes after : Scopes} {lastId : Nat} {handle changed : Handle}
  {handles others : List Handle}

theorem empty (lastId : Nat) : Tidy {} lastId [] :=
  ⟨.empty, List.nodup_nil, by simp, by simp⟩

theorem perm (tidy : Tidy scopes lastId handles) (same : handles.Perm others) :
    Tidy scopes lastId others where
  owned := tidy.owned.perm (same.map _)
  ids := (same.map _).nodup_iff.mp tidy.ids
  issued := fun handle member => tidy.issued handle (same.mem_iff.mpr member)
  ended := fun handle member => tidy.ended handle (same.mem_iff.mpr member)

theorem replace (tidy : Tidy scopes lastId (handle :: others)) (id : changed.id = handle.id)
    (owned : after.Owned (changed.chain :: others.map Handle.chain))
    (ended : changed.isAbsorbed → changed.stack = []) :
    Tidy after lastId (changed :: others) where
  owned := owned
  ids := by simpa [id] using tidy.ids
  issued := by
    rintro other (_ | ⟨_, member⟩)
    · exact id ▸ tidy.issued handle (by simp)
    · exact tidy.issued other (List.mem_cons_of_mem _ member)
  ended := by
    rintro other (_ | ⟨_, member⟩)
    · exact ended
    · exact tidy.ended other (List.mem_cons_of_mem _ member)

theorem apart {other : Handle} {frame own : CallFrame} (tidy : Tidy scopes lastId handles)
    (member : other ∈ handles) (held : handle ∈ handles) (different : other.id ≠ handle.id)
    (theirs : frame ∈ other.stack) (ours : own ∈ handle.stack) : frame.scope ≠ own.scope := by
  have pairs := List.pairwise_map.mp (List.nodup_flatten.mp tidy.owned.once).2
  have symm : Std.Symm fun one two : Handle => one.chain.Disjoint two.chain :=
    ⟨fun _ _ disjoint _ second first => disjoint first second⟩
  have disjoint : other.chain.Disjoint handle.chain := by
    refine pairs.forall member held ?_
    rintro rfl
    exact different rfl
  intro same
  exact disjoint (List.mem_map_of_mem theirs) (same ▸ List.mem_map_of_mem ours)

theorem run (tidy : Tidy scopes lastId (handle :: others)) :
    Tidy scopes lastId (handle.become .running :: others) := by
  refine tidy.replace (Handle.become_id handle .running) ?_ fun absorbed => ?_
  · simpa [Handle.chain] using tidy.owned
  · rw [Handle.become_stack]
    exact tidy.ended handle (by simp) (Handle.isAbsorbed_of_become rfl absorbed)

theorem rescope (tidy : Tidy scopes lastId handles)
    (owned : after.Owned (handles.map Handle.chain)) : Tidy after lastId handles :=
  ⟨owned, tidy.ids, tidy.issued, tidy.ended⟩

theorem newHandle {world : World} (tidy : Tidy world.scopes world.scheduler.lastId handles)
    (code : CodeBlock) (bindings : Bindings) (environment : Environment) (origin : Location) :
    let created := world.newHandle code bindings environment origin
    Tidy created.2.scopes created.2.scheduler.lastId (created.1 :: handles) := by
  intro created
  have pushed := (Scopes.Owned.nil_cons_iff.mpr tidy.owned).push bindings
    (show (none : Option ScopeId).filter (fun id => id != globalScope) = [].head? from rfl)
  refine ⟨pushed, ?_, ?_, ?_⟩
  · refine List.nodup_cons.mpr ⟨?_, tidy.ids⟩
    intro member
    obtain ⟨other, inHandles, same⟩ := List.mem_map.mp member
    have bounded := tidy.issued other inHandles
    rw [same] at bounded
    exact Nat.not_succ_le_self _ bounded
  · rintro other (_ | ⟨_, member⟩)
    · exact Nat.le_refl _
    · exact Nat.le_succ_of_le (tidy.issued other member)
  · rintro other (_ | ⟨_, member⟩)
    · intro absorbed
      simp [created, World.newHandle, Handle.isAbsorbed, HandleState.isAbsorbed] at absorbed
    · exact tidy.ended other member

end Tidy

namespace Scheduler

variable {scheduler : Scheduler} {handle : Handle}

theorem remove_eq_self (different : ∀ other ∈ scheduler.handles, other.id ≠ handle.id) :
    (scheduler.remove handle.id).handles = scheduler.handles :=
  List.filter_eq_self.mpr fun other member => bne_iff_ne.mpr (different other member)

theorem perm_remove (ids : (scheduler.handles.map Handle.id).Nodup)
    (member : handle ∈ scheduler.handles) :
    scheduler.handles.Perm (handle :: (scheduler.remove handle.id).handles) := by
  obtain ⟨before, after, split⟩ := List.append_of_mem member
  rw [split, List.map_append, List.map_cons] at ids
  have unique := (List.nodup_cons.mp (List.nodup_middle.mp ids)).1
  have kept : ∀ part ⊆ before ++ after,
      part.filter (fun other => other.id != handle.id) = part := by
    intro part inside
    refine List.filter_eq_self.mpr fun other inPart => bne_iff_ne.mpr fun same => unique ?_
    rw [← List.map_append, ← same]
    exact List.mem_map_of_mem (inside inPart)
  have rest : (scheduler.remove handle.id).handles = before ++ after := by
    rw [remove, split, List.filter_append, List.filter_cons_of_neg (by simp),
      kept before (List.subset_append_left _ _), kept after (List.subset_append_right _ _)]
  rw [rest, split]
  exact List.perm_middle

end Scheduler

namespace Tidy

variable {world : World} {front : List Handle} {handle : Handle}

theorem put (tidy : Tidy world.scopes world.scheduler.lastId (handle :: world.scheduler.handles)) :
    Tidy world.scopes world.scheduler.lastId (world.scheduler.put handle).handles := by
  have different : ∀ other ∈ world.scheduler.handles, other.id ≠ handle.id := by
    intro other member same
    exact (List.nodup_cons.mp tidy.ids).1 (same ▸ List.mem_map_of_mem member)
  rw [Scheduler.put_handles, Scheduler.remove_eq_self different]
  exact tidy.perm (List.perm_append_singleton _ _).symm

theorem spawn (tidy : Tidy world.scopes world.scheduler.lastId (front ++ world.scheduler.handles))
    (code : CodeBlock) (bindings : Bindings) (origin : Location) :
    let spawned := (world.spawn code bindings origin).2
    Tidy spawned.scopes spawned.scheduler.lastId (front ++ spawned.scheduler.handles) := by
  intro spawned
  let created := (world.newHandle code bindings .scheduled origin).1
  have different : ∀ other ∈ world.scheduler.handles, other.id ≠ created.id := by
    intro other member same
    have bounded := tidy.issued other (List.mem_append_right _ member)
    rw [same] at bounded
    exact Nat.not_succ_le_self _ bounded
  have kept : spawned.scheduler.handles = world.scheduler.handles ++ [created] := by
    have removed := Scheduler.remove_eq_self different
    simp only [spawned, World.spawn, Scheduler.enqueue, Scheduler.put_handles]
    exact congrArg (· ++ [created]) removed
  rw [kept, ← List.append_assoc]
  exact (tidy.newHandle code bindings .scheduled origin).perm
    (List.perm_append_singleton _ _).symm

theorem terminate {id : HandleId}
    (tidy : Tidy world.scopes world.scheduler.lastId (front ++ world.scheduler.handles)) :
    let ended := world.terminate id
    Tidy ended.scopes ended.scheduler.lastId (front ++ ended.scheduler.handles) := by
  intro ended
  unfold ended World.terminate
  split
  · exact tidy
  case h_2 handle found =>
      split
      · exact tidy
      · have ids : (world.scheduler.handles.map Handle.id).Nodup := by
          have both := tidy.ids
          rw [List.map_append] at both
          exact (List.nodup_append.mp both).2.1
        have first := tidy.perm ((Scheduler.perm_remove ids
          (Scheduler.mem_of_get? found)).append_left front |>.trans List.perm_middle)
        let gone := { handle.become .terminated with stack := [] }
        have replaced : Tidy (CallStack.unwind handle.stack world.scopes)
            world.scheduler.lastId
              (gone :: (front ++ (world.scheduler.remove handle.id).handles)) :=
          first.replace (Handle.become_id handle .terminated)
            (Scopes.Owned.nil_cons_iff.mpr first.owned.unwind.2) fun _ => rfl
        have kept : (world.scheduler.put gone).handles =
            (world.scheduler.remove handle.id).handles ++ [gone] := by
          rw [Scheduler.put_handles, ← Handle.become_id handle .terminated]
        rw [kept, ← List.append_assoc]
        exact replaced.perm (List.perm_append_singleton _ _).symm

theorem reap {scopes : Scopes} {lastId : Nat} {handles : List Handle}
    (tidy : Tidy scopes lastId handles) :
    Tidy scopes lastId (handles.filter fun handle => !handle.isAbsorbed) := by
  have sublist : (handles.filter fun handle => !handle.isAbsorbed).Sublist handles :=
    List.filter_sublist
  have sameScopes : ((handles.filter fun handle => !handle.isAbsorbed).map Handle.chain).flatten =
      (handles.map Handle.chain).flatten := by
    have ended := tidy.ended
    clear tidy sublist
    induction handles with
    | nil => rfl
    | cons handle rest induction =>
        have kept := induction fun other member => ended other (List.mem_cons_of_mem _ member)
        cases absorbed : handle.isAbsorbed with
        | true => simpa [absorbed, Handle.chain, ended handle (by simp) absorbed] using kept
        | false => simpa [absorbed] using kept
  refine ⟨⟨tidy.owned.tight, ?_, ?_, ?_⟩, ?_, ?_, ?_⟩
  · rw [sameScopes]
    exact tidy.owned.once
  · rw [sameScopes]
    exact tidy.owned.live
  · exact fun member => tidy.owned.lineage ((sublist.map _).subset member)
  · exact (sublist.map _).nodup tidy.ids
  · exact fun handle member => tidy.issued handle (sublist.subset member)
  · exact fun handle member => tidy.ended handle (sublist.subset member)

end Tidy

namespace Execution

variable {start exec after : Execution}

/-- The handle at work and all others, with the scopes of their frames. -/
def Tidy (exec : Execution) : Prop :=
  SimScript.Tidy exec.world.scopes exec.world.scheduler.lastId
    (exec.handle :: exec.world.scheduler.handles)

namespace Tidy

theorem adjust {frame adjusted : CallFrame} {outer : CallStack} (tidy : exec.Tidy)
    (stack : exec.handle.stack = frame :: outer) (scope : adjusted.scope = frame.scope) :
    (exec.withStack (adjusted :: outer)).Tidy := by
  refine SimScript.Tidy.replace tidy rfl ?_ ?_
  · have sameChain : { exec.handle with stack := adjusted :: outer }.chain =
        exec.handle.chain := by
      simp [Handle.chain, stack, scope]
    exact sameChain ▸ tidy.owned
  · intro absorbed
    have empty := tidy.ended exec.handle (by simp) absorbed
    simp [stack] at empty

theorem apart {other : Handle} {frame own : CallFrame} (tidy : exec.Tidy)
    (member : other ∈ exec.world.scheduler.handles) (theirs : frame ∈ other.stack)
    (ours : own ∈ exec.handle.stack) : frame.scope ≠ own.scope := by
  refine SimScript.Tidy.apart tidy (List.mem_cons_of_mem _ member) List.mem_cons_self ?_ theirs ours
  intro same
  exact (List.nodup_cons.mp tidy.ids).1 (same ▸ List.mem_map_of_mem member)

theorem mapTop {change : CallFrame → CallFrame} (tidy : exec.Tidy)
    (scope : ∀ frame, (change frame).scope = frame.scope) : (exec.mapTop change).Tidy := by
  unfold Execution.mapTop
  split
  · exact tidy
  case h_2 frame outer stack => exact tidy.adjust stack (scope frame)

theorem enter {kind : FrameKind} {code : CodeBlock} {environment : Environment}
    {bindings : Bindings} (tidy : exec.Tidy) (inside : exec.handle.stack ≠ []) :
    (exec.enter kind code environment bindings).Tidy := by
  have below : ((some exec.scope).filter fun id => id != globalScope) =
      exec.handle.chain.head? := by
    cases stack : exec.handle.stack with
    | nil => exact absurd stack inside
    | cons frame outer =>
        have owned := (tidy.owned.live frame.scope).mp (by simp [Handle.chain, stack])
        simp [Execution.scope, Handle.top?, Handle.chain, stack, owned.1]
  refine SimScript.Tidy.replace tidy rfl (tidy.owned.push bindings below) ?_
  intro absorbed
  exact absurd (tidy.ended exec.handle (by simp) absorbed) inside

theorem leave (tidy : exec.Tidy) : exec.leave.Tidy := by
  unfold Execution.leave
  split
  · exact tidy
  case h_2 frame outer stack =>
      have owned := tidy.owned
      rw [List.map_cons, Handle.chain, stack, List.map_cons] at owned
      refine SimScript.Tidy.replace tidy rfl owned.release ?_
      intro absorbed
      have empty := tidy.ended exec.handle (by simp) absorbed
      simp [stack] at empty

theorem settle {handle : Handle} (tidy : exec.Tidy) (id : handle.id = exec.handle.id)
    (same : handle.stack = exec.handle.stack)
    (ended : handle.isAbsorbed → handle.stack = []) : { exec with handle }.Tidy := by
  refine SimScript.Tidy.replace tidy id ?_ ended
  have sameChain : handle.chain = exec.handle.chain := by simp [Handle.chain, same]
  exact sameChain ▸ tidy.owned

theorem change {asked : Change} (tidy : exec.Tidy) : (asked.perform exec).Tidy := by
  have beside : SimScript.Tidy exec.world.scopes exec.world.scheduler.lastId
      ([exec.handle] ++ exec.world.scheduler.handles) := tidy
  cases asked with
  | declare names => exact SimScript.Tidy.rescope tidy (tidy.owned.bindAll names)
  | nameScope name =>
      dsimp only [Change.perform]
      split
      case h_1 scopes named => exact SimScript.Tidy.rescope tidy (tidy.owned.setName named)
      case h_2 => exact tidy
  | nameScript name => exact tidy.settle rfl rfl (tidy.ended exec.handle (by simp))
  | terminateSelf => exact tidy.settle rfl rfl (tidy.ended exec.handle (by simp))
  | spawn code bindings => exact beside.spawn code bindings exec.location
  | terminate id => exact beside.terminate
  | nothing | write | updateObjects | createObject | deleteObject | extensions | network =>
      exact tidy

/-- Every move keeps the scopes with their frames. -/
theorem move (tidy : exec.Tidy) (move : Move start exec after) : after.Tidy := by
  cases move with
  | record handle location keeps =>
      apply tidy.settle keeps.id keeps.stack
      intro absorbed
      rw [keeps.stack]
      apply tidy.ended exec.handle (by simp)
      rwa [Handle.isAbsorbed, keeps.state] at absorbed
  | adjust stack adjusts => exact tidy.adjust stack adjusts.scope
  | bind known bound => exact SimScript.Tidy.rescope tidy (tidy.owned.bind bound)
  | change asked _ => exact tidy.change
  | reply given _ =>
      have stored : (exec.withStore (given.make exec.world.store).2).Tidy := tidy
      exact stored.mapTop fun _ => rfl
  | enter inside _ => exact tidy.enter inside
  | leave => exact tidy.leave
  | finish outside _ => exact tidy.settle (by simp) (by simp) fun _ => by simpa using outside
  | terminate outside => exact tidy.settle (by simp) (by simp) fun _ => by simpa using outside
  | suspend wake =>
      apply tidy.settle (by simp) (by simp)
      intro absorbed
      have before := Handle.isAbsorbed_of_become rfl absorbed
      simpa using tidy.ended exec.handle (by simp) before
  | log events => exact tidy

theorem moves (tidy : start.Tidy) (moves : start.Moves after) : after.Tidy :=
  moves.preserves tidy fun _ _ kept made => kept.move made

end Tidy

end Execution

theorem Situation.Reachable.tidy {permits : Store → Value → Prop} {situation : Situation}
    (reached : Situation.Reachable permits situation) :
    Tidy situation.world.scopes situation.world.scheduler.lastId situation.handles := by
  induction reached with
  | fresh settings => exact .empty _
  | @tend world after _ tended induction =>
      have alone : Tidy world.scopes world.scheduler.lastId ([] ++ world.scheduler.handles) :=
        induction
      cases tended with
      | spawn _ _ => exact alone.spawn _ _ Location.host
      | terminate id => exact alone.terminate
      | advance seconds => simpa [Situation.world, Situation.handles, World.advance] using induction
      | reap => exact induction.reap
      | setGlobal name _ => exact induction.rescope (induction.owned.setGlobal name _)
      | newArray | newBlock | objects | equip => exact induction
  | @execute world code _ _ induction =>
      exact (induction.newHandle code [] .unscheduled Location.host).run
  | beginTurn _ induction => exact induction
  | skip _ _ induction => exact induction
  | @take id rest world handle _ found induction =>
      have first := induction.perm
        (Scheduler.perm_remove induction.ids (Scheduler.mem_of_get? found))
      have rested : Tidy world.scopes world.scheduler.lastId
          ({ handle with wake := none } :: (world.scheduler.remove handle.id).handles) :=
        first.replace rfl first.owned (first.ended handle (by simp))
      exact rested.run
  | advance _ _ induction =>
      exact Execution.Tidy.moves induction (Execution.advance_moves _)
  | keep _ _ induction =>
      simp only [Situation.world, Situation.handles, World.keep_handles, World.keep_lastId]
      exact induction.put
  | @close exec _ _ induction =>
      have ended : (if exec.handle.isAbsorbed then exec else exec.terminate).Tidy := by
        split
        · exact induction
        · exact Execution.Tidy.moves induction (Execution.Moves.refl exec).terminate
      exact Tidy.put ended
  | endTurn _ induction => exact induction

/-- The open local scopes are those of the frames of some handles. -/
structure Scopes.MatchFrames (scopes : Scopes) (handles : List Handle) : Prop where
  /-- A scope other than the global one is open exactly when it is the scope of some frame. -/
  live : ∀ id, (id ≠ globalScope ∧ (scopes.get? id).isSome) ↔
    ∃ handle ∈ handles, ∃ frame ∈ handle.stack, frame.scope = id
  /-- No two frames have the same scope. -/
  once : (handles.flatMap fun handle => handle.stack.map CallFrame.scope).Nodup
  /-- The parents of the scope of a frame are the scopes of the frames below it, in order. -/
  lineage : ∀ handle ∈ handles, ∀ inner frame outer, handle.stack = inner ++ frame :: outer →
    scopes.Lineage frame.scope (outer.map CallFrame.scope)
  count : scopes.liveCount = (handles.map fun handle => handle.stack.length).sum
  idle : (∀ handle ∈ handles, handle.isAbsorbed) → scopes.liveCount = 0
  /-- The scopes of a handle can be closed from the innermost on, and each is open until then. -/
  releases : ∀ handle ∈ handles,
    handle.stack.foldlM (fun scopes frame => scopes.pop frame.scope) scopes =
      .ok (CallStack.unwind handle.stack scopes)

theorem Tidy.matchFrames {scopes : Scopes} {lastId : Nat} {handles : List Handle}
    (tidy : Tidy scopes lastId handles) : scopes.MatchFrames handles := by
  have counted : scopes.liveCount = (handles.map fun handle => handle.stack.length).sum := by
    rw [tidy.owned.liveCount_eq, List.length_flatten, List.map_map]
    simp [Function.comp_def, Handle.chain]
  refine ⟨?_, ?_, ?_, counted, ?_, ?_⟩
  · intro id
    rw [← tidy.owned.live id]
    simp [Handle.chain]
  · exact tidy.owned.once
  · intro handle member inner frame outer stack
    have chained : handle.chain ∈ handles.map Handle.chain := List.mem_map_of_mem member
    cases inner with
    | nil =>
        apply tidy.owned.lineage
        simpa [Handle.chain, stack] using chained
    | cons first inner =>
        have whole : scopes.Lineage first.scope
            (inner.map CallFrame.scope ++ frame.scope :: outer.map CallFrame.scope) := by
          apply tidy.owned.lineage
          simpa [Handle.chain, stack] using chained
        exact whole.suffix
  · intro absorbed
    rw [counted]
    apply List.sum_eq_zero_iff_forall_eq_nat.mpr
    intro length member
    obtain ⟨handle, inHandles, rfl⟩ := List.mem_map.mp member
    simp [tidy.ended handle inHandles (absorbed handle inHandles)]
  · intro handle member
    obtain ⟨before, after, split⟩ := List.append_of_mem member
    have first := tidy.owned
    rw [split] at first
    exact (first.perm (List.perm_middle.map Handle.chain)).unwind.1

/-- Whatever a host does, the open local scopes are those of the frames of all handles: between any
two operations, and before and after every step of the handle at work. -/
theorem open_scopes_are_those_of_frames (permits : Store → Value → Prop) :
    (∀ machine : Machine, machine.Reachable permits →
      machine.world.scopes.MatchFrames machine.world.scheduler.handles) ∧
    (∀ exec batch, Situation.Reachable permits (.atWork exec batch) →
      exec.world.scopes.MatchFrames (exec.handle :: exec.world.scheduler.handles) ∧
      exec.step.2.world.scopes.MatchFrames
        (exec.step.2.handle :: exec.step.2.world.scheduler.handles)) := by
  refine ⟨fun machine reached => reached.idle.tidy.matchFrames, fun exec batch reached => ?_⟩
  have tidy : exec.Tidy := reached.tidy
  exact ⟨Tidy.matchFrames tidy, Tidy.matchFrames (tidy.moves exec.step_proper.moves)⟩

/-- Code that calls code: once the call is made, two frames own two scopes. -/
theorem open_scopes_in_a_call :
    let code : CodeBlock := [⟨.push (.code 0), Location.host⟩, ⟨.callUnary "call", Location.host⟩]
    let world := World.ofSettings {}
    let stocked := { world with store := (world.store.newBlock code).2 }
    let exec := (stocked.startAtOnce code).advance.2.advance.2
    Situation.Reachable (fun _ _ => True) (.atWork exec none) ∧
      exec.handle.stack.map CallFrame.scope = [2, 1] ∧
      exec.world.scopes.liveCount = 2 ∧ exec.world.scopes.Lineage 2 [1] := by
  intro code world stocked exec
  have reached : Situation.Reachable (fun _ _ => True) (.atWork exec none) := by
    refine .advance (.advance (.execute (.tend (.fresh {}) (.newBlock fun _ _ => trivial))
      fun _ _ => trivial) ?_) ?_
    · decide +kernel
    · decide +kernel
  obtain ⟨matched, _⟩ := (open_scopes_are_those_of_frames fun _ _ => True).2 exec none reached
  have scopes : exec.handle.stack.map CallFrame.scope = [2, 1] := by decide +kernel
  obtain ⟨inner, rest, stack, innerScope, restScopes⟩ := List.map_eq_cons_iff.mp scopes
  refine ⟨reached, scopes, ?_, ?_⟩
  · decide +kernel
  · have lineage := matched.lineage exec.handle (by simp) [] inner rest stack
    rwa [innerScope, restScopes] at lineage

end SimScript
