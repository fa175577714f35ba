import SimScript.Proofs.Machine.Reachable
import SimScript.Proofs.Scope.Values

/-!
# What scripts hold

A property of values may be asked of all that variables, frames and code hold.  Work on
the machine moves values about and makes few of its own, so such a property stays true
of all of them if it is true of what a step may lay hands on.
-/

namespace SimScript

/-- The values of a frame and the constants of its code have a property. -/
structure CallFrame.Holds (holds : Value → Prop) (frame : CallFrame) : Prop where
  values : ∀ value ∈ frame.values, holds value
  constants : ∀ code ∈ frame.codes, ∀ value ∈ CodeBlock.constants code, holds value

/-- The values of all frames of a handle and its result have a property. -/
structure Handle.Holds (holds : Value → Prop) (handle : Handle) : Prop where
  frames : ∀ frame ∈ handle.stack, frame.Holds holds
  result : holds handle.result

/-- The values of all variables and of some handles have a property. -/
structure World.Holds (world : World) (holds : Value → Prop) (handles : List Handle) : Prop where
  scopes : world.scopes.Hold holds
  handles : ∀ handle ∈ handles, handle.Holds holds

/-- The values of all variables, of the handle at work and of all others have a property. -/
abbrev Execution.Holds (exec : Execution) (holds : Value → Prop) : Prop :=
  exec.world.Holds holds (exec.handle :: exec.world.scheduler.handles)

theorem CallFrame.Holds.mono {holds weaker : Value → Prop} {frame : CallFrame}
    (held : frame.Holds holds) (implies : ∀ value, holds value → weaker value) :
    frame.Holds weaker where
  values := fun value member => implies value (held.values value member)
  constants := fun code member value constant =>
    implies value (held.constants code member value constant)

theorem Handle.Holds.mono {holds weaker : Value → Prop} {handle : Handle}
    (held : handle.Holds holds) (implies : ∀ value, holds value → weaker value) :
    handle.Holds weaker where
  frames := fun frame member => (held.frames frame member).mono implies
  result := implies _ held.result

theorem Handle.Holds.settle {holds : Value → Prop} {handle changed : Handle}
    (held : handle.Holds holds) (stack : changed.stack ⊆ handle.stack)
    (result : changed.result = handle.result ∨ holds changed.result) : changed.Holds holds where
  frames := fun frame member => held.frames frame (stack member)
  result := result.elim (fun same => same ▸ held.result) fun known => known

theorem Handle.Holds.become {holds : Value → Prop} {handle : Handle}
    (held : handle.Holds holds) (state : HandleState) : (handle.become state).Holds holds :=
  held.settle (by simp) (.inl (Handle.become_result handle state))

theorem World.newHandle_holds {world : World} {holds : Value → Prop} {code : CodeBlock}
    {bindings : Bindings} {environment : Environment} {origin : Location}
    (plain : holds .nil) (constants : ∀ value ∈ code.constants, holds value) :
    (world.newHandle code bindings environment origin).1.Holds holds := by
  refine ⟨?_, plain⟩
  intro frame member
  obtain rfl := List.mem_singleton.mp member
  refine ⟨by simp [CallFrame.values, FrameKind.items], ?_⟩
  simpa [CallFrame.codes, FrameKind.codes] using constants

theorem FrameKind.Enterable.holds {knows : Value → Prop} {supplies : CodeBlock → Prop}
    {holds : Value → Prop} {exec : Execution} {kind : FrameKind} {code : CodeBlock}
    {environment : Environment} {bindings : Bindings} {scope : ScopeId} {origin : Location}
    (enterable : kind.Enterable knows supplies exec code environment bindings)
    (known : ∀ value, knows value → holds value)
    (supplied : ∀ code, supplies code → ∀ value ∈ code.constants, holds value) :
    CallFrame.Holds holds { kind, code, scope, environment, origin } := by
  refine ⟨?_, fun block member => supplied block (enterable.supplied block member)⟩
  intro value member
  refine known value (enterable.held value ?_)
  simpa [CallFrame.values] using member

namespace World.Holds

variable {world : World} {holds weaker : Value → Prop} {handle : Handle}
  {handles others front : List Handle}

theorem fresh (settings : Settings) : (World.ofSettings settings).Holds holds [] :=
  ⟨.empty, by simp⟩

theorem mono (held : world.Holds holds handles) (implies : ∀ value, holds value → weaker value) :
    world.Holds weaker handles where
  scopes := held.scopes.mono implies
  handles := fun handle member => (held.handles handle member).mono implies

theorem rescope {scopes : Scopes} (held : world.Holds holds handles)
    (changed : scopes.Hold holds) : Holds { world with scopes } holds handles :=
  ⟨changed, held.handles⟩

/-- The store holds the elements of arrays, which do not count here. -/
theorem restock {store : Store} (held : world.Holds holds handles) :
    Holds { world with store } holds handles :=
  ⟨held.scopes, held.handles⟩

theorem subset (held : world.Holds holds handles)
    (each : ∀ handle ∈ others, handle ∈ handles ∨ handle.Holds holds) :
    world.Holds holds others where
  scopes := held.scopes
  handles := fun handle member => (each handle member).elim (held.handles handle) id

theorem reschedule {scheduler : Scheduler} (held : world.Holds holds handles) :
    Holds { world with scheduler } holds handles :=
  ⟨held.scopes, held.handles⟩

theorem put (held : world.Holds holds (handle :: world.scheduler.handles)) :
    world.Holds holds (world.scheduler.put handle).handles := by
  refine held.subset fun other member => .inl ?_
  rcases List.mem_append.mp member with inRest | last
  · exact List.mem_cons_of_mem _ (List.mem_filter.mp inRest).1
  · exact List.mem_cons.mpr (.inl (List.mem_singleton.mp last))

theorem putBehind (held : world.Holds holds (front ++ world.scheduler.handles))
    (own : handle.Holds holds) :
    world.Holds holds (front ++ (world.scheduler.put handle).handles) := by
  apply held.subset
  intro other member
  rcases List.mem_append.mp member with inFront | inHandles
  · exact .inl (List.mem_append_left _ inFront)
  · rcases List.mem_append.mp inHandles with inRest | last
    · exact .inl (List.mem_append_right _ (List.mem_filter.mp inRest).1)
    · exact .inr (List.mem_singleton.mp last ▸ own)

theorem spawn {code : CodeBlock} {bindings : Bindings} {origin : Location}
    (held : world.Holds holds (front ++ world.scheduler.handles)) (plain : holds .nil)
    (constants : ∀ value ∈ code.constants, holds value)
    (bound : ∀ binding ∈ bindings, holds binding.2) :
    let spawned := (world.spawn code bindings origin).2
    spawned.Holds holds (front ++ spawned.scheduler.handles) := by
  have opened := held.rescope (held.scopes.push none bound)
  exact (opened.putBehind (World.newHandle_holds plain constants)).reschedule

theorem terminate (held : world.Holds holds (front ++ world.scheduler.handles)) (id : HandleId) :
    let ended := world.terminate id
    ended.Holds holds (front ++ ended.scheduler.handles) := by
  intro ended
  unfold ended World.terminate
  split
  · exact held
  case h_2 handle found =>
      split
      · exact held
      · have unwound := held.rescope (held.scopes.unwind handle.stack)
        have own := held.handles handle (List.mem_append_right _ (Scheduler.mem_of_get? found))
        have stopped : Handle.Holds holds { handle.become .terminated with stack := [] } :=
          own.settle (by simp) (.inl (Handle.become_result _ _))
        exact (unwound.putBehind stopped).reschedule

theorem advance {seconds : Float} (held : world.Holds holds world.scheduler.handles) :
    (World.advance seconds world).Holds holds (World.advance seconds world).scheduler.handles := by
  have kept : (World.advance seconds world).scheduler.handles = world.scheduler.handles :=
    Scheduler.advance_handles _
  rw [kept]
  exact held.reschedule

theorem reap (held : world.Holds holds world.scheduler.handles) :
    Holds { world with scheduler := world.scheduler.reap.2 } holds
      world.scheduler.reap.2.handles :=
  held.reschedule.subset fun _ member => .inl (List.mem_filter.mp member).1

/-- A host that hands over only what has the property leaves only what has it. -/
theorem tended {permits : Store → Value → Prop} {after : World}
    (held : world.Holds holds world.scheduler.handles) (plain : holds .nil)
    (permitted : ∀ value, permits world.store value → holds value)
    (tended : world.Tended permits after) : after.Holds holds after.scheduler.handles := by
  have alone : world.Holds holds ([] ++ world.scheduler.handles) := held
  cases tended with
  | spawn constants bound =>
      exact alone.spawn plain (fun value member => permitted value (constants value member))
        fun binding member => permitted _ (bound binding member)
  | terminate id logger =>
      have ended := alone.terminate id
      exact ⟨ended.scopes, ended.handles⟩
  | advance seconds => exact held.advance
  | reap => exact held.reap
  | setGlobal name allowed =>
      exact held.rescope (held.scopes.setGlobal (permitted _ allowed) name)
  | newArray | newBlock | objects => exact held.restock
  | equip => exact ⟨held.scopes, held.handles⟩

theorem startAtOnce {code : CodeBlock} (held : world.Holds holds world.scheduler.handles)
    (plain : holds .nil) (constants : ∀ value ∈ code.constants, holds value) :
    (world.startAtOnce code).Holds holds := by
  have opened : Holds { world with scopes := (world.scopes.push none).2 } holds
      world.scheduler.handles := held.rescope (held.scopes.push none (by simp))
  have created : (world.newHandle code [] .unscheduled Location.host).1.Holds holds :=
    World.newHandle_holds plain constants
  apply opened.reschedule.subset
  intro handle member
  rcases List.mem_cons.mp member with rfl | inRest
  · exact .inr (created.become .running)
  · exact .inl inRest

theorem startKept (held : world.Holds holds world.scheduler.handles)
    (member : handle ∈ world.scheduler.handles) : (world.startKept handle).Holds holds := by
  have own := held.handles handle member
  have rested : { handle with wake := none }.Holds holds := ⟨own.frames, own.result⟩
  apply held.reschedule.subset
  intro other member
  rcases List.mem_cons.mp member with rfl | inRest
  · exact .inr (rested.become .running)
  · exact .inl (List.mem_filter.mp inRest).1

end World.Holds

namespace Execution

variable {start exec after : Execution} {holds : Value → Prop}

namespace Holds

theorem replace {handle : Handle} {location : Location} (held : exec.Holds holds)
    (changed : handle.Holds holds) : Holds { exec with handle, location } holds := by
  apply World.Holds.subset held
  intro other member
  rcases List.mem_cons.mp member with rfl | inRest
  · exact .inr changed
  · exact .inl (List.mem_cons_of_mem _ inRest)

theorem settle {handle : Handle} {location : Location} (held : exec.Holds holds)
    (stack : handle.stack ⊆ exec.handle.stack)
    (result : handle.result = exec.handle.result ∨ holds handle.result) :
    Holds { exec with handle, location } holds :=
  held.replace ((held.handles exec.handle (by simp)).settle stack result)

theorem adjust {knows : Value → Prop} {frame adjusted : CallFrame} {outer : CallStack}
    (held : exec.Holds holds) (known : ∀ value, knows value → holds value)
    (stack : exec.handle.stack = frame :: outer) (adjusts : frame.Adjusts knows adjusted) :
    (exec.withStack (adjusted :: outer)).Holds holds := by
  have own := held.handles exec.handle (by simp)
  have top := own.frames frame (by simp [stack])
  refine held.replace ⟨?_, own.result⟩
  intro other member
  rcases List.mem_cons.mp member with rfl | inOuter
  · refine ⟨fun value inFrame => ?_, ?_⟩
    · exact (adjusts.values value inFrame).elim (top.values value) (known value)
    · rw [adjusts.codes]
      exact top.constants
  · exact own.frames other (by simp [stack, inOuter])

theorem pushOperand {value : Value} (held : exec.Holds holds) (known : holds value) :
    (exec.pushOperand value).Holds holds := by
  unfold Execution.pushOperand mapTop
  split
  · exact held
  case h_2 frame outer stack => exact held.adjust (fun _ => id) stack (.push known)

theorem change {asked : Change} {knows : Value → Prop} {supplies : CodeBlock → Prop}
    {recruits : Prop}
    (held : exec.Holds holds) (plain : holds .nil) (known : ∀ value, knows value → holds value)
    (supplied : ∀ code, supplies code → ∀ value ∈ code.constants, holds value)
    (sanctioned : asked.Sanctioned knows supplies recruits exec) :
    (asked.perform exec).Holds holds := by
  have beside : exec.world.Holds holds ([exec.handle] ++ exec.world.scheduler.handles) := held
  cases asked with
  | nothing => exact held
  | declare names => exact World.Holds.rescope held (held.scopes.bindAll plain names)
  | nameScope name =>
      dsimp only [Change.perform]
      split
      case h_1 scopes named => exact World.Holds.rescope held (held.scopes.setName named)
      case h_2 => exact held
  | nameScript name => exact held.settle (List.Subset.refl _) (.inl rfl)
  | terminateSelf => exact held.settle (List.Subset.refl _) (.inl rfl)
  | spawn code bindings =>
      exact beside.spawn plain (supplied code sanctioned.1)
        fun binding member => known _ (sanctioned.2 binding member)
  | terminate id => exact beside.terminate id
  | write | updateObjects | createObject | deleteObject => exact World.Holds.restock held
  | extensions | network => exact ⟨held.scopes, held.handles⟩

theorem leave (held : exec.Holds holds) : exec.leave.Holds holds := by
  unfold Execution.leave
  split
  · exact held
  case h_2 frame outer stack =>
      have closed : (exec.withScopes (exec.world.scopes.release frame.scope)).Holds holds :=
        World.Holds.rescope held (held.scopes.release frame.scope)
      refine closed.settle ?_ (.inl rfl)
      simp [Execution.withScopes, stack]

theorem terminate (held : exec.Holds holds) : exec.terminate.Holds holds := by
  have unwound : (exec.withScopes (exec.handle.stack.unwind exec.world.scopes)).Holds holds :=
    World.Holds.rescope held (held.scopes.unwind exec.handle.stack)
  exact unwound.settle (by simp [withScopes, withStack]) (.inl (Handle.become_result _ _))

theorem closed (held : exec.Holds holds) :
    exec.closed.Holds holds exec.closed.scheduler.handles := by
  have ended : (if exec.handle.isAbsorbed then exec else exec.terminate).Holds holds := by
    split
    · exact held
    · exact held.terminate
  exact (World.Holds.put ended).reschedule

theorem keep (held : exec.Holds holds) :
    (World.keep exec.handle exec.world).Holds holds
      (World.keep exec.handle exec.world).scheduler.handles := by
  rw [World.keep_handles]
  exact (World.Holds.put held).reschedule

/-- A move hands on what has the property, if all that the step may lay hands on has it. -/
theorem move (held : exec.Holds holds) (move : Move start exec after)
    (known : ∀ value, start.Knows value → holds value)
    (supplied : ∀ code, start.Supplies code → ∀ value ∈ code.constants, holds value)
    (replies : ∀ given : Reply,
      given.Sanctioned (fun value => start.Knows value ∨ exec.world.store.Mentions value) →
        after = (Effect.answer .nothing given).perform exec →
          holds (given.make exec.world.store).1) : after.Holds holds := by
  have plain : holds .nil := known _ (.plain rfl)
  cases move with
  | record handle location keeps =>
      refine held.settle (by rw [keeps.stack]; exact List.Subset.refl _) ?_
      exact keeps.result.imp id (known _)
  | adjust stack adjusts => exact held.adjust known stack adjusts
  | bind value bound => exact World.Holds.rescope held (held.scopes.bind (known _ value) bound)
  | change asked sanctioned => exact held.change plain known supplied sanctioned
  | reply given sanctioned =>
      have stocked : (exec.withStore (given.make exec.world.store).2).Holds holds :=
        World.Holds.restock held
      exact stocked.pushOperand (replies given sanctioned rfl)
  | enter inside enterable =>
      have bound := fun binding member => known _ (enterable.bound binding member)
      have opened : (exec.withScopes (exec.world.scopes.push (some exec.scope) _).2).Holds holds :=
        World.Holds.rescope held (held.scopes.push _ bound)
      have own := opened.handles exec.handle (by simp [Execution.withScopes])
      refine opened.replace ⟨?_, own.result⟩
      intro frame member
      rcases List.mem_cons.mp member with rfl | inStack
      · exact enterable.holds known supplied
      · exact own.frames frame inStack
  | leave => exact held.leave
  | finish outside value => exact held.settle (by simp) (.inr (by simpa using known _ value))
  | terminate outside => exact held.settle (by simp) (.inl (by simp))
  | suspend wake => exact held.settle (by simp) (.inl (by simp))
  | log events => exact ⟨held.scopes, held.handles⟩

end Holds

end Execution

theorem Situation.Next.holds {permits : Store → Value → Prop} {holds : Value → Prop}
    {before after : Situation} (next : before.Next permits after) (rests : ¬before.Steps after)
    (plain : holds .nil) (permitted : ∀ value, permits before.world.store value → holds value)
    (held : before.world.Holds holds before.handles) : after.world.Holds holds after.handles := by
  cases next with
  | tend tended => exact World.Holds.tended held plain permitted tended
  | execute allowed =>
      exact World.Holds.startAtOnce held plain fun value constant =>
        permitted value (allowed value constant)
  | beginTurn => exact World.Holds.reschedule held
  | skip | endTurn => exact held
  | take found => exact World.Holds.startKept held (Scheduler.mem_of_get? found)
  | advance => exact absurd ⟨_, _, rfl, rfl⟩ rests
  | keep => exact Execution.Holds.keep held
  | close => exact Execution.Holds.closed held

end SimScript
