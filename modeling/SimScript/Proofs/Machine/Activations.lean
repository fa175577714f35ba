import SimScript.Proofs.Execution.Bodies
import SimScript.Proofs.Machine.FrameDiscipline

/-!
# Activations of the blocks of a loop

A loop enters a block, and whatever the block does, and whatever other scripts do in the
meantime, the loop is as it was when it is on top again; it has only been handed a value.
So what a loop does is told by the steps that it makes when it is on top.
-/

namespace SimScript

/-- A block that a loop has entered and that has come back: the events of the step that entered it,
and the executions after that step and when the loop was on top again. -/
structure Activation where
  events : List Event
  entered : Execution
  returned : Execution

namespace Situation

/-- The blocks that a loop with `height` frames below it has entered since the start, one after the
other, and that have come back: a step of the loop enters a block, anything may happen as long as
there are frames above the loop, and then the loop is on top again. -/
inductive Activations (permits : Store → Value → Prop) (height : Nat) (start : Execution)
    (batch : Option (List HandleId)) :
    List Activation → Execution → Option (List HandleId) → Prop where
  | none : Activations permits height start batch [] start batch
  | again {activations : List Activation} {exec returned : Execution}
      {before after : Option (List HandleId)} {last : Situation}
      (earlier : Activations permits height start batch activations exec before)
      (running : exec.handle.state = .running)
      (entered : exec.advance.2.handle.stack.length = height + 2)
      (covered : Relation.ReflTransGen (NextCovered permits exec.handle.id (height + 1))
        (.atWork exec.advance.2 before) last)
      (returns : Next permits last (.atWork returned after))
      (same : returned.handle.id = exec.handle.id)
      (uncovered : returned.handle.stack.length = height + 1) :
      Activations permits height start batch
        (activations ++ [⟨exec.advance.1, exec.advance.2, returned⟩]) returned after

variable {permits : Store → Value → Prop} {start exec returned : Execution}
  {batch before after : Option (List HandleId)} {last : Situation} {loop block : CallFrame}
  {outer : CallStack}

/-- A loop that has entered a block is as it was when it is on top again, but for the value that it
has been handed. -/
theorem Reachable.returns (reached : Reachable permits (.atWork exec before))
    (number : HandleId) (same : exec.handle.id = number)
    (stack : exec.handle.stack = block :: loop :: outer) (loops : loop.kind.isController = true)
    (covered : Relation.ReflTransGen (NextCovered permits number (outer.length + 1))
      (.atWork exec before) last)
    (returns : Next permits last (.atWork returned after)) (again : returned.handle.id = number)
    (uncovered : returned.handle.stack.length = outer.length + 1) :
    Reachable permits (.atWork returned after) ∧
      ∃ value, returned.handle.stack = { loop with delivered := some value } :: outer := by
  have standing : exec.handle.stack = [block] ++ loop :: outer := stack
  obtain ⟨reached, handle, member, sameId, above, covering, waiting⟩ :=
    reached.waits covered List.mem_cons_self same standing (List.cons_ne_nil _ _)
  obtain ⟨resumed, resumedStack, resumes⟩ := reached.resumes returns member List.mem_cons_self
    (again.trans sameId.symm) waiting covering uncovered
  obtain ⟨value, rfl⟩ := resumes.loop loops
  exact ⟨reached.next returns, value, resumedStack⟩

theorem Reachable.atLoop (reached : Reachable permits (.atWork exec before))
    (running : exec.handle.state = .running) (stack : exec.handle.stack = loop :: outer)
    (loops : loop.kind.isController = true)
    (entered : exec.advance.2.handle.stack.length = outer.length + 2) :
    exec.AtLoop loop outer :=
  Execution.atLoop_of_grows running
    (reached.layered _ List.mem_cons_self (Handle.live_of_running running)) stack loops (by omega)

theorem nextCovered_of_steps {steps : Nat → Execution} {id : HandleId} {height first last : Nat}
    (next : ∀ step, steps (step + 1) = (steps step).advance.2) (order : first ≤ last)
    (number : (steps first).handle.id = id)
    (running : ∀ step, first ≤ step → step < last → (steps step).handle.state = .running)
    (above : ∀ step, first < step → step ≤ last → height < (steps step).handle.stack.length) :
    (steps last).handle.id = id ∧
      Relation.ReflTransGen (NextCovered permits id height) (.atWork (steps first) batch)
        (.atWork (steps last) batch) := by
  induction last, order using Nat.le_induction with
  | base => exact ⟨number, .refl⟩
  | succ last order induction =>
      obtain ⟨same, covered⟩ := induction (fun step after before => running step after (by omega))
        fun step after before => above step after (by omega)
      have works := running last order (Nat.lt_succ_self _)
      have again : (steps (last + 1)).handle.id = id := by
        rw [next, Execution.advance_id works, same]
      refine ⟨again, covered.tail ⟨?_, _, List.mem_cons_self, again, ?_⟩⟩
      · rw [next]
        exact .advance works
      · exact above (last + 1) (by omega) (Nat.le_refl _)

/-- An activation in which only the handle itself makes steps. -/
theorem Activations.again_of_steps {steps : Nat → Execution} {height first last : Nat}
    {activations : List Activation}
    (earlier : Activations permits height start batch activations (steps first) after)
    (next : ∀ step, steps (step + 1) = (steps step).advance.2) (order : first < last)
    (running : ∀ step, first ≤ step → step ≤ last → (steps step).handle.state = .running)
    (entered : (steps (first + 1)).handle.stack.length = height + 2)
    (above : ∀ step, first < step → step ≤ last → height + 1 < (steps step).handle.stack.length)
    (back : (steps (last + 1)).handle.stack.length = height + 1) :
    Activations permits height start batch
      (activations ++ [⟨(steps first).advance.1, steps (first + 1), steps (last + 1)⟩])
      (steps (last + 1)) after := by
  have begins := running first (Nat.le_refl _) (Nat.le_of_lt order)
  have ends := running last (Nat.le_of_lt order) (Nat.le_refl _)
  have number : (steps (first + 1)).handle.id = (steps first).handle.id := by
    rw [next, Execution.advance_id begins]
  obtain ⟨same, covered⟩ := nextCovered_of_steps next order number
    (fun step later before => running step (by omega) (Nat.le_of_lt before))
    fun step later before => above step (by omega) before
  have returns : Next permits (.atWork (steps last) after) (.atWork (steps (last + 1)) after) := by
    rw [next]
    exact .advance ends
  have returned : (steps (last + 1)).handle.id = (steps first).handle.id := by
    rw [next, Execution.advance_id ends, same]
  rw [next first] at entered covered ⊢
  exact earlier.again begins entered covered returns returned back

/-- A handle makes steps one after the other that nothing holds back: no budget, and no request to
end. -/
structure FreeRun (steps : Nat → Execution) (last : Nat) : Prop where
  next : ∀ step, steps (step + 1) = (steps step).advance.2
  free : ∀ step ≤ last, (steps step).handle.state = .running ∧
    (steps step).handle.terminateRequested = false ∧
    (steps step).world.settings.instructionBudget = none

namespace FreeRun

variable {steps : Nat → Execution} {height first back bound : Nat} {activations : List Activation}

theorem running (run : FreeRun steps bound) {step : Nat} (inside : step ≤ bound) :
    (steps step).handle.state = .running :=
  (run.free step inside).1

theorem proceeds (run : FreeRun steps bound) {step : Nat} (inside : step ≤ bound) :
    (steps step).handle.terminateRequested = false :=
  (run.free step inside).2.1

theorem paid (run : FreeRun steps bound) {step : Nat} (inside : step ≤ bound) :
    (steps step).charge? = some (steps step).charged := by
  simp [Execution.charge?, (run.free step inside).2.2, Execution.charged]

theorem again (run : FreeRun steps bound) (order : first < back) (inside : back ≤ bound)
    (earlier : Activations permits height start batch activations (steps first) after)
    (covered : ∀ step, first < step → step ≤ back → (steps step).handle.stack.length = height + 2)
    (returned : (steps (back + 1)).handle.stack.length = height + 1) :
    Activations permits height start batch
      (activations ++ [⟨(steps first).advance.1, steps (first + 1), steps (back + 1)⟩])
      (steps (back + 1)) after := by
  refine earlier.again_of_steps run.next order (fun step _ within => run.running (by omega))
    (covered _ (Nat.lt_succ_self _) order) (fun step later within => ?_) returned
  rw [covered step later within]
  exact Nat.lt_succ_self _

end FreeRun

end Situation

/-- What holds of every round so far and of the next one holds of every round after that. -/
theorem Activation.rounds_concat {motive : Nat → Activation → Prop} {last : Activation}
    {activations : List Activation}
    (earlier : ∀ round activation, activations[round]? = some activation → motive round activation)
    (next : motive activations.length last) :
    ∀ round activation, (activations ++ [last])[round]? = some activation →
      motive round activation := by
  intro round activation taken
  rcases Nat.lt_or_ge round activations.length with before | after
  · rw [List.getElem?_append_left before] at taken
    exact earlier round activation taken
  · rw [List.getElem?_append_right after, List.getElem?_singleton] at taken
    split at taken
    case isFalse => cases taken
    case isTrue first =>
        obtain rfl : round = activations.length := by omega
        exact Option.some.inj taken ▸ next

end SimScript
