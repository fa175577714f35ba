import SimScript.Proofs.Execution.Step

/-!
# Which command ends a script

Only `terminate` ends another script, and only the one that its operand names.  For
most commands this needs no look at what they do.  A sanctioned plan never ends the
script that follows it, whatever the number of that script is; so a plan that does not
look at the number ends no script at all.
-/

namespace SimScript

/-- The other script that an effect ends. -/
def Effect.ends? : Effect → Option HandleId
  | .answer (.terminate id) _ => some id
  | _ => none

theorem Effect.ends?_eq_some_iff {effect : Effect} {id : HandleId} :
    effect.ends? = some id ↔ ∃ reply, effect = .answer (.terminate id) reply := by
  constructor
  · intro ends
    unfold ends? at ends
    split at ends
    · obtain rfl := Option.some.inj ends
      exact ⟨_, rfl⟩
    · simp at ends
  · rintro ⟨reply, rfl⟩
    rfl

namespace Design

variable {exec : Execution}

/-- A design that ends no script but those in `targets`. -/
def EndsOnly (targets : List HandleId) (exec : Execution) : Design → Prop
  | .plan made => ∀ site effect, (made exec site).result = .ok effect →
      ∀ id, effect.ends? = some id → id ∈ targets
  | .series _ => True

theorem EndsOnly.mono {fewer more : List HandleId} {design : Design}
    (ends : design.EndsOnly fewer exec) (subset : fewer ⊆ more) : design.EndsOnly more exec := by
  cases design with
  | series made => trivial
  | plan made =>
      intro site effect asked id ended
      exact subset (ends site effect asked id ended)

/-- A design that does not look at the number of its script ends none. -/
theorem endsOnly_of_unaware {design : Design} {operands : List Value} {recruits : Prop}
    (unaware : design.Unaware) (sanctioned : ∀ exec, design.Sanctioned recruits exec operands) :
    design.EndsOnly [] exec := by
  cases design with
  | series made => trivial
  | plan made =>
      intro site effect asked id ends
      obtain ⟨reply, rfl⟩ := Effect.ends?_eq_some_iff.mp ends
      -- Followed by the very script that it wants to end, the plan would want the same.
      have same : (made (exec.renumber id) site).result =
          .ok (.answer (.terminate id) reply) := by
        have renumbered : made (exec.renumber id) = made exec :=
          unaware exec id exec.world.scheduler.handles exec.world.logger
        rw [renumbered]
        exact asked
      have allowed := (Report.Runs.each (sanctioned (exec.renumber id)) site).yields _ same
      exact absurd rfl allowed.1

theorem endsOnly_of_runs {made : Plan} {targets : List HandleId}
    (runs : (made exec).Runs fun effect => ∀ id, effect.ends? = some id → id ∈ targets) :
    (Design.plan made).EndsOnly targets exec :=
  fun site => (runs.each site).yields

theorem ofQuery_endsOnly (query : Query) :
    (Design.plan (.ofQuery query)).EndsOnly [] exec := by
  intro site effect asked id ends
  obtain ⟨reply, rfl⟩ := Plan.answer_of_ofQuery asked
  simp [Effect.ends?] at ends

end Design

open Command (handleOf?)

theorem Plan.terminate_endsOnly (right : Value) (exec : Execution) :
    (Design.plan (terminate right)).EndsOnly (handleOf? right).toList exec := by
  let within (effect : Effect) := ∀ id, effect.ends? = some id → id ∈ (handleOf? right).toList
  have silent : ∀ {work : Report Effect}, work.Runs (fun effect => effect.ends? = none) →
      work.Runs within :=
    fun runs => runs.mono fun effect none id ends => by simp [none] at ends
  suffices runs : (terminate right exec).Runs within from Design.endsOnly_of_runs runs
  unfold terminate
  split
  · exact silent (.pure rfl)
  case h_2 target named =>
      refine .ite (fun _ => silent (.pure rfl)) fun _ => ?_
      split
      · exact silent (.after (.raise _ trivial rfl) fun _ => .pure rfl)
      · split
        case h_1 notice ended =>
            exact silent (.after (.note (endNotice?_mild ended) trivial) fun _ => .pure rfl)
        case h_2 =>
            refine .pure fun id ends => ?_
            obtain rfl := Option.some.inj ends
            simp [named]

/-- The script that a command of a name with an operand is to end. -/
def Command.target? (name : String) (right : Value) : Option HandleId :=
  if Text.sameName name "terminate" then handleOf? right else none

section Obeying

variable {exec : Execution} {design : Design} {left right : Value}

theorem Nular.Obeys.endsOnly {command : Nular} (obeys : command.Obeys design) :
    design.EndsOnly [] exec :=
  Design.endsOnly_of_unaware obeys.unaware obeys.sanctioned

theorem Unary.Obeys.endsOnly {command : Unary} {name : String}
    (obeys : command.Obeys right design) (named : Text.sameName name command.name = true) :
    design.EndsOnly (Command.target? name right).toList exec := by
  rcases obeys.unaware with ⟨called, rfl⟩ | rfl | unaware
  · have ending : Command.target? name right = handleOf? right := if_pos (called ▸ named)
    rw [ending]
    exact Plan.terminate_endsOnly right exec
  · exact (Design.ofQuery_endsOnly _).mono (by simp)
  · exact (Design.endsOnly_of_unaware unaware obeys.sanctioned).mono (by simp)

theorem Binary.Obeys.endsOnly {command : Binary} (obeys : command.Obeys left right design) :
    design.EndsOnly [] exec :=
  Design.endsOnly_of_unaware obeys.unaware obeys.sanctioned

end Obeying

end SimScript
