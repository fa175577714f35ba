import SimScript.Call.Stack
import SimScript.Proofs.Scope.Arena

/-!
# The values of variables

A property of all values that variables have is kept when scopes are opened, closed
and named, and when a variable is given a value that has the property.
-/

namespace SimScript

theorem Bindings.mem_insert {name : String} {value : Value} {bindings : Bindings}
    {binding : String × Value} (member : binding ∈ bindings.insert name value) :
    binding = (name, value) ∨ binding ∈ bindings := by
  induction bindings with
  | nil => exact .inl (List.mem_singleton.mp member)
  | cons first rest induction =>
      unfold Bindings.insert at member
      split at member
      · rcases List.mem_cons.mp member with rfl | inRest
        · exact .inl rfl
        · exact .inr (List.mem_cons_of_mem _ inRest)
      · rcases List.mem_cons.mp member with rfl | inRest
        · exact .inr List.mem_cons_self
        · exact (induction inRest).imp id (List.mem_cons_of_mem _)

namespace Scopes

def Hold (scopes : Scopes) (holds : Value → Prop) : Prop :=
  ∀ id scope, scopes.get? id = some scope → ∀ binding ∈ scope.bindings, holds binding.2

namespace Hold

variable {scopes after : Scopes} {holds : Value → Prop} {id : ScopeId}

theorem empty : Hold {} holds := by
  intro id scope found
  cases id with
  | zero =>
      obtain rfl := Option.some.inj found
      simp
  | succ slot => simp at found

theorem mono {weaker : Value → Prop} (held : scopes.Hold holds)
    (implies : ∀ value, holds value → weaker value) : scopes.Hold weaker :=
  fun id scope found binding member => implies _ (held id scope found binding member)

theorem push {bindings : Bindings} (parent : Option ScopeId) (held : scopes.Hold holds)
    (bound : ∀ binding ∈ bindings, holds binding.2) :
    (scopes.push parent bindings).2.Hold holds := by
  intro id scope found
  rcases eq_opened_or_get? parent bindings found with rfl | before
  · exact bound
  · exact held id scope before

theorem release (held : scopes.Hold holds) (id : ScopeId) :
    (scopes.release id).Hold holds := by
  unfold Scopes.release
  split
  case h_1 after popped =>
      intro other scope found
      rw [get?_pop popped] at found
      split at found
      · simp at found
      · exact held other scope found
  case h_2 => exact held

theorem unwind (held : scopes.Hold holds) (stack : CallStack) :
    (CallStack.unwind stack scopes).Hold holds := by
  induction stack generalizing scopes with
  | nil => exact held
  | cons frame outer induction => exact induction (held.release frame.scope)

theorem set {scope : Scope} (held : scopes.Hold holds) (isOpen : (scopes.get? id).isSome)
    (bound : ∀ binding ∈ scope.bindings, holds binding.2) : (scopes.set id scope).Hold holds := by
  intro other changed found
  rw [get?_set isOpen] at found
  split at found
  · obtain rfl := Option.some.inj found
    exact bound
  · exact held other changed found

theorem bind {name : String} {value : Value} (held : scopes.Hold holds) (known : holds value)
    (bound : scopes.bind id name value = some after) : after.Hold holds := by
  obtain ⟨scope, opened, rfl⟩ := Option.map_eq_some_iff.mp bound
  apply held.set (by simp [opened])
  intro binding member
  rcases Bindings.mem_insert member with rfl | before
  · exact known
  · exact held id scope opened binding before

theorem bindAll (held : scopes.Hold holds) (known : holds .nil) (names : List String) :
    (names.foldl (fun scopes name => (scopes.bind id name .nil).getD scopes) scopes).Hold
      holds :=
  bindAll_keeps (motive := fun scopes => scopes.Hold holds) held
    (fun _ _ _ before bound => before.bind known bound) names

theorem setName {name : String} (held : scopes.Hold holds)
    (named : scopes.setName id name = .ok after) : after.Hold holds := by
  obtain ⟨scope, opened, rfl⟩ := set_of_setName named
  exact held.set (by simp [opened]) (held id scope opened)

theorem setGlobal {value : Value} (held : scopes.Hold holds) (known : holds value)
    (name : String) : (scopes.setGlobal name value).Hold holds := by
  have bound : scopes.bind globalScope name value = some (scopes.setGlobal name value) := rfl
  exact held.bind known bound

end Hold

end Scopes

end SimScript
