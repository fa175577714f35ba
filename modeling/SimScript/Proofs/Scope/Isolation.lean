import SimScript.Proofs.Scope.Ownership

/-!
# Which scopes a change touches

A change to some scopes leaves all other open scopes as they are.  Look-ups follow the
parents of a scope, so a variable is found in a scope of the same script or in the
global one, and a private variable is never found in the global one.
-/

namespace SimScript

theorem Bindings.lookup_insert_of_ne {name other : String} (value : Value) (bindings : Bindings)
    (different : other ≠ name) :
    (Bindings.insert name value bindings).lookup other = bindings.lookup other := by
  have unequal : (other == name) = false := beq_false_of_ne different
  induction bindings with
  | nil => simp [insert, different]
  | cons binding rest induction =>
      obtain ⟨held, kept⟩ := binding
      by_cases same : held = name
      · subst same
        simp [insert, List.lookup_cons, unequal]
      · simp [insert, same, List.lookup_cons, induction]

namespace Scopes

variable {touched : ScopeId → Prop} {scopes before middle after : Scopes} {id : ScopeId}
  {name : String} {value : Value}

/-- Every open local scope that is not touched stays as it is, and so do the private variables of
the global scope. -/
structure Spares (touched : ScopeId → Prop) (before after : Scopes) : Prop where
  locals : ∀ id, id ≠ globalScope → ¬touched id → (before.get? id).isSome →
    after.get? id = before.get? id
  globals : ∀ name, isPrivate name = true →
    after.global.get? name = before.global.get? name

namespace Spares

theorem refl (scopes : Scopes) : Spares touched scopes scopes :=
  ⟨fun _ _ _ _ => rfl, fun _ _ => rfl⟩

theorem trans (first : Spares touched before middle) (second : Spares touched middle after) :
    Spares touched before after := by
  constructor
  · intro id local_ untouched isOpen
    have kept := first.locals id local_ untouched isOpen
    rw [← kept] at isOpen ⊢
    exact second.locals id local_ untouched isOpen
  · intro name hidden
    exact (second.globals name hidden).trans (first.globals name hidden)

theorem push (tight : scopes.Tight) (parent : Option ScopeId) (bindings : Bindings) :
    Spares touched scopes (scopes.push parent bindings).2 := by
  constructor
  · intro id _ _ isOpen
    rw [get?_push parent bindings tight, if_neg]
    rintro rfl
    simp [push_fresh parent bindings tight] at isOpen
  · intro name _
    unfold Scopes.push
    dsimp only
    split <;> rfl

theorem unwind {stack : CallStack} (own : ∀ frame ∈ stack, touched frame.scope) :
    Spares touched scopes (stack.unwind scopes) := by
  constructor
  · intro id _ untouched _
    apply CallStack.get?_unwind
    rintro frame member rfl
    exact untouched (own frame member)
  · intro name _
    rw [CallStack.unwind_global]

theorem release (own : touched id) : Spares touched scopes (scopes.release id) := by
  constructor
  · intro other _ untouched _
    apply get?_release
    rintro rfl
    exact untouched own
  · intro name _
    rw [release_global]

theorem set {scope changed : Scope} (opened : scopes.get? id = some scope)
    (own : id = globalScope ∨ touched id)
    (hidden : id = globalScope → ∀ name, isPrivate name = true →
      changed.get? name = scope.get? name) :
    Spares touched scopes (scopes.set id changed) := by
  have isOpen : (scopes.get? id).isSome := by simp [opened]
  constructor
  · intro other local_ untouched _
    rw [get?_set isOpen, if_neg]
    rintro rfl
    exact own.elim local_ untouched
  · intro name isHidden
    cases id with
    | zero =>
        obtain rfl : scopes.global = scope := Option.some.inj opened
        exact hidden rfl name isHidden
    | succ slot => rfl

theorem bind (own : id = globalScope ∧ isPrivate name = false ∨ touched id)
    (local_ : touched id → id ≠ globalScope)
    (bound : scopes.bind id name value = some after) : Spares touched scopes after := by
  obtain ⟨scope, opened, rfl⟩ := Option.map_eq_some_iff.mp bound
  refine set opened (own.imp_left And.left) ?_
  intro global other isHidden
  have shown : isPrivate name = false := by
    rcases own with ⟨_, shown⟩ | touches
    · exact shown
    · exact absurd global (local_ touches)
  apply Bindings.lookup_insert_of_ne
  rintro rfl
  simp [shown] at isHidden

theorem setName (own : touched id) (local_ : id ≠ globalScope)
    (named : scopes.setName id name = .ok after) : Spares touched scopes after := by
  obtain ⟨scope, opened, rfl⟩ := set_of_setName named
  exact set opened (.inr own) fun global => absurd global local_

end Spares

/-! ## Look-ups -/

section Lookup

variable {ancestors : List ScopeId} {steps : Nat} {found : ScopeId}

theorem holderWithin_none (scopes : Scopes) (name : String) (steps : Nat) :
    scopes.holderWithin name steps none = none := by
  cases steps <;> rfl

theorem Lineage.holder_mem (lineage : scopes.Lineage id ancestors)
    (holds : scopes.holderWithin name steps (some id) = some found) :
    found ∈ id :: ancestors := by
  induction steps generalizing id ancestors with
  | zero => simp [holderWithin] at holds
  | succ steps induction =>
      cases lineage with
      | root opened last =>
          simp only [holderWithin, opened, last, holderWithin_none] at holds
          split at holds
          · simp [Option.some.inj holds]
          · simp at holds
      | child opened inherits rest =>
          simp only [holderWithin, opened, inherits] at holds
          split at holds
          · simp [Option.some.inj holds]
          · exact List.mem_cons_of_mem _ (induction rest holds)

theorem Lineage.holder_congr (lineage : scopes.Lineage id ancestors)
    (same : ∀ other ∈ id :: ancestors, after.get? other = scopes.get? other) :
    after.holderWithin name steps (some id) = scopes.holderWithin name steps (some id) := by
  induction steps generalizing id ancestors with
  | zero => rfl
  | succ steps induction =>
      have kept := same id List.mem_cons_self
      cases lineage with
      | root opened last => simp only [holderWithin, kept, opened, last, holderWithin_none]
      | child opened inherits rest =>
          have later := induction rest fun other member =>
            same other (List.mem_cons_of_mem _ member)
          simp only [holderWithin, kept, opened, inherits, later]

theorem Lineage.resolve_mem (lineage : scopes.Lineage id ancestors)
    (hidden : isPrivate name = true) (resolved : scopes.resolve (some id) name = some value) :
    ∃ other ∈ id :: ancestors, ∃ scope,
      scopes.get? other = some scope ∧ scope.get? name = some value := by
  unfold resolve at resolved
  split at resolved
  case h_1 other holds =>
      obtain ⟨scope, opened, held⟩ := Option.bind_eq_some_iff.mp resolved
      exact ⟨other, lineage.holder_mem holds, scope, opened, held⟩
  case h_2 => simp [hidden] at resolved

/-- The global scope does not matter for what a private variable is. -/
theorem Lineage.resolve_global (lineage : scopes.Lineage id ancestors)
    (locals : ∀ other ∈ id :: ancestors, other ≠ globalScope) (hidden : isPrivate name = true)
    (global : Scope) :
    ({ scopes with global } : Scopes).resolve (some id) name =
      scopes.resolve (some id) name := by
  have same : ∀ other, other ≠ globalScope →
      ({ scopes with global } : Scopes).get? other = scopes.get? other := by
    intro other local_
    cases other with
    | zero => exact absurd rfl local_
    | succ slot => rfl
  have holder : ({ scopes with global } : Scopes).holder (some id) name =
      scopes.holder (some id) name :=
    lineage.holder_congr fun other member => same other (locals other member)
  unfold resolve
  rw [holder]
  split
  case h_1 other holds => rw [same other (locals other (lineage.holder_mem holds))]
  case h_2 => simp [hidden]

theorem Lineage.assign_spares (lineage : scopes.Lineage id ancestors)
    (own : ∀ other ∈ id :: ancestors, touched other)
    (locals : ∀ other, touched other → other ≠ globalScope) :
    Spares touched scopes (scopes.assign (some id) name value true).2 := by
  -- A new variable goes to the global scope only if it is public, and else to the innermost scope.
  have target : ∀ other, scopes.assignTarget (some id) name true = some other →
      other = globalScope ∧ isPrivate name = false ∨ touched other := by
    intro other aimed
    unfold assignTarget at aimed
    split at aimed
    case h_1 holder holds =>
        obtain rfl := Option.some.inj aimed
        exact .inr (own holder (lineage.holder_mem holds))
    case h_2 =>
        split at aimed
        case isTrue shown =>
            obtain rfl := Option.some.inj aimed
            exact .inl ⟨rfl, by simpa using shown⟩
        case isFalse =>
            obtain rfl := Option.some.inj aimed
            exact .inr (own id List.mem_cons_self)
  unfold assign
  split
  · exact .refl scopes
  case h_2 other aimed =>
      split
      · exact .refl scopes
      case h_2 assigned bound => exact .bind (target other aimed) (locals other) bound

end Lookup

theorem release_withGlobal (scopes : Scopes) (id : ScopeId) (global : Scope) :
    ({ scopes with global } : Scopes).release id = { scopes.release id with global } := by
  cases id with
  | zero => rfl
  | succ slot =>
      cases found : scopes.get? (slot + 1) with
      | none =>
          have closed : ({ scopes with global } : Scopes).get? (slot + 1) = none := found
          rw [release_of_closed found, release_of_closed closed]
      | some scope =>
          have opened : ({ scopes with global } : Scopes).get? (slot + 1) = some scope := found
          obtain ⟨after, popped⟩ := pop_of_get? (Nat.succ_ne_zero slot) found
          obtain ⟨other, poppedToo⟩ := pop_of_get? (Nat.succ_ne_zero slot) opened
          obtain ⟨_, _, _, ⟨⟩, _, rfl⟩ := pop_eq popped
          obtain ⟨_, _, _, ⟨⟩, _, rfl⟩ := pop_eq poppedToo
          simp only [release, popped, poppedToo]

end Scopes

theorem CallStack.unwind_withGlobal (stack : CallStack) (scopes : Scopes) (global : Scope) :
    stack.unwind { scopes with global } = { stack.unwind scopes with global } := by
  induction stack generalizing scopes with
  | nil => rfl
  | cons frame outer induction =>
      have rest := induction (scopes.release frame.scope)
      rw [← Scopes.release_withGlobal] at rest
      exact rest

end SimScript
