import SimScript.Scope

/-!
# The arena of scopes

What opening, closing and overwriting a scope does to every other scope.  All of it
rests on the free list, which names the empty slots and nothing else.
-/

namespace SimScript.Scopes

variable {scopes : Scopes}

/-- The free list names the empty slots, each of them once. -/
structure Tight (scopes : Scopes) : Prop where
  nodup : scopes.free.Nodup
  slots : ∀ slot, slot ∈ scopes.free ↔ scopes.locals[slot]? = some none

theorem tight_empty : Tight {} :=
  ⟨List.nodup_nil, fun slot => by simp⟩

@[simp] theorem get?_succ (slot : Nat) :
    scopes.get? (slot + 1) = (scopes.locals[slot]?).join := rfl

section Open

variable (parent : Option ScopeId) (bindings : Bindings)

def opened : Scope :=
  { parent := parent.filter fun id => id != globalScope, bindings }

theorem push_ne_global : (scopes.push parent bindings).1 ≠ globalScope := by
  unfold push
  dsimp only
  split <;> exact Nat.succ_ne_zero _

theorem push_fresh (tight : scopes.Tight) :
    scopes.get? (scopes.push parent bindings).1 = none := by
  unfold push
  dsimp only
  split
  case h_1 slot free list =>
      have empty := (tight.slots slot).mp (by simp [list])
      simp [empty]
  case h_2 => simp

theorem get?_push (tight : scopes.Tight) (id : ScopeId) :
    (scopes.push parent bindings).2.get? id =
      if id = (scopes.push parent bindings).1 then some (opened parent bindings)
      else scopes.get? id := by
  unfold push
  dsimp only
  split
  case h_1 slot free list =>
      have inside : slot < scopes.locals.size := by
        have empty := (tight.slots slot).mp (by simp [list])
        exact (Array.getElem?_eq_some_iff.mp empty).1
      cases id with
      | zero => rfl
      | succ other =>
          by_cases same : other = slot
          · simp [same, inside, opened]
          · simp [same, Ne.symm same]
  case h_2 list =>
      cases id with
      | zero => rfl
      | succ other =>
          by_cases same : other = scopes.locals.size
          · simp [same, opened]
          · simp [same, Array.getElem?_push]

/-- A scope that is open after another was opened is that one or was open before. -/
theorem eq_opened_or_get? {id : ScopeId} {scope : Scope}
    (found : (scopes.push parent bindings).2.get? id = some scope) :
    scope = opened parent bindings ∨ scopes.get? id = some scope := by
  cases id with
  | zero =>
      right
      unfold push at found
      dsimp only at found
      split at found <;> exact found
  | succ other =>
      unfold push at found
      dsimp only at found
      split at found
      · rw [get?_succ, Array.getElem?_setIfInBounds] at found
        split at found
        · split at found
          · exact .inl (Option.some.inj found).symm
          · simp at found
        · exact .inr found
      · rw [get?_succ, Array.getElem?_push] at found
        split at found
        · exact .inl (Option.some.inj found).symm
        · exact .inr found

theorem push_tight (tight : scopes.Tight) : (scopes.push parent bindings).2.Tight := by
  unfold push
  dsimp only
  split
  case h_1 slot free list =>
      have nodup := tight.nodup
      rw [list, List.nodup_cons] at nodup
      refine ⟨nodup.2, fun other => ?_⟩
      have slots := tight.slots other
      rw [list, List.mem_cons] at slots
      by_cases same : other = slot
      · subst same
        simp [nodup.1, Array.getElem?_setIfInBounds]
      · simpa [same, Ne.symm same] using slots
  case h_2 list =>
      refine ⟨List.nodup_nil, fun other => ?_⟩
      have slots := tight.slots other
      simp only [list, List.not_mem_nil, false_iff] at slots ⊢
      rw [Array.getElem?_push]
      split <;> simp [slots]

end Open

section Close

variable {after : Scopes} {id : ScopeId}

theorem pop_of_get? {scope : Scope} (local_ : id ≠ globalScope)
    (opened : scopes.get? id = some scope) : ∃ after, scopes.pop id = .ok after := by
  cases id with
  | zero => exact absurd rfl local_
  | succ slot =>
      unfold pop
      dsimp only
      split
      case h_1 missing => exact absurd (missing.symm.trans opened) (by simp)
      case h_2 => exact ⟨_, rfl⟩

theorem pop_eq (popped : scopes.pop id = .ok after) :
    ∃ slot scope inside, id = slot + 1 ∧ scopes.locals[slot]? = some (some scope) ∧
      after = { scopes with
        locals := scopes.locals.setIfInBounds slot none, free := slot :: scopes.free, inside } := by
  cases id with
  | zero => simp [pop] at popped
  | succ slot =>
      simp only [pop] at popped
      split at popped
      · simp at popped
      case h_2 scope opened =>
          exact ⟨slot, scope, _, rfl, Option.join_eq_some_iff.mp opened,
            (Except.ok.inj popped).symm⟩

theorem get?_pop (popped : scopes.pop id = .ok after) (other : ScopeId) :
    after.get? other = if other = id then none else scopes.get? other := by
  obtain ⟨slot, scope, _, rfl, held, rfl⟩ := pop_eq popped
  have inside := (Array.getElem?_eq_some_iff.mp held).1
  cases other with
  | zero => rfl
  | succ other =>
      by_cases same : other = slot
      · simp [same, inside]
      · simp [same, Ne.symm same]

theorem pop_tight (tight : scopes.Tight) (popped : scopes.pop id = .ok after) :
    after.Tight := by
  obtain ⟨slot, scope, _, rfl, held, rfl⟩ := pop_eq popped
  have inside := (Array.getElem?_eq_some_iff.mp held).1
  have taken : slot ∉ scopes.free := by simp [tight.slots, held]
  refine ⟨List.nodup_cons.mpr ⟨taken, tight.nodup⟩, fun other => ?_⟩
  by_cases same : other = slot
  · simp [same, inside]
  · simp [same, Ne.symm same, tight.slots other]

theorem release_of_closed (closed : scopes.get? id = none) : scopes.release id = scopes := by
  unfold release
  split
  case h_1 popped =>
      obtain ⟨slot, scope, _, rfl, held, rfl⟩ := pop_eq popped
      simp [held] at closed
  case h_2 => rfl

theorem get?_release {other : ScopeId} (different : other ≠ id) :
    (scopes.release id).get? other = scopes.get? other := by
  unfold release
  split
  case h_1 popped => rw [get?_pop popped, if_neg different]
  case h_2 => rfl

theorem release_global : (scopes.release id).global = scopes.global := by
  unfold release
  split
  case h_1 popped =>
      obtain ⟨slot, scope, _, _, _, rfl⟩ := pop_eq popped
      rfl
  case h_2 => rfl

end Close

section Overwrite

variable {id : ScopeId} {scope : Scope}

theorem get?_set (held : (scopes.get? id).isSome) (other : ScopeId) :
    (scopes.set id scope).get? other = if other = id then some scope else scopes.get? other := by
  cases id with
  | zero => cases other <;> simp [set, get?]
  | succ slot =>
      obtain ⟨before, opened⟩ := Option.isSome_iff_exists.mp held
      have inside := (Array.getElem?_eq_some_iff.mp (Option.join_eq_some_iff.mp opened)).1
      cases other with
      | zero => rfl
      | succ other =>
          by_cases same : other = slot
          · simp [set, same, inside]
          · simp [set, same, Ne.symm same]

theorem set_tight (tight : scopes.Tight) (held : (scopes.get? id).isSome) :
    (scopes.set id scope).Tight := by
  cases id with
  | zero => exact ⟨tight.nodup, tight.slots⟩
  | succ slot =>
      obtain ⟨before, opened⟩ := Option.isSome_iff_exists.mp held
      have filled := Option.join_eq_some_iff.mp opened
      refine ⟨tight.nodup, fun other => ?_⟩
      by_cases same : other = slot
      · subst same
        have taken : other ∉ scopes.free := by simp [tight.slots, filled]
        simp [set, taken, Array.getElem?_setIfInBounds]
      · simp [set, Ne.symm same, tight.slots other]

/-- Naming a scope overwrites it with itself under a name. -/
theorem set_of_setName {after : Scopes} {name : String}
    (named : scopes.setName id name = .ok after) :
    ∃ scope, scopes.get? id = some scope ∧
      after = scopes.set id { scope with name := some name } := by
  unfold setName at named
  split at named
  · simp at named
  case h_2 scope opened =>
      split at named
      · simp at named
      · exact ⟨scope, opened, (Except.ok.inj named).symm⟩

/-- What giving a variable the value nil keeps, giving it to several variables keeps. -/
theorem bindAll_keeps {motive : Scopes → Prop} (first : motive scopes)
    (each : ∀ before after name, motive before → before.bind id name .nil = some after →
      motive after)
    (names : List String) :
    motive (names.foldl (fun scopes name => (scopes.bind id name .nil).getD scopes) scopes) := by
  induction names generalizing scopes with
  | nil => exact first
  | cons name rest induction =>
      apply induction
      dsimp only
      cases bound : scopes.bind id name .nil with
      | none => exact first
      | some declared => exact each scopes declared name first bound

end Overwrite

end SimScript.Scopes
