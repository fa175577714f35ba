import Mathlib.Data.List.Nodup
import Mathlib.Data.List.Perm.Basic
import SimScript.Call.Stack
import SimScript.Proofs.Scope.Arena

/-!
# Who owns which scope

The frames of a stack own one scope each, and the scope of a frame is the child of
the scope of the frame below.  `Scopes.Owned` says so for several stacks at once, each
given as the chain of its scopes with the innermost first: the open local scopes are
those on the chains, each on one chain and once.
-/

namespace SimScript

namespace Scopes

variable {scopes after : Scopes} {chain : List ScopeId} {chains others : List (List ScopeId)}
  {id : ScopeId}

/-- Following the parents from a scope visits some scopes, one after the other, and stops. -/
inductive Lineage (scopes : Scopes) : ScopeId → List ScopeId → Prop where
  | root {id : ScopeId} {scope : Scope} (opened : scopes.get? id = some scope)
      (last : scope.parent = none) : Lineage scopes id []
  | child {id parent : ScopeId} {scope : Scope} {ancestors : List ScopeId}
      (opened : scopes.get? id = some scope) (inherits : scope.parent = some parent)
      (rest : Lineage scopes parent ancestors) : Lineage scopes id (parent :: ancestors)

theorem Lineage.suffix {inner outer : List ScopeId} {ancestor : ScopeId}
    (lineage : scopes.Lineage id (inner ++ ancestor :: outer)) :
    scopes.Lineage ancestor outer := by
  induction inner generalizing id with
  | nil =>
      cases lineage with
      | child _ _ rest => exact rest
  | cons _ inner induction =>
      cases lineage with
      | child _ _ rest => exact induction rest

theorem Lineage.congr {ancestors : List ScopeId} (lineage : scopes.Lineage id ancestors)
    (same : ∀ other ∈ id :: ancestors,
      (after.get? other).map Scope.parent = (scopes.get? other).map Scope.parent) :
    after.Lineage id ancestors := by
  induction lineage with
  | root opened last =>
      have kept := same _ List.mem_cons_self
      rw [opened, Option.map_some] at kept
      obtain ⟨scope, opened', parent⟩ := Option.map_eq_some_iff.mp kept
      exact .root opened' (parent.trans last)
  | child opened inherits _ induction =>
      have kept := same _ List.mem_cons_self
      rw [opened, Option.map_some] at kept
      obtain ⟨scope, opened', parent⟩ := Option.map_eq_some_iff.mp kept
      refine .child opened' (parent.trans inherits) (induction fun other member => ?_)
      exact same other (List.mem_cons_of_mem _ member)

/-- The open local scopes are those on the chains, each once, and each chain is a lineage. -/
structure Owned (scopes : Scopes) (chains : List (List ScopeId)) : Prop where
  tight : scopes.Tight
  once : chains.flatten.Nodup
  live : ∀ id, id ∈ chains.flatten ↔ id ≠ globalScope ∧ (scopes.get? id).isSome
  lineage : ∀ {id ancestors}, id :: ancestors ∈ chains → scopes.Lineage id ancestors

namespace Owned

theorem empty : Owned {} [] where
  tight := tight_empty
  once := List.nodup_nil
  live := by
    intro id
    cases id with
    | zero => simp [globalScope]
    | succ slot => simp
  lineage := by simp

theorem perm (owned : scopes.Owned chains) (same : chains.Perm others) :
    scopes.Owned others where
  tight := owned.tight
  once := same.flatten.nodup_iff.mp owned.once
  live := fun id => same.flatten.mem_iff.symm.trans (owned.live id)
  lineage := fun member => owned.lineage (same.mem_iff.mpr member)

theorem nil_cons_iff : scopes.Owned ([] :: chains) ↔ scopes.Owned chains := by
  constructor
  · intro owned
    exact ⟨owned.tight, by simpa using owned.once, by simpa using owned.live,
      fun member => owned.lineage (List.mem_cons_of_mem _ member)⟩
  · intro owned
    refine ⟨owned.tight, by simpa using owned.once, by simpa using owned.live, ?_⟩
    intro id ancestors member
    exact owned.lineage (by simpa using member)

theorem congr (owned : scopes.Owned chains) (tight : after.Tight)
    (same : ∀ id, id ≠ globalScope →
      (after.get? id).map Scope.parent = (scopes.get? id).map Scope.parent) :
    after.Owned chains where
  tight := tight
  once := owned.once
  live := by
    intro id
    rw [owned.live]
    apply and_congr_right
    intro local_
    have kept := congrArg Option.isSome (same id local_)
    simp only [Option.isSome_map] at kept
    rw [kept]
  lineage := by
    intro id ancestors member
    refine (owned.lineage member).congr fun other inChain => same other ?_
    exact ((owned.live other).mp (List.mem_flatten_of_mem member inChain)).1

theorem set {scope changed : Scope} (owned : scopes.Owned chains)
    (opened : scopes.get? id = some scope) (parent : changed.parent = scope.parent) :
    (scopes.set id changed).Owned chains := by
  have isOpen : (scopes.get? id).isSome := by simp [opened]
  apply owned.congr (set_tight owned.tight isOpen)
  intro other _
  rw [get?_set isOpen]
  split
  case isTrue same => simp [same, opened, parent]
  case isFalse => rfl

theorem bind {name : String} {value : Value} (owned : scopes.Owned chains)
    (bound : scopes.bind id name value = some after) : after.Owned chains := by
  obtain ⟨scope, opened, rfl⟩ := Option.map_eq_some_iff.mp bound
  exact owned.set opened rfl

theorem bindAll (owned : scopes.Owned chains) (names : List String) :
    (names.foldl (fun scopes name => (scopes.bind id name .nil).getD scopes) scopes).Owned
      chains :=
  bindAll_keeps (motive := fun scopes => scopes.Owned chains) owned
    (fun _ _ _ before bound => before.bind bound) names

theorem setName {name : String} (owned : scopes.Owned chains)
    (named : scopes.setName id name = .ok after) : after.Owned chains := by
  obtain ⟨scope, opened, rfl⟩ := set_of_setName named
  exact owned.set opened rfl

theorem setGlobal (owned : scopes.Owned chains) (name : String) (value : Value) :
    (scopes.setGlobal name value).Owned chains := by
  have bound : scopes.bind globalScope name value = some (scopes.setGlobal name value) := rfl
  exact owned.bind bound

/-- Opening a scope below the innermost of a chain makes it the innermost. -/
theorem push {parent : Option ScopeId} (bindings : Bindings)
    (owned : scopes.Owned (chain :: others))
    (below : (parent.filter fun id => id != globalScope) = chain.head?) :
    (scopes.push parent bindings).2.Owned
      (((scopes.push parent bindings).1 :: chain) :: others) := by
  have fresh := push_fresh parent bindings owned.tight
  have kept := get?_push parent bindings owned.tight
  have notGlobal : (scopes.push parent bindings).1 ≠ globalScope := push_ne_global parent bindings
  generalize (scopes.push parent bindings).1 = opening at fresh kept notGlobal ⊢
  have notOwned : opening ∉ (chain :: others).flatten := by
    rw [owned.live, fresh]
    simp
  -- No chain changes, because the new scope is on none of them.
  have unchanged : ∀ {id ancestors}, id :: ancestors ∈ chain :: others →
      (scopes.push parent bindings).2.Lineage id ancestors := by
    intro id ancestors member
    apply (owned.lineage member).congr
    intro other inChain
    have different : other ≠ opening := by
      rintro rfl
      exact notOwned (List.mem_flatten_of_mem member inChain)
    rw [kept other, if_neg different]
  refine ⟨push_tight parent bindings owned.tight, ?_, ?_, ?_⟩
  · exact List.nodup_cons.mpr ⟨notOwned, owned.once⟩
  · intro id
    have before := owned.live id
    rw [List.flatten_cons, List.cons_append, List.mem_cons, kept id]
    by_cases same : id = opening
    · simp [same, notGlobal]
    · simpa [same] using before
  · intro id ancestors member
    rcases List.mem_cons.mp member with same | member
    · obtain ⟨rfl, rfl⟩ := List.cons.inj same
      have found : (scopes.push parent bindings).2.get? id = some (opened parent bindings) := by
        rw [kept id, if_pos rfl]
      cases ancestors with
      | nil => exact .root found below
      | cons up rest => exact .child found below (unchanged (by simp))
    · exact unchanged (List.mem_cons_of_mem _ member)

theorem pop (owned : scopes.Owned ((id :: chain) :: others)) :
    ∃ after, scopes.pop id = .ok after ∧ after.Owned (chain :: others) := by
  obtain ⟨notGlobal, isOpen⟩ := (owned.live id).mp (by simp)
  obtain ⟨scope, opened⟩ := Option.isSome_iff_exists.mp isOpen
  obtain ⟨after, popped⟩ := pop_of_get? notGlobal opened
  have kept := get?_pop popped
  obtain ⟨notOwned, once⟩ := List.nodup_cons.mp owned.once
  refine ⟨after, popped, pop_tight owned.tight popped, once, ?_, ?_⟩
  · intro other
    have before := owned.live other
    rw [List.flatten_cons, List.cons_append, List.mem_cons] at before
    rw [kept other]
    by_cases same : other = id
    · subst same
      simpa using notOwned
    · simpa [same] using before
  · intro other ancestors member
    have lineage : scopes.Lineage other ancestors := by
      rcases List.mem_cons.mp member with same | member
      · subst same
        have whole : scopes.Lineage id ([] ++ other :: ancestors) := owned.lineage (by simp)
        exact whole.suffix
      · exact owned.lineage (List.mem_cons_of_mem _ member)
    apply lineage.congr
    intro ancestor inChain
    have different : ancestor ≠ id := by
      rintro rfl
      exact notOwned (List.mem_flatten_of_mem member inChain)
    rw [kept ancestor, if_neg different]

theorem release (owned : scopes.Owned ((id :: chain) :: others)) :
    (scopes.release id).Owned (chain :: others) := by
  obtain ⟨after, popped, rest⟩ := owned.pop
  unfold Scopes.release
  rw [popped]
  exact rest

/-- The innermost scopes of a chain can be closed one after the other, and each of them is open when
its turn comes. -/
theorem unwind_inner {inner : CallStack}
    (owned : scopes.Owned ((inner.map CallFrame.scope ++ chain) :: others)) :
    inner.foldlM (fun scopes frame => scopes.pop frame.scope) scopes =
        .ok (inner.unwind scopes) ∧
      (inner.unwind scopes).Owned (chain :: others) := by
  induction inner generalizing scopes with
  | nil => exact ⟨rfl, owned⟩
  | cons frame outer induction =>
      obtain ⟨after, popped, rest⟩ := owned.pop
      have released : scopes.release frame.scope = after := by
        unfold Scopes.release
        rw [popped]
      obtain ⟨closes, left⟩ := induction rest
      have unwound : CallStack.unwind (frame :: outer) scopes = CallStack.unwind outer after := by
        rw [← released]
        rfl
      rw [unwound, List.foldlM_cons, popped]
      exact ⟨closes, left⟩

theorem unwind {stack : CallStack}
    (owned : scopes.Owned (stack.map CallFrame.scope :: others)) :
    stack.foldlM (fun scopes frame => scopes.pop frame.scope) scopes =
        .ok (stack.unwind scopes) ∧
      (stack.unwind scopes).Owned others := by
  rw [← List.append_nil (stack.map CallFrame.scope)] at owned
  exact ⟨owned.unwind_inner.1, nil_cons_iff.mp owned.unwind_inner.2⟩

theorem liveCount_eq (owned : scopes.Owned chains) :
    scopes.liveCount = chains.flatten.length := by
  let held := (List.range scopes.locals.size).filter fun slot => (scopes.get? (slot + 1)).isSome
  have listed : scopes.locals.toList =
      (List.range scopes.locals.size).map fun slot => scopes.get? (slot + 1) := by
    apply List.ext_getElem?
    intro slot
    by_cases inside : slot < scopes.locals.size
    · simp [inside]
    · simp [inside]
  have counted : scopes.liveCount = held.length := by
    rw [liveCount, listed, List.countP_map, List.countP_eq_length_filter]
    rfl
  have same : chains.flatten.Perm (held.map (· + 1)) := by
    refine (List.perm_ext_iff_of_nodup owned.once ?_).mpr fun id => ?_
    · exact ((List.nodup_range).filter _).map fun _ _ => Nat.succ.inj
    · rw [owned.live]
      cases id with
      | zero => simp [globalScope, held]
      | succ slot =>
          have bounded : (scopes.get? (slot + 1)).isSome → slot < scopes.locals.size := by
            intro isOpen
            obtain ⟨scope, opened⟩ := Option.isSome_iff_exists.mp isOpen
            exact (Array.getElem?_eq_some_iff.mp (Option.join_eq_some_iff.mp opened)).1
          simpa [held, globalScope] using bounded
  rw [counted, same.length_eq, List.length_map]

end Owned

end Scopes

namespace CallStack

variable {scopes : Scopes} {stack : CallStack}

theorem get?_unwind {other : ScopeId} (apart : ∀ frame ∈ stack, other ≠ frame.scope) :
    (stack.unwind scopes).get? other = scopes.get? other := by
  induction stack generalizing scopes with
  | nil => rfl
  | cons frame outer induction =>
      have rest : (CallStack.unwind outer (scopes.release frame.scope)).get? other =
          (scopes.release frame.scope).get? other :=
        induction fun below member => apart below (List.mem_cons_of_mem _ member)
      exact rest.trans (Scopes.get?_release (apart frame List.mem_cons_self))

theorem unwind_global (stack : CallStack) (scopes : Scopes) :
    (stack.unwind scopes).global = scopes.global := by
  induction stack generalizing scopes with
  | nil => rfl
  | cons frame outer induction =>
      exact (induction (scopes.release frame.scope)).trans Scopes.release_global

end CallStack

end SimScript
