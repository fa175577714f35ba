import Mathlib.Data.List.Perm.Subperm
import SimScript.Proofs.Scope.Isolation

/-!
# Chains of scopes

A look-up follows the parents of a scope until one of them holds the variable, until
there is no parent, or until it comes to a closed scope, which cuts the chain.  Where
the chain ends, each scope is on it once, and so the look-up never runs out of steps.
-/

namespace SimScript.Scopes

/-- The open scopes that the parents lead to, one after the other, up to a scope without a parent or
to a closed one. -/
inductive Chain (scopes : Scopes) : Option ScopeId → List ScopeId → Prop where
  | outside : Chain scopes none []
  | cut {id : ScopeId} (closed : scopes.get? id = none) : Chain scopes (some id) []
  | link {id : ScopeId} {scope : Scope} {rest : List ScopeId}
      (opened : scopes.get? id = some scope) (beyond : Chain scopes scope.parent rest) :
      Chain scopes (some id) (id :: rest)

/-- From everywhere the parents come to an end. -/
def ChainsEnd (scopes : Scopes) : Prop :=
  ∀ head, ∃ chain, scopes.Chain head chain

/-- How the walk of a look-up ends: in the first scope that holds the variable, or nowhere. -/
inductive Finds (scopes : Scopes) (name : String) : Option ScopeId → Option ScopeId → Prop where
  | outside : Finds scopes name none none
  | cut {id : ScopeId} (closed : scopes.get? id = none) : Finds scopes name (some id) none
  | here {id : ScopeId} {scope : Scope} (opened : scopes.get? id = some scope)
      (held : (scope.get? name).isSome = true) : Finds scopes name (some id) (some id)
  | onward {id : ScopeId} {scope : Scope} {answer : Option ScopeId}
      (opened : scopes.get? id = some scope) (missing : (scope.get? name).isSome = false)
      (beyond : Finds scopes name scope.parent answer) : Finds scopes name (some id) answer

def holds (scopes : Scopes) (name : String) (id : ScopeId) : Bool :=
  ((scopes.get? id).bind fun scope => scope.get? name).isSome

variable {scopes after : Scopes} {head : Option ScopeId} {id : ScopeId} {name : String}
  {chain other : List ScopeId} {scope : Scope} {answer : Option ScopeId}

theorem holds_of_get? (name : String) (opened : scopes.get? id = some scope) :
    scopes.holds name id = (scope.get? name).isSome := by
  rw [holds, opened, Option.bind_some]

theorem get?_push_of_get? {parent : Option ScopeId} {bindings : Bindings} (tight : scopes.Tight)
    (opened : scopes.get? id = some scope) :
    (scopes.push parent bindings).2.get? id = some scope := by
  rw [get?_push parent bindings tight, if_neg, opened]
  rintro rfl
  simp [push_fresh parent bindings tight] at opened

theorem Finds.unique {second : Option ScopeId} (finds : scopes.Finds name head answer)
    (again : scopes.Finds name head second) : answer = second := by
  induction finds with
  | outside =>
      cases again
      rfl
  | cut closed =>
      cases again with
      | cut => rfl
      | here opened | onward opened => simp [closed] at opened
  | here opened held =>
      cases again with
      | cut closed => simp [closed] at opened
      | here => rfl
      | onward reopened missing =>
          obtain rfl := Option.some.inj (opened.symm.trans reopened)
          simp [held] at missing
  | onward opened missing _ induction =>
      cases again with
      | cut closed => simp [closed] at opened
      | here reopened held =>
          obtain rfl := Option.some.inj (opened.symm.trans reopened)
          simp [missing] at held
      | onward reopened _ beyond =>
          obtain rfl := Option.some.inj (opened.symm.trans reopened)
          exact induction beyond

namespace Chain

theorem unique (first : scopes.Chain head chain) (second : scopes.Chain head other) :
    chain = other := by
  induction first generalizing other with
  | outside =>
      cases second
      rfl
  | cut closed =>
      cases second with
      | cut => rfl
      | link opened _ => simp [closed] at opened
  | link opened _ induction =>
      cases second with
      | cut closed => simp [closed] at opened
      | link again beyond =>
          obtain rfl := Option.some.inj (opened.symm.trans again)
          rw [induction beyond]

theorem suffix {inner outer : List ScopeId} (on : scopes.Chain head (inner ++ id :: outer)) :
    scopes.Chain (some id) (id :: outer) := by
  induction inner generalizing head with
  | nil =>
      cases on with
      | link opened beyond => exact .link opened beyond
  | cons first inner induction =>
      cases on with
      | link _ beyond => exact induction beyond

theorem opened (on : scopes.Chain head chain) (member : id ∈ chain) :
    ∃ scope, scopes.get? id = some scope := by
  obtain ⟨inner, outer, rfl⟩ := List.append_of_mem member
  cases on.suffix with
  | link opened _ => exact ⟨_, opened⟩

/-- No scope is on a chain twice: the rest of the chain would be as long as the whole. -/
theorem nodup (on : scopes.Chain head chain) : chain.Nodup := by
  induction on with
  | outside | cut => exact List.nodup_nil
  | @link id scope rest opened beyond induction =>
      refine List.nodup_cons.mpr ⟨fun again => ?_, induction⟩
      obtain ⟨inner, outer, rfl⟩ := List.append_of_mem again
      have same := congrArg List.length ((link opened beyond).unique beyond.suffix)
      simp only [List.length_cons, List.length_append] at same
      omega

theorem length_le (on : scopes.Chain head chain) : chain.length ≤ scopes.locals.size + 1 := by
  have bounded : chain ⊆ List.range (scopes.locals.size + 1) := by
    intro id member
    obtain ⟨scope, opened⟩ := on.opened member
    rw [List.mem_range]
    cases id with
    | zero => exact Nat.succ_pos _
    | succ slot =>
        exact Nat.succ_lt_succ (Array.getElem?_eq_some_iff.mp (Option.join_eq_some_iff.mp opened)).1
  simpa using (List.Nodup.subperm on.nodup bounded).length_le

/-- The walk of a look-up along a chain ends in its first scope that holds the variable. -/
theorem finds (on : scopes.Chain head chain) :
    scopes.Finds name head (chain.find? (scopes.holds name)) := by
  induction on with
  | outside => exact .outside
  | cut closed => exact .cut closed
  | @link id scope rest opened _ induction =>
      have same := holds_of_get? name opened
      cases held : (scope.get? name).isSome with
      | true =>
          rw [List.find?_cons_of_pos (same.trans held)]
          exact .here opened held
      | false =>
          rw [List.find?_cons_of_neg (by simp [same, held])]
          exact .onward opened held induction

theorem holderWithin {steps : Nat} (on : scopes.Chain head chain) (enough : chain.length < steps) :
    scopes.holderWithin name steps head = chain.find? (scopes.holds name) := by
  induction on generalizing steps with
  | outside => exact holderWithin_none scopes name steps
  | cut closed =>
      obtain ⟨steps, rfl⟩ := Nat.exists_eq_add_one_of_ne_zero (Nat.ne_of_gt enough)
      simp [Scopes.holderWithin, closed]
  | @link id scope rest opened _ induction =>
      obtain ⟨steps, rfl⟩ := Nat.exists_eq_add_one_of_ne_zero (Nat.ne_zero_of_lt enough)
      have later := induction (Nat.lt_of_succ_lt_succ enough)
      simp only [Scopes.holderWithin, opened, later, List.find?_cons, holds_of_get? name opened]
      cases (scope.get? name).isSome <;> rfl

theorem holder_eq (on : scopes.Chain head chain) (name : String) :
    scopes.holder head name = chain.find? (scopes.holds name) :=
  on.holderWithin (Nat.lt_succ_of_le on.length_le)

theorem congr (same : ∀ id, (after.get? id).map Scope.parent = (scopes.get? id).map Scope.parent)
    (on : scopes.Chain head chain) : after.Chain head chain := by
  induction on with
  | outside => exact .outside
  | @cut id closed =>
      have kept := same id
      rw [closed, Option.map_none, Option.map_eq_none_iff] at kept
      exact .cut kept
  | @link id scope rest opened _ induction =>
      have kept := same id
      rw [opened, Option.map_some] at kept
      obtain ⟨changed, opened, parent⟩ := Option.map_eq_some_iff.mp kept
      exact .link opened (parent ▸ induction)

end Chain

theorem ChainsEnd.congr
    (same : ∀ id, (after.get? id).map Scope.parent = (scopes.get? id).map Scope.parent)
    (ends : scopes.ChainsEnd) : after.ChainsEnd := by
  intro head
  obtain ⟨chain, on⟩ := ends head
  exact ⟨chain, on.congr same⟩

/-- Where all chains end, the walk of every look-up does, and it finds what is looked up. -/
theorem ChainsEnd.finds (ends : scopes.ChainsEnd) (head : Option ScopeId) (name : String) :
    scopes.Finds name head (scopes.holder head name) := by
  obtain ⟨chain, on⟩ := ends head
  rw [on.holder_eq]
  exact on.finds

end SimScript.Scopes
