import SimScript.Proofs.Scope.Chains

/-!
# Assignments and look-ups

An assignment changes one variable of one scope, and a look-up sees the new value
exactly where it now ends in that scope.  Both walk along the same chain, but where no
scope on it holds the variable they go on differently, so the two are compared here.
-/

namespace SimScript

theorem Bindings.lookup_insert_self (name : String) (value : Value) (bindings : Bindings) :
    (Bindings.insert name value bindings).lookup name = some value := by
  induction bindings with
  | nil => simp [insert]
  | cons binding rest induction =>
      obtain ⟨held, kept⟩ := binding
      by_cases same : held = name
      · simp [insert, same]
      · have unequal : (name == held) = false := beq_false_of_ne (Ne.symm same)
        simp [insert, same, List.lookup_cons, unequal, induction]

namespace Scopes

/-- The scope in which a look-up ends that finds the variable: the first one on the chain that holds
it, or the global one if the variable is public. -/
def answering (scopes : Scopes) (head : Option ScopeId) (name : String) : Option ScopeId :=
  match scopes.holder head name with
  | some id => some id
  | none =>
      if isPrivate name then none
      else if scopes.holds name globalScope then some globalScope else none

/-- One variable of one scope has been given a value, and nothing else has changed. -/
structure Assigned (before after : Scopes) (target : ScopeId) (name : String) (value : Value) :
    Prop where
  scope : ∃ held changed, before.get? target = some held ∧ after.get? target = some changed ∧
    changed.parent = held.parent ∧ changed.name = held.name ∧
    ∀ other, changed.get? other = if other = name then some value else held.get? other
  others : ∀ id, id ≠ target → after.get? id = before.get? id
  slots : after.free = before.free ∧ after.locals.size = before.locals.size

/-- Which scope takes an assignment from the head of a chain: the first one on it that holds the
variable; failing that, the global one if the variable is public and that is allowed, and the head
otherwise. -/
inductive Takes (scopes : Scopes) (head : Option ScopeId) (chain : List ScopeId) (name : String)
    (allowGlobal : Bool) : Option ScopeId → Prop where
  | holder {id : ScopeId} (first : chain.find? (scopes.holds name) = some id) :
      Takes scopes head chain name allowGlobal (some id)
  | global (missing : chain.find? (scopes.holds name) = none) (shown : isPrivate name = false)
      (allowed : allowGlobal = true) : Takes scopes head chain name allowGlobal (some globalScope)
  | head (missing : chain.find? (scopes.holds name) = none)
      (stays : isPrivate name = true ∨ allowGlobal = false) :
      Takes scopes head chain name allowGlobal head

variable {scopes after : Scopes} {head : Option ScopeId} {target id : ScopeId} {name : String}
  {value : Value} {allowGlobal : Bool} {chain : List ScopeId}

theorem bind_assigned (bound : scopes.bind target name value = some after) :
    scopes.Assigned after target name value := by
  obtain ⟨held, opened, rfl⟩ := Option.map_eq_some_iff.mp bound
  have isOpen : (scopes.get? target).isSome := by simp [opened]
  have now : (scopes.set target { held with bindings := held.bindings.insert name value }).get?
      target = some { held with bindings := held.bindings.insert name value } := by
    rw [get?_set isOpen, if_pos rfl]
  refine ⟨⟨held, _, opened, now, rfl, rfl, fun other => ?_⟩, ?_, ?_⟩
  · split
    case isTrue same =>
        rw [same]
        exact Bindings.lookup_insert_self name value held.bindings
    case isFalse different => exact Bindings.lookup_insert_of_ne value held.bindings different
  · intro id different
    rw [get?_set isOpen, if_neg different]
  · cases target with
    | zero => exact ⟨rfl, rfl⟩
    | succ slot => exact ⟨rfl, Array.size_setIfInBounds⟩

theorem Chain.takes (on : scopes.Chain head chain) (name : String) (allowGlobal : Bool) :
    scopes.Takes head chain name allowGlobal (scopes.assignTarget head name allowGlobal) := by
  unfold assignTarget
  rw [on.holder_eq]
  cases first : chain.find? (scopes.holds name) with
  | some id => exact .holder first
  | none =>
      dsimp only
      split
      case isTrue shared =>
          simp only [Bool.and_eq_true, Bool.not_eq_true'] at shared
          exact .global first shared.1 shared.2
      case isFalse own =>
          refine .head first ?_
          cases hidden : isPrivate name <;> simp_all

/-- An assignment changes one variable of the scope that takes it; or nothing, where that scope is
missing or closed. -/
theorem assign_cases (scopes : Scopes) (head : Option ScopeId) (name : String) (value : Value)
    (allowGlobal : Bool) :
    (∃ target after, scopes.assignTarget head name allowGlobal = some target ∧
      scopes.assign head name value allowGlobal = (some target, after) ∧
      scopes.Assigned after target name value) ∨
    (scopes.assignTarget head name allowGlobal).bind scopes.get? = none ∧
      scopes.assign head name value allowGlobal = (none, scopes) := by
  unfold assign
  cases aimed : scopes.assignTarget head name allowGlobal with
  | none => exact .inr ⟨rfl, rfl⟩
  | some target =>
      cases bound : scopes.bind target name value with
      | none => exact .inr ⟨Option.map_eq_none_iff.mp bound, by simp only [bound]⟩
      | some after => exact .inl ⟨target, after, rfl, by simp only [bound], bind_assigned bound⟩

namespace Assigned

theorem parent (assigned : scopes.Assigned after target name value) (id : ScopeId) :
    (after.get? id).map Scope.parent = (scopes.get? id).map Scope.parent := by
  by_cases same : id = target
  · obtain ⟨held, changed, before, now, parent, _⟩ := assigned.scope
    rw [same, before, now, Option.map_some, Option.map_some, parent]
  · rw [assigned.others id same]

theorem value_eq (assigned : scopes.Assigned after target name value) (id : ScopeId)
    (seen : String) :
    ((after.get? id).bind fun scope => scope.get? seen) =
      if id = target ∧ seen = name then some value
      else (scopes.get? id).bind fun scope => scope.get? seen := by
  by_cases same : id = target
  · obtain ⟨held, changed, before, now, _, _, bindings⟩ := assigned.scope
    simp [same, before, now, bindings]
  · rw [assigned.others id same, if_neg fun both => same both.1]

theorem holds_eq (assigned : scopes.Assigned after target name value) (id : ScopeId)
    (seen : String) :
    after.holds seen id = true ↔ id = target ∧ seen = name ∨ scopes.holds seen id = true := by
  rw [holds, assigned.value_eq, holds]
  by_cases both : id = target ∧ seen = name
  · simp [both]
  · simp [both]

/-- Look-ups of other variables do not see an assignment. -/
theorem resolve_other {seen : String} (assigned : scopes.Assigned after target name value)
    (on : scopes.Chain head chain) (different : seen ≠ name) :
    after.resolve head seen = scopes.resolve head seen := by
  have sameHolds : after.holds seen = scopes.holds seen := by
    funext id
    rw [Bool.eq_iff_iff, assigned.holds_eq]
    simp [different]
  have sameValue : ∀ id, ((after.get? id).bind fun scope => scope.get? seen) =
      (scopes.get? id).bind fun scope => scope.get? seen := by
    intro id
    rw [assigned.value_eq, if_neg fun both => different both.2]
  have global : after.global.get? seen = scopes.global.get? seen := sameValue globalScope
  unfold resolve
  rw [(on.congr assigned.parent).holder_eq, on.holder_eq, sameHolds, global]
  simp only [sameValue]

/-- Look-ups of the variable see the new value where they end in the scope that took it, and else
what they saw before. -/
theorem resolve_same (assigned : scopes.Assigned after target name value)
    (on : scopes.Chain head chain) :
    after.resolve head name =
      if after.answering head name = some target then some value
      else scopes.resolve head name := by
  have now := on.congr assigned.parent
  unfold resolve answering
  rw [now.holder_eq, on.holder_eq]
  cases found : chain.find? (after.holds name) with
  | some id =>
      dsimp only
      rw [assigned.value_eq]
      by_cases same : id = target
      · simp [same]
      · -- A scope that held the variable before was already the first one to do so.
        obtain ⟨held, inner, outer, split, first⟩ := List.find?_eq_some_iff_append.mp found
        have before : chain.find? (scopes.holds name) = some id := by
          refine List.find?_eq_some_iff_append.mpr ⟨?_, inner, outer, split, fun other member => ?_⟩
          · simpa [assigned.holds_eq, same] using held
          · have free := first other member
            simp only [Bool.not_eq_true', ← Bool.not_eq_true, assigned.holds_eq] at free ⊢
            exact fun holds => free (.inr holds)
        simp [same, before]
  | none =>
      have before : chain.find? (scopes.holds name) = none := by
        rw [List.find?_eq_none] at found ⊢
        exact fun id member holds => found id member ((assigned.holds_eq id name).mpr (.inr holds))
      have globalHolds : after.holds name globalScope = (after.global.get? name).isSome := rfl
      simp only [before, globalHolds]
      cases hidden : isPrivate name with
      | true => simp
      | false =>
          have atGlobal : after.global.get? name =
              if globalScope = target then some value else scopes.global.get? name := by
            have global := assigned.value_eq globalScope name
            simp only [and_true] at global
            exact global
          rw [atGlobal]
          by_cases same : globalScope = target
          · simp [same]
          · simp [same]

/-- The look-up of the variable from the head ends in the scope that took the value. -/
theorem answering_eq (assigned : scopes.Assigned after target name value)
    (on : scopes.Chain head chain)
    (takes : scopes.Takes head chain name allowGlobal (some target)) :
    after.answering head name = some target := by
  have now := on.congr assigned.parent
  have held : after.holds name target = true :=
      (assigned.holds_eq target name).mpr (.inl ⟨rfl, rfl⟩)
  -- Where nothing held the variable, only the scope that took it can now be found on the chain.
  have only : chain.find? (scopes.holds name) = none →
      ∀ id ∈ chain, after.holds name id = true → id = target := by
    intro missing id member holds
    have free := List.find?_eq_none.mp missing id member
    rcases (assigned.holds_eq id name).mp holds with ⟨same, _⟩ | before
    · exact same
    · exact absurd before free
  unfold answering
  rw [now.holder_eq]
  cases takes with
  | holder first =>
      obtain ⟨_, inner, outer, split, free⟩ := List.find?_eq_some_iff_append.mp first
      have again : chain.find? (after.holds name) = some target := by
        refine List.find?_eq_some_iff_append.mpr ⟨held, inner, outer, split, fun id member => ?_⟩
        have missing := free id member
        have apart : id ≠ target := by
          rintro rfl
          have once := on.nodup
          rw [split] at once
          exact (List.nodup_append.mp once).2.2 id member id List.mem_cons_self rfl
        simp only [Bool.not_eq_true', ← Bool.not_eq_true, assigned.holds_eq] at missing ⊢
        rintro (⟨same, _⟩ | before)
        · exact apart same
        · exact missing before
      simp [again]
  | global missing shown allowed =>
      cases found : chain.find? (after.holds name) with
      | some id =>
          obtain rfl := only missing id (List.mem_of_find?_eq_some found) (List.find?_some found)
          rfl
      | none => simp [shown, held]
  | head missing stays =>
      -- The head is open, so the chain begins with it.
      obtain ⟨_, _, opened, _⟩ := assigned.scope
      cases on with
      | cut closed => simp [closed] at opened
      | link _ _ => simp [held]

end Assigned

/-- Where all chains end: an assignment is taken by the first scope on the chain from the head that
holds the variable, failing that by the global scope or by the head itself, and by none only if that
is missing or closed.  It changes that variable of that scope and nothing else, or nothing at all.
Afterwards the look-up from the head finds the value, and so does every look-up of the variable that
now ends in the scope; all others find what they found before. -/
theorem assignments_are_read_back (scopes : Scopes) (ends : scopes.ChainsEnd)
    (head : Option ScopeId) (name : String) (value : Value) (allowGlobal : Bool) :
    ∃ chain taker, scopes.Chain head chain ∧ scopes.Takes head chain name allowGlobal taker ∧
      (∀ target after, scopes.assign head name value allowGlobal = (some target, after) →
        taker = some target ∧ scopes.Assigned after target name value ∧
        after.resolve head name = some value ∧
        ∀ other seen, after.resolve other seen =
          if seen = name ∧ after.answering other seen = some target then some value
          else scopes.resolve other seen) ∧
      (∀ after, scopes.assign head name value allowGlobal = (none, after) →
        taker.bind scopes.get? = none ∧ after = scopes) := by
  obtain ⟨chain, on⟩ := ends head
  have takes := on.takes name allowGlobal
  refine ⟨chain, _, on, takes, ?_, ?_⟩
  · intro target after result
    rcases assign_cases scopes head name value allowGlobal with
      ⟨target, after, aimed, made, assigned⟩ | ⟨_, made⟩
    · obtain ⟨same, rfl⟩ := Prod.mk.inj (made.symm.trans result)
      obtain rfl := Option.some.inj same
      rw [aimed] at takes
      have readBack : after.resolve head name = some value := by
        rw [assigned.resolve_same on, if_pos (assigned.answering_eq on takes)]
      refine ⟨aimed, assigned, readBack, fun other seen => ?_⟩
      obtain ⟨along, on⟩ := ends other
      by_cases same : seen = name
      · simp only [same, true_and]
        exact assigned.resolve_same on
      · rw [assigned.resolve_other on same, if_neg fun both => same both.1]
    · simp [made] at result
  · intro after result
    rcases assign_cases scopes head name value allowGlobal with
      ⟨target, _, _, made, _⟩ | ⟨nowhere, made⟩
    · simp [made] at result
    · exact ⟨nowhere, (Prod.mk.inj (made.symm.trans result)).2.symm⟩

/-- A chain that is cut below the scope that takes the value, and a scope that shadows it: the
look-up from the head sees the value, and the one from the shadowing scope does not. -/
theorem assignment_below_a_shadowing_scope :
    let scopes : Scopes :=
      { locals := #[none, some { parent := some 1, bindings := [("_a", .nil)] },
          some { parent := some 2 },
          some { parent := some 3, bindings := [("_a", .boolean false)] }]
        free := [0]
        inside := fun _ first => List.mem_singleton.mp first ▸ Nat.zero_lt_succ 3 }
    scopes.ChainsEnd ∧ ∃ after, scopes.assign (some 3) "_a" (.boolean true) true = (some 2, after) ∧
      scopes.Assigned after 2 "_a" (.boolean true) ∧
      after.resolve (some 3) "_a" = some (.boolean true) ∧
      after.resolve (some 4) "_a" = some (.boolean false) ∧ after.resolve (some 1) "_a" = none := by
  intro scopes
  have two : scopes.Chain (some 2) [2] := .link rfl (.cut rfl)
  have three : scopes.Chain (some 3) [3, 2] := .link rfl two
  have ends : scopes.ChainsEnd
    | none => ⟨[], .outside⟩
    | some 0 => ⟨[0], .link rfl .outside⟩
    | some 1 => ⟨[], .cut rfl⟩
    | some 2 => ⟨[2], two⟩
    | some 3 => ⟨[3, 2], three⟩
    | some 4 => ⟨[4, 3, 2], .link rfl three⟩
    | some (beyond + 5) => by
        refine ⟨[], .cut ?_⟩
        have outside : scopes.locals[beyond + 4]? = none :=
          Array.getElem?_eq_none (Nat.le_add_left 4 beyond)
        rw [get?_succ, outside]
        rfl
  obtain ⟨chain, taker, _, _, assigns, _⟩ :=
    assignments_are_read_back scopes ends (some 3) "_a" (.boolean true) true
  obtain ⟨_, assigned, readBack, others⟩ := assigns 2 _ rfl
  refine ⟨ends, _, rfl, assigned, readBack, ?_, ?_⟩
  · rw [others, if_neg (by decide +kernel)]
    rfl
  · rw [others, if_neg (by decide +kernel)]
    rfl

end Scopes

end SimScript
