import SimScript.Proofs.Scope.Assignment

/-!
# Scopes among their own ancestors

The slot of a closed scope is used again, and nothing tells the new scope from the old
one.  So a scope whose parent was closed may find itself below a newer scope, which may
be one of its own children: then the chain is a circle.  That happens exactly when a
scope is opened below one from which the parents lead to the slot that it gets.
-/

namespace SimScript

/-- What a host may ask of scopes. -/
inductive ScopeRequest where
  | push (parent : Option ScopeId) (bindings : Bindings)
  | pop (id : ScopeId)
  | declare (id : ScopeId) (name : String) (value : Value)
  | assign (head : Option ScopeId) (name : String) (value : Value) (allowGlobal : Bool)
  | setGlobal (name : String) (value : Value)
  | setName (id : ScopeId) (name : String)

namespace Scopes

/-- The scopes after a request; one that is refused changes nothing. -/
def serve (scopes : Scopes) : ScopeRequest → Scopes
  | .push parent bindings => (scopes.push parent bindings).2
  | .pop id => scopes.release id
  | .declare id name value => (scopes.declare id name value).toOption.getD scopes
  | .assign head name value allowGlobal => (scopes.assign head name value allowGlobal).2
  | .setGlobal name value => scopes.setGlobal name value
  | .setName id name => (scopes.setName id name).toOption.getD scopes

/-- The parents lead to a scope, which need not be open. -/
inductive LeadsUp (scopes : Scopes) (target : ScopeId) : Option ScopeId → Prop where
  | here : LeadsUp scopes target (some target)
  | up {id : ScopeId} {scope : Scope} (opened : scopes.get? id = some scope)
      (beyond : LeadsUp scopes target scope.parent) : LeadsUp scopes target (some id)

/-- A scope is to be opened below one from which the parents lead to the number that it will get. -/
def ClosesCircle (scopes : Scopes) : ScopeRequest → Prop
  | .push parent bindings =>
      scopes.LeadsUp (scopes.push parent bindings).1 (parent.filter fun id => id != globalScope)
  | _ => False

/-- The scopes after some requests, none of which has closed a circle. -/
inductive Orderly : Scopes → Prop where
  | empty : Orderly {}
  | serve {scopes : Scopes} (before : Orderly scopes) (request : ScopeRequest)
      (harmless : ¬ scopes.ClosesCircle request) : Orderly (scopes.serve request)

variable {scopes after : Scopes} {head parent : Option ScopeId} {id target : ScopeId}
  {name : String} {value : Value} {chain : List ScopeId} {bindings : Bindings}
  {request : ScopeRequest} {answer : Option ScopeId}

/-! ## Requests that leave the parents alone -/

/-- A request that neither opens nor closes a scope changes nothing, or overwrites an open scope
with one below the same parent. -/
theorem serve_quiet_keeps {motive : Scopes → Prop}
    (opens : ∀ parent bindings, request ≠ .push parent bindings)
    (closes : ∀ id, request ≠ .pop id) (first : motive scopes)
    (overwritten : ∀ id scope changed, scopes.get? id = some scope →
      changed.parent = scope.parent → motive (scopes.set id changed)) :
    motive (scopes.serve request) := by
  have bound : ∀ {target name value after}, scopes.bind target name value = some after →
      motive after := by
    intro target name value after done
    obtain ⟨scope, opened, rfl⟩ := Option.map_eq_some_iff.mp done
    exact overwritten target scope _ opened rfl
  cases request with
  | push parent bindings => exact absurd rfl (opens parent bindings)
  | pop id => exact absurd rfl (closes id)
  | declare target name value =>
      simp only [serve, declare]
      cases done : scopes.bind target name value with
      | none => exact first
      | some after => exact bound done
  | assign head name value allowGlobal =>
      simp only [serve, assign]
      split
      · exact first
      · split
        · exact first
        case h_2 done => exact bound done
  | setGlobal name value =>
      have done : scopes.bind globalScope name value = some (scopes.setGlobal name value) := rfl
      exact bound done
  | setName target name =>
      simp only [serve]
      cases named : scopes.setName target name with
      | error error => exact first
      | ok after =>
          obtain ⟨scope, opened, rfl⟩ := set_of_setName named
          exact overwritten target scope _ opened rfl

/-- Requests that neither open nor close a scope leave all parents as they are. -/
theorem serve_quiet (tight : scopes.Tight)
    (opens : ∀ parent bindings, request ≠ .push parent bindings)
    (closes : ∀ id, request ≠ .pop id) :
    (scopes.serve request).Tight ∧
      ∀ id, ((scopes.serve request).get? id).map Scope.parent =
        (scopes.get? id).map Scope.parent := by
  refine serve_quiet_keeps (motive := fun after => after.Tight ∧
    ∀ id, (after.get? id).map Scope.parent = (scopes.get? id).map Scope.parent)
    opens closes ⟨tight, fun _ => rfl⟩ fun target scope changed opened inherits => ?_
  have isOpen : (scopes.get? target).isSome := by simp [opened]
  refine ⟨set_tight tight isOpen, fun id => ?_⟩
  rw [get?_set isOpen]
  split
  case isTrue here => rw [here, opened, Option.map_some, Option.map_some, inherits]
  case isFalse => rfl

/-! ## Closing a scope -/

theorem release_tight (tight : scopes.Tight) (id : ScopeId) : (scopes.release id).Tight := by
  unfold release
  split
  case h_1 popped => exact pop_tight tight popped
  case h_2 => exact tight

theorem ChainsEnd.release (ends : scopes.ChainsEnd) (id : ScopeId) :
    (scopes.release id).ChainsEnd := by
  unfold Scopes.release
  split
  case h_2 => exact ends
  case h_1 after popped =>
      intro head
      obtain ⟨chain, on⟩ := ends head
      induction on with
      | outside => exact ⟨[], .outside⟩
      | @cut other closed =>
          refine ⟨[], .cut ?_⟩
          rw [get?_pop popped]
          split
          · rfl
          · exact closed
      | @link other scope _ opened _ induction =>
          obtain ⟨rest, beyond⟩ := induction
          by_cases same : other = id
          · exact ⟨[], .cut (by rw [get?_pop popped, if_pos same])⟩
          · refine ⟨other :: rest, .link ?_ beyond⟩
            rw [get?_pop popped, if_neg same, opened]

/-! ## Opening a scope -/

/-- Where all scopes on the way are open, the parents do not lead to a closed one. -/
theorem Lineage.not_leadsUp {ancestors : List ScopeId} (lineage : scopes.Lineage id ancestors)
    (closed : scopes.get? target = none) : ¬ scopes.LeadsUp target (some id) := by
  induction lineage with
  | root opened last =>
      rintro (_ | ⟨again, beyond⟩)
      · simp [closed] at opened
      · obtain rfl := Option.some.inj (opened.symm.trans again)
        rw [last] at beyond
        cases beyond
  | child opened inherits _ induction =>
      rintro (_ | ⟨again, beyond⟩)
      · simp [closed] at opened
      · obtain rfl := Option.some.inj (opened.symm.trans again)
        rw [inherits] at beyond
        exact induction beyond

section Push

variable (tight : scopes.Tight)
include tight

/-- A chain that does not lead to the new scope stays as it is. -/
theorem Chain.push (on : scopes.Chain head chain)
    (apart : ¬ scopes.LeadsUp (scopes.push parent bindings).1 head) :
    (scopes.push parent bindings).2.Chain head chain := by
  induction on with
  | outside => exact .outside
  | cut closed =>
      refine .cut ?_
      rw [get?_push parent bindings tight, if_neg, closed]
      rintro rfl
      exact apart .here
  | link opened _ induction =>
      exact .link (get?_push_of_get? tight opened) (induction fun leads => apart (.up opened leads))

/-- Where no circle is closed, a chain that was cut at the new scope goes on with its chain. -/
theorem ChainsEnd.push (ends : scopes.ChainsEnd)
    (harmless : ¬ scopes.ClosesCircle (.push parent bindings)) :
    (scopes.push parent bindings).2.ChainsEnd := by
  obtain ⟨above, onParent⟩ := ends (parent.filter fun id => id != globalScope)
  have onNew : (scopes.push parent bindings).2.Chain (some (scopes.push parent bindings).1)
      ((scopes.push parent bindings).1 :: above) := by
    have now : (scopes.push parent bindings).2.get? (scopes.push parent bindings).1 =
        some (opened parent bindings) := by rw [get?_push parent bindings tight, if_pos rfl]
    exact .link now (onParent.push tight harmless)
  intro head
  obtain ⟨chain, on⟩ := ends head
  induction on with
  | outside => exact ⟨[], .outside⟩
  | @cut other closed =>
      by_cases same : other = (scopes.push parent bindings).1
      · exact same ▸ ⟨_, onNew⟩
      · exact ⟨[], .cut (by rw [get?_push parent bindings tight, if_neg same, closed])⟩
  | @link other _ _ opened _ induction =>
      obtain ⟨rest, beyond⟩ := induction
      exact ⟨other :: rest, .link (get?_push_of_get? tight opened) beyond⟩

theorem LeadsUp.push (leads : scopes.LeadsUp target head) :
    (scopes.push parent bindings).2.LeadsUp target head := by
  induction leads with
  | here => exact .here
  | up opened _ induction => exact .up (get?_push_of_get? tight opened) induction

theorem Lineage.closes_no_circle {ancestors : List ScopeId}
    (lineage : scopes.Lineage id ancestors) :
    ¬ scopes.ClosesCircle (.push (some id) bindings) := by
  have fresh := push_fresh (some id) bindings tight
  intro circle
  dsimp only [ClosesCircle] at circle
  rw [Option.filter_some] at circle
  split at circle
  · exact lineage.not_leadsUp fresh circle
  · cases circle

end Push

/-! ## Circles -/

theorem LeadsUp.part (leads : scopes.LeadsUp target head) (on : scopes.Chain head chain) :
    ∃ rest, scopes.Chain (some target) rest ∧ rest.length ≤ chain.length := by
  induction leads generalizing chain with
  | here => exact ⟨chain, on, Nat.le_refl _⟩
  | up opened _ induction =>
      cases on with
      | cut closed => simp [closed] at opened
      | link again beyond =>
          obtain rfl := Option.some.inj (opened.symm.trans again)
          obtain ⟨rest, onTarget, shorter⟩ := induction beyond
          exact ⟨rest, onTarget, Nat.le_succ_of_le shorter⟩

/-- Among scopes whose parents are among them too, the parents lead to no other. -/
theorem LeadsUp.within {start : ScopeId} (among : ScopeId → Prop)
    (closed : ∀ id scope above, among id → scopes.get? id = some scope →
      scope.parent = some above → among above)
    (leads : scopes.LeadsUp target (some start)) (started : among start) : among target := by
  generalize same : some start = head at leads
  induction leads generalizing start with
  | here => exact Option.some.inj same ▸ started
  | @up id scope opened beyond induction =>
      obtain rfl := Option.some.inj same
      cases inherits : scope.parent with
      | none =>
          rw [inherits] at beyond
          cases beyond
      | some above =>
          exact induction (closed start scope above started opened inherits) inherits.symm

theorem endless {scope : Scope} (opened : scopes.get? id = some scope)
    (circle : scopes.LeadsUp id scope.parent) : ¬∃ chain, scopes.Chain (some id) chain := by
  rintro ⟨chain, on⟩
  cases on with
  | cut closed => simp [closed] at opened
  | link again beyond =>
      obtain rfl := Option.some.inj (opened.symm.trans again)
      obtain ⟨rest, onAgain, shorter⟩ := circle.part beyond
      have same := congrArg List.length (onAgain.unique (.link opened beyond))
      rw [List.length_cons] at same
      omega

/-- A walk that never comes to a scope that holds the variable goes along the whole chain. -/
theorem Finds.passes (finds : scopes.Finds name head answer)
    (missing : ∀ id, scopes.LeadsUp id head → scopes.holds name id = false) :
    ∃ chain, scopes.Chain head chain := by
  induction finds with
  | outside => exact ⟨[], .outside⟩
  | cut closed => exact ⟨[], .cut closed⟩
  | here opened held =>
      have free := missing _ .here
      rw [holds_of_get? _ opened, held] at free
      cases free
  | onward opened _ _ induction =>
      obtain ⟨rest, beyond⟩ := induction fun other leads => missing other (.up opened leads)
      exact ⟨_, .link opened beyond⟩

/-- All chains still end after a request exactly if it has closed no circle. -/
theorem serve_chainsEnd_iff (tight : scopes.Tight) (ends : scopes.ChainsEnd)
    (request : ScopeRequest) :
    (scopes.serve request).ChainsEnd ↔ ¬ scopes.ClosesCircle request := by
  cases request with
  | push parent bindings =>
      refine ⟨fun still circle => ?_, ends.push tight⟩
      have now : (scopes.push parent bindings).2.get? (scopes.push parent bindings).1 =
          some (opened parent bindings) := by rw [get?_push parent bindings tight, if_pos rfl]
      exact endless now (circle.push tight) (still _)
  | pop id => exact iff_of_true (ends.release id) not_false
  | declare | assign | setGlobal | setName =>
      exact iff_of_true (ends.congr (serve_quiet tight (by simp) (by simp)).2) not_false

theorem serve_tight (tight : scopes.Tight) (request : ScopeRequest) :
    (scopes.serve request).Tight := by
  cases request with
  | push parent bindings => exact push_tight parent bindings tight
  | pop id => exact release_tight tight id
  | declare | assign | setGlobal | setName => exact (serve_quiet tight (by simp) (by simp)).1

namespace Orderly

theorem tight (orderly : scopes.Orderly) : scopes.Tight := by
  induction orderly with
  | empty => exact tight_empty
  | serve _ request _ induction => exact serve_tight induction request

theorem chainsEnd (orderly : scopes.Orderly) : scopes.ChainsEnd := by
  induction orderly with
  | empty =>
      intro head
      match head with
      | none => exact ⟨[], .outside⟩
      | some 0 => exact ⟨[0], .link rfl .outside⟩
      | some (slot + 1) => exact ⟨[], .cut (by simp)⟩
  | serve before request harmless induction =>
      exact (serve_chainsEnd_iff before.tight induction request).mpr harmless

end Orderly

/-- As long as no scope is opened below one from which the parents lead to the number that it gets,
all chains end, and so does the walk of every look-up and every assignment, with one answer.  A push
that is not like that makes a chain without an end, along which a look-up goes on for ever unless a
scope on it holds the variable.  No push is like that below scopes that are all open, or below
none. -/
theorem lookups_end_unless_a_push_closes_a_circle (scopes : Scopes) (orderly : scopes.Orderly) :
    (∀ head name, (∃ chain, scopes.Chain head chain) ∧
      ∀ answer, scopes.Finds name head answer ↔ answer = scopes.holder head name) ∧
    (∀ parent bindings after id, scopes.push parent bindings = (id, after) →
      scopes.ClosesCircle (.push parent bindings) →
      (¬∃ chain, after.Chain (some id) chain) ∧
      ∀ name, (∀ other, after.LeadsUp other (some id) → after.holds name other = false) →
        ¬∃ answer, after.Finds name (some id) answer) ∧
    (∀ parent bindings,
      (∀ id, parent = some id → id = globalScope ∨ ∃ ancestors, scopes.Lineage id ancestors) →
      ¬ scopes.ClosesCircle (.push parent bindings)) := by
  refine ⟨?_, ?_, ?_⟩
  · intro head name
    have ends := orderly.chainsEnd
    refine ⟨ends head, fun answer => ⟨fun finds => finds.unique (ends.finds head name), ?_⟩⟩
    rintro rfl
    exact ends.finds head name
  · intro parent bindings after id pushed circle
    obtain ⟨rfl, rfl⟩ := Prod.mk.inj pushed
    have tight := orderly.tight
    have now : (scopes.push parent bindings).2.get? (scopes.push parent bindings).1 =
        some (opened parent bindings) := by rw [get?_push parent bindings tight, if_pos rfl]
    have never := endless now (circle.push tight)
    exact ⟨never, fun name missing ⟨_, finds⟩ => never (finds.passes missing)⟩
  · intro parent bindings inside
    cases parent with
    | none => nofun
    | some id =>
        rcases inside id rfl with rfl | ⟨ancestors, lineage⟩
        · nofun
        · exact lineage.closes_no_circle orderly.tight

/-- A scope that has been closed is given as the parent of the next one, which gets its number. -/
theorem scope_opened_below_its_own_number :
    let closed := (({} : Scopes).push none).2.release 1
    closed.Orderly ∧ (∃ chain, closed.Chain (some 1) chain) ∧
      ¬ closed.ClosesCircle (.push none []) ∧ closed.ClosesCircle (.push (some 1) []) ∧
      (closed.push (some 1)).1 = 1 ∧ (¬∃ chain, (closed.push (some 1)).2.Chain (some 1) chain) ∧
      ¬∃ answer, (closed.push (some 1)).2.Finds "x" (some 1) answer := by
  intro closed
  have first := (lookups_end_unless_a_push_closes_a_circle {} .empty).2.2 none [] nofun
  have orderly : closed.Orderly := (Orderly.empty.serve _ first).serve (.pop 1) nofun
  have circle : closed.ClosesCircle (.push (some 1) []) := .here
  obtain ⟨walks, circles, harmless⟩ := lookups_end_unless_a_push_closes_a_circle closed orderly
  obtain ⟨never, searches⟩ := circles (some 1) [] _ 1 rfl circle
  refine ⟨orderly, (walks (some 1) "x").1, harmless none [] nofun, circle, rfl, never,
    searches "x" fun other leads => ?_⟩
  have alone : other = 1 := by
    refine leads.within (· = 1) ?_ rfl
    rintro _ scope above rfl opened parent
    obtain rfl : ({ parent := some 1 } : Scope) = scope := Option.some.inj opened
    exact (Option.some.inj parent).symm
  rw [alone]
  rfl

/-- A scope is opened, and a second one below it; the first one is closed, and a third one is opened
below the second.  It gets the number of the first, so each of the two is below the other: each sees
the variables of the other, and a look-up of a variable that neither holds never ends. -/
theorem scopes_below_each_other :
    let first := ({} : Scopes).push none
    let second := first.2.push (some first.1)
    let third := (second.2.release first.1).push (some second.1)
    let requests : List ScopeRequest := [.declare third.1 "_a" (.scalar 1),
      .declare second.1 "_b" (.scalar 2)]
    let scopes := requests.foldl serve third.2
    third.1 = 1 ∧ second.1 = 2 ∧ scopes.resolve (some third.1) "_b" = some (.scalar 2) ∧
      scopes.resolve (some second.1) "_a" = some (.scalar 1) ∧
      (¬∃ chain, scopes.Chain (some third.1) chain) ∧
      ¬∃ answer, scopes.Finds "_c" (some third.1) answer := by
  intro first second third requests scopes
  let upper : Scope := { parent := some 2, bindings := [("_a", .scalar 1)] }
  let lower : Scope := { parent := some 1, bindings := [("_b", .scalar 2)] }
  have both : scopes = { locals := #[some upper, some lower], inside := by simp } := by rfl
  have opened : scopes.get? 1 = some upper := by rw [both]; rfl
  have below : scopes.get? 2 = some lower := by rw [both]; rfl
  have never := endless opened (.up below .here)
  have seen : scopes.resolve (some 1) "_b" = some (.scalar 2) := by
    rw [both]
    rfl
  have shown : scopes.resolve (some 2) "_a" = some (.scalar 1) := by
    rw [both]
    rfl
  refine ⟨rfl, rfl, seen, shown,
    never, fun ⟨_, finds⟩ => never (finds.passes fun other leads => ?_)⟩
  have either : other = 1 ∨ other = 2 := by
    refine leads.within (fun id => id = 1 ∨ id = 2) ?_ (.inl rfl)
    rintro _ scope above (rfl | rfl) found parent
    · obtain rfl := Option.some.inj (opened.symm.trans found)
      exact .inr (Option.some.inj parent).symm
    · obtain rfl := Option.some.inj (below.symm.trans found)
      exact .inl (Option.some.inj parent).symm
  rcases either with rfl | rfl
  · rw [holds_of_get? _ opened]
    rfl
  · rw [holds_of_get? _ below]
    rfl

end Scopes

end SimScript
