import SimScript.Proofs.Scope.Circles

/-!
# Slots of scopes

Whatever a host asks of scopes, the free list names the empty slots, each of them once.  So
a scope that is opened gets the number of no open scope, only an open local scope can be
closed, and there are as many open scopes as were opened and not closed since.
-/

namespace SimScript

namespace Scopes

variable {scopes after : Scopes} {id : ScopeId} {scope : Scope}

/-! ## How many scopes are open -/

/-- Overwriting a slot changes the number of open scopes by what was in it and what is in it now. -/
theorem liveCount_setSlot {slot : Nat} {held : Option Scope} {free : List Nat}
    (found : scopes.locals[slot]? = some held) (next : Option Scope)
    (inside : ∀ other ∈ free, other < (scopes.locals.setIfInBounds slot next).size) :
    ({ scopes with
      locals := scopes.locals.setIfInBounds slot next, free, inside } : Scopes).liveCount +
      held.isSome.toNat = scopes.liveCount + next.isSome.toNat := by
  have listed : scopes.locals.toList[slot]? = some held := Array.getElem?_toList.trans found
  obtain ⟨placed, there⟩ := List.getElem?_eq_some_iff.mp listed
  have counted : held.isSome.toNat ≤ scopes.liveCount := by
    cases held with
    | none => exact Nat.zero_le _
    | some scope => exact List.countP_pos_iff.mpr ⟨_, List.mem_of_getElem? listed, rfl⟩
  simp only [liveCount, Array.toList_setIfInBounds] at counted ⊢
  rw [List.countP_set placed, there]
  cases held <;> cases next <;>
    simp only [Option.isSome_none, Option.isSome_some, Bool.toNat_false, Bool.toNat_true,
      Bool.false_eq_true, if_false, if_true] at counted ⊢ <;> omega

theorem liveCount_push (tight : scopes.Tight) (parent : Option ScopeId) (bindings : Bindings) :
    (scopes.push parent bindings).2.liveCount = scopes.liveCount + 1 := by
  unfold push
  dsimp only
  split
  case h_1 slot free list =>
      have empty := (tight.slots slot).mp (by simp [list])
      exact liveCount_setSlot empty (some _) _
  case h_2 => simp [liveCount]

theorem liveCount_pop (popped : scopes.pop id = .ok after) :
    after.liveCount + 1 = scopes.liveCount := by
  obtain ⟨slot, scope, _, rfl, held, rfl⟩ := pop_eq popped
  exact liveCount_setSlot held none _

theorem liveCount_set (opened : (scopes.get? id).isSome) :
    (scopes.set id scope).liveCount = scopes.liveCount := by
  cases id with
  | zero => rfl
  | succ slot =>
      obtain ⟨before, found⟩ := Option.isSome_iff_exists.mp opened
      have counted := liveCount_setSlot (Option.join_eq_some_iff.mp found) (some scope)
        (by simpa using scopes.inside)
      exact Nat.add_right_cancel counted

/-! ## What requests come to -/

def openedBy : ScopeRequest → Nat
  | .push _ _ => 1
  | _ => 0

def closedBy (scopes : Scopes) : ScopeRequest → Nat
  | .pop id => (scopes.pop id).toOption.isSome.toNat
  | _ => 0

def openings : List ScopeRequest → Nat
  | [] => 0
  | request :: rest => openedBy request + openings rest

def closings (scopes : Scopes) : List ScopeRequest → Nat
  | [] => 0
  | request :: rest => scopes.closedBy request + (scopes.serve request).closings rest

/-- No open scope has the global one as its parent. -/
def Detached (scopes : Scopes) : Prop :=
  ∀ id scope, scopes.get? id = some scope → scope.parent ≠ some globalScope

theorem detached_empty : Detached {} := by
  intro id scope found
  cases id with
  | zero =>
      obtain rfl := Option.some.inj found
      nofun
  | succ slot => simp at found

theorem opened_parent_ne_global (parent : Option ScopeId) (bindings : Bindings) :
    (opened parent bindings).parent ≠ some globalScope := by
  intro same
  have kept := (Option.filter_eq_some_iff.mp same).2
  simp at kept

theorem Detached.serve (detached : scopes.Detached) (request : ScopeRequest) :
    (scopes.serve request).Detached := by
  cases request with
  | push parent bindings =>
      intro id scope found
      rcases eq_opened_or_get? parent bindings found with rfl | before
      · exact opened_parent_ne_global parent bindings
      · exact detached id scope before
  | pop closed =>
      intro id scope found
      by_cases same : id = closed
      · subst same
        simp only [Scopes.serve, release] at found
        split at found
        case h_1 popped => simp [get?_pop popped] at found
        case h_2 => exact detached id scope found
      · exact detached id scope ((get?_release same).symm.trans found)
  | declare | assign | setGlobal | setName =>
      refine serve_quiet_keeps (motive := Detached) (by simp) (by simp) detached ?_
      intro target held changed opened inherits id scope found
      rw [get?_set (by simp [opened])] at found
      split at found
      · obtain rfl := Option.some.inj found
        exact inherits ▸ detached target held opened
      · exact detached id scope found

/-- A request adds the scopes that it opens to the open ones, and takes away those that it
closes. -/
theorem liveCount_serve (tight : scopes.Tight) (request : ScopeRequest) :
    (scopes.serve request).liveCount + scopes.closedBy request =
      scopes.liveCount + openedBy request := by
  cases request with
  | push parent bindings => exact liveCount_push tight parent bindings
  | pop id =>
      simp only [serve, release, closedBy]
      split
      case h_1 popped =>
          rw [popped]
          exact liveCount_pop popped
      case h_2 refused =>
          rw [refused]
          rfl
  | declare | assign | setGlobal | setName =>
      exact serve_quiet_keeps (motive := fun after => after.liveCount = scopes.liveCount)
        (by simp) (by simp) rfl fun _ _ _ opened _ => liveCount_set (by simp [opened])

section Run

variable (requests : List ScopeRequest)

theorem Tight.serveAll (tight : scopes.Tight) : (requests.foldl serve scopes).Tight := by
  induction requests generalizing scopes with
  | nil => exact tight
  | cons request rest induction => exact induction (serve_tight tight request)

theorem Detached.serveAll (detached : scopes.Detached) :
    (requests.foldl Scopes.serve scopes).Detached := by
  induction requests generalizing scopes with
  | nil => exact detached
  | cons request rest induction => exact induction (detached.serve request)

theorem liveCount_serveAll (tight : scopes.Tight) :
    (requests.foldl serve scopes).liveCount + scopes.closings requests =
      scopes.liveCount + openings requests := by
  induction requests generalizing scopes with
  | nil => rfl
  | cons request rest induction =>
      have first := liveCount_serve tight request
      have others := induction (serve_tight tight request)
      simp only [List.foldl_cons, closings, openings] at others ⊢
      omega

end Run

/-! ## Closing -/

/-- A scope that cannot be closed is the global one, or is not open. -/
theorem pop_eq_error {error : ScopeError} (refused : scopes.pop id = .error error) :
    id = globalScope ∧ error = .globalScope ∨
      scopes.get? id = none ∧ error = .unknownScope id := by
  cases id with
  | zero => exact .inl ⟨rfl, (Except.error.inj refused).symm⟩
  | succ slot =>
      simp only [pop] at refused
      split at refused
      case h_1 closed => exact .inr ⟨closed, (Except.error.inj refused).symm⟩
      case h_2 => cases refused

theorem pop_isOk_iff :
    (∃ after, scopes.pop id = .ok after) ↔ id ≠ globalScope ∧ (scopes.get? id).isSome := by
  constructor
  · rintro ⟨after, popped⟩
    obtain ⟨slot, scope, _, rfl, held, -⟩ := pop_eq popped
    exact ⟨Nat.succ_ne_zero slot, by simp [held]⟩
  · rintro ⟨apart, opened⟩
    obtain ⟨scope, opened⟩ := Option.isSome_iff_exists.mp opened
    exact pop_of_get? apart opened

/-- Whatever was asked for, the free list names the empty slots and nothing else, each once.  A
scope that is opened then gets a number that is not that of an open scope; it has no name and no
variables, and all others are as they were.  Exactly the open local scopes can be closed, which
leaves the others as they are, and where nothing can be closed nothing changes.  There are as many
open scopes as were opened less those that were closed, and none has the global one as its
parent. -/
theorem slots_are_reused_only_once_free (requests : List ScopeRequest) :
    let scopes := requests.foldl serve {}
    (scopes.free.Nodup ∧ ∀ slot, slot ∈ scopes.free ↔ scopes.locals[slot]? = some none) ∧
    (∀ parent id after, scopes.push parent = (id, after) →
      id ≠ globalScope ∧ scopes.get? id = none ∧
      (∃ scope, after.get? id = some scope ∧ scope.name = none ∧ scope.bindings = []) ∧
      ∀ other, other ≠ id → after.get? other = scopes.get? other) ∧
    (∀ id, (∃ after, scopes.pop id = .ok after) ↔
      id ≠ globalScope ∧ (scopes.get? id).isSome) ∧
    (∀ id after, scopes.pop id = .ok after →
      ∀ other, after.get? other = if other = id then none else scopes.get? other) ∧
    (∀ id error, scopes.pop id = .error error → scopes.serve (.pop id) = scopes ∧
      error = if id = globalScope then .globalScope else .unknownScope id) ∧
    scopes.liveCount + closings {} requests = openings requests ∧
    ∀ id scope, scopes.get? id = some scope → scope.parent ≠ some globalScope := by
  intro scopes
  have tight : scopes.Tight := tight_empty.serveAll requests
  refine ⟨⟨tight.nodup, tight.slots⟩, ?_, fun id => pop_isOk_iff,
    fun id after popped => get?_pop popped, ?_, ?_, detached_empty.serveAll requests⟩
  · intro parent id after pushed
    obtain ⟨rfl, rfl⟩ := Prod.mk.inj pushed
    have found := get?_push parent [] tight
    refine ⟨push_ne_global parent [], push_fresh parent [] tight, ?_, ?_⟩
    · exact ⟨opened parent [], (found _).trans (if_pos rfl), rfl, rfl⟩
    · exact fun other different => (found other).trans (if_neg different)
  · intro id error refused
    have same : scopes.serve (.pop id) = scopes := by simp only [serve, release, refused]
    refine ⟨same, ?_⟩
    rcases pop_eq_error refused with ⟨isGlobal, told⟩ | ⟨closed, told⟩
    · rw [told, if_pos isGlobal]
    · rw [told, if_neg]
      rintro rfl
      cases closed
  · have counted := liveCount_serveAll requests tight_empty
    rwa [show liveCount {} = 0 from rfl, Nat.zero_add] at counted

/-- A scope is closed twice, as are the global one and one that never was; the next one gets its
number, and another one gets a new number. -/
theorem slot_closed_twice_is_reused_once :
    let requests : List ScopeRequest := [.push none [], .push (some 1) [], .pop 1, .pop 1, .pop 0,
      .pop 7]
    let scopes := requests.foldl serve {}
    scopes.free = [0] ∧ scopes.liveCount + 1 = 2 ∧
      (scopes.push none).1 = 1 ∧ ((scopes.push none).2.push none).1 = 3 ∧
      scopes.get? 1 = none ∧ scopes.serve (.pop 1) = scopes := by
  intro requests scopes
  obtain ⟨-, pushes, -, -, refuses, counted, -⟩ := slots_are_reused_only_once_free requests
  exact ⟨rfl, counted, rfl, rfl, (pushes none _ _ rfl).2.1, (refuses 1 _ rfl).1⟩

end Scopes

end SimScript
