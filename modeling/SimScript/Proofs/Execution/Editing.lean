import SimScript.Proofs.Command.Values
import SimScript.Proofs.Execution.Insertion
import SimScript.Proofs.Store.Copies

/-!
# Editing arrays in place

Six commands change an array in place: `set`, `pushBack`, `append`, `resize`, `deleteAt`
and `reverse`.  Each of them changes that array alone.  So what is done to other arrays
is not seen through a value, and a copy, which shares no array with what it was copied
from, stays apart from it until one of the two is put into the other.
-/

namespace SimScript

/-- An effect that gives an array new elements at most. -/
inductive Effect.Edits (store : Store) (cell : CellId) (added : List Value) : Effect → Prop
  | nothing (value : Value) : Edits store cell added (.answer .nothing (.value value))
  | write {items : Array Value}
      (kept : ∀ item ∈ items, (item ∈ store.items cell ∨ item = .nil) ∨ item ∈ added)
      (value : Value) : Edits store cell added (.answer (.write cell items) (.value value))

namespace Plan

open Command (mem_resized withinLimit_graded)

variable {exec : Execution} {cell : CellId} {added : List Value}

/-- Work that asks for nothing but new elements of an array. -/
def Edits (exec : Execution) (cell : CellId) (added : List Value) (work : Report Effect) : Prop :=
  work.Runs (Effect.Edits exec.world.store cell added)

theorem nothing_edits : Edits exec cell added nothing :=
  .pure (.nothing .nil)

theorem fail_edits (fault : Fault) (unreserved : Message.isReserved fault = false) :
    Edits exec cell added (fail fault) :=
  .after (.raise _ trivial unreserved) fun _ => nothing_edits

theorem write_edits {items : Array Value}
    (kept : ∀ item ∈ items, (item ∈ exec.world.store.items cell ∨ item = .nil) ∨ item ∈ added)
    (value : Value) : Edits exec cell added (pure (.answer (.write cell items) (.value value))) :=
  .pure (.write kept value)

theorem resize_edits (right : Value) : Edits exec cell [] (resize (.array cell) right exec) := by
  refine .ite (fun _ => fail_edits _ rfl) fun _ => ?_
  refine .after (withinLimit_graded _) fun _ => .ite (fun _ => ?_) fun _ => nothing_edits
  exact write_edits (fun item member => .inl (mem_resized member)) _

theorem deleteAt_edits (right : Value) :
    Edits exec cell [] (deleteAt (.array cell) right exec) := by
  refine .after (Check.index_graded _ _ _) fun position => ?_
  cases position with
  | none => exact .after (.note rfl trivial) fun _ => nothing_edits
  | some position =>
      refine write_edits (fun item member => ?_) _
      have remaining := List.mem_of_mem_eraseIdx (List.mem_toArray.mp member)
      exact .inl (.inl (Array.mem_toList_iff.mp remaining))

theorem reverse_edits : Edits exec cell [] (reverse (.array cell) exec) :=
  write_edits (fun _ member => .inl (.inl (Array.mem_reverse.mp member))) _

theorem pushBack_edits (right : Value) :
    Edits exec cell [right] (pushBack (.array cell) right exec) := by
  refine .ite (fun _ => fail_edits _ rfl) fun _ => write_edits (fun item member => ?_) _
  rcases Array.mem_push.mp member with old | rfl
  · exact .inl (.inl old)
  · exact .inr List.mem_cons_self

theorem append_edits (right : Value) :
    Edits exec cell (exec.world.store.itemsOf right) (append (.array cell) right exec) := by
  refine .ite (fun _ => fail_edits _ rfl) fun _ => write_edits (fun item member => ?_) _
  rcases Array.mem_append.mp member with old | new
  · exact .inl (.inl old)
  · exact .inr (List.mem_toArray.mp new)

theorem assignIndex_edits (right : Value) :
    Edits exec cell (exec.world.store.itemsOf right) (assignIndex (.array cell) right exec) := by
  unfold assignIndex
  dsimp only
  split
  case h_2 => exact .after (Check.size_graded _ _ _) fun _ => nothing_edits
  case h_1 target index value left args =>
      obtain rfl := Value.array.inj left
      have given : value ∈ exec.world.store.itemsOf right := by simp [args]
      refine .after (Check.types_graded _ _ _) fun _ => ?_
      refine .ite (fun _ => nothing_edits) fun _ => .ite (fun _ => fail_edits _ rfl) fun _ => ?_
      refine .ite (fun _ => fail_edits _ rfl) fun _ => .ite (fun _ => ?_) fun _ => ?_
      · refine write_edits (fun item member => ?_) _
        rcases Array.mem_or_eq_of_mem_setIfInBounds member with old | rfl
        · exact .inl (.inl old)
        · exact .inr given
      · refine .after (withinLimit_graded _) fun _ => .ite (fun _ => ?_) fun _ => nothing_edits
        refine write_edits (fun item member => ?_) _
        rcases Array.mem_or_eq_of_mem_setIfInBounds member with old | rfl
        · exact .inl (mem_resized old)
        · exact .inr given

end Plan

namespace Command

theorem binariesOf_resize {name : String} (named : Text.sameName name "resize" = true) :
    binariesOf name = [⟨"resize", .array, .scalar, resize⟩] := by
  rw [binariesOf, named_sameName binaryTable named]
  rfl

theorem binariesOf_deleteAt {name : String} (named : Text.sameName name "deleteAt" = true) :
    binariesOf name = [⟨"deleteAt", .array, .scalar, deleteAt⟩] := by
  rw [binariesOf, named_sameName binaryTable named]
  rfl

theorem unariesOf_reverse {name : String} (named : Text.sameName name "reverse" = true) :
    unariesOf name = [⟨"reverse", .array, reverse⟩] := by
  rw [unariesOf, named_sameName unaryTable named]
  rfl

end Command

namespace Execution

variable {exec start after : Execution} {cell : CellId} {added : List Value}
    {value kept other : Value}

/-- A call of a command that changes an array in place, with the values that it may put into it. -/
inductive Edits (exec : Execution) (cell : CellId) : List Value → Outcome → Prop
  | set {name : String} (named : Text.sameName name "set" = true) (right : Value) :
      Edits exec cell (exec.world.store.itemsOf right) (exec.callBinary name (.array cell) right)
  | pushBack {name : String} (named : Text.sameName name "pushBack" = true) (right : Value) :
      Edits exec cell [right] (exec.callBinary name (.array cell) right)
  | append {name : String} (named : Text.sameName name "append" = true) (right : Value) :
      Edits exec cell (exec.world.store.itemsOf right) (exec.callBinary name (.array cell) right)
  | resize {name : String} (named : Text.sameName name "resize" = true) (right : Value) :
      Edits exec cell [] (exec.callBinary name (.array cell) right)
  | deleteAt {name : String} (named : Text.sameName name "deleteAt" = true) (right : Value) :
      Edits exec cell [] (exec.callBinary name (.array cell) right)
  | reverse {name : String} (named : Text.sameName name "reverse" = true) :
      Edits exec cell [] (exec.callUnary name (.array cell))

theorem attempt_edited {plan : Plan} (edits : Plan.Edits exec cell added (plan exec)) :
    exec.world.store.Edited cell added (exec.attempt (follow plan)).2.world.store := by
  cases result : (plan exec exec.site).result with
  | error abort =>
      rw [attempt_of_plan_error result]
      exact .unchanged
  | ok effect =>
      rw [attempt_of_plan_ok result]
      cases (edits.each exec.site).yields effect result with
      | nothing value =>
          rw [answer_world]
          exact .unchanged
      | @write items kept value =>
          rw [answer_world]
          exact .write kept

theorem refuse_edited (message : Message) :
    exec.world.store.Edited cell added (exec.refuse message).2.world.store := by
  rw [refuse_world]
  exact .unchanged

theorem callBinary_edited {name label : String} {first second : ValueType}
    {body : Value → Value → Command} {plan : Plan} {left right : Value}
    (only : Command.binariesOf name = [⟨label, first, second, body⟩])
    (follows : (body left right).Follows (.plan plan))
    (edits : Plan.Edits exec cell added (plan exec)) :
    exec.world.store.Edited cell added (exec.callBinary name left right).2.world.store := by
  by_cases fits : first.accepts left.type = true ∧ second.accepts right.type = true
  · rw [callBinary_of_plan only follows fits]
    exact attempt_edited edits
  · rw [callBinary_of_unfit only fits]
    exact refuse_edited _

theorem Edits.edited {outcome : Outcome} (edits : exec.Edits cell added outcome) :
    exec.world.store.Edited cell added outcome.2.world.store := by
  cases edits with
  | set named right =>
      exact callBinary_edited (Command.binariesOf_set named) (Command.assignIndex_follows _ right)
        (Plan.assignIndex_edits right)
  | pushBack named right =>
      exact callBinary_edited (Command.binariesOf_pushBack named) (Command.pushBack_follows _ right)
        (Plan.pushBack_edits right)
  | append named right =>
      exact callBinary_edited (Command.binariesOf_append named) (Command.append_follows _ right)
        (Plan.append_edits right)
  | resize named right =>
      exact callBinary_edited (Command.binariesOf_resize named) (Command.resize_follows _ right)
        (Plan.resize_edits right)
  | deleteAt named right =>
      exact callBinary_edited (Command.binariesOf_deleteAt named) (Command.deleteAt_follows _ right)
        (Plan.deleteAt_edits right)
  | reverse named =>
      rw [callUnary_of_plan (Command.unariesOf_reverse named) (Command.reverse_follows _) rfl]
      exact attempt_edited Plan.reverse_edits

/-! ## Histories -/

/-- What comes after a start when arrays are edited as allowed, one after the other.  In between
anything may be done that leaves the arrays that are there as they are. -/
inductive Editing (allowed : Store → CellId → List Value → Prop) (start : Execution) :
    Execution → Prop
  | refl : Editing allowed start start
  | edit {exec : Execution} {cell : CellId} {added : List Value} {outcome : Outcome}
      (before : Editing allowed start exec) (permitted : allowed exec.world.store cell added)
      (edits : exec.Edits cell added outcome) : Editing allowed start outcome.2
  | other {exec after : Execution} (before : Editing allowed start exec)
      (grows : exec.world.store.Extends after.world.store) : Editing allowed start after

/-- Edits of arrays to which a value did not lead at the start, whatever is put into them. -/
def Elsewhere (start : Store) (kept : Value) (_ : Store) (cell : CellId) (_ : List Value) : Prop :=
  ¬start.Leads kept cell

/-- Edits of arrays to which one value leads by then, by which nothing is put into them that leads
to an array of another value. -/
def Through (value kept : Value) (store : Store) (cell : CellId) (added : List Value) : Prop :=
  store.Leads value cell ∧ ∀ item ∈ added, store.Whole item ∧ store.Apart item kept

namespace Editing

theorem spares (editing : start.Editing (Elsewhere start.world.store kept) after)
    (whole : start.world.store.Whole kept) :
    start.world.store.Spares after.world.store kept ∧
      start.world.store.cells.size ≤ after.world.store.cells.size := by
  induction editing with
  | refl => exact ⟨.refl _ kept, Nat.le_refl _⟩
  | edit _ permitted edits induction =>
      obtain ⟨spared, cells⟩ := induction
      have elsewhere := fun leads => permitted (spared.leads_iff.mp leads)
      exact ⟨spared.trans (edits.edited.spares elsewhere), edits.edited.cells.symm ▸ cells⟩
  | other _ grows induction =>
      obtain ⟨spared, cells⟩ := induction
      exact ⟨spared.trans (grows.spares (spared.whole cells whole)), Nat.le_trans cells grows.cells⟩

/-- As long as two values are apart, edits through one of them are elsewhere for the other, and
leave the two apart. -/
theorem elsewhere (editing : start.Editing (Through value kept) after)
    (whole : start.world.store.Whole value) (wholeKept : start.world.store.Whole kept)
    (apart : start.world.store.Apart value kept) :
    start.Editing (Elsewhere start.world.store kept) after ∧
      after.world.store.Whole value ∧ after.world.store.Apart value kept := by
  induction editing with
  | refl => exact ⟨.refl, whole, apart⟩
  | @edit exec cell added outcome _ permitted edits induction =>
      obtain ⟨elsewhere, whole, apart⟩ := induction
      obtain ⟨through, safe⟩ := permitted
      obtain ⟨spared, cells⟩ := elsewhere.spares wholeKept
      have untouched := apart cell through
      have sparedNow := edits.edited.spares untouched
      refine ⟨.edit elsewhere (fun leads => untouched (spared.leads_iff.mpr leads)) edits, ?_, ?_⟩
      · intro target leads
        rw [edits.edited.cells]
        rcases edits.edited.leads through leads with before | ⟨item, member, leads⟩
        · exact whole target before
        · exact (safe item member).1 target leads
      · intro target leads again
        rw [sparedNow.leads_iff] at again
        rcases edits.edited.leads through leads with before | ⟨item, member, leads⟩
        · exact apart target before again
        · exact (safe item member).2 target leads again
  | other _ grows induction =>
      obtain ⟨elsewhere, whole, apart⟩ := induction
      obtain ⟨spared, cells⟩ := elsewhere.spares wholeKept
      have sparedNow := grows.spares (spared.whole cells wholeKept)
      have sparedValue := grows.spares whole
      refine ⟨.other elsewhere grows, sparedValue.whole grows.cells whole, ?_⟩
      intro target leads again
      exact apart target (sparedValue.leads_iff.mp leads) (sparedNow.leads_iff.mp again)

end Editing

/-! ## Copies of values -/

/-- A copy of a value was handed to the frame on top. -/
def withCopy (exec : Execution) (value : Value) : Execution :=
  let made := exec.world.store.copy value
  (exec.withStore made.2).pushOperand made.1

theorem withCopy_store (exec : Execution) (value : Value) :
    (exec.withCopy value).world.store = (exec.world.store.copy value).2 :=
  congrArg World.store (mapTop_world _)

theorem callUnary_plus (exec : Execution) (cell : CellId) :
    exec.callUnary "+" (.array cell) = (⟨.ok (), []⟩, exec.withCopy (.array cell)) := rfl

/-- What is done to other arrays is not seen through a value, and what is done through another value
does not reach its arrays. -/
structure Separates (exec : Execution) (kept other : Value) : Prop where
  elsewhere : ∀ after, exec.Editing (Elsewhere exec.world.store kept) after →
    exec.world.store.Spares after.world.store kept
  through : ∀ after, exec.Editing (Through other kept) after →
    exec.Editing (Elsewhere exec.world.store kept) after ∧
      after.world.store.Apart other kept

theorem separates_of_apart (wholeKept : exec.world.store.Whole kept)
    (whole : exec.world.store.Whole other) (apart : exec.world.store.Apart other kept) :
    exec.Separates kept other where
  elsewhere := fun _ editing => (editing.spares wholeKept).1
  through := fun _ editing => by
    obtain ⟨elsewhere, -, apart⟩ := editing.elsewhere whole wholeKept apart
    exact ⟨elsewhere, apart⟩

/-- Pushing a literal and the operator + hand over a copy that is written out like the value, leaves
all arrays as they are and is made of new ones.  Editing other arrays than those of the value, as
those of the copy are, never changes what the value leads to, and the other way round; so pushing
the literal again hands over what it did at first. -/
theorem copies_are_isolated (exec : Execution) (value : Value)
    (acyclic : exec.world.store.Acyclic) (whole : exec.world.store.Whole value) :
    let store := exec.world.store
    let copied := store.copy value
    let pushed := exec.withCopy value
    (exec.dispatch (.push value) = (⟨.ok (), []⟩, pushed) ∧
      ∀ cell, value = .array cell → exec.callUnary "+" value = (⟨.ok (), []⟩, pushed)) ∧
    (∀ cell < store.cells.size, pushed.world.store.items cell = store.items cell) ∧
    pushed.world.store.literal copied.1 = store.literal value ∧
    (∀ cell, pushed.world.store.Leads copied.1 cell → store.cells.size ≤ cell) ∧
    pushed.Separates value copied.1 ∧ pushed.Separates copied.1 value ∧
    ∀ later, pushed.Editing (Elsewhere pushed.world.store value) later →
      let again := later.world.store.copy value
      later.dispatch (.push value) = (⟨.ok (), []⟩, later.withCopy value) ∧
      store.Mirrors again.2 value again.1 ∧
      (later.world.store.blocks = store.blocks → later.world.store.objects = store.objects →
        again.2.literal again.1 = store.literal value) := by
  intro store copied pushed
  have loopless : store.Loopless value := acyclic.loopless
  have facts : store.Copied store value copied := Store.copy_copied loopless whole
  have sameStore : pushed.world.store = copied.2 := withCopy_store exec value
  have spared := facts.grows.toExtends.spares whole
  have wholeLater : copied.2.Whole value := spared.whole facts.grows.cells whole
  have apart := facts.apart whole
  rw [sameStore]
  refine ⟨⟨rfl, ?_⟩, facts.grows.items, ?_, facts.twin.fresh, ?_, ?_, ?_⟩
  · rintro cell rfl
    exact callUnary_plus exec cell
  · exact facts.twin.mirrors.literal loopless facts.grows.cells facts.grows.blocks facts.objects
  · exact separates_of_apart (sameStore ▸ wholeLater) (sameStore ▸ facts.twin.whole)
      (sameStore ▸ apart)
  · exact separates_of_apart (sameStore ▸ facts.twin.whole) (sameStore ▸ wholeLater)
      (sameStore ▸ apart.symm)
  · intro later editing again
    rw [← sameStore] at editing
    obtain ⟨kept, cells⟩ := editing.spares (sameStore ▸ wholeLater)
    rw [sameStore] at kept cells
    have since : store.Spares later.world.store value := spared.trans kept
    have size := Nat.le_trans facts.grows.cells cells
    have more : later.world.store.Copied later.world.store value again :=
      Store.copy_copied (since.loopless loopless) (since.whole size whole)
    have mirrors : store.Mirrors again.2 value again.1 :=
      more.twin.mirrors.congr since.symm (.refl _ _)
    refine ⟨rfl, mirrors, fun blocks objects => ?_⟩
    exact mirrors.literal loopless (Nat.le_trans size more.grows.cells)
      (more.grows.blocks.trans blocks) (more.objects.trans objects)

/-- One array stands twice in another one.  The copy has two arrays for it, of which one is
edited. -/
theorem copy_of_shared_arrays_is_edited_alone :
    let exec := holding #[#[.text "a"], #[.array 0, .array 0]]
    let pushed := exec.withCopy (.array 1)
    let later := (pushed.callBinary "pushBack" (.array 2) (.text "b")).2
    let again := later.world.store.copy (.array 1)
    later.world.store.items 2 = #[.text "a", .text "b"] ∧
      pushed.world.store.Spares later.world.store (.array 1) ∧
      again.2.literal again.1 = "[[\"a\"],[\"a\"]]" := by
  intro exec pushed later again
  have acyclic : exec.world.store.Acyclic := .ofDescending (by decide)
  have whole : exec.world.store.Whole (.array 1) := by
    intro cell leads
    have older := Store.le_of_reaches (by decide) (Store.leads_array.mp leads)
    exact Nat.lt_succ_of_le older
  obtain ⟨-, -, -, -, separates, -, pushedAgain⟩ :=
    copies_are_isolated exec (.array 1) acyclic whole
  have elsewhere : ¬pushed.world.store.Leads (.array 1) 2 := by
    intro leads
    have older := Store.le_of_reaches (by decide) (Store.leads_array.mp leads)
    exact absurd older (by decide)
  have editing : pushed.Editing (Elsewhere pushed.world.store (.array 1)) later :=
    .edit .refl elsewhere (.pushBack (by decide) _)
  obtain ⟨-, -, literal⟩ := pushedAgain later editing
  exact ⟨rfl, separates.elsewhere later editing, (literal rfl rfl).trans rfl⟩

end Execution

end SimScript
