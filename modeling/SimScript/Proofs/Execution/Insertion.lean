import SimScript.Proofs.Execution.Atomicity
import SimScript.Proofs.Execution.Calls
import SimScript.Proofs.Execution.Movement
import SimScript.Proofs.Store.Graph

/-!
# Putting values into arrays

Three commands put values into an array that is there: `set`, `pushBack` and `append`.
Each of them asks the search first whether one of the values leads to the array.  The
search is exact in every store, with or without cycles, so a call is refused for
recursion exactly where the array would come to lead back to itself.
-/

namespace SimScript

namespace Store

variable {store : Store} {cell : CellId} {items : Array Value} {added : List Value}

/-- An array leads back to itself. -/
def OnCycle (store : Store) (cell : CellId) : Prop :=
  ∃ next ∈ store.links cell, store.Reaches next cell

/-- Once an array holds some elements, one of those that were added leads back to it. -/
def ClosesCycle (store : Store) (cell : CellId) (items : Array Value) (added : List Value) : Prop :=
  ∃ next, .array next ∈ added ∧ (store.write cell items).Reaches next cell

/-- The test before an insertion foresees what holds after it. -/
theorem closesCycle_iff :
    store.ClosesCycle cell items added ↔ added.any (store.wouldRecurse cell) = true := by
  simp only [ClosesCycle, reaches_write_iff, List.any_eq_true, wouldRecurse_iff]
  constructor
  · rintro ⟨next, member, reaches⟩
    exact ⟨_, member, next, rfl, reaches⟩
  · rintro ⟨_, member, next, rfl, reaches⟩
    exact ⟨next, member, reaches⟩

/-- An array that did not lead back to itself comes to do so through what is added. -/
theorem onCycle_write_iff (inside : cell < store.cells.size) (apart : ¬store.OnCycle cell)
    (held : ∀ value ∈ added, value ∈ items)
    (kept : ∀ item ∈ items, (item ∈ store.items cell ∨ item = .nil) ∨ item ∈ added) :
    (store.write cell items).OnCycle cell ↔ store.ClosesCycle cell items added := by
  have after : (store.write cell items).items cell = items := by simp [items_write, inside]
  constructor
  · rintro ⟨next, link, back⟩
    obtain ⟨item, member, array⟩ := exists_of_mem_links link
    obtain rfl := Value.eq_array array
    rcases kept _ (after ▸ member) with (old | impossible) | new
    · exact absurd ⟨next, mem_links old array, reaches_write_iff.mp back⟩ apart
    · cases impossible
    · exact ⟨next, new, back⟩
  · rintro ⟨next, member, back⟩
    exact ⟨next, mem_links (after.symm ▸ held _ member) rfl, back⟩

end Store

/-- Whether a call was refused because an array would contain itself. -/
def Outcome.ReportsRecursion (outcome : Outcome) : Prop :=
  ∃ event ∈ outcome.1.events, event.message = .fault .arrayRecursion

/-- What comes of a call that adds values to an array, which holds `items` afterwards. -/
structure Outcome.Inserts (exec : Execution) (cell : CellId) (added : List Value)
    (items : Array Value) (outcome : Outcome) : Prop where
  /-- It is refused for recursion exactly where a value added would lead back to the array. -/
  reported : outcome.ReportsRecursion ↔ exec.world.store.ClosesCycle cell items added
  /-- So an array of the store that is on no cycle would come to be on one. -/
  cyclic : cell < exec.world.store.cells.size → ¬exec.world.store.OnCycle cell →
    (outcome.ReportsRecursion ↔ (exec.world.store.write cell items).OnCycle cell)
  /-- A call that is refused gives up the script and changes nothing. -/
  refused : outcome.ReportsRecursion → outcome.1.result = .error .handle ∧ outcome.2 = exec
  /-- A call that goes through has written the elements. -/
  written : outcome.1.result = .ok () → outcome.2.world.store = exec.world.store.write cell items

theorem Outcome.silent_of_events {events : List Event}
    (apart : ∀ event ∈ events, event.message ≠ .fault .arrayRecursion) (result : Except Abort Unit)
    (after : Execution) : ¬Outcome.ReportsRecursion (⟨result, events⟩, after) := by
  rintro ⟨event, member, reports⟩
  exact apart event member reports

theorem Outcome.Inserts.ofSearch {exec : Execution} {cell : CellId} {added : List Value}
    {items : Array Value} {outcome : Outcome} (held : ∀ value ∈ added, value ∈ items)
    (kept : ∀ item ∈ items, (item ∈ exec.world.store.items cell ∨ item = .nil) ∨ item ∈ added)
    (searched : outcome.ReportsRecursion ↔
      added.any (exec.world.store.wouldRecurse cell) = true)
    (refused : outcome.ReportsRecursion → outcome.1.result = .error .handle ∧ outcome.2 = exec)
    (written : outcome.1.result = .ok () →
      outcome.2.world.store = exec.world.store.write cell items) :
    outcome.Inserts exec cell added items := by
  have reported : outcome.ReportsRecursion ↔ exec.world.store.ClosesCycle cell items added :=
    searched.trans Store.closesCycle_iff.symm
  exact ⟨reported,
    fun inside apart => reported.trans (Store.onCycle_write_iff inside apart held kept).symm,
    refused, written⟩

/-- What comes of a call that adds no value to an array. -/
structure Outcome.InsertsNothing (exec : Execution) (outcome : Outcome) : Prop where
  silent : ¬outcome.ReportsRecursion
  unwritten : outcome.2.world.store = exec.world.store

namespace Report

/-- Work that never raises a message, and yields nothing but what satisfies `post`. -/
def Avoids {α : Type} (message : Message) (post : α → Prop) (work : Report α) : Prop :=
  ∀ site, (∀ event ∈ (work site).events, event.message ≠ message) ∧
    ∀ value, (work site).result = .ok value → post value

namespace Avoids

variable {α β : Type} {message other : Message} {post : α → Prop}

theorem pure {value : α} (holds : post value) : (pure value : Report α).Avoids message post := by
  intro site
  refine ⟨by simp [pure_apply], ?_⟩
  rintro _ ⟨⟩
  exact holds

theorem bind {middle : α → Prop} {post : β → Prop} {work : Report α} {next : α → Report β}
    (first : work.Avoids message middle)
    (second : ∀ value, middle value → (next value).Avoids message post) :
    (work >>= next).Avoids message post := by
  intro site
  obtain ⟨apart, yields⟩ := first site
  cases result : (work site).result with
  | error abort =>
      rw [bind_of_error result]
      refine ⟨apart, ?_⟩
      rintro _ ⟨⟩
  | ok value =>
      obtain ⟨later, onward⟩ := second value (yields value result) (site.after (work site).events)
      rw [bind_of_ok result]
      exact ⟨List.forall_mem_append.mpr ⟨apart, later⟩, onward⟩

theorem abort {abort : Abort} {post : Unit → Prop} (different : other ≠ message)
    (grave : Abort.forSeverity other.severity = some abort) :
    (Report.raise other).Avoids message post := by
  intro site
  refine ⟨List.forall_mem_singleton.mpr different, ?_⟩
  simp [Report.raise, grave]

theorem giveUp {abort : Abort} {fallback : α} (different : other ≠ message)
    (grave : Abort.forSeverity other.severity = some abort) :
    (Report.recover other fallback).Avoids message post :=
  have aborts : (Report.raise other).Avoids message fun _ => False := .abort different grave
  .bind aborts fun _ impossible => impossible.elim

theorem stop {work : Report α} {next : α → Report β} {post : β → Prop}
    (first : work.Avoids message fun _ => False) : (work >>= next).Avoids message post :=
  .bind first fun _ impossible => impossible.elim

end Avoids

end Report

namespace Command

variable {exec : Execution}

/-- The elements of an array once a value is stored at a position. -/
def assigned (items : Array Value) (position : Nat) (value : Value) : Array Value :=
  if position < items.size then items.setIfInBounds position value
  else (resized items (position + 1)).setIfInBounds position value

theorem size_resized (items : Array Value) (size : Nat) : (resized items size).size = size := by
  simp only [resized, Array.take_eq_extract, Array.size_append, Array.size_extract,
    Array.size_replicate]
  omega

theorem mem_assigned_self (items : Array Value) (position : Nat) (value : Value) :
    value ∈ assigned items position value := by
  unfold assigned
  split
  case isTrue inside => exact Array.mem_setIfInBounds inside
  case isFalse =>
      exact Array.mem_setIfInBounds (by rw [size_resized]; exact Nat.lt_succ_self _)

theorem mem_assigned {position : Nat} {value item : Value}
    (member : item ∈ assigned items position value) :
    (item ∈ items ∨ item = .nil) ∨ item = value := by
  unfold assigned at member
  split at member
  · exact (Array.mem_or_eq_of_mem_setIfInBounds member).imp .inl id
  · exact (Array.mem_or_eq_of_mem_setIfInBounds member).imp mem_resized id

theorem withinLimit_avoids (size : Nat) :
    (withinLimit exec size).Avoids (.fault .arrayRecursion) fun within => within = true := by
  unfold withinLimit
  split
  · exact .pure rfl
  · exact .giveUp (by simp) rfl

end Command

namespace Plan

variable {exec : Execution} {cell : CellId} {items : Array Value} {added : List Value}

/-- A plan to add values to an array: it fails where one of them leads to the array, and otherwise
asks at most for the elements to be written. -/
structure Adds (exec : Execution) (cell : CellId) (added : List Value) (items : Array Value)
    (work : Report Effect) : Prop where
  refuses : added.any (exec.world.store.wouldRecurse cell) = true → work = fail .arrayRecursion
  writes : ¬added.any (exec.world.store.wouldRecurse cell) = true →
    work.Avoids (.fault .arrayRecursion) fun effect =>
      ∃ value, effect = .answer (.write cell items) (.value value)

def AddsNothing (work : Report Effect) : Prop :=
  work.Avoids (.fault .arrayRecursion) fun effect =>
    ∃ value, effect = .answer .nothing (.value value)

theorem pushBack_adds (exec : Execution) (cell : CellId) (value : Value) :
    Adds exec cell [value] ((exec.world.store.items cell).push value)
      (pushBack (.array cell) value exec) := by
  simp only [pushBack]
  refine ⟨?_, ?_⟩
  · intro recursive
    rw [if_pos (by simpa using recursive)]
  · intro safe
    rw [if_neg (by simpa using safe)]
    exact .pure ⟨_, rfl⟩

theorem append_adds (exec : Execution) (cell : CellId) (right : Value) :
    Adds exec cell (exec.world.store.itemsOf right)
      (exec.world.store.items cell ++ (exec.world.store.itemsOf right).toArray)
      (append (.array cell) right exec) := by
  simp only [append]
  refine ⟨?_, ?_⟩
  · intro recursive
    rw [if_pos recursive]
  · intro safe
    rw [if_neg safe]
    exact .pure ⟨_, rfl⟩

theorem assignIndex_adds (exec : Execution) {right value : Value} {index : Float}
    (arguments : exec.world.store.itemsOf right = [.scalar index, value]) (natural : ¬index < 0) :
    Adds exec cell [value]
      (Command.assigned (exec.world.store.items cell) (Scalar.toCount index) value)
      (assignIndex (.array cell) right exec) := by
  have fits : Check.types [.scalar index, value] [.scalar, .any] .strong = pure true := rfl
  have number : (Value.scalar index).number = index := rfl
  simp only [assignIndex, arguments, fits, pure_bind, number, natural, Bool.not_true,
    Bool.false_eq_true, if_false]
  refine ⟨?_, ?_⟩
  · intro recursive
    rw [if_pos (by simpa using recursive)]
  · intro safe
    rw [if_neg (by simpa using safe)]
    unfold Command.assigned
    split
    · exact .pure ⟨_, rfl⟩
    · refine .bind (Command.withinLimit_avoids _) ?_
      rintro _ rfl
      exact .pure ⟨_, rfl⟩

/-- Where the arguments are not a natural number and a value, nothing is stored. -/
theorem assignIndex_addsNothing (exec : Execution) {right : Value}
    (unfit : ∀ index value, exec.world.store.itemsOf right = [.scalar index, value] → index < 0) :
    AddsNothing (assignIndex (.array cell) right exec) := by
  have replies : AddsNothing nothing := .pure ⟨_, rfl⟩
  unfold AddsNothing assignIndex
  dsimp only
  split
  case h_1 number value _ arguments =>
      rw [arguments]
      by_cases scalar : ∃ index, number = .scalar index
      · obtain ⟨index, rfl⟩ := scalar
        have fits : Check.types [.scalar index, value] [.scalar, .any] .strong = pure true := rfl
        have negative : (Value.scalar index).number < 0 := unfit index value arguments
        simp only [fits, pure_bind, negative, Bool.not_true, Bool.false_eq_true, if_false,
          if_true]
        exact .stop (.abort (nofun) rfl)
      · have unlike : number.type ≠ .scalar := fun type => scalar (Value.eq_scalar_of_type type)
        have unfit : ValueType.scalar.accepts number.type = false := by
          simpa using (ValueType.accepts_iff (by decide)).not.mpr unlike
        have refused : Check.types [number, value] [.scalar, .any] .strong =
            Report.recover (Fault.expectedArrayTypeMismatch 0 [.scalar] number.type .strong)
              false := by
          simp [Check.types, Check.firstMismatch?, unfit]
        rw [refused]
        exact .stop (.giveUp (by simp) rfl)
  case h_2 =>
      unfold Check.size
      split
      · have fits : (pure true : Report Bool).Avoids (.fault .arrayRecursion) fun _ => True :=
          .pure trivial
        exact .bind fits fun _ _ => replies
      · exact .stop (.giveUp (by simp) rfl)

end Plan

namespace Execution

variable {exec : Execution} {cell : CellId} {items : Array Value} {added : List Value}
  {plan : Plan}

/-- What a plan to add values comes to. -/
theorem attempt_inserts (adds : Plan.Adds exec cell added items (plan exec))
    (held : ∀ value ∈ added, value ∈ items)
    (kept : ∀ item ∈ items, (item ∈ exec.world.store.items cell ∨ item = .nil) ∨ item ∈ added) :
    (exec.attempt (follow plan)).Inserts exec cell added items := by
  by_cases recursive : added.any (exec.world.store.wouldRecurse cell) = true
  · have asks := adds.refuses recursive
    have given : (plan exec exec.site).result = .error .handle := by rw [asks]; rfl
    rw [attempt_of_plan_error given, asks]
    refine .ofSearch held kept ⟨fun _ => recursive, fun _ => ?_⟩ (fun _ => ⟨rfl, rfl⟩) nofun
    exact ⟨_, List.mem_cons_self, rfl⟩
  · obtain ⟨apart, asks⟩ := adds.writes recursive exec.site
    cases result : (plan exec exec.site).result with
    | error abort =>
        rw [attempt_of_plan_error result]
        have silent := Outcome.silent_of_events apart (.error abort) exec
        exact .ofSearch held kept (iff_of_false silent recursive) (absurd · silent) nofun
    | ok effect =>
        obtain ⟨value, rfl⟩ := asks effect result
        rw [attempt_of_plan_ok result]
        have silent := Outcome.silent_of_events apart (.ok ())
          ((Effect.answer (.write cell items) (.value value)).perform exec)
        exact .ofSearch held kept (iff_of_false silent recursive) (absurd · silent)
          fun _ => congrArg World.store (answer_world _ value)

theorem attempt_insertsNothing (asks : Plan.AddsNothing (plan exec)) :
    (exec.attempt (follow plan)).InsertsNothing exec := by
  obtain ⟨apart, asks⟩ := asks exec.site
  cases result : (plan exec exec.site).result with
  | error abort =>
      rw [attempt_of_plan_error result]
      exact ⟨Outcome.silent_of_events apart _ _, rfl⟩
  | ok effect =>
      obtain ⟨value, rfl⟩ := asks effect result
      rw [attempt_of_plan_ok result]
      exact ⟨Outcome.silent_of_events apart _ _, congrArg World.store (answer_world _ value)⟩

theorem refuse_insertsNothing {message : Message} (other : message ≠ .fault .arrayRecursion) :
    (exec.refuse message).InsertsNothing exec := by
  refine ⟨?_, congrArg World.store (refuse_world message)⟩
  rintro ⟨event, member, reports⟩
  rw [(exec.refuse_cases message).1] at member
  obtain rfl := List.mem_singleton.mp member
  exact other reports

section Call

variable {name label : String} {left right : Value} {first second : ValueType}
  {body : Value → Value → Command}

theorem callBinary_insertsNothing
    (only : Command.binariesOf name = [⟨label, first, second, body⟩])
    (unfit : ¬(first.accepts left.type = true ∧ second.accepts right.type = true)) :
    (exec.callBinary name left right).InsertsNothing exec := by
  rw [callBinary_of_unfit only unfit]
  exact refuse_insertsNothing nofun

end Call

end Execution

namespace Command

variable {name : String}

theorem binariesOf_pushBack (named : Text.sameName name "pushBack" = true) :
    binariesOf name = [⟨"pushBack", .array, .any, pushBack⟩] := by
  rw [binariesOf, named_sameName binaryTable named]
  rfl

theorem binariesOf_append (named : Text.sameName name "append" = true) :
    binariesOf name = [⟨"append", .array, .array, append⟩] := by
  rw [binariesOf, named_sameName binaryTable named]
  rfl

theorem binariesOf_set (named : Text.sameName name "set" = true) :
    binariesOf name = [⟨"set", .array, .array, assignIndex⟩] := by
  rw [binariesOf, named_sameName binaryTable named]
  rfl

/-- The names of the commands that put values into an array. -/
def PutsInto (name : String) : Prop :=
  Text.sameName name "pushBack" = true ∨ Text.sameName name "append" = true ∨
    Text.sameName name "set" = true

end Command

namespace Execution

variable {exec : Execution} {cell : CellId} {name : String} {left right : Value}
  {added : List Value} {items : Array Value}

/-- A call that adds some values to an array, which is to hold some items afterwards. -/
inductive Inserting (exec : Execution) (cell : CellId) :
    String → Value → List Value → Array Value → Prop where
  | pushBack {name : String} (named : Text.sameName name "pushBack" = true) (value : Value) :
      Inserting exec cell name value [value] ((exec.world.store.items cell).push value)
  | append {name : String} (named : Text.sameName name "append" = true) (source : CellId) :
      Inserting exec cell name (.array source) (exec.world.store.items source).toList
        (exec.world.store.items cell ++ exec.world.store.items source)
  | set {name : String} (named : Text.sameName name "set" = true) {arguments : CellId}
      {index : Float} {value : Value}
      (given : (exec.world.store.items arguments).toList = [.scalar index, value])
      (natural : ¬index < 0) :
      Inserting exec cell name (.array arguments) [value]
        (Command.assigned (exec.world.store.items cell) (Scalar.toCount index) value)

theorem callBinary_inserts (inserting : exec.Inserting cell name right added items) :
    (exec.callBinary name (.array cell) right).Inserts exec cell added items := by
  cases inserting with
  | pushBack named =>
      rw [callBinary_of_plan (Command.binariesOf_pushBack named) (Command.pushBack_follows _ _)
        ⟨rfl, rfl⟩]
      refine attempt_inserts (Plan.pushBack_adds exec cell right) ?_ ?_
      · simp
      · intro item member
        rcases Array.mem_push.mp member with old | rfl
        · exact .inl (.inl old)
        · exact .inr List.mem_cons_self
  | append named source =>
      rw [callBinary_of_plan (Command.binariesOf_append named) (Command.append_follows _ _)
        ⟨rfl, rfl⟩]
      refine attempt_inserts (Plan.append_adds exec cell (.array source)) ?_ ?_
      · intro value member
        exact Array.mem_append_right _ (Array.mem_toList_iff.mp member)
      · intro item member
        rcases Array.mem_append.mp member with old | new
        · exact .inl (.inl old)
        · exact .inr (Array.mem_toList_iff.mpr new)
  | set named given natural =>
      rw [callBinary_of_plan (Command.binariesOf_set named) (Command.assignIndex_follows _ _)
        ⟨rfl, rfl⟩]
      refine attempt_inserts (Plan.assignIndex_adds exec given natural) ?_ ?_
      · intro value member
        obtain rfl := List.mem_singleton.mp member
        exact Command.mem_assigned_self _ _ _
      · intro item member
        exact (Command.mem_assigned member).imp_right fun same => by simp [same]

theorem callBinary_insertsNothing_of_unfit (named : Command.PutsInto name)
    (other : ∀ cell added items, left = .array cell →
      ¬exec.Inserting cell name right added items) :
    (exec.callBinary name left right).InsertsNothing exec := by
  have array : ∀ {value : Value}, ValueType.array.accepts value.type = true →
      ∃ cell, value = .array cell :=
    fun accepts => Value.eq_array_of_type ((ValueType.accepts_iff (by decide)).mp accepts)
  rcases named with named | named | named
  · refine callBinary_insertsNothing (Command.binariesOf_pushBack named) ?_
    rintro ⟨onArray, -⟩
    obtain ⟨cell, rfl⟩ := array onArray
    exact other cell _ _ rfl (.pushBack named right)
  · refine callBinary_insertsNothing (Command.binariesOf_append named) ?_
    rintro ⟨onArray, ofArray⟩
    obtain ⟨cell, rfl⟩ := array onArray
    obtain ⟨source, rfl⟩ := array ofArray
    exact other cell _ _ rfl (.append named source)
  · have only := Command.binariesOf_set named
    by_cases fits :
        ValueType.array.accepts left.type = true ∧ ValueType.array.accepts right.type = true
    · obtain ⟨cell, rfl⟩ := array fits.1
      obtain ⟨arguments, rfl⟩ := array fits.2
      rw [callBinary_of_plan only (Command.assignIndex_follows _ _) fits]
      refine attempt_insertsNothing (Plan.assignIndex_addsNothing exec ?_)
      intro index value given
      by_contra natural
      exact other cell _ _ rfl (.set named given natural)
    · exact callBinary_insertsNothing only fits

/-- The search before an insertion is exact in every store, whether or not there are cycles in it.
So a call that puts values into an array is refused exactly where one of them would lead back to
the array, and no other call of these commands is refused for that or changes an array. -/
theorem insertions_are_refused_exactly_where_they_close_a_cycle :
    (∀ (store : Store) (target : CellId) (value : Value),
      store.wouldRecurse target value = true ↔
        ∃ cell, value = .array cell ∧ store.Reaches cell target) ∧
    (∀ (exec : Execution) (cell : CellId) (name : String) (right : Value) (added : List Value)
      (items : Array Value), exec.Inserting cell name right added items →
        (exec.callBinary name (.array cell) right).Inserts exec cell added items) ∧
    ∀ (exec : Execution) (name : String) (left right : Value), Command.PutsInto name →
      (∀ cell added items, left = .array cell →
        ¬exec.Inserting cell name right added items) →
      (exec.callBinary name left right).InsertsNothing exec :=
  ⟨fun _ _ _ => Store.wouldRecurse_iff,
    fun _ _ _ _ _ _ inserting => callBinary_inserts inserting,
    fun _ _ _ _ named other => callBinary_insertsNothing_of_unfit named other⟩

def holding (cells : Array (Array Value)) : Execution where
  world := { store := { cells } }
  handle := { id := 0, stack := [] }
  location := .host

/-- The first array leads to itself and to the second one, so it may be put into the third one but
not into the second one. -/
theorem cyclic_arrays_may_be_put_elsewhere :
    let exec := holding #[#[.array 0, .array 1], #[], #[]]
    (exec.callBinary "PushBack" (.array 1) (.array 0)).1.result = .error .handle ∧
      (exec.callBinary "PushBack" (.array 1) (.array 0)).2 = exec ∧
      ¬(exec.callBinary "PushBack" (.array 2) (.array 0)).ReportsRecursion ∧
      ¬(exec.callBinary "SET" (.array 1) (.array 2)).ReportsRecursion := by
  intro exec
  obtain ⟨-, inserts, others⟩ := insertions_are_refused_exactly_where_they_close_a_cycle
  have named : Text.sameName "PushBack" "pushBack" = true := by decide
  have second := inserts exec 1 _ _ _ _ (.pushBack named (.array 0))
  have third := inserts exec 2 _ _ _ _ (.pushBack named (.array 0))
  have apart : ∀ {cell target}, exec.world.store.Reaches cell target → cell < 2 → target < 2 := by
    intro cell target reaches
    induction reaches with
    | refl => exact id
    | @step from_ next _ link _ induction =>
        intro inside
        refine induction ?_
        match from_, inside with
        | 0, _ =>
            have either : next = 0 ∨ next = 1 := by simpa using (show next ∈ [0, 1] from link)
            exact either.elim (fun same => same ▸ by decide) fun same => same ▸ by decide
        | 1, _ => cases link
  have refused : (exec.callBinary "PushBack" (.array 1) (.array 0)).ReportsRecursion :=
    second.reported.mpr ⟨0, List.mem_cons_self,
      Store.reaches_write_iff.mpr (.single (List.mem_cons_of_mem _ List.mem_cons_self))⟩
  refine ⟨(second.refused refused).1, (second.refused refused).2, ?_, ?_⟩
  · intro reports
    obtain ⟨next, member, reaches⟩ := third.reported.mp reports
    obtain rfl := Value.array.inj (List.mem_singleton.mp member)
    exact absurd (apart (Store.reaches_write_iff.mp reaches) (by decide)) (by decide)
  · refine (others exec "SET" _ _ (.inr (.inr (by decide))) ?_).silent
    rintro _ _ _ _ (named | named | ⟨named, given, _⟩)
    · exact absurd named (by decide)
    · exact absurd named (by decide)
    · cases given

end Execution

end SimScript
