import SimScript.Proofs.Execution.Cases
import SimScript.Proofs.Object.Table
import SimScript.Proofs.Value.Types

/-!
# Moving units

`doMove` puts a unit at a point, and over an array it does so for one element after
another.  The types of all elements are looked at before anything is moved, but whether
an element is a live unit is looked at only when its turn has come.  So the units that
stand before the first element that is none have moved by the time the statement is
given up.
-/

namespace SimScript

/-- The point that a value gives by two or three numbers. -/
def Store.pointOf? (store : Store) (value : Value) : Option Vec3 :=
  let coordinates := store.itemsOf value
  if (2 ≤ coordinates.length ∧ coordinates.length ≤ 3) ∧ ∀ each ∈ coordinates, each.type = .scalar
  then some (Command.vectorOf coordinates)
  else none

namespace ObjectTable

def isLiveUnit (table : ObjectTable) (value : Value) : Bool :=
  value.objectRef.kind == .unit && !table.isNull value.objectRef

def place (table : ObjectTable) (point : Vec3) (ref : ObjectRef) : ObjectTable :=
  table.update ref fun data => { data with position := point }

def placeAll (table : ObjectTable) (point : Vec3) (units : List Value) : ObjectTable :=
  units.foldl (fun table unit => table.place point unit.objectRef) table

variable {table : ObjectTable} {point : Vec3} {ref other : ObjectRef} {unit : Value}
    {data : ObjectData}

theorem isLiveUnit_iff :
    table.isLiveUnit unit = true ↔
      unit.objectRef.kind = .unit ∧ ∃ data, table.get? unit.objectRef = some data := by
  simp [isLiveUnit, isNull, Option.isSome_iff_exists]

theorem type_of_isLiveUnit (live : table.isLiveUnit unit = true) : unit.type = .object := by
  have kind : unit.objectRef.kind = .unit := (isLiveUnit_iff.mp live).1
  cases unit
  case object ref =>
      have same : ref.kind = .unit := kind
      simp [Value.type, same, ObjectKind.valueType]
  all_goals cases kind

/-- Putting an object at a point moves every reference to it, and nothing else. -/
theorem get?_place :
    (table.place point ref).get? other =
      (table.get? other).map fun data =>
        if other.id = ref.id then { data with position := point } else data :=
  get?_update_of_kept fun _ => rfl

/-- The objects after some of them have been put at a point: those that are referred to are there,
and nothing else has changed. -/
theorem get?_placeAll {units : List Value} :
    (table.placeAll point units).get? other =
      (table.get? other).map fun data =>
        if other.id ∈ units.map (·.objectRef.id) then
          { data with position := point } else data := by
  induction units generalizing table with
  | nil => simp [placeAll]
  | cons unit rest induction =>
      have first : table.placeAll point (unit :: rest) =
          (table.place point unit.objectRef).placeAll point rest := rfl
      rw [first, induction, get?_place, Option.map_map]
      congr 1
      funext data
      by_cases here : other.id = unit.objectRef.id <;>
        by_cases later : other.id ∈ rest.map (·.objectRef.id) <;>
          simp [here, later]

theorem isLiveUnit_placeAll {units : List Value} :
    (table.placeAll point units).isLiveUnit unit = table.isLiveUnit unit := by
  simp [isLiveUnit, isNull, get?_placeAll]

end ObjectTable

theorem Store.pointOf?_eq_some_iff {store : Store} {value : Value} {point : Vec3} :
    store.pointOf? value = some point ↔
      ((2 ≤ (store.itemsOf value).length ∧ (store.itemsOf value).length ≤ 3) ∧
        ∀ each ∈ store.itemsOf value, each.type = .scalar) ∧
      Command.vectorOf (store.itemsOf value) = point := by
  simp [pointOf?, Option.ite_none_right_eq_some]

theorem Store.pointOf?_of_type {store : Store} {value : Value} (type : value.type ≠ .array) :
    store.pointOf? value = none := by
  cases value
  case array => exact absurd rfl type
  all_goals rfl

namespace Check

theorem firstMismatch?_replicate {items : List Value} {type : ValueType} (position : Nat) :
    firstMismatch? position items (List.replicate items.length type) = none ↔
      ∀ item ∈ items, type.accepts item.type = true := by
  induction items generalizing position with
  | nil => simp [firstMismatch?]
  | cons item rest induction =>
      rw [List.length_cons, List.replicate_succ, firstMismatch?]
      split
      case isTrue fits => simp [induction, fits]
      case isFalse misfit => simp [misfit]

end Check

namespace Report

variable {α β : Type} {message : Message} {abort : Abort} {site : Site}

theorem result_bind_of_error {work : Report α} {next : α → Report β}
    (failed : (work site).result = .error abort) :
    ((work >>= next) site).result = .error abort := by
  rw [bind_of_error failed]

theorem raise_of_grave (grave : Abort.forSeverity message.severity = some abort) :
    (Report.raise message site).result = .error abort := by
  simp only [Report.raise, grave]

theorem recover_of_grave {fallback : α}
    (grave : Abort.forSeverity message.severity = some abort) :
    (Report.recover message fallback site).result = .error abort :=
  result_bind_of_error (raise_of_grave grave)

end Report

namespace Command

variable {store : Store} {value : Value} {point : Vec3} {site : Site}

theorem readPoint_of_point (given : store.pointOf? value = some point) :
    readPoint store value = pure (some point) := by
  obtain ⟨⟨sized, scalars⟩, rfl⟩ := Store.pointOf?_eq_some_iff.mp given
  have typed : Check.allOf (store.itemsOf value) .scalar .strong = pure true := by
    have fits := (Check.firstMismatch?_replicate 0).mpr fun each member =>
      (ValueType.accepts_iff (by decide)).mpr (scalars each member)
    simp only [Check.allOf, Check.types, fits]
  simp only [readPoint, Check.sizeBetween, if_pos sized, typed, pure_bind, Bool.not_true,
    Bool.false_eq_true, if_false]

theorem readPoint_refuses (missing : store.pointOf? value = none) :
    (readPoint store value site).result = .error .statement := by
  unfold readPoint
  by_cases sized : 2 ≤ (store.itemsOf value).length ∧ (store.itemsOf value).length ≤ 3
  · have misfit : Check.firstMismatch? 0 (store.itemsOf value)
        (List.replicate (store.itemsOf value).length .scalar) ≠ none := by
      intro fits
      have scalars : ∀ each ∈ store.itemsOf value, each.type = .scalar := fun each member =>
        (ValueType.accepts_iff (by decide)).mp
          ((Check.firstMismatch?_replicate 0).mp fits each member)
      have given := Store.pointOf?_eq_some_iff.mpr ⟨⟨sized, scalars⟩, rfl⟩
      rw [missing] at given
      cases given
    obtain ⟨⟨position, expected, got⟩, found⟩ := Option.ne_none_iff_exists'.mp misfit
    simp only [Check.sizeBetween, if_pos sized, pure_bind, Bool.not_true, Bool.false_eq_true,
      if_false, Check.allOf, Check.types, found]
    exact Report.result_bind_of_error (Report.recover_of_grave rfl)
  · simp only [Check.sizeBetween, if_neg sized]
    exact Report.result_bind_of_error (Report.recover_of_grave rfl)

end Command

namespace Plan

variable {right unit : Value} {point : Vec3} {exec : Execution} {site : Site}

theorem moveUnit_moves (live : exec.world.store.objects.isLiveUnit unit = true)
    (given : exec.world.store.pointOf? right = some point) :
    moveUnit unit right exec =
      change (.updateObjects [(unit.objectRef, fun data => { data with position := point })]) := by
  obtain ⟨kind, data, found⟩ := ObjectTable.isLiveUnit_iff.mp live
  have there : (Command.dataOf? exec unit).isSome = true := Option.isSome_of_eq_some found
  simp only [moveUnit, Command.expectLive, there, kind, Command.readPoint_of_point given,
    pure_bind, bne_self_eq_false, Bool.false_eq_true, if_true, if_false]

theorem moveUnit_refuses (bad : exec.world.store.objects.isLiveUnit unit = true →
      exec.world.store.pointOf? right = none) :
    (moveUnit unit right exec site).result = .error .statement := by
  unfold moveUnit Command.expectLive
  by_cases there : (Command.dataOf? exec unit).isSome = true
  · obtain ⟨data, found⟩ := Option.isSome_iff_exists.mp there
    simp only [there, if_true, pure_bind]
    by_cases kind : unit.objectRef.kind = .unit
    · have missing := bad (ObjectTable.isLiveUnit_iff.mpr ⟨kind, data, found⟩)
      simp only [kind, bne_self_eq_false, Bool.false_eq_true, if_false]
      exact Report.result_bind_of_error (Command.readPoint_refuses missing)
    · simp only [bne_iff_ne.mpr kind, if_true]
      exact Report.result_bind_of_error (Report.raise_of_grave rfl)
  · simp only [there, Bool.false_eq_true, if_false]
    exact Report.result_bind_of_error (Report.recover_of_grave rfl)

end Plan

namespace Check

variable {items : List Value} {type : ValueType} {outer : List Nat} {site : Site}

theorem subTypes_of_all (specific : type ≠ .any) (all : ∀ item ∈ items, item.type = type)
    (position : Nat) : subTypes outer [type] .strong position items = pure true := by
  induction items generalizing position with
  | nil => rfl
  | cons item rest induction =>
      obtain ⟨first, others⟩ := List.forall_mem_cons.mp all
      have fits : type.accepts item.type = true := (ValueType.accepts_iff specific).mpr first
      simp only [subTypes, subType, List.any_cons, fits, Bool.true_or, if_true, pure_bind]
      exact induction others (position + 1)

theorem subTypes_refuses (specific : type ≠ .any) (misfit : ∃ item ∈ items, item.type ≠ type)
    (position : Nat) :
    (subTypes outer [type] .strong position items site).result = .error .statement := by
  induction items generalizing position with
  | nil => simp at misfit
  | cons item rest induction =>
      by_cases first : item.type = type
      · have fits : type.accepts item.type = true := (ValueType.accepts_iff specific).mpr first
        simp only [subTypes, subType, List.any_cons, fits, Bool.true_or, if_true, pure_bind]
        refine induction ?_ (position + 1)
        simpa [first] using misfit
      · have unfit : type.accepts item.type = false := by
          simpa using (ValueType.accepts_iff specific).not.mpr first
        simp only [subTypes, subType, List.any_cons, List.any_nil, unfit, Bool.or_false,
          Bool.false_eq_true, if_false]
        exact Report.result_bind_of_error (Report.recover_of_grave rfl)

end Check

namespace Execution

variable {exec : Execution} {right : Value} {point : Vec3}

def movedTo (exec : Execution) (point : Vec3) (units : List Value) : Execution :=
  exec.withStore (exec.world.store.withObjects fun table => table.placeAll point units)

theorem followAll_of_answer {plan : Plan} {plans : List Plan} {change : Change} {reply : Reply}
    (asks : plan exec = pure (.answer change reply)) :
    exec.followAll (plan :: plans) = (change.perform exec).followAll plans := by
  rw [followAll]
  simp only [attempt, asks, pure_bind, Report.pure_apply, List.nil_append]
  rfl

/-- Live units are moved one after the other, and nothing is said about it. -/
theorem followAll_of_live {units rest : List Value}
    (given : exec.world.store.pointOf? right = some point)
    (live : ∀ unit ∈ units, exec.world.store.objects.isLiveUnit unit = true) :
    exec.followAll ((units ++ rest).map fun unit => Plan.moveUnit unit right) =
      (exec.movedTo point units).followAll (rest.map fun unit => Plan.moveUnit unit right) := by
  induction units generalizing exec with
  | nil => rfl
  | cons unit others induction =>
      obtain ⟨first, later⟩ := List.forall_mem_cons.mp live
      have still : ∀ each ∈ others,
          (exec.movedTo point [unit]).world.store.objects.isLiveUnit each = true :=
        fun each member => ObjectTable.isLiveUnit_placeAll.trans (later each member)
      rw [List.cons_append, List.map_cons,
        followAll_of_answer (Plan.moveUnit_moves first given)]
      exact induction given still

/-- The first element that is no live unit gives the statement up. -/
theorem followAll_of_bad (unit : Value) (rest : List Value)
    (bad : exec.world.store.objects.isLiveUnit unit = true →
      exec.world.store.pointOf? right = none) :
    (exec.followAll ((unit :: rest).map fun unit => Plan.moveUnit unit right)).1.result =
        .error .statement ∧
      (exec.followAll ((unit :: rest).map fun unit => Plan.moveUnit unit right)).2 = exec := by
  have refuses : (Plan.moveUnit unit right exec exec.site).result = .error .statement :=
    Plan.moveUnit_refuses bad
  rw [List.map_cons, followAll]
  simp only [attempt, Report.result_bind_of_error refuses]
  trivial

end Execution

namespace Execution

/-- The ways in which a request to put the listed values at a place may go. -/
inductive MovesUnits (exec : Execution) (listed : List Value) (right : Value) : Outcome → Prop where
  | places (point : Vec3) (given : listed ≠ [] → exec.world.store.pointOf? right = some point)
      (live : ∀ unit ∈ listed, exec.world.store.objects.isLiveUnit unit = true) :
      MovesUnits exec listed right (⟨.ok (), []⟩, (exec.movedTo point listed).pushOperand .nil)
  | refuses {checked : Checked Unit} (refused : checked.result = .error .statement)
      (misfit : (∃ unit ∈ listed, exec.world.store.objects.isLiveUnit unit = false) ∨
        exec.world.store.pointOf? right = none) :
      MovesUnits exec listed right (checked, exec)
  | breaksOff {checked : Checked Unit} {point : Vec3} {moved rest : List Value} {bad : Value}
      (refused : checked.result = .error .statement) (parts : listed = moved ++ bad :: rest)
      (inside : moved ≠ []) (objects : ∀ unit ∈ listed, unit.type = .object)
      (given : exec.world.store.pointOf? right = some point)
      (live : ∀ unit ∈ moved, exec.world.store.objects.isLiveUnit unit = true)
      (dead : exec.world.store.objects.isLiveUnit bad = false) :
      MovesUnits exec listed right (checked, exec.movedTo point moved)

variable {exec : Execution} {right : Value}
  {listed : List Value} {point : Vec3} {outcome : Outcome}

theorem followAll_moves (given : exec.world.store.pointOf? right = some point)
    (objects : ∀ unit ∈ listed, unit.type = .object) :
    exec.MovesUnits listed right
      (exec.followAll (listed.map fun unit => Plan.moveUnit unit right)) := by
  let isLive := exec.world.store.objects.isLiveUnit
  obtain ⟨moved, remaining, parts, live, stops⟩ : ∃ moved remaining,
      listed = moved ++ remaining ∧ (∀ unit ∈ moved, isLive unit = true) ∧
        ∀ bad rest, remaining = bad :: rest → isLive bad = false := by
    refine ⟨listed.takeWhile isLive, listed.dropWhile isLive,
      List.takeWhile_append_dropWhile.symm,
      fun unit member => List.all_eq_true.mp List.all_takeWhile unit member, ?_⟩
    intro bad rest starts
    have head := List.head?_dropWhile_not isLive listed
    simpa [starts] using head
  have done : exec.followAll (listed.map fun unit => Plan.moveUnit unit right) =
      (exec.movedTo point moved).followAll
        (remaining.map fun unit => Plan.moveUnit unit right) := by
    rw [parts]
    exact followAll_of_live given live
  rw [done]
  cases remaining with
  | nil =>
      obtain rfl : listed = moved := parts.trans (List.append_nil moved)
      exact .places point (fun _ => given) live
  | cons bad rest =>
      have dead : isLive bad = false := stops bad rest rfl
      have refuses : (exec.movedTo point moved).world.store.objects.isLiveUnit bad = true →
          (exec.movedTo point moved).world.store.pointOf? right = none := by
        intro alive
        have before : isLive bad = true := ObjectTable.isLiveUnit_placeAll.symm.trans alive
        simp [dead] at before
      obtain ⟨result, same⟩ := followAll_of_bad bad rest refuses
      generalize Execution.followAll _ _ = outcome at result same ⊢
      obtain ⟨checked, after⟩ := outcome
      obtain rfl : after = exec.movedTo point moved := same
      by_cases inside : moved = []
      · subst inside
        exact .refuses result (.inl ⟨bad, by simp [parts], dead⟩)
      · exact .breaksOff result parts inside objects given live dead

/-- The types of all elements are looked at before any of them is moved. -/
theorem fulfil_moves (left : Value) :
    exec.MovesUnits (exec.world.store.itemsOf left) right
      (exec.fulfil (.moveUnits left right)) := by
  generalize same : exec.world.store.itemsOf left = listed
  by_cases objects : ∀ unit ∈ listed, unit.type = .object
  · have asks : exec.fulfil (.moveUnits left right) =
        exec.followAll (listed.map fun unit => Plan.moveUnit unit right) := by
      simp only [fulfil, Design.moveUnits, same,
        Check.subTypes_of_all (by decide) objects, pure_bind, if_true, Report.pure_apply,
        List.nil_append]
    rw [asks]
    cases given : exec.world.store.pointOf? right with
    | some point => exact followAll_moves given objects
    | none =>
        cases listed with
        | nil => exact .places {} (by simp) (by simp)
        | cons unit rest =>
            obtain ⟨result, unchanged⟩ := followAll_of_bad unit rest fun _ => given
            generalize Execution.followAll _ _ = outcome at result unchanged ⊢
            obtain ⟨checked, after⟩ := outcome
            obtain rfl : after = exec := unchanged
            exact .refuses result (.inr given)
  · obtain ⟨unit, member, misfit⟩ : ∃ unit ∈ listed, unit.type ≠ .object := by
      simpa using objects
    have dead : exec.world.store.objects.isLiveUnit unit = false := by
      by_contra live
      exact misfit (ObjectTable.type_of_isLiveUnit (by simpa using live))
    have refuses : (Check.subTypes [] [.object] .strong 0 listed exec.site).result =
        .error .statement :=
      Check.subTypes_refuses (by decide) ⟨unit, member, misfit⟩ 0
    simp only [fulfil, Design.moveUnits, same, Report.result_bind_of_error refuses]
    exact .refuses rfl (.inl ⟨unit, member, dead⟩)

end Execution

theorem Command.binariesOf_doMove {name : String} (named : Text.sameName name "doMove" = true) :
    binariesOf name =
      [⟨"doMove", .object, .array, moveUnit⟩, ⟨"doMove", .array, .array, moveUnits⟩] := by
  rw [binariesOf, named_sameName binaryTable named]
  rfl

namespace Execution

variable {exec : Execution} {name : String} {cell : CellId} {right : Value}

theorem callBinary_doMove (named : Text.sameName name "doMove" = true)
    (type : right.type = .array) :
    exec.callBinary name (.array cell) right = exec.fulfil (.moveUnits (.array cell) right) := by
  have left : (Value.array cell).type = .array := rfl
  unfold callBinary
  rw [Command.binariesOf_doMove named]
  simp only [left, type]
  exact Command.moveUnits_follows (.array cell) right exec

/-- What comes of a request to move all elements of an array. -/
theorem callBinary_moves (named : Text.sameName name "doMove" = true) :
    exec.MovesUnits (exec.world.store.items cell).toList right
      (exec.callBinary name (.array cell) right) := by
  by_cases type : right.type = .array
  · rw [callBinary_doMove named type]
    exact fulfil_moves (.array cell)
  · have left : (Value.array cell).type = .array := rfl
    have unfit : ValueType.array.accepts right.type = false := by
      simpa using (ValueType.accepts_iff (by decide)).not.mpr type
    unfold callBinary
    rw [Command.binariesOf_doMove named]
    simp only [left, Command.binaryFor?, List.find?, unfit, Bool.and_false]
    exact .refuses rfl (.inr (Store.pointOf?_of_type type))

end Execution

namespace Execution.MovesUnits

variable {exec : Execution} {listed : List Value} {right : Value} {point : Vec3}
  {outcome : Outcome}

theorem goesThrough (moves : exec.MovesUnits listed right outcome)
    (alive : ∀ unit ∈ listed, exec.world.store.objects.isLiveUnit unit = true)
    (given : exec.world.store.pointOf? right = some point) : outcome.1.result = .ok () := by
  cases moves with
  | places => rfl
  | refuses refused misfit =>
      rcases misfit with ⟨unit, member, dead⟩ | missing
      · simp [alive unit member] at dead
      · simp [given] at missing
  | @breaksOff _ _ moved rest bad refused parts _ _ _ _ dead =>
      have member : bad ∈ listed := by simp [parts]
      simp [alive bad member] at dead

theorem arrives (moves : exec.MovesUnits listed right outcome)
    (succeeds : outcome.1.result = .ok ()) {unit : Value} (member : unit ∈ listed) :
    outcome.2.world.store.objects.isLiveUnit unit = true ∧
      ∃ data, outcome.2.world.store.objects.get? unit.objectRef = some data ∧
        exec.world.store.pointOf? right = some data.position := by
  cases moves with
  | refuses refused => simp [refused] at succeeds
  | breaksOff refused => simp [refused] at succeeds
  | places point given live =>
      have moved : ((exec.movedTo point listed).pushOperand .nil).world.store.objects =
          exec.world.store.objects.placeAll point listed := by
        rw [pushOperand, mapTop_world]
        rfl
      obtain ⟨_, data, found⟩ := ObjectTable.isLiveUnit_iff.mp (live unit member)
      rw [moved]
      refine ⟨ObjectTable.isLiveUnit_placeAll.trans (live unit member), ?_⟩
      refine ⟨{ data with position := point }, ?_, given (List.ne_nil_of_mem member)⟩
      rw [ObjectTable.get?_placeAll, found, Option.map_some,
        if_pos (List.mem_map.mpr ⟨unit, member, rfl⟩)]

theorem stops (moves : exec.MovesUnits listed right outcome) {abort : Abort}
    (fails : outcome.1.result = .error abort) :
    abort = .statement ∧
      (outcome.2 = exec ∨
        ∃ point moved bad rest, listed = moved ++ bad :: rest ∧ moved ≠ [] ∧
          (∀ unit ∈ listed, unit.type = .object) ∧
          exec.world.store.pointOf? right = some point ∧
          (∀ unit ∈ moved, exec.world.store.objects.isLiveUnit unit = true) ∧
          exec.world.store.objects.isLiveUnit bad = false ∧
          outcome.2 = exec.movedTo point moved) := by
  have given : ∀ {checked : Checked Unit}, checked.result = .error .statement →
      checked.result = .error abort → abort = .statement := by
    intro checked refused same
    exact (Except.error.inj (refused.symm.trans same)).symm
  cases moves with
  | places => cases fails
  | refuses refused => exact ⟨given refused fails, .inl rfl⟩
  | breaksOff refused parts inside objects point live dead =>
      exact ⟨given refused fails, .inr ⟨_, _, _, _, parts, inside, objects, point, live, dead, rfl⟩⟩

end Execution.MovesUnits

/-- `doMove` over an array of live units puts all of them at the point.  Where it is given up
instead, nothing has changed, unless a live unit stands before the first element that is none:
then exactly the units before that element are at the point. -/
theorem array_doMove_moves_the_units_before_the_first_bad_one (exec : Execution) {name : String}
    (named : Text.sameName name "doMove" = true) (cell : CellId) (right : Value) :
    let listed := (exec.world.store.items cell).toList
    let objects := exec.world.store.objects
    let outcome := exec.callBinary name (.array cell) right
    let after := outcome.2.world.store.objects
    (∀ point, (∀ unit ∈ listed, objects.isLiveUnit unit = true) →
      exec.world.store.pointOf? right = some point → outcome.1.result = .ok ()) ∧
    (outcome.1.result = .ok () → ∀ unit ∈ listed, after.isLiveUnit unit = true ∧
      ∃ data, after.get? unit.objectRef = some data ∧
        exec.world.store.pointOf? right = some data.position) ∧
    ∀ abort, outcome.1.result = .error abort → abort = .statement ∧
      (outcome.2 = exec ∨
        ∃ point moved bad rest, listed = moved ++ bad :: rest ∧ moved ≠ [] ∧
          (∀ unit ∈ listed, unit.type = .object) ∧
          exec.world.store.pointOf? right = some point ∧
          (∀ unit ∈ moved, objects.isLiveUnit unit = true) ∧ objects.isLiveUnit bad = false ∧
          outcome.2 = exec.movedTo point moved) := by
  have moves : exec.MovesUnits (exec.world.store.items cell).toList right
      (exec.callBinary name (.array cell) right) := Execution.callBinary_moves named
  refine ⟨?_, ?_, ?_⟩
  · intro point alive given
    exact moves.goesThrough alive given
  · intro succeeds unit member
    exact moves.arrives succeeds member
  · intro abort fails
    exact moves.stops fails

def Execution.among (listed : Array Value) : Execution where
  world :=
    { store :=
        { cells := #[listed, #[.scalar 3, .scalar 4]]
          objects := { data := #[{ className := "Man" }, { className := "Man" }] } } }
  handle := { id := 0, stack := [] }
  location := .host

def ObjectRef.unit (id : ObjectId) : ObjectRef :=
  { kind := .unit, id := some id }

theorem two_units_move_together :
    Text.sameName "DOMOVE" "doMove" = true ∧
      let exec := Execution.among #[.object (.unit 0), .object (.unit 1)]
      let outcome := exec.callBinary "DOMOVE" (.array 0) (.array 1)
      outcome.1.result = .ok () ∧
        ∃ data, outcome.2.world.store.objects.get? (.unit 1) = some data ∧
          data.position = { x := 3, y := 4, z := 0 } := by
  have named : Text.sameName "DOMOVE" "doMove" = true := by decide
  refine ⟨named, ?_⟩
  generalize same : Execution.among #[.object (.unit 0), .object (.unit 1)] = exec
  obtain ⟨goes, arrives, _⟩ :=
    array_doMove_moves_the_units_before_the_first_bad_one exec named 0 (.array 1)
  have succeeds := goes { x := 3, y := 4, z := 0 } (by subst same; decide) (by subst same; rfl)
  have listed : .object (.unit 1) ∈ (exec.world.store.items 0).toList := by
    subst same
    exact .tail _ (.head _)
  obtain ⟨_, data, found, there⟩ := arrives succeeds _ listed
  refine ⟨succeeds, data, found, ?_⟩
  subst same
  exact (Option.some.inj there).symm

/-- The unit before a null object has moved by the time the statement is given up. -/
theorem array_doMove_is_not_all_or_nothing :
    ¬ ∀ (exec : Execution) (cell : CellId) (right : Value) (abort : Abort),
      (exec.callBinary "doMove" (.array cell) right).1.result = .error abort →
        ∀ ref data, exec.world.store.objects.get? ref = some data →
          ∃ later, (exec.callBinary "doMove" (.array cell) right).2.world.store.objects.get? ref =
            some later ∧ later.position = data.position := by
  intro atomic
  let exec := Execution.among #[.object (.unit 0), .object Command.noVehicle]
  have called : exec.callBinary "doMove" (.array 0) (.array 1) =
      exec.fulfil (.moveUnits (.array 0) (.array 1)) :=
    Execution.callBinary_doMove (Text.sameName_self _) rfl
  have fails : (exec.callBinary "doMove" (.array 0) (.array 1)).1.result = .error .statement := by
    rw [called]
    rfl
  obtain ⟨later, found, same⟩ := atomic exec 0 (.array 1) .statement fails (.unit 0)
    { className := "Man" } rfl
  have moved : (exec.fulfil (.moveUnits (.array 0) (.array 1))).2.world.store.objects.get?
      (.unit 0) = some { className := "Man", position := { x := 3, y := 4, z := 0 } } := rfl
  rw [called] at found
  obtain rfl := Option.some.inj (moved.symm.trans found)
  have coordinates : (3 : Float).toModel = (0 : Float).toModel :=
    congrArg (fun point : Vec3 => point.x.toModel) same
  revert coordinates
  decide +kernel

end SimScript
