import SimScript.Proofs.Execution.Insertion
import SimScript.Proofs.Object.Nearest

/-!
# Requests for the objects around a place

`nearestObjects` takes a place, a list of classes, a radius and perhaps a flag.  A request
of that shape is answered, and any other one gives the statement up.
-/

namespace SimScript

theorem Report.passes {α : Type} {check : Report Bool} {refused next : Report α}
    (holds : check = pure true) : (do if !(← check) then refused else next) = next := by
  rw [holds, pure_bind]
  rfl

namespace Check

variable {items : List Value} {least most : Nat} {expected : List ValueType}
  {strength : Strength} {site : Site}

theorem sizeBetween_of_length (sized : least ≤ items.length ∧ items.length ≤ most) :
    sizeBetween items least most strength = pure true :=
  if_pos sized

theorem sizeBetween_refuses (unsized : ¬(least ≤ items.length ∧ items.length ≤ most)) :
    (sizeBetween items least most .strong site).result = .error .statement := by
  rw [sizeBetween, if_neg unsized]
  exact Report.recover_of_grave rfl

theorem accepts_of_firstMismatch? {item : Value} {type : ValueType} {position : Nat}
    (fits : firstMismatch? position (item :: items) (type :: expected) = none) :
    type.accepts item.type = true ∧ firstMismatch? (position + 1) items expected = none := by
  rw [firstMismatch?] at fits
  split at fits
  case isTrue accepts => exact ⟨accepts, fits⟩
  case isFalse => cases fits

theorem types_of_matches (typed : firstMismatch? 0 items expected = none) :
    types items expected strength = pure true := by
  rw [types, typed]

theorem types_refuses (untyped : firstMismatch? 0 items expected ≠ none) :
    (types items expected .strong site).result = .error .statement := by
  obtain ⟨⟨position, wanted, got⟩, found⟩ := Option.ne_none_iff_exists'.mp untyped
  rw [types, found]
  exact Report.recover_of_grave rfl

end Check

namespace Command

variable {exec : Execution} {value right : Value} {center : Vec3} {args : List Value}
  {search : Search} {site : Site}

/-- The place that a value stands for: a point, or where a live unit or vehicle is. -/
def placeOf? (exec : Execution) (value : Value) : Option Vec3 :=
  match value with
  | .array _ => exec.world.store.pointOf? value
  | .object ref =>
      if ref.kind.valueType = .object then ((objectsOf exec).get? ref).map (·.position) else none
  | _ => none

/-- The arguments of a search: a place, the classes, the radius, and perhaps whether heights do not
count. -/
inductive Asks (exec : Execution) : List Value → Search → Prop where
  | mk {place : Value} {list : CellId} {mode : List Value} {search : Search}
      (placed : placeOf? exec place = some search.center)
      (listed : (exec.world.store.items list).toList = search.classes.map Value.text)
      (told : mode = [] ∧ search.flat = false ∨ mode = [.boolean search.flat]) :
      Asks exec (place :: .array list :: .scalar search.radius :: mode) search

theorem type_of_placeOf? (placed : placeOf? exec value = some center) :
    value.type = .array ∨ value.type = .object := by
  cases value with
  | array cell => exact .inl rfl
  | object ref => exact .inr (Option.ite_none_right_eq_some.mp placed).1
  | _ => cases placed

theorem locate_of_placeOf? (placed : placeOf? exec value = some center) :
    locate exec value = pure (some center) := by
  cases value with
  | array cell => exact readPoint_of_point placed
  | object ref =>
      obtain ⟨data, found, rfl⟩ := Option.map_eq_some_iff.mp
        (Option.ite_none_right_eq_some.mp placed).2
      simp only [locate, found]
  | _ => cases placed

theorem locate_refuses (spot : value.type = .array ∨ value.type = .object)
    (missing : placeOf? exec value = none) :
    (locate exec value site).result = .error .statement := by
  cases value with
  | array cell => exact readPoint_refuses missing
  | object ref =>
      have thing : ref.kind.valueType = .object := by
        rcases spot with array | object
        · cases kind : ref.kind <;> simp [Value.type, kind, ObjectKind.valueType] at array
        · exact object
      have gone : (objectsOf exec).get? ref = none := by
        simpa [placeOf?, thing] using missing
      simp only [locate, gone]
      exact Report.recover_of_grave rfl
  | _ => simp [Value.type] at spot

theorem accepts_place_iff :
    [ValueType.array, .object].any (fun type => type.accepts value.type) = true ↔
      value.type = .array ∨ value.type = .object := by
  simp [ValueType.accepts_iff]

theorem subType_place (spot : value.type = .array ∨ value.type = .object) :
    Check.subType [0] value [.array, .object] .strong = pure true :=
  if_pos (accepts_place_iff.mpr spot)

theorem subType_place_refuses (nowhere : ¬(value.type = .array ∨ value.type = .object)) :
    (Check.subType [0] value [.array, .object] .strong site).result = .error .statement := by
  rw [Check.subType, if_neg (accepts_place_iff.not.mpr nowhere)]
  exact Report.recover_of_grave rfl

/-- What the checks make of a request of the right shape. -/
structure Fits (exec : Execution) (args : List Value) (search : Search) : Prop where
  sized : 3 ≤ args.length ∧ args.length ≤ 4
  typed : Check.types args [.any, .array, .scalar, .boolean] .strong = pure true
  placed : placeOf? exec (argument args 0) = some search.center
  listed : exec.world.store.itemsOf (argument args 1) = search.classes.map Value.text
  radius : (argument args 2).number = search.radius
  flat : (argument args 3).flag = search.flat

theorem Asks.fits (asks : Asks exec args search) : Fits exec args search := by
  obtain ⟨placed, listed, ⟨rfl, flat⟩ | rfl⟩ := asks
  · exact ⟨by simp, rfl, placed, listed, rfl, flat.symm⟩
  · exact ⟨by simp, rfl, placed, listed, rfl, rfl⟩

theorem nearestObjects_of_asks (asks : Asks exec (exec.world.store.itemsOf right) search) :
    nearestObjects right exec = replyArray
      ((objectsNear exec search.center search.classes search.radius search.flat).map
        objectValue) := by
  have fits := asks.fits
  have texts : Check.subTypes [1] [.string] .strong 0 (search.classes.map Value.text) =
      pure true := by
    refine Check.subTypes_of_all (by decide) (fun item member => ?_) 0
    obtain ⟨content, -, rfl⟩ := List.mem_map.mp member
    rfl
  have contents : (search.classes.map Value.text).map Value.content = search.classes := by
    rw [List.map_map]
    exact List.map_id _
  simp only [nearestObjects, fits.listed]
  rw [Report.passes (Check.sizeBetween_of_length fits.sized),
    Report.passes (subType_place (type_of_placeOf? fits.placed)), Report.passes fits.typed,
    Report.passes texts, locate_of_placeOf? fits.placed, pure_bind]
  simp only [contents, fits.radius, fits.flat]

theorem exists_of_types {place second third : Value} {mode : List Value} (short : mode.length ≤ 1)
    (typed : Check.firstMismatch? 0 (place :: second :: third :: mode)
      [.any, .array, .scalar, .boolean] = none) :
    ∃ list radius flat, second = .array list ∧ third = .scalar radius ∧
      (mode = [] ∧ flat = false ∨ mode = [.boolean flat]) := by
  obtain ⟨-, afterPlace⟩ := Check.accepts_of_firstMismatch? typed
  obtain ⟨array, afterList⟩ := Check.accepts_of_firstMismatch? afterPlace
  obtain ⟨scalar, afterRadius⟩ := Check.accepts_of_firstMismatch? afterList
  obtain ⟨list, rfl⟩ := Value.eq_array_of_type ((ValueType.accepts_iff (by decide)).mp array)
  obtain ⟨radius, rfl⟩ := Value.eq_scalar_of_type ((ValueType.accepts_iff (by decide)).mp scalar)
  rcases mode with _ | ⟨last, _ | ⟨_, _⟩⟩
  · exact ⟨list, radius, false, rfl, rfl, .inl ⟨rfl, rfl⟩⟩
  · obtain ⟨boolean, -⟩ := Check.accepts_of_firstMismatch? afterRadius
    obtain ⟨flat, rfl⟩ :=
      Value.eq_boolean_of_type ((ValueType.accepts_iff (by decide)).mp boolean)
    exact ⟨list, radius, flat, rfl, rfl, .inr rfl⟩
  · simp at short

/-- A place and a list of texts are all that a request still needs after the check of types. -/
theorem exists_asks {place : Value} {list : CellId} {mode : List Value} {flat : Bool}
    (radius : Float) (placed : placeOf? exec place = some center)
    (texts : ∀ item ∈ exec.world.store.itemsOf (.array list), item.type = .string)
    (told : mode = [] ∧ flat = false ∨ mode = [.boolean flat]) :
    ∃ search, Asks exec (place :: .array list :: .scalar radius :: mode) search := by
  let classes := (exec.world.store.itemsOf (.array list)).map Value.content
  let search : Search := { center, classes, radius, flat }
  refine ⟨search, @Asks.mk exec place list mode search placed ?_ told⟩
  rw [List.map_map]
  refine (List.map_id _).symm.trans (List.map_congr_left fun item member => ?_)
  obtain ⟨content, rfl⟩ := Value.eq_text_of_type (texts item member)
  rfl

/-- Any other request gives the statement up. -/
theorem nearestObjects_refuses
    (unlike : ∀ search, ¬Asks exec (exec.world.store.itemsOf right) search) :
    (nearestObjects right exec site).result = .error .statement := by
  generalize given : exec.world.store.itemsOf right = args at unlike
  simp only [nearestObjects, given]
  by_cases sized : 3 ≤ args.length ∧ args.length ≤ 4
  case neg => exact Report.result_bind_of_error (Check.sizeBetween_refuses sized)
  rw [Report.passes (Check.sizeBetween_of_length sized)]
  obtain ⟨place, second, third, mode, rfl⟩ : ∃ place second third mode,
      args = place :: second :: third :: mode := by
    match args, sized with
    | place :: second :: third :: mode, _ => exact ⟨place, second, third, mode, rfl⟩
  have atFirst : argument (place :: second :: third :: mode) 0 = place := rfl
  have atSecond : argument (place :: second :: third :: mode) 1 = second := rfl
  simp only [atFirst, atSecond]
  by_cases spot : place.type = .array ∨ place.type = .object
  case neg => exact Report.result_bind_of_error (subType_place_refuses spot)
  rw [Report.passes (subType_place spot)]
  by_cases typed : Check.firstMismatch? 0 (place :: second :: third :: mode)
      [.any, .array, .scalar, .boolean] = none
  case neg => exact Report.result_bind_of_error (Check.types_refuses typed)
  rw [Report.passes (Check.types_of_matches typed)]
  have short : mode.length ≤ 1 := by
    simp only [List.length_cons] at sized
    omega
  obtain ⟨list, radius, flat, rfl, rfl, told⟩ := exists_of_types short typed
  by_cases texts : ∀ item ∈ exec.world.store.itemsOf (.array list), item.type = .string
  case neg =>
      push Not at texts
      exact Report.result_bind_of_error (Check.subTypes_refuses (by decide) texts 0)
  rw [Report.passes (Check.subTypes_of_all (by decide) texts 0)]
  have missing : placeOf? exec place = none := by
    by_contra placed
    obtain ⟨center, placed⟩ := Option.ne_none_iff_exists'.mp placed
    obtain ⟨search, asks⟩ := exists_asks radius placed texts told
    exact unlike search asks
  exact Report.result_bind_of_error (locate_refuses spot missing)

theorem unariesOf_nearestObjects {name : String}
    (named : Text.sameName name "nearestObjects" = true) :
    unariesOf name = [unary "nearestObjects" .array nearestObjects] := by
  rw [unariesOf, named_sameName unaryTable named]
  rfl

end Command

namespace Execution

variable {exec : Execution} {name : String} {cell : CellId}

def withFound (exec : Execution) (found : List ObjectRef) : Execution :=
  let made := exec.world.store.newArray (found.map Value.object).toArray
  (exec.withStore made.2).pushOperand made.1

theorem callUnary_nearestObjects (named : Text.sameName name "nearestObjects" = true)
    (enrolled : exec.world.store.objects.Enrolled) :
    let asks := Command.Asks exec (exec.world.store.items cell).toList
    let outcome := exec.callUnary name (.array cell)
    (∀ search, asks search → ∃ found, outcome = (⟨.ok (), []⟩, exec.withFound found) ∧
      exec.world.store.objects.Finds exec.world.configs search found) ∧
    ((∀ search, ¬asks search) → outcome.1.result = .error .statement ∧ outcome.2 = exec) := by
  intro asks outcome
  let plan := Plan.ofQuery (Command.nearestObjects (.array cell))
  have called : outcome = exec.attempt (follow plan) :=
    callUnary_of_plan (Command.unariesOf_nearestObjects named) (Command.ask_follows _) rfl
  rw [called]
  constructor
  · intro search asked
    have finds := Command.objectsNear_finds enrolled search
    have listed : Command.Asks exec (exec.world.store.itemsOf (.array cell)) search := asked
    have answer := Command.nearestObjects_of_asks listed
    generalize Command.objectsNear exec _ _ _ _ = found at finds answer
    have asks : plan exec exec.site =
        ⟨.ok (.answer .nothing (.array (found.map Value.object))), []⟩ := by
      simp only [plan, Plan.ofQuery, answer]
      rfl
    refine ⟨found, ?_, finds⟩
    rw [attempt_of_plan_ok (congrArg Checked.result asks), asks]
    rfl
  · intro unlike
    have refused : (plan exec exec.site).result = .error .statement :=
      Report.result_bind_of_error (Command.nearestObjects_refuses unlike)
    rw [attempt_of_plan_error refused]
    exact ⟨rfl, rfl⟩

end Execution

end SimScript
