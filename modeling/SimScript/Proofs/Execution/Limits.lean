import SimScript.Proofs.Execution.Editing
import SimScript.Proofs.Scalar.Counts

/-!
# How long arrays may become

`resize` and `set` ask whether an array may be as long as they would make it.  `set` asks
only when the array would grow, `resize` always: it does not shorten an array to a size
past the limit either.  The other commands do not ask, so such arrays come about.
-/

namespace SimScript

open Scalar (maxCount)

/-- A call is refused because an array may not have so many elements: the statement is given up, and
all is as it was. -/
def Outcome.ExceedsLimit (exec : Execution) (size : Nat) (outcome : Outcome) : Prop :=
  let limit := exec.world.settings.maxArraySize
  outcome =
    (⟨.error .statement, [⟨.fault (.indexOutOfRange limit size .strong), exec.location⟩]⟩, exec)

/-- A call gives an array new elements, replies nil and does nothing else. -/
structure Outcome.Stores (exec : Execution) (cell : CellId) (items : Array Value)
    (outcome : Outcome) : Prop where
  quiet : outcome.1 = ⟨.ok (), []⟩
  after : outcome.2 = (exec.withStore (exec.world.store.write cell items)).pushOperand .nil
  stored : outcome.2.world.store.items cell = items
  others : ∀ other ≠ cell, outcome.2.world.store.items other = exec.world.store.items other

namespace Command

variable {exec : Execution} {items : Array Value} {size position : Nat}

theorem withinLimit_of_le (within : size ≤ exec.world.settings.maxArraySize) :
    withinLimit exec size = pure true :=
  if_pos within

theorem withinLimit_of_lt (past : exec.world.settings.maxArraySize < size) :
    withinLimit exec size =
      Report.recover (Fault.indexOutOfRange exec.world.settings.maxArraySize size .strong) false :=
  if_neg (Nat.not_le.mpr past)

theorem resized_of_le (least : items.size ≤ size) :
    resized items size = items ++ Array.replicate (size - items.size) Value.nil := by
  have whole : items.take size = items := by
    rw [Array.take_eq_extract, Array.extract_eq_self_of_le least]
  rw [resized, whole]

theorem assigned_eq (items : Array Value) (position : Nat) (value : Value) :
    assigned items position value =
      (items ++ Array.replicate (position + 1 - items.size) Value.nil).setIfInBounds position
        value := by
  unfold assigned
  split
  case isTrue inside =>
      have none : position + 1 - items.size = 0 := by omega
      rw [none, Array.replicate_zero, Array.append_empty]
  case isFalse outside => rw [resized_of_le (by omega)]

end Command

namespace Execution

variable {exec : Execution} {cell arguments : CellId} {name : String} {number : Float}
  {value : Value} {items : Array Value} {plan : Plan} {size index asked : Nat}

theorem attempt_exceedsLimit {next : Bool → Report Effect}
    (past : exec.world.settings.maxArraySize < size)
    (asks : plan exec = Command.withinLimit exec size >>= next) :
    (exec.attempt (follow plan)).ExceedsLimit exec size := by
  rw [Command.withinLimit_of_lt past] at asks
  have given : (plan exec exec.site).result = .error .statement := by
    rw [asks]
    rfl
  rw [attempt_of_plan_error given, asks]
  rfl

theorem attempt_stores (inside : cell < exec.world.store.cells.size)
    (asks : plan exec = Plan.change (.write cell items)) :
    (exec.attempt (follow plan)).Stores exec cell items := by
  have given : (plan exec exec.site).result =
      .ok (.answer (.write cell items) (.value .nil)) := by
    rw [asks]
    rfl
  have store : (exec.attempt (follow plan)).2.world.store = exec.world.store.write cell items := by
    rw [attempt_of_plan_ok given]
    exact congrArg World.store (answer_world _ _)
  rw [attempt_of_plan_ok given] at store ⊢
  refine ⟨by rw [asks]; rfl, rfl, ?_, fun other apart => ?_⟩
  · rw [store, Store.items_write, if_pos ⟨rfl, inside⟩]
  · rw [store, Store.items_write, if_neg fun same => apart same.1]

theorem resize_eq (counts : Scalar.IsNat number size) :
    Plan.resize (.array cell) (.scalar number) exec =
      Command.withinLimit exec (min size maxCount) >>= fun within =>
        if within then
          Plan.change
            (.write cell (Command.resized (exec.world.store.items cell) (min size maxCount)))
        else Plan.nothing := by
  have same : (Value.scalar number).number = number := rfl
  simp only [Plan.resize, same, if_neg counts.not_neg, counts.toCount]

/-- An array is resized where the size is within the limit, whether it grows or not. -/
theorem callBinary_resize (named : Text.sameName name "resize" = true)
    (counts : Scalar.IsNat number size) (inside : cell < exec.world.store.cells.size)
    (told : size < maxCount ∨ exec.world.settings.maxArraySize < maxCount) :
    let items := exec.world.store.items cell
    let limit := exec.world.settings.maxArraySize
    let outcome := exec.callBinary name (.array cell) (.scalar number)
    (limit < size → outcome.ExceedsLimit exec (min size maxCount)) ∧
      (size ≤ limit → outcome.Stores exec cell (Command.resized items size)) := by
  intro items limit outcome
  have called : outcome =
      exec.attempt (follow (Plan.resize (.array cell) (.scalar number))) :=
    callBinary_of_plan (Command.binariesOf_resize named) (Command.resize_follows _ _) ⟨rfl, rfl⟩
  rw [called]
  constructor
  · intro past
    have counted : limit < min size maxCount := by omega
    exact attempt_exceedsLimit counted (resize_eq counts)
  · intro within
    have counted : min size maxCount = size := by omega
    refine attempt_stores inside ?_
    rw [resize_eq counts, counted, Command.withinLimit_of_le within, pure_bind, if_pos rfl]

theorem assignIndex_eq (counts : Scalar.IsNat number index)
    (given : (exec.world.store.items arguments).toList = [.scalar number, value])
    (safe : exec.world.store.wouldRecurse cell value = false) :
    let items := exec.world.store.items cell
    let position := min index maxCount
    Plan.assignIndex (.array cell) (.array arguments) exec =
      if position < items.size then
        Plan.change (.write cell (Command.assigned items position value))
      else
        Command.withinLimit exec (min (position + 1) maxCount) >>= fun within =>
          if within then Plan.change (.write cell (Command.assigned items position value))
          else Plan.nothing := by
  intro items position
  have listed : exec.world.store.itemsOf (.array arguments) = [.scalar number, value] := given
  have fits : Check.types [.scalar number, value] [.scalar, .any] .strong = pure true := rfl
  have same : (Value.scalar number).number = number := rfl
  simp only [Plan.assignIndex, listed, fits, pure_bind, same, if_neg counts.not_neg, safe,
    counts.toCount, Bool.not_true, Bool.false_eq_true, if_false]
  by_cases within : position < items.size
  · simp only [items, position, within, Command.assigned, if_true]
  · simp only [items, position, within, Command.assigned, if_false]

/-- A value is stored where the array does not grow, or does not grow past the limit. -/
theorem callBinary_set (named : Text.sameName name "set" = true)
    (counts : Scalar.IsNat number index) (inside : cell < exec.world.store.cells.size)
    (small : (exec.world.store.items cell).size ≤ maxCount)
    (told : index < maxCount ∨ exec.world.settings.maxArraySize < maxCount)
    (given : (exec.world.store.items arguments).toList = [.scalar number, value])
    (safe : exec.world.store.wouldRecurse cell value = false) :
    let items := exec.world.store.items cell
    let limit := exec.world.settings.maxArraySize
    let outcome := exec.callBinary name (.array cell) (.array arguments)
    (items.size < index + 1 ∧ limit < index + 1 →
        outcome.ExceedsLimit exec (min (index + 1) maxCount)) ∧
      (¬(items.size < index + 1 ∧ limit < index + 1) →
        outcome.Stores exec cell (Command.assigned items index value)) := by
  intro items limit outcome
  have called : outcome =
      exec.attempt (follow (Plan.assignIndex (.array cell) (.array arguments))) :=
    callBinary_of_plan (Command.binariesOf_set named) (Command.assignIndex_follows _ _) ⟨rfl, rfl⟩
  have asks := assignIndex_eq counts given safe
  dsimp only at asks
  change items.size ≤ maxCount at small
  change index < maxCount ∨ limit < maxCount at told
  rw [called]
  constructor
  · rintro ⟨grows, past⟩
    have outside : ¬min index maxCount < items.size := by omega
    have counted : limit < min (index + 1) maxCount := by omega
    have same : min (min index maxCount + 1) maxCount = min (index + 1) maxCount := by omega
    rw [if_neg outside, same] at asks
    exact attempt_exceedsLimit counted asks
  · intro fits
    refine attempt_stores inside ?_
    rw [asks]
    have counted : min index maxCount = index := by omega
    rw [counted]
    split
    case isTrue => rfl
    case isFalse outside =>
        have grows : items.size < index + 1 := Nat.lt_succ_of_le (Nat.not_lt.mp outside)
        have within : min (index + 1) maxCount ≤ limit := by omega
        rw [Command.withinLimit_of_le within, pure_bind, if_pos rfl]

/-- `set` is refused exactly where the array would become longer than it is and longer than the
limit.  `resize` is refused wherever the size is past the limit, and so does not shorten an array to
such a size either.  Where they are not refused, the first elements are kept, nils are filled in
after them, and `set` changes the one element.  No array is longer than counts go, and a count that
is cut is not to pass under a limit as large as counts go. -/
theorem resize_is_limited_by_size_and_set_by_growth (exec : Execution) (cell : CellId)
    (name : String) (number : Float) (count : Nat) (counts : Scalar.IsNat number count)
    (inside : cell < exec.world.store.cells.size)
    (small : (exec.world.store.items cell).size ≤ maxCount)
    (told : count < maxCount ∨ exec.world.settings.maxArraySize < maxCount) :
    let items := exec.world.store.items cell
    let limit := exec.world.settings.maxArraySize
    (Text.sameName name "resize" = true →
      let outcome := exec.callBinary name (.array cell) (.scalar number)
      (limit < count → outcome.ExceedsLimit exec (min count maxCount)) ∧
      (¬limit < count → outcome.Stores exec cell
        (items.take count ++ Array.replicate (count - items.size) Value.nil))) ∧
    (Text.sameName name "set" = true → ∀ (arguments : CellId) (value : Value),
      (exec.world.store.items arguments).toList = [.scalar number, value] →
      ¬exec.world.store.Leads value cell →
      let outcome := exec.callBinary name (.array cell) (.array arguments)
      let filled := items ++ Array.replicate (count + 1 - items.size) Value.nil
      (items.size < count + 1 ∧ limit < count + 1 →
        outcome.ExceedsLimit exec (min (count + 1) maxCount)) ∧
      (¬(items.size < count + 1 ∧ limit < count + 1) →
        outcome.Stores exec cell (filled.setIfInBounds count value))) := by
  intro items limit
  constructor
  · intro named outcome
    obtain ⟨refused, stored⟩ := callBinary_resize named counts inside told
    exact ⟨refused, fun within => stored (Nat.not_lt.mp within)⟩
  · intro named arguments value given apart outcome filled
    have safe : exec.world.store.wouldRecurse cell value = false := by
      rw [Bool.eq_false_iff]
      intro leads
      obtain ⟨next, rfl, reaches⟩ := Store.wouldRecurse_iff.mp leads
      exact apart (Store.leads_array.mpr reaches)
    obtain ⟨refused, stored⟩ := callBinary_set named counts inside small told given safe
    exact ⟨refused, fun fits => Command.assigned_eq items count value ▸ stored fits⟩

def holdingSingles (cells : Array (Array Value)) : Execution :=
  { holding cells with
    world := { (holding cells).world with settings := { maxArraySize := 1 } } }

/-- Of three elements, one may be set, and no fourth; they may be cut to one, but not to two. -/
theorem three_elements_where_one_is_the_limit :
    let exec := holdingSingles
      #[#[.nil, .nil, .nil], #[.scalar 2, .boolean true], #[.scalar 3, .boolean true]]
    (exec.callBinary "set" (.array 0) (.array 1)).Stores exec 0 #[.nil, .nil, .boolean true] ∧
      (exec.callBinary "SET" (.array 0) (.array 2)).ExceedsLimit exec 4 ∧
      (exec.callBinary "Resize" (.array 0) (.scalar 1)).Stores exec 0 #[.nil] := by
  intro exec
  have small : (exec.world.store.items 0).size ≤ maxCount := by decide
  have plain : ¬exec.world.store.Leads (.boolean true) 0 := by
    rintro ⟨cell, ⟨⟩, _⟩
  have law (name : String) (number : Float) (count : Nat) (counts : Scalar.IsNat number count) :=
    resize_is_limited_by_size_and_set_by_growth exec 0 name number count counts (by decide) small
      (.inr (by decide))
  refine ⟨?_, ?_, ?_⟩
  · exact ((law "set" 2 2 (by decide +kernel)).2 (by decide) 1 (.boolean true) rfl plain).2
      (by decide)
  · exact ((law "SET" 3 3 (by decide +kernel)).2 (by decide) 2 (.boolean true) rfl plain).1
      (by decide)
  · exact ((law "Resize" 1 1 (by decide +kernel)).1 (by decide)).2 (by decide)

/-- An array of three elements is not cut to two where one is the limit, although it would not
grow. -/
theorem long_array_is_not_cut_to_a_size_past_the_limit :
    let exec := holdingSingles #[#[.nil, .nil, .nil]]
    Scalar.IsNat 2 2 ∧ 2 ≤ (exec.world.store.items 0).size ∧
      (exec.callBinary "resize" (.array 0) (.scalar 2)).ExceedsLimit exec 2 ∧
      (exec.callBinary "resize" (.array 0) (.scalar 2)).2.world.store.items 0 =
        #[.nil, .nil, .nil] := by
  intro exec
  have counts : Scalar.IsNat 2 2 := by decide +kernel
  have refused : (exec.callBinary "resize" (.array 0) (.scalar 2)).ExceedsLimit exec 2 :=
    (callBinary_resize (by decide) counts (by decide) (.inl (by decide))).1 (by decide)
  refine ⟨counts, by decide, refused, ?_⟩
  rw [refused]
  rfl

end Execution

end SimScript
