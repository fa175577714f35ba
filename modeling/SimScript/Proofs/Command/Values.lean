import SimScript.Command.Format
import SimScript.Command.Math
import SimScript.Proofs.Command.Obedience

/-!
# Commands on numbers, texts and arrays

The commands that compute with values are graded and reply or write what was at hand.
The ones that overwrite an array are the interesting ones: what they put into it was
there before, is nil, or was tested for recursion first.
-/

namespace SimScript.Command

variable {exec : Execution} {operands : List Value}

/-! ## Arithmetic -/

theorem divideBy_offers (quotient : Float → Float → Float) (left right : Value) :
    (divideBy quotient left right exec).Offers exec operands :=
  .ite (fun _ => failWith_offers _ (.ofPlain rfl) rfl) fun _ =>
    reply_offers (.ofPlain rfl)

theorem difference_offers (left right : Value) :
    (difference left right exec).Offers exec operands :=
  replyArray_offers fun _ member => .ofItemsOf ((List.mem_filter.mp member).1)

theorem concatenation_offers (left right : Value) :
    (concatenation left right exec).Offers exec operands := by
  apply replyArray_offers
  intro item member
  rcases List.mem_append.mp member with onLeft | onRight
  · exact .ofItemsOf onLeft
  · exact .ofItemsOf onRight

theorem equality_obeys {name : String} {answer : Bool → Bool} {command : Binary}
    (member : command ∈ equality name answer) (left right : Value) :
    ∃ design, command.Obeys left right design := by
  obtain ⟨type, -, rfl⟩ := List.mem_map.mp member
  exact binary_obeys (fun _ => reply_offers (.ofPlain rfl)) fun _ _ _ _ => rfl

theorem math_obeys : math.Obeys where
  nulars := by simp [math]
  unaries := by
    intro command member right
    simp only [math, List.mem_cons, List.not_mem_nil, or_false] at member
    rcases member with rfl | rfl | rfl | rfl | rfl | rfl | rfl | rfl | rfl | rfl | rfl | rfl
    case inr.inl =>
      exact unary_obeys (fun _ => .pure (Value.Held.ofOperand (List.mem_singleton_self right)))
        fun _ _ _ _ => rfl
    all_goals exact unary_obeys (fun _ => reply_offers (.ofPlain rfl)) fun _ _ _ _ => rfl
  binaries := by
    intro command member left right
    simp only [math, List.mem_append] at member
    rcases member with ((plain | same) | differ) | compared
    · simp only [List.mem_cons, List.not_mem_nil, or_false] at plain
      rcases plain with
        rfl | rfl | rfl | rfl | rfl | rfl | rfl | rfl | rfl | rfl | rfl | rfl
      case inr.inr.inl =>
        exact binary_obeys (fun _ => concatenation_offers _ _) fun _ _ _ _ => rfl
      case inr.inr.inr.inr.inl =>
        exact binary_obeys (fun _ => difference_offers _ _) fun _ _ _ _ => rfl
      case inr.inr.inr.inr.inr.inr.inl =>
        exact binary_obeys (fun _ => divideBy_offers _ _ _) fun _ _ _ _ => rfl
      case inr.inr.inr.inr.inr.inr.inr.inl =>
        exact binary_obeys (fun _ => divideBy_offers _ _ _) fun _ _ _ _ => rfl
      case inr.inr.inr.inr.inr.inr.inr.inr.inl =>
        exact binary_obeys (fun _ => divideBy_offers _ _ _) fun _ _ _ _ => rfl
      all_goals exact binary_obeys (fun _ => reply_offers (.ofPlain rfl)) fun _ _ _ _ => rfl
    · exact equality_obeys same left right
    · exact equality_obeys differ left right
    · simp only [List.mem_cons, List.not_mem_nil, or_false] at compared
      rcases compared with rfl | rfl | rfl | rfl | rfl | rfl | rfl | rfl | rfl
      all_goals exact binary_obeys (fun _ => reply_offers (.ofPlain rfl)) fun _ _ _ _ => rfl

/-! ## Formatted text -/

theorem fillFrom_graded (store : Store) (args : List Value) (template : Array Char)
    (position : Nat) (filled : String) :
    (fillFrom store args template position filled).Graded := by
  fun_induction fillFrom with
  | case1 _ _ _ _ _ _ _ doubled => exact doubled
  | case2 _ _ _ _ _ _ _ _ alone => exact .after (.note rfl trivial) fun _ => alone
  | case3 _ _ _ _ _ _ _ _ named => exact named
  | case4 _ _ _ _ _ _ _ missing => exact .after (.note rfl trivial) fun _ => missing
  | case5 _ _ _ _ plain => exact plain
  | case6 => exact .pure trivial

theorem fillTemplate_graded (store : Store) (template : String) (args : List Value) :
    (fillTemplate store template args).Graded :=
  fillFrom_graded _ _ _ _ _

theorem format_offers (right : Value) :
    (format right exec).Offers exec operands := by
  refine .after (Check.notEmpty_graded _ _) fun _ => .ite (fun _ => ?_) fun _ => ?_
  · refine .after (Check.types_graded _ _ _) fun _ => .ite (fun _ => ?_) fun _ => ?_
    · exact .after (fillTemplate_graded _ _ _) fun _ => reply_offers (.ofPlain rfl)
    · exact nothing_offers
  · exact .after (.note rfl trivial) fun _ => reply_offers (.ofPlain rfl)

theorem formatting_obeys : formatting.Obeys where
  nulars := by simp [formatting]
  unaries := by
    intro command member right
    simp only [formatting, List.mem_singleton] at member
    subst member
    exact unary_obeys (fun _ => format_offers right) fun _ _ _ _ => rfl
  binaries := by simp [formatting]

/-! ## Arrays -/

theorem selectIndex_offers (left : Value) (index : Float) :
    (selectIndex left index exec).Offers exec operands := by
  refine .after (Check.index_graded _ _ _) fun position => ?_
  cases position with
  | none => exact nothing_offers
  | some position =>
      exact reply_offers (held_argument (fun _ member => .ofItemsOf member) position)

theorem selectRange_offers (left right : Value) :
    (selectRange left right exec).Offers exec operands := by
  have slice : ∀ start (item : Value),
      item ∈ (exec.world.store.itemsOf left).drop start →
        item.Held exec.world.store operands :=
    fun start item member => .ofItemsOf (List.mem_of_mem_drop member)
  unfold selectRange
  refine .after (Check.sizeBetween_graded _ _ _ _) fun _ => ?_
  refine .ite (fun _ => nothing_offers) fun _ => ?_
  refine .after (Check.types_graded _ _ _) fun _ => ?_
  refine .ite (fun _ => nothing_offers) fun _ => ?_
  refine .ite (fun _ => fail_offers _ rfl) fun _ => .ite (fun _ => ?_) fun _ => ?_
  · refine .after (.raise _ trivial rfl) fun _ => .after (.note rfl trivial) fun _ => ?_
    exact replyArray_offers (by simp)
  · split
    · exact replyArray_offers (slice _)
    · refine .ite (fun _ => fail_offers _ rfl) fun _ => ?_
      exact replyArray_offers fun item member => slice _ item (List.mem_of_mem_take member)

theorem withinLimit_graded (size : Nat) : (withinLimit exec size).Graded :=
  .ite (fun _ => .pure trivial) fun _ => .recover _ trivial rfl

theorem mem_resized {items : Array Value} {size : Nat} {item : Value}
    (member : item ∈ resized items size) : item ∈ items ∨ item = .nil := by
  rcases Array.mem_append.mp member with kept | filled
  · rw [Array.take_eq_extract, Array.mem_extract_iff_getElem] at kept
    obtain ⟨position, inside, rfl⟩ := kept
    exact .inl (Array.getElem_mem _)
  · exact .inr (Array.mem_replicate.mp filled).2

/-- Elements that were in the array already, and nil, may be written into it. -/
theorem write_sanctioned_of_kept {cell : CellId} {items : Array Value}
    (kept : ∀ item ∈ items, item ∈ exec.world.store.items cell ∨ item = .nil) :
    (Change.write cell items).Sanctioned (Value.Held exec.world.store operands)
      exec.world.store.Supplies False exec := by
  constructor
  · intro item member
    rcases kept item member with old | rfl
    · exact .ofItem old
    · exact Value.held_nil
  · intro item member
    rcases kept item member with old | rfl
    · exact .inl old
    · exact .inr rfl

/-- Besides elements that were in the array already, and nil, a value that does not lead
back to the array may be written into it. -/
theorem write_sanctioned_of_tested {cell : CellId} {items : Array Value} {value : Value}
    (held : value.Held exec.world.store operands)
    (tested : ¬exec.world.store.wouldRecurse cell value = true)
    (kept : ∀ item ∈ items,
      (item ∈ exec.world.store.items cell ∨ item = .nil) ∨ item = value) :
    (Change.write cell items).Sanctioned (Value.Held exec.world.store operands)
      exec.world.store.Supplies False exec := by
  constructor
  · intro item member
    rcases kept item member with (old | rfl) | rfl
    · exact .ofItem old
    · exact Value.held_nil
    · exact held
  · intro item member
    rcases kept item member with (old | rfl) | rfl
    · exact .inl old
    · exact .inr rfl
    · exact .inr (Bool.eq_false_iff.mpr tested)

theorem Plan.resize_sanctioned (left right : Value) :
    (Plan.resize left right exec).Sanctioned exec operands := by
  unfold Plan.resize
  split
  · refine .ite (fun _ => Plan.fail_sanctioned _ rfl) fun _ => ?_
    refine .after (withinLimit_graded _) fun _ =>
      .ite (fun _ => ?_) fun _ => Plan.nothing_sanctioned
    exact Plan.change_sanctioned (write_sanctioned_of_kept fun _ member => mem_resized member)
  · exact Plan.nothing_sanctioned

theorem Plan.assignIndex_sanctioned (left right : Value) :
    (Plan.assignIndex left right exec).Sanctioned exec operands := by
  unfold Plan.assignIndex
  dsimp only
  split
  case h_2 => exact .after (Check.size_graded _ _ _) fun _ => Plan.nothing_sanctioned
  case h_1 cell index value args =>
    have member : value ∈ exec.world.store.itemsOf right := by simp [args]
    have held : value.Held exec.world.store operands := .ofItemsOf member
    refine .after (Check.types_graded _ _ _) fun _ => ?_
    refine .ite (fun _ => Plan.nothing_sanctioned) fun _ => ?_
    refine .ite (fun _ => Plan.fail_sanctioned _ rfl) fun _ => ?_
    refine .ite (fun _ => Plan.fail_sanctioned _ rfl) fun tested => .ite (fun _ => ?_) fun _ => ?_
    · refine Plan.change_sanctioned (write_sanctioned_of_tested held tested fun item member => ?_)
      rcases Array.mem_or_eq_of_mem_setIfInBounds member with old | new
      · exact .inl (.inl old)
      · exact .inr new
    · refine .after (withinLimit_graded _) fun _ =>
        .ite (fun _ => ?_) fun _ => Plan.nothing_sanctioned
      refine Plan.change_sanctioned (write_sanctioned_of_tested held tested fun item member => ?_)
      rcases Array.mem_or_eq_of_mem_setIfInBounds member with old | new
      · exact .inl (mem_resized old)
      · exact .inr new

theorem Plan.pushBack_sanctioned (left right : Value) :
    (Plan.pushBack left right exec).Sanctioned exec [left, right] := by
  unfold Plan.pushBack
  split
  · refine .ite (fun _ => Plan.fail_sanctioned _ rfl) fun tested =>
      Plan.answer_sanctioned ?_ (Value.Held.ofPlain rfl)
    apply write_sanctioned_of_tested (.ofOperand (by simp)) tested
    intro item member
    rcases Array.mem_push.mp member with old | new
    · exact .inl (.inl old)
    · exact .inr new
  · exact Plan.nothing_sanctioned

theorem Plan.append_sanctioned (left right : Value) :
    (Plan.append left right exec).Sanctioned exec operands := by
  unfold Plan.append
  split
  · refine .ite (fun _ => Plan.fail_sanctioned _ rfl) fun tested => Plan.change_sanctioned ⟨?_, ?_⟩
    · intro item member
      rcases Array.mem_append.mp member with old | new
      · exact .ofItem old
      · exact .ofItemsOf (by simpa using new)
    · intro item member
      rcases Array.mem_append.mp member with old | new
      · exact .inl old
      · have incoming : item ∈ exec.world.store.itemsOf right := by simpa using new
        simp only [List.any_eq_true, not_exists, not_and] at tested
        exact .inr (Bool.eq_false_iff.mpr (tested item incoming))
  · exact Plan.nothing_sanctioned

theorem Plan.deleteAt_sanctioned (left right : Value) :
    (Plan.deleteAt left right exec).Sanctioned exec operands := by
  unfold Plan.deleteAt
  split
  · refine .after (Check.index_graded _ _ _) fun position => ?_
    cases position with
    | none => exact .after (.note rfl trivial) fun _ => Plan.nothing_sanctioned
    | some position =>
        refine Plan.answer_sanctioned (write_sanctioned_of_kept fun item member => ?_) ?_
        · have remaining := List.mem_of_mem_eraseIdx (List.mem_toArray.mp member)
          exact .inl (Array.mem_toList_iff.mp remaining)
        · cases found : (exec.world.store.items _)[position]? with
          | none => exact Value.held_nil
          | some item => exact Value.Held.ofItem (Array.mem_of_getElem? found)
  · exact Plan.nothing_sanctioned

theorem Plan.reverse_sanctioned (right : Value) :
    (Plan.reverse right exec).Sanctioned exec operands := by
  unfold Plan.reverse
  split
  · refine Plan.change_sanctioned (write_sanctioned_of_kept fun item member => ?_)
    exact .inl (Array.mem_reverse.mp member)
  · exact Plan.nothing_sanctioned

theorem selectExtreme_offers (winner : Float → Float → Float) (right : Value) :
    (selectExtreme winner right exec).Offers exec operands := by
  have nilNoted : (do Report.note Fault.returningNil; nothing).Offers exec operands :=
    .after (.note rfl trivial) fun _ => nothing_offers
  refine .after (Check.notEmpty_graded _ _) fun _ => .ite (fun _ => nilNoted) fun _ => ?_
  refine .after (Check.allOf_graded _ _ _) fun _ => .ite (fun _ => nilNoted) fun _ => ?_
  exact reply_offers (.ofPlain rfl)

theorem array_obeys : array.Obeys where
  nulars := by simp [array]
  unaries := by
    intro command member right
    simp only [array, List.mem_cons, List.not_mem_nil, or_false] at member
    rcases member with rfl | rfl | rfl | rfl | rfl
    · exact unary_obeys (fun _ => reply_offers (.ofPlain rfl)) fun _ _ _ _ => rfl
    · exact unary_obeys (fun _ => reply_offers (.ofPlain rfl)) fun _ _ _ _ => rfl
    · exact unary_obeys_plan (reverse_follows right) (fun _ => Plan.reverse_sanctioned right)
        (fun _ _ _ _ => rfl) fun _ _ => rfl
    · exact unary_obeys (fun _ => selectExtreme_offers _ _) fun _ _ _ _ => rfl
    · exact unary_obeys (fun _ => selectExtreme_offers _ _) fun _ _ _ _ => rfl
  binaries := by
    intro command member left right
    simp only [array, List.mem_cons, List.not_mem_nil, or_false] at member
    rcases member with rfl | rfl | rfl | rfl | rfl | rfl | rfl | rfl | rfl | rfl | rfl
    · exact binary_obeys (fun _ => selectIndex_offers _ _) fun _ _ _ _ => rfl
    · exact binary_obeys (fun _ => selectIndex_offers _ _) fun _ _ _ _ => rfl
    · exact binary_obeys (fun _ => selectRange_offers _ _) fun _ _ _ _ => rfl
    · exact binary_obeys_plan (resize_follows left right)
        (fun _ => Plan.resize_sanctioned left right) (fun _ _ _ _ => rfl) fun _ _ => rfl
    · exact binary_obeys_plan (assignIndex_follows left right)
        (fun _ => Plan.assignIndex_sanctioned left right) (fun _ _ _ _ => rfl) fun _ _ => rfl
    · exact binary_obeys_plan (pushBack_follows left right)
        (fun _ => Plan.pushBack_sanctioned left right) (fun _ _ _ _ => rfl) fun _ _ => rfl
    · exact binary_obeys_plan (append_follows left right)
        (fun _ => Plan.append_sanctioned left right) (fun _ _ _ _ => rfl) fun _ _ => rfl
    · exact binary_obeys_plan (deleteAt_follows left right)
        (fun _ => Plan.deleteAt_sanctioned left right) (fun _ _ _ _ => rfl) fun _ _ => rfl
    · exact binary_obeys (fun _ => reply_offers (held_countOrMinusOne _)) fun _ _ _ _ => rfl
    · exact binary_obeys (fun _ => reply_offers (held_countOrMinusOne _)) fun _ _ _ _ => rfl
    · exact binary_obeys (fun _ => reply_offers (.ofPlain rfl)) fun _ _ _ _ => rfl

end SimScript.Command
