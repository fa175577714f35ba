import Mathlib
import SimScript.Proofs.Object.Table
import SimScript.Proofs.Store.Depth

/-!
# What equality of values is

Equality is symmetric, and transitive where every object has one kind; it is not
reflexive, since a scalar that is no number and the parts of control structures are
unlike themselves.  An array is equal to itself all the same, because its elements are
not looked at then.  So equality is more than the comparison of all elements, exactly
where one array that holds something unlike itself stands in the same place on both
sides.
-/

namespace SimScript

/-- A value that equality takes for different from itself. -/
def Value.isUnlikeItself : Value → Bool
  | .scalar number => number != number
  | .ifPart _ | .whilePart _ | .forPart _ => true
  | _ => false

/-- A value that refers to an object only as one of its kind. -/
def Value.IsOf (kindOf : ObjectId → ObjectKind) (value : Value) : Prop :=
  ∀ ref, value.asObject? = some ref → ref.IsOf kindOf

namespace Store

variable {store : Store} {depth : Nat} {value left middle right : Value} {cell : CellId}

/-! ## Equality without a look into arrays -/

/-- Two values that are equal already without a look into arrays. -/
inductive Matches (store : Store) : Value → Value → Prop
  | nil : Matches store .nil .nil
  | boolean (flag : Bool) : Matches store (.boolean flag) (.boolean flag)
  | scalar {number other : Float} (same : (number == other) = true) :
      Matches store (.scalar number) (.scalar other)
  | text (content : String) : Matches store (.text content) (.text content)
  | array (cell : CellId) : Matches store (.array cell) (.array cell)
  | config (ref : ConfigRef) : Matches store (.config ref) (.config ref)
  | code (block : BlockId) : Matches store (.code block) (.code block)
  | script (handle : Option HandleId) : Matches store (.script handle) (.script handle)
  | object {ref other : ObjectRef} (same : store.objects.same ref other = true) :
      Matches store (.object ref) (.object other)
  | side (side : Side) : Matches store (.side side) (.side side)

theorem equalsTo_zero : store.equalsTo 0 left right = true ↔ store.Matches left right := by
  constructor
  · intro equal
    cases left <;> cases right <;> simp only [equalsTo, beq_iff_eq, Bool.false_eq_true] at equal
    case object.object => exact .object equal
    case scalar.scalar => exact .scalar equal
    all_goals
      try subst equal
      constructor
  · intro matched
    cases matched <;> simp [equalsTo, *]

namespace Matches

theorem symm (matched : store.Matches left right) : store.Matches right left := by
  cases matched with
  | scalar same => exact .scalar (PartialEquivBEq.symm same)
  | object same => exact .object (ObjectTable.same_symm same)
  | _ => constructor

theorem trans {kindOf : ObjectId → ObjectKind} (ofLeft : left.IsOf kindOf)
    (ofMiddle : middle.IsOf kindOf) (ofRight : right.IsOf kindOf)
    (first : store.Matches left middle) (second : store.Matches middle right) :
    store.Matches left right := by
  cases first with
  | scalar same =>
      cases second with
      | scalar same' => exact .scalar (PartialEquivBEq.trans same same')
  | object same =>
      cases second with
      | object same' =>
          exact .object
            (ObjectTable.same_trans (ofLeft _ rfl) (ofMiddle _ rfl) (ofRight _ rfl) same same')
  | _ => exact second

theorem asArray? (matched : store.Matches left right) : left.asArray? = right.asArray? := by
  cases matched <;> rfl

end Matches

/-! ## Equality of arrays -/

theorem equalsTo_array {first second : CellId} :
    store.equalsTo (depth + 1) (.array first) (.array second) = true ↔
      first = second ∨
        List.Forall₂ (fun item other => store.equalsTo depth item other = true)
          (store.items first).toList (store.items second).toList := by
  simp only [equalsTo_eq_comparesTo, comparesTo_array, beq_iff_eq]

/-- Lists that agree item by item with a third agree with each other, provided that their items
do. -/
theorem forall₂_trans_of_mem {Item : Type} {relates : Item → Item → Prop}
    {first second third : List Item}
    (trans : ∀ x ∈ first, ∀ y ∈ second, ∀ z ∈ third, relates x y → relates y z → relates x z)
    (before : List.Forall₂ relates first second) (after : List.Forall₂ relates second third) :
    List.Forall₂ relates first third := by
  induction before generalizing third with
  | nil => exact after
  | cons head _ induction =>
      cases after with
      | cons next rest =>
          refine .cons (trans _ (by simp) _ (by simp) _ (by simp) head next) (induction ?_ rest)
          intro x inFirst y inSecond z inThird
          exact trans x (by simp [inFirst]) y (by simp [inSecond]) z (by simp [inThird])

theorem equalsTo_symm (equal : store.equalsTo depth left right = true) :
    store.equalsTo depth right left = true := by
  induction depth generalizing left right with
  | zero => exact equalsTo_zero.mpr (equalsTo_zero.mp equal).symm
  | succ depth induction =>
      obtain plain | ⟨first, second, rfl, rfl⟩ := plain_or_arrays left right
      · rw [equalsTo_plain plain] at equal
        rw [equalsTo_plain plain.symm]
        exact equalsTo_zero.mpr (equalsTo_zero.mp equal).symm
      · rw [equalsTo_array] at equal ⊢
        rcases equal with same | items
        · exact .inl same.symm
        · exact .inr (items.imp fun _ _ => induction).flip

/-- Two arrays equal to a third may each be one cell with it or differ from it as cells. -/
theorem equalsTo_trans {kindOf : ObjectId → ObjectKind}
    (stored : ∀ cell, ∀ item ∈ store.items cell, item.IsOf kindOf) (ofLeft : left.IsOf kindOf)
    (ofMiddle : middle.IsOf kindOf) (ofRight : right.IsOf kindOf)
    (first : store.equalsTo depth left middle = true)
    (second : store.equalsTo depth middle right = true) :
    store.equalsTo depth left right = true := by
  induction depth generalizing left middle right with
  | zero =>
      rw [equalsTo_zero] at first second ⊢
      exact first.trans ofLeft ofMiddle ofRight second
  | succ depth induction =>
      obtain plain | ⟨one, two, rfl, rfl⟩ := plain_or_arrays left middle
      · rw [equalsTo_plain plain, equalsTo_zero] at first
        have plainLeft : left.asArray? = none := by simpa [first.asArray?] using plain
        have plainMiddle : middle.asArray? = none := first.asArray? ▸ plainLeft
        rw [equalsTo_plain (.inl plainMiddle), equalsTo_zero] at second
        rw [equalsTo_plain (.inl plainLeft), equalsTo_zero]
        exact first.trans ofLeft ofMiddle ofRight second
      · obtain plain | ⟨_, three, ⟨⟩, rfl⟩ := plain_or_arrays (.array two) right
        · rw [equalsTo_plain plain, equalsTo_zero] at second
          rw [← second.asArray?] at plain
          rcases plain with ⟨⟨⟩⟩ | ⟨⟨⟩⟩
        · rw [equalsTo_array] at first second ⊢
          rcases first with rfl | first
          · exact second
          · rcases second with rfl | second
            · exact .inr first
            · refine .inr (forall₂_trans_of_mem ?_ first second)
              intro x inFirst y inSecond z inThird
              rw [Array.mem_toList_iff] at inFirst inSecond inThird
              exact induction (stored one x inFirst) (stored two y inSecond)
                (stored three z inThird)

/-- Equality is symmetric whatever values are compared, and transitive where no object is referred
to as two kinds. -/
theorem equality_is_symmetric_and_transitive (store : Store) :
    (∀ left right, store.equals left right = store.equals right left) ∧
    ∀ kindOf, (∀ cell, ∀ item ∈ store.items cell, Value.IsOf kindOf item) →
      ∀ left middle right, Value.IsOf kindOf left → Value.IsOf kindOf middle →
        Value.IsOf kindOf right → store.equals left middle = true →
        store.equals middle right = true → store.equals left right = true := by
  constructor
  · intro left right
    rw [Bool.eq_iff_iff]
    exact ⟨equalsTo_symm, equalsTo_symm⟩
  · intro kindOf stored left middle right ofLeft ofMiddle ofRight
    exact equalsTo_trans stored ofLeft ofMiddle ofRight

/-- An array of a deleted unit, one of a deleted vehicle, and one of neither, each in an array. -/
theorem deleted_objects_in_arrays_are_equal :
    let store : Store :=
      { cells := #[#[.object ⟨.unit, some 0⟩], #[.object ⟨.vehicle, some 1⟩],
          #[.object ⟨.vehicle, none⟩], #[.array 0], #[.array 1], #[.array 2]]
        objects :=
          { data := #[{ className := "Man", deleted := true },
              { className := "Car", deleted := true }] } }
    store.equals (.array 3) (.array 5) = true := by
  intro store
  have stored : ∀ cell, ∀ item ∈ store.items cell,
      item.IsOf fun id => if id = 0 then .unit else .vehicle := by
    intro cell item member ref refers id named
    have inside : cell < 6 := lt_of_mem_items member
    interval_cases cell <;> obtain rfl := Array.mem_singleton.mp member <;> cases refers <;>
      cases named <;> rfl
  refine (equality_is_symmetric_and_transitive store).2 _ stored (.array 3) (.array 4) (.array 5)
    nofun nofun nofun ?_ ?_
  · decide
  · decide

/-! ## Arrays that are equal because they are one -/

/-- Whether two values are equal when all elements of arrays are looked at, also those of one
array. -/
def alike (store : Store) (left right : Value) : Bool :=
  store.comparesTo (fun _ _ => false) store.depthBound left right

/-- A value is another one or stands somewhere inside it. -/
inductive Within (store : Store) (inner : Value) : Value → Prop
  | self : Within store inner inner
  | item {cell : CellId} {item : Value} (member : item ∈ store.items cell)
      (inside : Within store inner item) : Within store inner (.array cell)

/-- One array stands in the same place in two values. -/
inductive Meets (store : Store) (cell : CellId) : Value → Value → Prop
  | here : Meets store cell (.array cell) (.array cell)
  | deeper {first second : CellId} {item other : Value}
      (pair : (item, other) ∈ (store.items first).toList.zip (store.items second).toList)
      (inside : Meets store cell item other) : Meets store cell (.array first) (.array second)

/-- Nothing inside a value is unlike itself. -/
def LikeItself (store : Store) (value : Value) : Prop :=
  ∀ inner, store.Within inner value → inner.isUnlikeItself = false

theorem likeItself_plain (plain : value.asArray? = none) :
    store.LikeItself value ↔ value.isUnlikeItself = false := by
  constructor
  · intro likeItself
    exact likeItself value .self
  · intro same inner inside
    cases inside with
    | self => exact same
    | item => cases plain

theorem likeItself_array :
    store.LikeItself (.array cell) ↔ ∀ item ∈ store.items cell, store.LikeItself item := by
  constructor
  · intro likeItself item member inner inside
    exact likeItself inner (.item member inside)
  · intro items inner inside
    cases inside with
    | self => rfl
    | item member inside => exact items _ member inner inside

/-- In one array every value is alike with itself that has nothing inside that is not. -/
theorem equalsTo_self : store.equalsTo depth value value = !value.isUnlikeItself := by
  cases value <;> cases depth <;>
    simp [equalsTo, Value.isUnlikeItself, ObjectTable.same_self, bne]

theorem alikeTo_self (nests : store.Nests depth value) :
    store.comparesTo (fun _ _ => false) depth value value = true ↔ store.LikeItself value := by
  induction depth generalizing value with
  | zero =>
      rw [comparesTo_plain (.inl nests), equalsTo_self, likeItself_plain nests, Bool.not_eq_true']
  | succ depth induction =>
      cases array : value.asArray? with
      | none =>
          rw [comparesTo_plain (.inl array), equalsTo_self, likeItself_plain array,
            Bool.not_eq_true']
      | some cell =>
          obtain rfl := Value.eq_array array
          rw [comparesTo_array, likeItself_array, List.forall₂_same]
          simp only [Bool.false_eq_true, false_or, Array.mem_toList_iff]
          exact forall₂_congr fun item member => induction (nests cell rfl item member)

theorem not_meets_plain (plain : left.asArray? = none ∨ right.asArray? = none) :
    ¬store.Meets cell left right := by
  intro meets
  cases meets <;> simp [Value.asArray?] at plain

theorem alikeTo_iff (nests : store.Nests depth left) :
    store.comparesTo (fun _ _ => false) depth left right = true ↔
      store.equalsTo depth left right = true ∧
        ∀ cell, store.Meets cell left right → store.LikeItself (.array cell) := by
  induction depth generalizing left right with
  | zero =>
      have plain : left.asArray? = none ∨ right.asArray? = none := .inl nests
      rw [comparesTo_plain plain]
      exact (and_iff_left fun cell meets => absurd meets (not_meets_plain plain)).symm
  | succ depth induction =>
      obtain plain | ⟨first, second, rfl, rfl⟩ := plain_or_arrays left right
      · rw [comparesTo_plain plain, ← equalsTo_plain plain]
        exact (and_iff_left fun cell meets => absurd meets (not_meets_plain plain)).symm
      · have deep : ∀ {item other},
            (item, other) ∈ (store.items first).toList.zip (store.items second).toList →
              store.Nests depth item :=
          fun pair => nests first rfl _ (Array.mem_toList_iff.mp (List.of_mem_zip pair).1)
        constructor
        · intro alike
          obtain ⟨⟨⟩⟩ | items := comparesTo_array.mp alike
          obtain ⟨sizes, pairs⟩ := List.forall₂_iff_zip.mp items
          have each : ∀ {item other},
              (item, other) ∈ (store.items first).toList.zip (store.items second).toList →
                store.equalsTo depth item other = true ∧
                  ∀ cell, store.Meets cell item other → store.LikeItself (.array cell) :=
            fun pair => (induction (deep pair)).mp (pairs pair)
          refine ⟨equalsTo_array.mpr (.inr ?_), fun cell meets => ?_⟩
          · exact List.forall₂_iff_zip.mpr ⟨sizes, fun pair => (each pair).1⟩
          · cases meets with
            | here => exact (alikeTo_self nests).mp alike
            | deeper pair inside => exact (each pair).2 cell inside
        · rintro ⟨equal, likeItself⟩
          rcases equalsTo_array.mp equal with rfl | items
          · exact (alikeTo_self nests).mpr (likeItself first .here)
          · obtain ⟨sizes, pairs⟩ := List.forall₂_iff_zip.mp items
            refine comparesTo_array.mpr (.inr (List.forall₂_iff_zip.mpr ⟨sizes, fun pair => ?_⟩))
            exact (induction (deep pair)).mpr
              ⟨pairs pair, fun cell inside => likeItself cell (.deeper pair inside)⟩

/-- In a store without cycles the comparison of all elements is the one of the elements of the
elements, all the way down. -/
theorem alike_array (acyclic : store.Acyclic) {first second : CellId} :
    store.alike (.array first) (.array second) = true ↔
      List.Forall₂ (fun item other => store.alike item other = true)
        (store.items first).toList (store.items second).toList := by
  refine (comparesTo_depthBound_array acyclic.loopless).trans (or_iff_right ?_)
  exact Bool.false_ne_true

theorem alike_iff (acyclic : store.Acyclic) :
    store.alike left right = true ↔ store.equals left right = true ∧
      ∀ cell, store.Meets cell left right → store.LikeItself (.array cell) :=
  alikeTo_iff acyclic.loopless.nests

/-- Two arrays with the same elements are equal where no element is unlike itself. -/
theorem equals_of_same_items {first second : CellId} (apart : first ≠ second)
    (same : store.items first = store.items second) :
    store.equals (.array first) (.array second) = true ↔
      ∀ item ∈ store.items first, item.isUnlikeItself = false := by
  rw [equals, depthBound, equalsTo_array, or_iff_right apart, same, List.forall₂_same]
  simp only [equalsTo_self, Bool.not_eq_true', Array.mem_toList_iff]

/-- In a store without cycles equality is the comparison of all elements, but for values in which
one array stands in the same place and holds something unlike itself: those may be equal all the
same.  So where something unlike itself is held, one array is equal to itself and not to another one
with the same elements. -/
theorem equality_is_elementwise_but_for_arrays_unlike_themselves (acyclic : store.Acyclic) :
    (∀ left right, store.alike left right = true → store.equals left right = true) ∧
    (∀ left right, store.equals left right = store.alike left right ↔
      ¬(store.equals left right = true ∧
        ∃ cell, store.Meets cell left right ∧ ¬store.LikeItself (.array cell))) ∧
    (∀ first second, store.alike (.array first) (.array second) = true ↔
      List.Forall₂ (fun item other => store.alike item other = true)
        (store.items first).toList (store.items second).toList) ∧
    ∀ first second, first ≠ second → store.items first = store.items second →
      (store.equals (.array first) (.array second) = true ↔
        ∀ item ∈ store.items first, item.isUnlikeItself = false) := by
  refine ⟨?_, ?_, ?_, ?_⟩
  · exact fun left right alike => ((alike_iff acyclic).mp alike).1
  · intro left right
    rw [Bool.eq_iff_iff, alike_iff acyclic, iff_self_and]
    simp only [not_and, not_exists, not_not]
  · exact fun first second => alike_array acyclic
  · exact fun first second => equals_of_same_items

/-- One array of something that is no number, and two of them. -/
theorem array_of_no_number_is_equal_to_itself_only :
    let store : Store := { cells := #[#[.scalar Float.nan], #[.scalar Float.nan]] }
    store.equals (.array 0) (.array 0) = true ∧ store.alike (.array 0) (.array 0) = false ∧
      store.equals (.array 0) (.array 1) = false := by
  intro store
  have acyclic : store.Acyclic := .ofDescending (by decide)
  obtain ⟨-, exactly, -, copies⟩ :=
    equality_is_elementwise_but_for_arrays_unlike_themselves acyclic
  have member : Value.scalar Float.nan ∈ store.items 0 := Array.mem_singleton.mpr rfl
  have unlike : Value.isUnlikeItself (.scalar Float.nan) = true := by decide
  have one : store.equals (.array 0) (.array 0) = true := equalsTo_self
  have differs : store.equals (.array 0) (.array 0) ≠ store.alike (.array 0) (.array 0) := by
    intro same
    refine (exactly _ _).mp same ⟨one, 0, .here, fun likeItself => ?_⟩
    exact Bool.eq_false_iff.mp (likeItself _ (.item member .self)) unlike
  refine ⟨one, ?_, ?_⟩
  · exact Bool.eq_false_iff.mpr fun alike => differs (one.trans alike.symm)
  · refine Bool.eq_false_iff.mpr fun equal => ?_
    exact Bool.eq_false_iff.mp ((copies 0 1 (by decide) rfl).mp equal _ member) unlike

/-- The array of something that is no number is equal to itself, though its elements are not. -/
theorem equality_is_not_elementwise :
    ¬∀ store : Store, store.Acyclic → ∀ left right,
      store.equals left right = store.alike left right := by
  intro elementwise
  let store : Store := { cells := #[#[.scalar Float.nan]] }
  have acyclic : store.Acyclic := .ofDescending (by decide)
  have unlike : store.alike (.array 0) (.array 0) = false := by decide
  have equal : store.equals (.array 0) (.array 0) = true := by decide
  rw [elementwise store acyclic, unlike] at equal
  cases equal

end Store

end SimScript
