import SimScript.Proofs.Store.Contents
import SimScript.Proofs.Store.Depth

/-!
# What a value leads to

The arrays that a value leads to are all that it depends on.  Where these keep their
elements, the value leads to the same arrays as before and is written out the same.  A
copy leads to new arrays only, so it shares none with the value that it is a copy of.
-/

namespace SimScript.Store

variable {store middle before after other later base : Store} {value copy left right : Value}
  {cell target : CellId} {items : Array Value}

/-- A value that leads only to arrays that are there. -/
def Whole (store : Store) (value : Value) : Prop :=
  ∀ cell, store.Leads value cell → cell < store.cells.size

/-- Two values that lead to no array in common. -/
def Apart (store : Store) (left right : Value) : Prop :=
  ∀ cell, store.Leads left cell → ¬store.Leads right cell

/-- The arrays that a value leads to have kept their elements. -/
def Spares (before after : Store) (value : Value) : Prop :=
  ∀ cell, before.Leads value cell → after.items cell = before.items cell

/-- Arrays may be added, and those that are there keep their elements. -/
structure Extends (before after : Store) : Prop where
  cells : before.cells.size ≤ after.cells.size
  items : ∀ cell < before.cells.size, after.items cell = before.items cell

theorem Grows.toExtends (grows : before.Grows after) : before.Extends after :=
  ⟨grows.cells, grows.items⟩

theorem Apart.symm (apart : store.Apart left right) : store.Apart right left :=
  fun cell leads again => apart cell again leads

theorem Leads.onward (leads : store.Leads value cell) (reaches : store.Reaches cell target) :
    store.Leads value target := by
  obtain ⟨start, array, first⟩ := leads
  exact ⟨start, array, first.trans reaches⟩

theorem leads_plain (plain : value.asArray? = none) : ¬store.Leads value cell := by
  rintro ⟨_, array, _⟩
  rw [plain] at array
  cases array

theorem leads_array_iff :
    store.Leads (.array cell) target ↔
      target = cell ∨ ∃ item ∈ store.items cell, store.Leads item target := by
  constructor
  · rintro ⟨_, ⟨⟩, reaches⟩
    cases reaches with
    | refl => exact .inl rfl
    | step link rest =>
        obtain ⟨item, member, array⟩ := exists_of_mem_links link
        exact .inr ⟨item, member, _, array, rest⟩
  · rintro (rfl | ⟨item, member, leads⟩)
    · exact leads_array.mpr (.refl _)
    · exact leads.ofItem member

/-! ## Values whose arrays are kept -/

namespace Spares

theorem refl (store : Store) (value : Value) : store.Spares store value :=
  fun _ _ => rfl

theorem item {item : Value} (spared : before.Spares after (.array cell))
    (member : item ∈ before.items cell) : before.Spares after item :=
  fun target leads => spared target (leads.ofItem member)

theorem links (spared : before.Spares after value) (leads : before.Leads value cell) :
    after.links cell = before.links cell := by
  rw [Store.links, Store.links, spared cell leads]

/-- Inside the value the ways are the same as before. -/
theorem reaches_iff (spared : before.Spares after value) (leads : before.Leads value cell) :
    after.Reaches cell target ↔ before.Reaches cell target := by
  constructor
  · intro reaches
    induction reaches with
    | refl => exact .refl _
    | step link _ induction =>
        rw [spared.links leads] at link
        exact .step link (induction (leads.onward (.single link)))
  · intro reaches
    induction reaches with
    | refl => exact .refl _
    | step link _ induction =>
        have onward := induction (leads.onward (.single link))
        rw [← spared.links leads] at link
        exact .step link onward

theorem leads_iff (spared : before.Spares after value) :
    after.Leads value target ↔ before.Leads value target :=
  exists_congr fun cell => and_congr_right fun array =>
    spared.reaches_iff ⟨cell, array, .refl cell⟩

theorem symm (spared : before.Spares after value) : after.Spares before value :=
  fun cell leads => (spared cell (spared.leads_iff.mp leads)).symm

theorem trans (first : before.Spares middle value) (second : middle.Spares after value) :
    before.Spares after value :=
  fun cell leads => (second cell (first.leads_iff.mpr leads)).trans (first cell leads)

theorem whole (spared : before.Spares after value) (cells : before.cells.size ≤ after.cells.size)
    (whole : before.Whole value) : after.Whole value :=
  fun cell leads => Nat.lt_of_lt_of_le (whole cell (spared.leads_iff.mp leads)) cells

theorem loopless (spared : before.Spares after value) (loopless : before.Loopless value) :
    after.Loopless value := by
  intro cell leads next link back
  have inside := spared.leads_iff.mp leads
  rw [spared.links inside] at link
  exact loopless cell inside next link ((spared.reaches_iff (inside.onward (.single link))).mp back)

end Spares

theorem Extends.spares (grows : before.Extends after) (whole : before.Whole value) :
    before.Spares after value :=
  fun cell leads => grows.items cell (whole cell leads)

theorem spares_write (elsewhere : ¬store.Leads value cell) :
    store.Spares (store.write cell items) value := by
  intro other leads
  rw [items_write, if_neg]
  rintro ⟨rfl, _⟩
  exact elsewhere leads

/-- What a value leads to after an array got new elements, it led to before, or one of them did. -/
theorem leads_write (leads : (store.write cell items).Leads value target) :
    store.Leads value target ∨ ∃ item ∈ items, store.Leads item target := by
  obtain ⟨start, array, reaches⟩ := leads
  -- The induction is along the way: what follows the last use of a new element was there before.
  have either : store.Reaches start target ∨ ∃ item ∈ items, store.Leads item target := by
    clear array
    induction reaches with
    | refl => exact .inl (.refl _)
    | @step from_ next _ link _ induction =>
        rcases induction with before | through
        · obtain ⟨item, member, array⟩ := exists_of_mem_links link
          rw [items_write] at member
          split at member
          · exact .inr ⟨item, member, next, array, before⟩
          · exact .inl (.step (mem_links member array) before)
        · exact .inr through
  exact either.imp_left fun reaches => ⟨start, array, reaches⟩

/-! ## Editing -/

/-- An array got new elements, besides some that it had and nil, or nothing has happened. -/
inductive Edited (before : Store) (cell : CellId) (added : List Value) : Store → Prop
  | unchanged : Edited before cell added before
  | write {items : Array Value}
      (kept : ∀ item ∈ items, (item ∈ before.items cell ∨ item = .nil) ∨ item ∈ added) :
      Edited before cell added (before.write cell items)

namespace Edited

variable {added : List Value}

theorem cells (edited : before.Edited cell added after) :
    after.cells.size = before.cells.size := by
  cases edited with
  | unchanged => rfl
  | write => exact Array.size_setIfInBounds

theorem spares (edited : before.Edited cell added after)
    (elsewhere : ¬before.Leads value cell) : before.Spares after value := by
  cases edited with
  | unchanged => exact .refl before value
  | write => exact spares_write elsewhere

/-- A value that leads to the array that got new elements may lead to where these lead besides. -/
theorem leads (edited : before.Edited cell added after) (through : before.Leads value cell)
    (leads : after.Leads value target) :
    before.Leads value target ∨ ∃ item ∈ added, before.Leads item target := by
  cases edited with
  | unchanged => exact .inl leads
  | write kept =>
      rcases leads_write leads with before | ⟨item, member, leads⟩
      · exact .inl before
      · rcases kept item member with (old | rfl) | new
        · obtain ⟨inner, array, reaches⟩ := leads
          exact .inl (through.onward (.step (mem_links old array) reaches))
        · exact absurd leads (leads_plain rfl)
        · exact .inr ⟨item, new, leads⟩

end Edited

/-! ## Values of one shape -/

/-- Two values of one shape: arrays have elements of one shape in the same places, and all else is
the same. -/
inductive Mirrors (store other : Store) : Value → Value → Prop
  | plain {value : Value} (plain : value.asArray? = none) : Mirrors store other value value
  | array {cell copy : CellId} (size : (store.items cell).size = (other.items copy).size)
      (items : ∀ item copied,
        (item, copied) ∈ (store.items cell).toList.zip (other.items copy).toList →
          Mirrors store other item copied) :
      Mirrors store other (.array cell) (.array copy)

theorem render_of_plain {literal : Bool} (plain : value.asArray? = none)
    (blocks : other.blocks = store.blocks) (objects : other.objects = store.objects) :
    other.render 0 literal value = store.render 0 literal value := by
  cases value with
  | array => cases plain
  | code id => simp [render, block, blocks]
  | object ref => simp [render, objectText, objects]
  | script handle => cases handle <;> rfl
  | _ => rfl

namespace Mirrors

theorem ofItems {copied : CellId}
    (items : List.Forall₂ (store.Mirrors other) (store.items cell).toList
      (other.items copied).toList) :
    store.Mirrors other (.array cell) (.array copied) := by
  obtain ⟨size, pairs⟩ := List.forall₂_iff_zip.mp items
  exact .array (by simpa using size) fun item copied pair => pairs pair

theorem congr (mirrors : store.Mirrors other value copy) (kept : store.Spares middle value)
    (keptCopy : other.Spares later copy) : middle.Mirrors later value copy := by
  induction mirrors with
  | plain plain => exact .plain plain
  | @array cell copied size items induction =>
      have sameItems := kept cell (leads_array.mpr (.refl cell))
      have sameCopies := keptCopy copied (leads_array.mpr (.refl copied))
      refine .array (by rw [sameItems, sameCopies, size]) ?_
      rw [sameItems, sameCopies]
      intro item twin pair
      obtain ⟨inItems, inCopies⟩ := List.of_mem_zip pair
      exact induction item twin pair (kept.item (Array.mem_toList_iff.mp inItems))
        (keptCopy.item (Array.mem_toList_iff.mp inCopies))

theorem render {depth : Nat} {literal : Bool} (mirrors : store.Mirrors other value copy)
    (blocks : other.blocks = store.blocks) (objects : other.objects = store.objects) :
    other.render depth literal copy = store.render depth literal value := by
  induction depth generalizing value copy literal with
  | zero =>
      cases mirrors with
      | array => rfl
      | plain plain => exact render_of_plain plain blocks objects
  | succ depth induction =>
      cases mirrors with
      | plain plain =>
          have atOnce : other.render 0 literal value = store.render 0 literal value :=
            render_of_plain plain blocks objects
          exact (render_plain plain).trans (atOnce.trans (render_plain plain).symm)
      | @array cell copied size items =>
          have sameTexts : (other.items copied).toList.map (other.render depth true) =
              (store.items cell).toList.map (store.render depth true) := by
            rw [eq_comm, ← List.forall₂_eq_eq_eq, List.forall₂_map_left_iff,
              List.forall₂_map_right_iff, List.forall₂_iff_zip]
            exact ⟨by simpa using size, fun pair => (induction (items _ _ pair)).symm⟩
          rw [render_array, render_array, sameTexts]

theorem literal (mirrors : store.Mirrors other value copy) (loopless : store.Loopless value)
    (cells : store.cells.size ≤ other.cells.size) (blocks : other.blocks = store.blocks)
    (objects : other.objects = store.objects) : other.literal copy = store.literal value := by
  have deeper : store.depthBound ≤ other.depthBound := Nat.succ_le_succ cells
  exact (mirrors.render blocks objects).trans (render_of_nests loopless.nests deeper)

end Mirrors

/-! ## Copying -/

/-- A value of the same shape as one of an earlier store, made of arrays that are new since. -/
structure Twin (base store : Store) (value copy : Value) : Prop where
  mirrors : base.Mirrors store value copy
  fresh : ∀ cell, store.Leads copy cell → base.cells.size ≤ cell
  whole : store.Whole copy

structure Copied (base before : Store) (value : Value) (made : Value × Store) : Prop where
  grows : before.Grows made.2
  objects : made.2.objects = before.objects
  twin : base.Twin made.2 value made.1

structure CopiedAll (base before : Store) (values : List Value) (made : List Value × Store) :
    Prop where
  grows : before.Grows made.2
  objects : made.2.objects = before.objects
  twins : List.Forall₂ (base.Twin made.2) values made.1

theorem exists_of_forall₂ {relates : Value → Value → Prop} {values copies : List Value}
    (pairs : List.Forall₂ relates values copies) (member : copy ∈ copies) :
    ∃ value, relates value copy := by
  induction pairs with
  | nil => cases member
  | cons pair _ induction =>
      rcases List.mem_cons.mp member with rfl | later
      · exact ⟨_, pair⟩
      · exact induction later

namespace Twin

theorem mono (twin : base.Twin store value copy) (grows : store.Extends later) :
    base.Twin later value copy := by
  have spared := grows.spares twin.whole
  exact ⟨twin.mirrors.congr (.refl base value) spared,
    fun cell leads => twin.fresh cell (spared.leads_iff.mp leads),
    spared.whole grows.cells twin.whole⟩

theorem ofPlain (plain : value.asArray? = none) : base.Twin store value value :=
  ⟨.plain plain, fun _ leads => absurd leads (leads_plain plain),
    fun _ leads => absurd leads (leads_plain plain)⟩

theorem newArray {copies : List Value} (larger : base.cells.size ≤ store.cells.size)
    (twins : List.Forall₂ (base.Twin store) (base.items cell).toList copies) :
    base.Twin (store.newArray copies.toArray).2 (.array cell)
      (store.newArray copies.toArray).1 := by
  have grows := (Grows.newArray store copies.toArray).toExtends
  have held : (store.newArray copies.toArray).2.items store.cells.size = copies.toArray := by
    rw [items_newArray, if_pos rfl]
  have inside : store.cells.size < (store.newArray copies.toArray).2.cells.size := by
    simp [Store.newArray]
  have later : List.Forall₂ (base.Twin (store.newArray copies.toArray).2)
      (base.items cell).toList copies := twins.imp fun _ _ twin => twin.mono grows
  have each : ∀ copy ∈ copies, ∃ value, base.Twin (store.newArray copies.toArray).2 value copy :=
    fun copy member => exists_of_forall₂ later member
  refine ⟨.ofItems ?_, ?_, ?_⟩
  · rw [held]
    exact later.imp fun _ _ twin => twin.mirrors
  · intro target leads
    rcases leads_array_iff.mp leads with rfl | ⟨copy, member, leads⟩
    · exact larger
    · obtain ⟨_, twin⟩ := each copy (by simpa [held] using member)
      exact twin.fresh target leads
  · intro target leads
    rcases leads_array_iff.mp leads with rfl | ⟨copy, member, leads⟩
    · exact inside
    · obtain ⟨_, twin⟩ := each copy (by simpa [held] using member)
      exact twin.whole target leads

end Twin

/-- Copies made one after the other, each in the store that the one before it left. -/
theorem mapM_copiedAll {make : Value → StateM Store Value} {values : List Value}
    (each : ∀ value ∈ values, ∀ store, base.Grows store →
      base.Copied store value (make value store))
    (grows : base.Grows store) : base.CopiedAll store values ((values.mapM make).run store) := by
  induction values generalizing store with
  | nil => exact ⟨.refl store, rfl, .nil⟩
  | cons value values induction =>
      obtain ⟨first, others⟩ := List.forall_mem_cons.mp each
      have made := first store grows
      have more := induction others (grows.trans made.grows)
      rw [List.mapM_cons]
      exact ⟨made.grows.trans more.grows, more.objects.trans made.objects,
        .cons (made.twin.mono more.grows.toExtends) more.twins⟩

theorem copyTo_copied {depth : Nat} (nests : base.Nests depth value) (whole : base.Whole value)
    (grows : base.Grows store) : base.Copied store value (copyTo depth value store) := by
  induction depth generalizing value store with
  | zero => exact ⟨.refl store, rfl, .ofPlain nests⟩
  | succ depth induction =>
      cases array : value.asArray? with
      | none =>
          rw [copyTo_plain _ array]
          exact ⟨.refl store, rfl, .ofPlain array⟩
      | some cell =>
          obtain rfl := Value.eq_array array
          have copies : base.CopiedAll store (base.items cell).toList
              (((base.items cell).toList.mapM (copyTo depth)).run store) := by
            refine mapM_copiedAll (fun item member later onward => ?_) grows
            rw [Array.mem_toList_iff] at member
            exact induction (nests cell rfl item member)
              (fun target leads => whole target (leads.ofItem member)) onward
          have inside := whole cell (leads_array.mpr (.refl cell))
          rw [copyTo_array, grows.items cell inside]
          exact ⟨copies.grows.trans (.newArray _ _), copies.objects,
            .newArray (Nat.le_trans grows.cells copies.grows.cells) copies.twins⟩

theorem copy_copied (loopless : store.Loopless value) (whole : store.Whole value) :
    store.Copied store value (store.copy value) :=
  copyTo_copied loopless.nests whole (.refl store)

theorem Copied.apart {made : Value × Store} (copied : store.Copied store value made)
    (whole : store.Whole value) : made.2.Apart made.1 value := by
  intro cell leads again
  have spared := copied.grows.toExtends.spares whole
  exact absurd (whole cell (spared.leads_iff.mp again))
    (Nat.not_lt_of_le (copied.twin.fresh cell leads))

end SimScript.Store
