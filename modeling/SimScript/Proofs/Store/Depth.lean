import Mathlib.Data.List.Forall2
import Mathlib.Data.List.Nodup
import Mathlib.Data.List.Perm.Subperm
import SimScript.Proofs.Store.Growth
import SimScript.Store.Equality
import SimScript.Store.Render

/-!
# How deep arrays nest

Copying, comparing and writing out follow arrays down to a bound on the depth.  In a
store without cycles no array nests as deep as the bound, because a way down passes
each array once; so the bound never cuts anything off, and following arrays ends by
itself.
-/

namespace SimScript.Store

variable {store : Store} {value : Value} {cell : CellId} {depth more : Nat}

/-- A value in which arrays nest at most `depth` deep. -/
def Nests (store : Store) : (depth : Nat) → Value → Prop
  | 0, value => value.asArray? = none
  | depth + 1, value =>
      ∀ cell, value.asArray? = some cell → ∀ item ∈ store.items cell, store.Nests depth item

/-- No array that a value leads to leads back to itself. -/
def Loopless (store : Store) (value : Value) : Prop :=
  ∀ cell, store.Leads value cell → ∀ next ∈ store.links cell, ¬store.Reaches next cell

theorem Acyclic.loopless (acyclic : store.Acyclic) : store.Loopless value :=
  fun cell _ => acyclic cell

theorem Loopless.item {item : Value} (loopless : store.Loopless (.array cell))
    (member : item ∈ store.items cell) : store.Loopless item :=
  fun target leads => loopless target (leads.ofItem member)

/-- The arrays passed on a way down to a value, the last one first. -/
structure Way (store : Store) (path : List CellId) (value : Value) : Prop where
  nodup : path.Nodup
  inside : ∀ passed ∈ path, passed < store.cells.size
  below : ∀ cell, value.asArray? = some cell → ∀ passed ∈ path,
    ∃ next ∈ store.links passed, store.Reaches next cell

namespace Way

variable {path : List CellId}

theorem length_le (way : store.Way path value) : path.length ≤ store.cells.size := by
  have inRange : path ⊆ List.range store.cells.size :=
    fun passed member => List.mem_range.mpr (way.inside passed member)
  simpa using (way.nodup.subperm inRange).length_le

/-- A way down can be continued into the elements: the array has not been passed before, or it would
lead back to itself. -/
theorem step {item : Value} (way : store.Way path (.array cell))
    (loopless : store.Loopless (.array cell)) (member : item ∈ store.items cell) :
    store.Way (cell :: path) item := by
  refine ⟨List.nodup_cons.mpr ⟨fun again => ?_, way.nodup⟩, ?_, ?_⟩
  · obtain ⟨next, link, back⟩ := way.below cell rfl cell again
    exact loopless cell ⟨cell, rfl, .refl cell⟩ next link back
  · rintro passed (_ | ⟨_, earlier⟩)
    · exact lt_of_mem_items member
    · exact way.inside passed earlier
  · intro inner innerArray passed onWay
    have link := mem_links member innerArray
    rcases List.mem_cons.mp onWay with rfl | earlier
    · exact ⟨inner, link, .refl inner⟩
    · obtain ⟨next, first, rest⟩ := way.below cell rfl passed earlier
      exact ⟨next, first, rest.trans (.single link)⟩

/-- Below the arrays passed there is room for as many as were not passed. -/
theorem nests (way : store.Way path value) (loopless : store.Loopless value)
    (room : store.cells.size < path.length + depth) : store.Nests depth value := by
  induction depth generalizing value path with
  | zero => exact absurd way.length_le (Nat.not_le_of_lt room)
  | succ depth induction =>
      intro cell array item member
      obtain rfl := Value.eq_array array
      apply induction (way.step loopless member) (loopless.item member)
      simp only [List.length_cons]
      omega

end Way

theorem Loopless.nests (loopless : store.Loopless value) :
    store.Nests store.depthBound value := by
  have start : store.Way [] value := ⟨List.nodup_nil, by simp, by simp⟩
  exact start.nests loopless (by simp [depthBound])

/-- Arrays lead to other arrays only finitely often. -/
theorem acc_links (nests : store.Nests depth (.array cell)) :
    Acc (fun next cell => next ∈ store.links cell) cell := by
  induction depth generalizing cell with
  | zero => simp [Nests, Value.asArray?] at nests
  | succ depth induction =>
      refine ⟨_, fun next link => ?_⟩
      obtain ⟨item, member, array⟩ := exists_of_mem_links link
      obtain rfl := Value.eq_array array
      exact induction (nests cell rfl _ member)

theorem wellFounded_links (acyclic : store.Acyclic) :
    WellFounded fun next cell => next ∈ store.links cell :=
  ⟨fun _ => acc_links acyclic.loopless.nests⟩

section Render

variable {literal : Bool}

theorem render_plain (plain : value.asArray? = none) :
    store.render depth literal value = store.render 0 literal value := by
  cases value with
  | array cell => simp [Value.asArray?] at plain
  | script handle => cases handle <;> cases depth <;> rfl
  | _ => cases depth <;> rfl

theorem render_array (depth : Nat) :
    store.render (depth + 1) literal (.array cell) =
      "[" ++ String.intercalate "," ((store.items cell).toList.map (store.render depth true))
        ++ "]" := rfl

/-- A greater depth writes out nothing more. -/
theorem render_of_nests (nests : store.Nests depth value) (enough : depth ≤ more) :
    store.render more literal value = store.render depth literal value := by
  induction depth generalizing value more literal with
  | zero => exact render_plain nests
  | succ depth induction =>
      cases array : value.asArray? with
      | none => exact (render_plain array).trans (render_plain array).symm
      | some cell =>
          obtain rfl := Value.eq_array array
          obtain ⟨less, rfl⟩ := Nat.exists_eq_add_of_lt enough
          have sameItems : (store.items cell).toList.map (store.render (depth + less) true) =
              (store.items cell).toList.map (store.render depth true) := by
            apply List.map_congr_left
            intro item member
            exact induction (nests cell rfl item (Array.mem_toList_iff.mp member)) (by omega)
          rw [render_array, render_array, sameItems]

theorem literal_array (loopless : store.Loopless (.array cell)) :
    store.literal (.array cell) =
      "[" ++ String.intercalate "," ((store.items cell).toList.map store.literal) ++ "]" := by
  have sameItems : (store.items cell).toList.map (store.render store.cells.size true) =
      (store.items cell).toList.map store.literal := by
    apply List.map_congr_left
    intro item member
    have nests := loopless.nests cell rfl item (Array.mem_toList_iff.mp member)
    exact (render_of_nests nests (Nat.le_succ _)).symm
  rw [literal, depthBound, render_array, sameItems]

end Render

section Equality

variable {left right : Value} {known : CellId → CellId → Bool}

/-- Whether two values are equal, following arrays down to `depth`, where the elements of arrays
that are known to be equal are not looked at. -/
def comparesTo (store : Store) (known : CellId → CellId → Bool) :
    (depth : Nat) → Value → Value → Bool
  | 0, .array left, .array right => known left right
  | depth + 1, .array left, .array right =>
      known left right
        || ((store.items left).size == (store.items right).size
          && ((store.items left).toList.zip (store.items right).toList).all
            fun pair => store.comparesTo known depth pair.1 pair.2)
  | _, left, right => store.equalsTo 0 left right

theorem comparesTo_plain (plain : left.asArray? = none ∨ right.asArray? = none) :
    store.comparesTo known depth left right = store.equalsTo 0 left right := by
  cases depth <;> cases left <;> cases right <;> first | rfl | simp [Value.asArray?] at plain

theorem comparesTo_array {first second : CellId} :
    store.comparesTo known (depth + 1) (.array first) (.array second) = true ↔
      known first second = true ∨
        List.Forall₂ (fun item other => store.comparesTo known depth item other = true)
          (store.items first).toList (store.items second).toList := by
  simp [comparesTo, List.forall₂_iff_zip]

theorem forall₂_congr_of_mem {items others : List Value} {holds holds' : Value → Value → Prop}
    (same : ∀ item ∈ items, ∀ other, holds item other ↔ holds' item other) :
    List.Forall₂ holds items others ↔ List.Forall₂ holds' items others := by
  simp only [List.forall₂_iff_zip]
  refine and_congr_right fun _ => forall₂_congr fun item other => forall_congr' fun pair => ?_
  exact same item (List.of_mem_zip pair).1 other

/-- Two values are compared as arrays, or at least one of them is none. -/
theorem plain_or_arrays (left right : Value) :
    (left.asArray? = none ∨ right.asArray? = none) ∨
      ∃ first second, left = .array first ∧ right = .array second := by
  cases leftArray : left.asArray? with
  | none => exact .inl (.inl rfl)
  | some first =>
      cases rightArray : right.asArray? with
      | none => exact .inl (.inr rfl)
      | some second =>
          exact .inr ⟨first, second, Value.eq_array leftArray, Value.eq_array rightArray⟩

theorem equalsTo_plain (plain : left.asArray? = none ∨ right.asArray? = none) :
    store.equalsTo depth left right = store.equalsTo 0 left right := by
  cases left <;> cases right <;>
    first
    | rfl
    | (simp only [equalsTo]; done)
    | simp [Value.asArray?] at plain

theorem equalsTo_eq_comparesTo :
    store.equalsTo depth left right = store.comparesTo (· == ·) depth left right := by
  induction depth generalizing left right with
  | zero =>
      obtain plain | ⟨first, second, rfl, rfl⟩ := plain_or_arrays left right
      · exact (comparesTo_plain plain).symm
      · rfl
  | succ depth induction =>
      obtain plain | ⟨first, second, rfl, rfl⟩ := plain_or_arrays left right
      · exact (equalsTo_plain plain).trans (comparesTo_plain plain).symm
      · simp only [equalsTo, comparesTo, induction]

/-- A greater depth finds no more differences. -/
theorem comparesTo_of_nests (nests : store.Nests depth left) (enough : depth ≤ more) :
    store.comparesTo known more left right = store.comparesTo known depth left right := by
  induction depth generalizing left right more with
  | zero => exact (comparesTo_plain (.inl nests)).trans (comparesTo_plain (.inl nests)).symm
  | succ depth induction =>
      obtain plain | ⟨first, second, rfl, rfl⟩ := plain_or_arrays left right
      · exact (comparesTo_plain plain).trans (comparesTo_plain plain).symm
      · obtain ⟨less, rfl⟩ := Nat.exists_eq_add_of_lt enough
        have sameItems : ∀ item ∈ store.items first, ∀ other,
            store.comparesTo known (depth + less) item other =
              store.comparesTo known depth item other :=
          fun item member other => induction (nests first rfl item member) (by omega)
        rw [Bool.eq_iff_iff, comparesTo_array, comparesTo_array]
        refine or_congr_right (forall₂_congr_of_mem fun item member other => ?_)
        rw [sameItems item (Array.mem_toList_iff.mp member)]

theorem comparesTo_depthBound_array {first second : CellId}
    (loopless : store.Loopless (.array first)) :
    store.comparesTo known store.depthBound (.array first) (.array second) = true ↔
      known first second = true ∨
        List.Forall₂
          (fun item other => store.comparesTo known store.depthBound item other = true)
          (store.items first).toList (store.items second).toList := by
  have sameItems : ∀ item ∈ store.items first, ∀ other,
      store.comparesTo known store.depthBound item other =
        store.comparesTo known store.cells.size item other :=
    fun item member other =>
      comparesTo_of_nests (loopless.nests first rfl item member) (Nat.le_succ _)
  conv_lhs => rw [depthBound]
  rw [comparesTo_array]
  refine or_congr_right (forall₂_congr_of_mem fun item member other => ?_)
  rw [sameItems item (Array.mem_toList_iff.mp member)]

theorem equalsTo_of_nests (nests : store.Nests depth left) (enough : depth ≤ more) :
    store.equalsTo more left right = store.equalsTo depth left right := by
  rw [equalsTo_eq_comparesTo, equalsTo_eq_comparesTo, comparesTo_of_nests nests enough]

theorem equals_array {first second : CellId} (loopless : store.Loopless (.array first)) :
    store.equals (.array first) (.array second) = true ↔
      first = second ∨
        List.Forall₂ (fun item other => store.equals item other = true)
          (store.items first).toList (store.items second).toList := by
  simp only [equals, equalsTo_eq_comparesTo, comparesTo_depthBound_array loopless, beq_iff_eq]

end Equality

section Copy

variable {base : Store}

theorem mapM_congr {first second : Value → StateM Store Value} {items : List Value}
    (same : ∀ item ∈ items, ∀ store, base.Grows store → store.Sound →
      first item store = second item store)
    (made : ∀ item ∈ items, ∀ store, base.Grows store → store.Sound →
      store.Made (second item store))
    (grows : base.Grows store) (sound : store.Sound) :
    (items.mapM first).run store = (items.mapM second).run store := by
  induction items generalizing store with
  | nil => rfl
  | cons item rest induction =>
      have sameItem := same item (by simp) store grows sound
      have madeItem := made item (by simp) store grows sound
      have sameRest := induction (fun later member => same later (by simp [member]))
        (fun later member => made later (by simp [member]))
        (grows.trans madeItem.grows) madeItem.sound
      have unfolded (make : Value → StateM Store Value) :
          ((item :: rest).mapM make).run store =
            let made := make item store
            let others := (rest.mapM make).run made.2
            (made.1 :: others.1, others.2) := by
        rw [List.mapM_cons]
        rfl
      rw [unfolded, unfolded, sameItem]
      dsimp only
      rw [sameRest]

/-- A greater depth copies nothing more, also when the store has grown meanwhile. -/
theorem copyTo_of_nests (nests : base.Nests depth value) (has : base.Has value)
    (closed : base.Sound) (enough : depth ≤ more) (grows : base.Grows store)
    (sound : store.Sound) : copyTo more value store = copyTo depth value store := by
  induction depth generalizing value more store with
  | zero => rw [copyTo_plain _ nests, copyTo_plain _ nests]
  | succ depth induction =>
      cases array : value.asArray? with
      | none => rw [copyTo_plain _ array, copyTo_plain _ array]
      | some cell =>
          obtain rfl := Value.eq_array array
          obtain ⟨less, rfl⟩ := Nat.exists_eq_add_of_lt enough
          have sameCell := grows.items cell (has cell rfl)
          have sameItems :
              ((store.items cell).toList.mapM (copyTo (depth + less))).run store =
                ((store.items cell).toList.mapM (copyTo depth)).run store := by
            rw [sameCell]
            refine mapM_congr (fun item member later => ?_)
              (fun item member later => ?_) grows sound
            · have inCell := Array.mem_toList_iff.mp member
              exact induction (nests cell rfl item inCell) (closed.closed cell item inCell)
                (by omega)
            · intro laterGrows laterSound
              have inCell := Array.mem_toList_iff.mp member
              exact copyTo_made depth laterSound
                ((closed.closed cell item inCell).mono laterGrows.cells)
          rw [copyTo_array, copyTo_array, sameItems]

end Copy

end SimScript.Store
