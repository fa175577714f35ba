import SimScript.Proofs.Store.Growth

/-!
# What a store holds

A property that is true of every value but objects may be asked of all elements of
arrays and all constants of code.  New arrays, copies and config values are made of
values that are there, so they keep it.  The objects are no part of this, and making
values leaves them as they are.
-/

namespace SimScript

namespace Store

variable {store before : Store} {holds weaker : Value → Prop} {value : Value}

/-- The elements of all arrays and the constants of all code have a property. -/
structure Hold (store : Store) (holds : Value → Prop) : Prop where
  items : ∀ cell, ∀ value ∈ store.items cell, holds value
  constants : ∀ code ∈ store.blocks, ∀ value ∈ CodeBlock.constants code, holds value

/-- A value with a property was made in a store, and objects were left as they were. -/
structure Builds (holds : Value → Prop) (before : Store) (built : Value × Store) : Prop where
  value : holds built.1
  held : built.2.Hold holds
  objects : built.2.objects = before.objects

/-- The same for several values. -/
structure BuildsAll (holds : Value → Prop) (before : Store) (built : List Value × Store) :
    Prop where
  values : ∀ value ∈ built.1, holds value
  held : built.2.Hold holds
  objects : built.2.objects = before.objects

namespace Hold

theorem empty : Hold {} holds where
  items := by simp [Store.items]
  constants := by simp

theorem mono (held : store.Hold holds) (implies : ∀ value, holds value → weaker value) :
    store.Hold weaker where
  items := fun cell value member => implies value (held.items cell value member)
  constants := fun code member value constant =>
    implies value (held.constants code member value constant)

theorem withObjects (held : store.Hold holds) (update : ObjectTable → ObjectTable) :
    (store.withObjects update).Hold holds :=
  ⟨held.items, held.constants⟩

theorem write {items : Array Value} (held : store.Hold holds) (cell : CellId)
    (each : ∀ item ∈ items, holds item) : (store.write cell items).Hold holds := by
  refine ⟨fun other value member => ?_, held.constants⟩
  rw [items_write] at member
  split at member
  · exact each value member
  · exact held.items other value member

theorem newBlock {code : CodeBlock} (held : store.Hold holds)
    (each : ∀ value ∈ code.constants, holds value) : (store.newBlock code).2.Hold holds := by
  refine ⟨held.items, fun other member value constant => ?_⟩
  rcases Array.mem_push.mp member with inStore | rfl
  · exact held.constants other inStore value constant
  · exact each value constant

theorem codeOf {code : CodeBlock} (held : store.Hold holds) (supplied : store.Supplies code) :
    ∀ value ∈ code.constants, holds value := by
  intro value constant
  obtain ⟨stored, inStore, member⟩ := exists_block_of_supplies supplied constant
  exact held.constants stored inStore value member

theorem builds (held : store.Hold holds) (known : holds value) :
    store.Builds holds (value, store) :=
  ⟨known, held, rfl⟩

end Hold

theorem Builds.cons {first : Value × Store} {others : List Value × Store}
    (made : store.Builds holds first) (rest : first.2.BuildsAll holds others) :
    store.BuildsAll holds (first.1 :: others.1, others.2) :=
  ⟨List.forall_mem_cons.mpr ⟨made.value, rest.values⟩, rest.held, rest.objects.trans made.objects⟩

/-- Values built one after the other, each in the store that the one before it left. -/
theorem mapM_buildsAll {make : Value → StateM Store Value} {items : List Value}
    (each : ∀ (store : Store) item, store.Hold holds → holds item →
      store.Builds holds (make item store))
    (held : store.Hold holds) (known : ∀ item ∈ items, holds item) :
    store.BuildsAll holds ((items.mapM make).run store) := by
  induction items generalizing store with
  | nil => exact ⟨nofun, held, rfl⟩
  | cons item rest induction =>
      obtain ⟨first, later⟩ := List.forall_mem_cons.mp known
      have made := each store item held first
      have more := induction made.held later
      rw [List.mapM_cons]
      exact made.cons more

theorem newArray_builds {items : Array Value}
    (others : ∀ value : Value, value.asObject? = none → holds value) (held : store.Hold holds)
    (each : ∀ item ∈ items, holds item) : store.Builds holds (store.newArray items) := by
  refine ⟨others _ rfl, ⟨fun cell value member => ?_, held.constants⟩, rfl⟩
  rw [items_newArray] at member
  split at member
  · exact each value member
  · exact held.items cell value member

mutual

theorem ofConfig_builds (others : ∀ value : Value, value.asObject? = none → holds value) :
    ∀ (given : ConfigValue) {store : Store}, store.Hold holds →
      store.Builds holds (store.ofConfig given)
  | .number value, _, held => by
      rw [ofConfig]
      exact held.builds (others _ rfl)
  | .text content, _, held => by
      rw [ofConfig]
      exact held.builds (others _ rfl)
  | .array items, _, held => by
      have values := ofConfigs_buildsAll others items held
      rw [ofConfig]
      have made := newArray_builds others values.held fun item member =>
        values.values item (List.mem_toArray.mp member)
      exact ⟨made.value, made.held, made.objects.trans values.objects⟩

theorem ofConfigs_buildsAll (others : ∀ value : Value, value.asObject? = none → holds value) :
    ∀ (items : List ConfigValue) {store : Store}, store.Hold holds →
      store.BuildsAll holds (store.ofConfigs items)
  | [], store, held => by
      rw [ofConfigs]
      exact ⟨nofun, held, rfl⟩
  | item :: items, store, held => by
      have first := ofConfig_builds others item held
      have more := ofConfigs_buildsAll others items first.held
      rw [ofConfigs]
      exact first.cons more

end

theorem copyTo_builds (others : ∀ value : Value, value.asObject? = none → holds value)
    (depth : Nat) (held : store.Hold holds) (known : holds value) :
    store.Builds holds (copyTo depth value store) := by
  induction depth generalizing store value with
  | zero => exact held.builds known
  | succ depth induction =>
      cases array : value.asArray? with
      | none =>
          rw [copyTo_plain _ array]
          exact held.builds known
      | some cell =>
          obtain rfl := Value.eq_array array
          have copies := mapM_buildsAll (fun _ _ => induction) held fun item member =>
            held.items cell item (Array.mem_toList_iff.mp member)
          rw [copyTo_array]
          have made := newArray_builds others copies.held fun item member =>
            copies.values item (List.mem_toArray.mp member)
          exact ⟨made.value, made.held, made.objects.trans copies.objects⟩

theorem reply_builds {reply : Reply}
    (others : ∀ value : Value, value.asObject? = none → holds value) (held : store.Hold holds)
    (sanctioned : reply.Sanctioned holds) : store.Builds holds (reply.make store) := by
  cases reply with
  | value given => exact held.builds sanctioned
  | array items =>
      exact newArray_builds others held fun item member =>
        sanctioned item (List.mem_toArray.mp member)
  | config given => exact ofConfig_builds others given held
  | copy given => exact copyTo_builds others store.depthBound held sanctioned

theorem reply_objects (reply : Reply) (store : Store) :
    (reply.make store).2.objects = store.objects := by
  have anything : store.Hold fun _ => True := ⟨by simp, by simp⟩
  have sanctioned : reply.Sanctioned fun _ => True := by cases reply <;> simp [Reply.Sanctioned]
  exact (reply_builds (by simp) anything sanctioned).objects

end Store

end SimScript
