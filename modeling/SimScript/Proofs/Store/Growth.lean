import SimScript.Proofs.Execution.Moves
import SimScript.Proofs.Store.Graph

/-!
# Sound stores

A store is sound when its elements and the constants of its code name arrays that are
in it, and no array leads back to itself.  Making arrays, copies and config values
keeps a store sound and leaves the arrays that were there as they are.
-/

namespace SimScript

namespace Store

variable {store before after : Store} {value : Value}

/-- Every array that is named exists, and none leads back to itself. -/
structure Sound (store : Store) : Prop where
  closed : ∀ cell, ∀ value ∈ store.items cell, store.Has value
  constants : ∀ code ∈ store.blocks, ∀ value ∈ CodeBlock.constants code, store.Has value
  acyclic : store.Acyclic

/-- Arrays may be added, and nothing else changes. -/
structure Grows (before after : Store) : Prop where
  cells : before.cells.size ≤ after.cells.size
  items : ∀ cell < before.cells.size, after.items cell = before.items cell
  blocks : after.blocks = before.blocks

theorem Has.mono (has : before.Has value) (cells : before.cells.size ≤ after.cells.size) :
    after.Has value :=
  fun cell array => Nat.lt_of_lt_of_le (has cell array) cells

namespace Grows

theorem refl (store : Store) : store.Grows store :=
  ⟨Nat.le_refl _, fun _ _ => rfl, rfl⟩

theorem trans {last : Store} (first : before.Grows after) (second : after.Grows last) :
    before.Grows last where
  cells := Nat.le_trans first.cells second.cells
  items := fun cell inside =>
    (second.items cell (Nat.lt_of_lt_of_le inside first.cells)).trans (first.items cell inside)
  blocks := second.blocks.trans first.blocks

theorem newArray (store : Store) (items : Array Value) :
    store.Grows (store.newArray items).2 where
  cells := by simp [Store.newArray]
  items := fun cell inside => by simp [items_newArray, Nat.ne_of_lt inside]
  blocks := rfl

end Grows

theorem sound_empty : Sound {} where
  closed := by simp [items]
  constants := by simp
  acyclic := by simp [Acyclic, links, items]

theorem exists_block_of_supplies {code : CodeBlock} (supplied : store.Supplies code)
    (constant : value ∈ code.constants) : ∃ stored ∈ store.blocks, value ∈ stored.constants := by
  obtain ⟨holder, rfl⟩ := supplied
  have stored : ∀ id, value ∈ (store.block id).constants →
      ∃ stored ∈ store.blocks, value ∈ stored.constants := by
    intro id member
    unfold block at member
    cases found : store.blocks[id]? with
    | none => simp [found, CodeBlock.constants] at member
    | some code =>
        simp only [found, Option.getD_some] at member
        exact ⟨code, Array.mem_of_getElem? found, member⟩
  unfold Store.codeOf at constant
  split at constant
  · exact stored _ constant
  · exact stored _ constant
  · simp [CodeBlock.constants] at constant

/-- A value was made in a store, which grew and is sound. -/
structure Made (before : Store) (made : Value × Store) : Prop where
  sound : made.2.Sound
  grows : before.Grows made.2
  has : made.2.Has made.1

structure MadeAll (before : Store) (made : List Value × Store) : Prop where
  sound : made.2.Sound
  grows : before.Grows made.2
  has : ∀ value ∈ made.1, made.2.Has value

namespace Sound

theorem made (sound : store.Sound) (has : store.Has value) : store.Made (value, store) :=
  ⟨sound, .refl store, has⟩

theorem newArray {items : Array Value} (sound : store.Sound)
    (held : ∀ item ∈ items, store.Has item) : store.Made (store.newArray items) := by
  have grows := Grows.newArray store items
  refine ⟨⟨?_, ?_, sound.acyclic.newArray sound.closed held⟩, grows, ?_⟩
  · intro cell value member
    rw [items_newArray] at member
    split at member
    · exact (held value member).mono grows.cells
    · exact (sound.closed cell value member).mono grows.cells
  · exact fun code member value constant =>
      (sound.constants code member value constant).mono grows.cells
  · rintro cell ⟨⟩
    simp [Store.newArray]

theorem write {cell : CellId} {items : Array Value} (sound : store.Sound)
    (held : ∀ item ∈ items, store.Has item) (admits : store.Admits cell items) :
    (store.write cell items).Sound := by
  have cells : store.cells.size ≤ (store.write cell items).cells.size := by simp [Store.write]
  refine ⟨?_, ?_, sound.acyclic.write admits⟩
  · intro other value member
    rw [items_write] at member
    split at member
    · exact (held value member).mono cells
    · exact (sound.closed other value member).mono cells
  · exact fun code member value constant =>
      (sound.constants code member value constant).mono cells

theorem newBlock {code : CodeBlock} (sound : store.Sound)
    (held : ∀ value ∈ code.constants, store.Has value) : (store.newBlock code).2.Sound := by
  refine ⟨sound.closed, ?_, sound.acyclic.congr fun _ => rfl⟩
  intro other member value constant
  rcases Array.mem_push.mp member with inStore | rfl
  · exact sound.constants other inStore value constant
  · exact held value constant

theorem withObjects (sound : store.Sound) (update : ObjectTable → ObjectTable) :
    (store.withObjects update).Sound :=
  ⟨sound.closed, sound.constants, sound.acyclic.congr fun _ => rfl⟩

theorem codeOf {code : CodeBlock} (sound : store.Sound) (supplied : store.Supplies code)
    (constant : value ∈ code.constants) : store.Has value := by
  obtain ⟨stored, inStore, member⟩ := exists_block_of_supplies supplied constant
  exact sound.constants stored inStore value member

end Sound

section Build

theorem Made.cons {first : Value × Store} {others : List Value × Store} (made : store.Made first)
    (rest : first.2.MadeAll others) : store.MadeAll (first.1 :: others.1, others.2) := by
  refine ⟨rest.sound, made.grows.trans rest.grows, ?_⟩
  intro value member
  rcases List.mem_cons.mp member with rfl | inRest
  · exact made.has.mono rest.grows.cells
  · exact rest.has value inRest

/-- Values made one after the other, each in the store that the one before it left. -/
theorem mapM_madeAll {make : Value → StateM Store Value} {items : List Value}
    (each : ∀ (store : Store) item, store.Sound → store.Has item →
      store.Made (make item store))
    (sound : store.Sound) (held : ∀ item ∈ items, store.Has item) :
    store.MadeAll ((items.mapM make).run store) := by
  induction items generalizing store with
  | nil => exact ⟨sound, .refl store, fun _ member => by cases member⟩
  | cons item rest induction =>
      have first := each store item sound (held item (by simp))
      have others := induction first.sound fun later member =>
        (held later (by simp [member])).mono first.grows.cells
      rw [List.mapM_cons]
      exact first.cons others

theorem copyTo_plain (depth : Nat) (plain : value.asArray? = none) :
    copyTo depth value = pure value := by
  cases depth with
  | zero => rfl
  | succ depth => cases value <;> first | rfl | simp [Value.asArray?] at plain

theorem copyTo_array (depth : Nat) (cell : CellId) (store : Store) :
    copyTo (depth + 1) (.array cell) store =
      let copies := ((store.items cell).toList.mapM (copyTo depth)).run store
      copies.2.newArray copies.1.toArray := rfl

theorem copyTo_made (depth : Nat) (sound : store.Sound) (has : store.Has value) :
    store.Made (copyTo depth value store) := by
  induction depth generalizing store value with
  | zero => exact sound.made has
  | succ depth induction =>
      cases array : value.asArray? with
      | none =>
          rw [copyTo_plain _ array]
          exact sound.made has
      | some cell =>
          obtain rfl := Value.eq_array array
          have copies := mapM_madeAll (fun _ _ => induction) sound fun item member =>
            sound.closed cell item (Array.mem_toList_iff.mp member)
          rw [copyTo_array]
          have made := copies.sound.newArray fun item member =>
            copies.has item (List.mem_toArray.mp member)
          exact ⟨made.sound, copies.grows.trans made.grows, made.has⟩

mutual

theorem ofConfig_made : ∀ (held : ConfigValue) {store : Store}, store.Sound →
    store.Made (store.ofConfig held)
  | .number value, _, sound => by
      rw [ofConfig]
      exact sound.made (.ofPlain rfl)
  | .text content, _, sound => by
      rw [ofConfig]
      exact sound.made (.ofPlain rfl)
  | .array items, _, sound => by
      have values := ofConfigs_madeAll items sound
      rw [ofConfig]
      have made := values.sound.newArray fun item member =>
        values.has item (List.mem_toArray.mp member)
      exact ⟨made.sound, values.grows.trans made.grows, made.has⟩

theorem ofConfigs_madeAll : ∀ (items : List ConfigValue) {store : Store}, store.Sound →
    store.MadeAll (store.ofConfigs items)
  | [], store, sound => by
      rw [ofConfigs]
      exact ⟨sound, .refl store, by simp⟩
  | item :: items, store, sound => by
      have first := ofConfig_made item sound
      have others := ofConfigs_madeAll items first.sound
      rw [ofConfigs]
      exact first.cons others

end

theorem reply_made {reply : Reply} (sound : store.Sound)
    (sanctioned : reply.Sanctioned store.Has) : store.Made (reply.make store) := by
  cases reply with
  | value given => exact sound.made sanctioned
  | array items =>
      exact sound.newArray fun item member => sanctioned item (List.mem_toArray.mp member)
  | config given => exact ofConfig_made given sound
  | copy given => exact copyTo_made store.depthBound sound sanctioned

end Build

end Store

end SimScript
