import SimScript.Proofs.Command.Sanction

/-!
# The graph of arrays

An array links to the arrays among its elements.  The graph stays without cycles when
a new array is made, and when an array is overwritten with elements none of which leads
back to it; the search that guards such writes finds every way back.
-/

namespace SimScript

theorem Value.eq_array {value : Value} {cell : CellId} (array : value.asArray? = some cell) :
    value = .array cell := by
  cases value <;> simp_all [Value.asArray?]

namespace Store

variable {store : Store} {cell next target : CellId}

/-- No array leads back to itself. -/
def Acyclic (store : Store) : Prop :=
  ∀ cell next, next ∈ store.links cell → ¬store.Reaches next cell

theorem mem_links {item : Value} (member : item ∈ store.items cell)
    (array : item.asArray? = some next) : next ∈ store.links cell :=
  List.mem_filterMap.mpr ⟨item, Array.mem_toList_iff.mpr member, array⟩

theorem exists_of_mem_links (link : next ∈ store.links cell) :
    ∃ item ∈ store.items cell, item.asArray? = some next := by
  obtain ⟨item, member, array⟩ := List.mem_filterMap.mp link
  exact ⟨item, Array.mem_toList_iff.mp member, array⟩

theorem lt_of_mem_items {item : Value} (member : item ∈ store.items cell) :
    cell < store.cells.size := by
  by_contra outside
  simp [items, Array.getElem?_eq_none (Nat.le_of_not_lt outside)] at member

theorem lt_of_mem_links (link : next ∈ store.links cell) : cell < store.cells.size := by
  obtain ⟨_, member, _⟩ := exists_of_mem_links link
  exact lt_of_mem_items member

namespace Reaches

theorem trans (first : store.Reaches cell next) (second : store.Reaches next target) :
    store.Reaches cell target := by
  induction first with
  | refl => exact second
  | step link _ induction => exact .step link (induction second)

theorem single (link : next ∈ store.links cell) : store.Reaches cell next :=
  .step link (.refl next)

/-- A way to a cell depends only on the links of other cells: what comes after the cell was reached
for the first time can be left out. -/
theorem ofLinks {after : Store}
    (same : ∀ other, other ≠ target → after.links other = store.links other)
    (reaches : after.Reaches cell target) : store.Reaches cell target := by
  induction reaches with
  | refl => exact .refl _
  | @step from_ via to_ link _ induction =>
      by_cases arrived : from_ = to_
      · exact arrived ▸ .refl from_
      · rw [same from_ arrived] at link
        exact .step link (induction same)

theorem congr {after : Store} (same : ∀ cell, after.links cell = store.links cell)
    (reaches : after.Reaches cell target) : store.Reaches cell target :=
  reaches.ofLinks fun other _ => same other

end Reaches

/-- A value is an array from which another one can be reached, or that one itself. -/
def Leads (store : Store) (value : Value) (target : CellId) : Prop :=
  ∃ cell, value.asArray? = some cell ∧ store.Reaches cell target

theorem leads_array : store.Leads (.array cell) target ↔ store.Reaches cell target := by
  constructor
  · rintro ⟨_, ⟨⟩, reaches⟩
    exact reaches
  · exact fun reaches => ⟨cell, rfl, reaches⟩

theorem Leads.ofItem {item : Value} (leads : store.Leads item target)
    (member : item ∈ store.items cell) : store.Leads (.array cell) target := by
  obtain ⟨inner, array, reaches⟩ := leads
  exact ⟨cell, rfl, .step (mem_links member array) reaches⟩

theorem Acyclic.congr {after : Store} (acyclic : store.Acyclic)
    (same : ∀ cell, after.links cell = store.links cell) : after.Acyclic :=
  fun cell next link back => acyclic cell next (same cell ▸ link) (back.congr same)

section Descending

variable (descending : ∀ cell < store.cells.size, ∀ next ∈ store.links cell, next < cell)
include descending

/-- Where arrays hold only older ones, they lead only to older ones. -/
theorem le_of_reaches (reaches : store.Reaches cell target) : target ≤ cell := by
  induction reaches with
  | refl => exact Nat.le_refl _
  | step link _ induction =>
      exact Nat.le_trans induction (Nat.le_of_lt (descending _ (lt_of_mem_links link) _ link))

theorem Acyclic.ofDescending : store.Acyclic := by
  intro cell next link back
  exact Nat.not_lt_of_le (le_of_reaches descending back)
    (descending cell (lt_of_mem_links link) next link)

end Descending

section Search

/-- A cell that a search takes care of: it was seen, it is pending, or it leads nowhere. -/
def Covers (store : Store) (target : CellId) (pending seen : List CellId) (cell : CellId) :
    Prop :=
  cell ∈ seen ∨ cell ∈ pending ∨ cell ≠ target ∧ store.links cell = []

/-- When nothing is pending, the cells taken care of lead only to each other. -/
theorem not_reaches_of_covers {seen : List CellId} (absent : target ∉ seen)
    (closed : ∀ cell ∈ seen, ∀ next ∈ store.links cell, store.Covers target [] seen next)
    (covered : store.Covers target [] seen cell) : ¬store.Reaches cell target := by
  intro reaches
  induction reaches with
  | refl =>
      rcases covered with inSeen | inPending | ⟨different, _⟩
      · exact absent inSeen
      · simp at inPending
      · exact different rfl
  | step link _ induction =>
      rcases covered with inSeen | inPending | ⟨_, nowhere⟩
      · exact induction absent closed (closed _ inSeen _ link)
      · simp at inPending
      · simp [nowhere] at link

/-- A search that finds nothing has missed nothing, provided that the links of the cells seen so far
lead to cells that it takes care of. -/
theorem not_reaches_of_search {pending seen : List CellId}
    (finished : store.search target pending seen = false) (absent : target ∉ seen)
    (closed : ∀ cell ∈ seen, ∀ next ∈ store.links cell, store.Covers target pending seen next) :
    ∀ cell, store.Covers target pending seen cell → ¬store.Reaches cell target := by
  fun_induction store.search target pending seen with
  | case1 seen => exact fun cell covered => not_reaches_of_covers absent closed covered
  | case2 => simp at finished
  | case3 seen cell rest different known induction =>
      have onward : ∀ other, store.Covers target (cell :: rest) seen other →
          store.Covers target rest seen other := by
        intro other covered
        by_cases same : other = cell
        · exact .inl (by simpa [same] using known)
        · simpa [Covers, same] using covered
      intro other covered
      exact induction finished absent
        (fun c member next link => onward next (closed c member next link)) other
        (onward other covered)
  | case4 seen cell rest different unknown inside induction =>
      have onward : ∀ other, store.Covers target (cell :: rest) seen other →
          store.Covers target (store.links cell ++ rest) (cell :: seen) other := by
        intro other covered
        rcases covered with inSeen | inPending | nowhere
        · exact .inl (List.mem_cons_of_mem _ inSeen)
        · rcases List.mem_cons.mp inPending with rfl | inRest
          · exact .inl List.mem_cons_self
          · exact .inr (.inl (List.mem_append_right _ inRest))
        · exact .inr (.inr nowhere)
      have stillAbsent : target ∉ cell :: seen := by
        simpa [Ne.symm different] using absent
      intro other covered
      refine induction finished stillAbsent ?_ other (onward other covered)
      intro c member next link
      rcases List.mem_cons.mp member with rfl | inSeen
      · exact .inr (.inl (List.mem_append_left _ link))
      · exact onward next (closed c inSeen next link)
  | case5 seen cell rest different unknown outside induction =>
      have onward : ∀ other, store.Covers target (cell :: rest) seen other →
          store.Covers target rest seen other := by
        intro other covered
        by_cases same : other = cell
        · exact .inr (.inr (by rw [same]; exact ⟨different, links_eq_nil outside⟩))
        · simpa [Covers, same] using covered
      intro other covered
      exact induction finished absent
        (fun c member next link => onward next (closed c member next link)) other
        (onward other covered)

/-- Where the search finds no way back, there is none. -/
theorem not_reaches_of_wouldRecurse {value : Value}
    (safe : store.wouldRecurse target value = false) (array : value.asArray? = some cell) :
    ¬store.Reaches cell target := by
  obtain rfl := Value.eq_array array
  exact not_reaches_of_search safe (by simp) (by simp) _ (.inr (.inl (by simp)))

/-- What a search finds is there: one of the pending cells leads to the target. -/
theorem reaches_of_search {pending seen : List CellId}
    (found : store.search target pending seen = true) :
    ∃ cell ∈ pending, store.Reaches cell target := by
  have onward : ∀ {cell rest}, (∃ other ∈ rest, store.Reaches other target) →
      ∃ other ∈ cell :: rest, store.Reaches other target := by
    rintro cell rest ⟨other, member, reaches⟩
    exact ⟨other, List.mem_cons_of_mem _ member, reaches⟩
  fun_induction store.search target pending seen with
  | case1 => simp at found
  | case2 => exact ⟨target, List.mem_cons_self, .refl target⟩
  | case3 seen cell rest _ _ induction => exact onward (induction found)
  | case4 seen cell rest _ _ _ induction =>
      obtain ⟨next, member, reaches⟩ := induction found
      rcases List.mem_append.mp member with link | pending
      · exact ⟨cell, List.mem_cons_self, .step link reaches⟩
      · exact onward ⟨next, pending, reaches⟩
  | case5 seen cell rest _ _ _ induction => exact onward (induction found)

/-- The search decides whether a value leads to an array, in every store. -/
theorem wouldRecurse_iff {value : Value} :
    store.wouldRecurse target value = true ↔
      ∃ cell, value = .array cell ∧ store.Reaches cell target := by
  constructor
  · intro found
    unfold wouldRecurse at found
    split at found
    case h_1 cell =>
        obtain ⟨only, member, reaches⟩ := reaches_of_search found
        obtain rfl := List.mem_singleton.mp member
        exact ⟨only, rfl, reaches⟩
    case h_2 => cases found
  · rintro ⟨cell, rfl, reaches⟩
    by_contra missed
    exact not_reaches_of_wouldRecurse (Bool.eq_false_iff.mpr missed) rfl reaches

end Search

section Write

variable {items : Array Value}

theorem items_write (store : Store) (cell other : CellId) (items : Array Value) :
    (store.write cell items).items other =
      if other = cell ∧ cell < store.cells.size then items else store.items other := by
  unfold Store.items write
  rw [Array.getElem?_setIfInBounds]
  by_cases same : cell = other
  · subst same
    by_cases inside : cell < store.cells.size <;> simp [inside]
  · simp [same, Ne.symm same]

theorem links_write_of_ne {other : CellId} (different : other ≠ cell) :
    (store.write cell items).links other = store.links other := by
  simp [links, items_write, different]

/-- What an array links to after a write did not lead back to it before. -/
theorem not_reaches_of_admits (acyclic : store.Acyclic) (admits : store.Admits cell items)
    (link : next ∈ (store.write cell items).links cell) : ¬store.Reaches next cell := by
  obtain ⟨item, member, array⟩ := exists_of_mem_links link
  rw [items_write] at member
  split at member
  · rcases admits item member with before | safe
    · exact acyclic cell next (mem_links before array)
    · exact not_reaches_of_wouldRecurse safe array
  · exact acyclic cell next (mem_links member array)

/-- Ways that could not lead to the array before a write do not use its new elements. -/
theorem reaches_of_write (apart : ¬store.Reaches next cell)
    (reaches : (store.write cell items).Reaches next target) : store.Reaches next target := by
  induction reaches with
  | refl => exact .refl _
  | @step from_ via _ link _ induction =>
      have different : from_ ≠ cell := by
        rintro rfl
        exact apart (.refl from_)
      rw [links_write_of_ne different] at link
      exact .step link (induction fun back => apart (.step link back))

/-- Whether a way leads to an array does not depend on the elements of the array. -/
theorem reaches_write_iff :
    (store.write cell items).Reaches next cell ↔ store.Reaches next cell :=
  ⟨.ofLinks fun _ different => links_write_of_ne different,
    .ofLinks fun _ different => (links_write_of_ne different).symm⟩

/-- A way after a write was one before, or leads through the array written. -/
theorem reaches_or_through (reaches : (store.write cell items).Reaches next target) :
    store.Reaches next target ∨
      (store.write cell items).Reaches next cell ∧
        (store.write cell items).Reaches cell target := by
  induction reaches with
  | refl => exact .inl (.refl _)
  | @step from_ via _ link rest induction =>
      by_cases same : from_ = cell
      · subst same
        exact .inr ⟨.refl from_, .step link rest⟩
      · rcases induction with before | ⟨there, onward⟩
        · rw [links_write_of_ne same] at link
          exact .inl (.step link before)
        · exact .inr ⟨.step link there, onward⟩

theorem Acyclic.write (acyclic : store.Acyclic) (admits : store.Admits cell items) :
    (store.write cell items).Acyclic := by
  intro from_ next link back
  -- A cycle through the written array would have been a way back from one of its new elements.
  have apart : ∀ {via}, via ∈ (store.write cell items).links cell →
      ¬(store.write cell items).Reaches via cell := by
    intro via viaLink viaBack
    have safe := not_reaches_of_admits acyclic admits viaLink
    exact safe (reaches_of_write safe viaBack)
  by_cases same : from_ = cell
  · subst same
    exact apart link back
  · rcases reaches_or_through back with before | ⟨toCell, fromCell⟩
    · rw [links_write_of_ne same] at link
      exact acyclic from_ next link before
    · cases fromCell with
      | refl => exact same rfl
      | step viaLink rest => exact apart viaLink ((rest.trans (.single link)).trans toCell)

end Write

section Make

variable {items : Array Value}

theorem items_newArray (store : Store) (items : Array Value) (other : CellId) :
    (store.newArray items).2.items other =
      if other = store.cells.size then items else store.items other := by
  unfold Store.items newArray
  rw [Array.getElem?_push]
  split <;> rfl

/-- A value that names no array but one of the store. -/
def Has (store : Store) (value : Value) : Prop :=
  ∀ cell, value.asArray? = some cell → cell < store.cells.size

theorem Has.ofPlain {value : Value} (plain : value.asArray? = none) : store.Has value := by
  simp [Has, plain]

theorem Has.ofMentioned {value : Value} (mentioned : store.Mentions value) : store.Has value := by
  obtain ⟨ref, rfl, -⟩ := mentioned
  exact .ofPlain rfl

theorem Acyclic.newArray (acyclic : store.Acyclic)
    (closed : ∀ cell, ∀ value ∈ store.items cell, store.Has value)
    (held : ∀ item ∈ items, store.Has item) : (store.newArray items).2.Acyclic := by
  have older : ∀ {cell next}, next ∈ (store.newArray items).2.links cell →
      next < store.cells.size := by
    intro cell next link
    obtain ⟨item, member, array⟩ := exists_of_mem_links link
    rw [items_newArray] at member
    split at member
    · exact held item member next array
    · exact closed cell item member next array
  have sameLinks : ∀ {cell}, cell < store.cells.size →
      (store.newArray items).2.links cell = store.links cell := by
    intro cell inside
    simp [links, items_newArray, Nat.ne_of_lt inside]
  -- Nothing links to the new array, so a way from an old one stays among the old ones.
  have before : ∀ {from_ to_}, (store.newArray items).2.Reaches from_ to_ →
      from_ < store.cells.size → store.Reaches from_ to_ ∧ to_ < store.cells.size := by
    intro from_ to_ reaches
    induction reaches with
    | refl => exact fun inside => ⟨.refl _, inside⟩
    | step link _ induction =>
        intro inside
        obtain ⟨rest, bounded⟩ := induction (older link)
        rw [sameLinks inside] at link
        exact ⟨.step link rest, bounded⟩
  intro cell next link back
  obtain ⟨reaches, inside⟩ := before back (older link)
  rw [sameLinks inside] at link
  exact acyclic cell next link reaches

end Make

end Store

end SimScript
