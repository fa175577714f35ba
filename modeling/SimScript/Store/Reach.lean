import SimScript.Store.Basic

/-!
# Which cells a value reaches

An array must not come to contain itself.  `Store.wouldRecurse` decides, before a
value is put into an array, whether the value already leads to that array.
-/

namespace SimScript.Store

/-- The array cells among the elements of a cell. -/
def links (store : Store) (cell : CellId) : List CellId :=
  (store.items cell).toList.filterMap Value.asArray?

/-- Following zero or more element links from one cell leads to another. -/
inductive Reaches (store : Store) : CellId → CellId → Prop where
  | refl (cell : CellId) : Reaches store cell cell
  | step {cell next target : CellId} (link : next ∈ store.links cell)
      (rest : Reaches store next target) : Reaches store cell target

def unseen (store : Store) (seen : List CellId) : Nat :=
  ((List.range store.cells.size).filter fun cell => !seen.contains cell).length

theorem links_eq_nil {store : Store} {cell : CellId} (outside : ¬cell < store.cells.size) :
    store.links cell = [] := by
  simp [links, items, Array.getElem?_eq_none (Nat.le_of_not_lt outside)]

theorem unseen_cons_lt {store : Store} {seen : List CellId} {cell : CellId}
    (inside : cell < store.cells.size) (fresh : ¬seen.contains cell) :
    store.unseen (cell :: seen) < store.unseen seen := by
  have split : (List.range store.cells.size).filter (fun other => !(cell :: seen).contains other)
      = ((List.range store.cells.size).filter fun other => !seen.contains other).filter
          fun other => other != cell := by
    rw [List.filter_filter]
    apply List.filter_congr
    intro other _
    by_cases same : other = cell <;> simp [same, bne]
  rw [unseen, unseen, split]
  apply List.length_filter_lt_length_iff_exists.mpr
  refine ⟨cell, ?_, by simp⟩
  simp only [List.mem_filter, List.mem_range]
  exact ⟨inside, by simpa using fresh⟩

/-- Searches for `target` from the pending cells, past those already seen. -/
def search (store : Store) (target : CellId) (pending seen : List CellId) : Bool :=
  match pending with
  | [] => false
  | cell :: rest =>
      if cell = target then true
      else if seen.contains cell then store.search target rest seen
      else if cell < store.cells.size then
        store.search target (store.links cell ++ rest) (cell :: seen)
      else store.search target rest seen
termination_by (store.unseen seen, pending.length)
decreasing_by
  · exact Prod.Lex.right _ (Nat.lt_succ_self _)
  · exact Prod.Lex.left _ _ (unseen_cons_lt ‹_› ‹_›)
  · exact Prod.Lex.right _ (Nat.lt_succ_self _)

/-- Whether putting `value` into the array `target` would make the array contain itself. -/
def wouldRecurse (store : Store) (target : CellId) (value : Value) : Bool :=
  match value with
  | .array cell => store.search target [cell] []
  | _ => false

end SimScript.Store
