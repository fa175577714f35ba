import Mathlib.Data.List.Nodup
import Mathlib.Data.List.Pairwise
import SimScript.Proofs.Plan.Effect
import SimScript.Proofs.Command.Requests

/-!
# The table of objects

A reference means an object by its number.  Numbers are given in order of creation and
never again, so the registry stays in that order, and every object that has not been
deleted stands in it once.
-/

namespace SimScript

/-- An object was created before another one. -/
def ObjectRef.Before (earlier later : ObjectRef) : Prop :=
  ∃ first ∈ earlier.id, ∃ second ∈ later.id, first < second

theorem ObjectRef.eq_of_kind_of_id {left right : ObjectRef} (kind : left.kind = right.kind)
    (id : left.id = right.id) : left = right := by
  cases left
  cases right
  rw [ObjectRef.mk.injEq]
  exact ⟨kind, id⟩

theorem ObjectRef.Before.apart {earlier later : ObjectRef} (before : earlier.Before later) :
    earlier.id ≠ later.id := by
  obtain ⟨first, named, second, later, before⟩ := before
  intro same
  rw [same, later] at named
  exact absurd before (Option.some.inj named ▸ Nat.lt_irrefl _)

/-- A reference that is of the kind that its object was created with. -/
def ObjectRef.IsOf (kindOf : ObjectId → ObjectKind) (ref : ObjectRef) : Prop :=
  ∀ id ∈ ref.id, ref.kind = kindOf id

namespace ObjectTable

/-- The registry is in order of creation, and lists every live object. -/
structure Enrolled (table : ObjectTable) : Prop where
  ascending : table.registry.Pairwise ObjectRef.Before
  given : ∀ ref ∈ table.registry, ∃ id ∈ ref.id, id < table.data.size
  complete : ∀ ref, table.isNull ref = false → ∃ entry ∈ table.registry, entry.id = ref.id

/-- The same objects are there, with everyone where they were. -/
structure Alike (before after : ObjectTable) : Prop where
  registry : after.registry = before.registry
  size : after.data.size = before.data.size
  rosters : ∀ ref, (after.get? ref).map ObjectData.roster = (before.get? ref).map ObjectData.roster

/-- Some objects may have been deleted, and nothing else has happened. -/
structure Loses (before after : ObjectTable) : Prop where
  size : after.data.size = before.data.size
  kept : ∀ ref data, after.get? ref = some data → before.get? ref = some data
  registry : after.registry.Sublist before.registry
  enrolled : ∀ ref ∈ before.registry, after.isNull ref = false → ref ∈ after.registry

variable {table before middle after : ObjectTable} {ref other entry : ObjectRef}
  {data : ObjectData} {kind : ObjectKind} {change : ObjectData → ObjectData}

/-! ## What is found under a reference -/

theorem get?_eq_some_iff :
    table.get? ref = some data ↔
      ∃ id, ref.id = some id ∧ table.data[id]? = some data ∧ data.deleted = false := by
  simp only [get?, record?, Option.filter_eq_some_iff, Option.bind_eq_some_iff,
    Bool.not_eq_true', ← and_assoc, ← exists_and_right]

theorem get?_congr (same : other.id = ref.id) : table.get? other = table.get? ref := by
  simp only [get?, record?, same]

theorem isNull_congr (same : other.id = ref.id) : table.isNull other = table.isNull ref := by
  rw [isNull, isNull, get?_congr same]

theorem isNull_eq_false_iff : table.isNull ref = false ↔ ∃ data, table.get? ref = some data := by
  simp [isNull, Option.isSome_iff_exists]

theorem size_of_live (live : table.isNull ref = false) : ∃ id ∈ ref.id, id < table.data.size := by
  obtain ⟨data, found⟩ := isNull_eq_false_iff.mp live
  obtain ⟨id, named, stored, _⟩ := get?_eq_some_iff.mp found
  exact ⟨id, named, (Array.getElem?_eq_some_iff.mp stored).1⟩

theorem same_iff :
    table.same other ref = true ↔
      (∃ id, other.id = some id ∧ ref.id = some id) ∨
        table.isNull other = true ∧ table.isNull ref = true ∧
          other.kind.valueType = ref.kind.valueType := by
  simp only [same, Bool.or_eq_true, Bool.and_eq_true, Option.isSome_iff_exists, beq_iff_eq,
    and_assoc]
  refine or_congr_left ⟨?_, ?_⟩
  · rintro ⟨⟨id, named⟩, one⟩
    exact ⟨id, named, one.symm.trans named⟩
  · rintro ⟨id, left, right⟩
    exact ⟨⟨id, left⟩, left.trans right.symm⟩

theorem same_self : table.same ref ref = true := by
  cases named : ref.id with
  | none =>
      have missing : table.isNull ref = true := by simp [isNull, get?, record?, named]
      exact same_iff.mpr (.inr ⟨missing, missing, rfl⟩)
  | some id => exact same_iff.mpr (.inl ⟨id, named, named⟩)

theorem same_symm (same : table.same other ref = true) : table.same ref other = true := by
  rw [same_iff] at same ⊢
  rcases same with ⟨id, left, right⟩ | ⟨left, right, kinds⟩
  · exact .inl ⟨id, right, left⟩
  · exact .inr ⟨right, left, kinds.symm⟩

/-- A deleted object is one with the null objects of its type, so it takes all references to it to
be of one kind for this to be transitive. -/
theorem same_trans {last : ObjectRef} {kindOf : ObjectId → ObjectKind} (ofOther : other.IsOf kindOf)
    (ofRef : ref.IsOf kindOf) (ofLast : last.IsOf kindOf) (first : table.same other ref = true)
    (second : table.same ref last = true) : table.same other last = true := by
  rw [same_iff] at first second ⊢
  rcases first with ⟨id, left, middle⟩ | ⟨left, middle, kinds⟩
  · rcases second with ⟨id', middle', right⟩ | ⟨middleNull, right, kinds⟩
    · exact .inl ⟨id', left.trans (middle.symm.trans middle'), right⟩
    · have oneKind : other.kind = ref.kind := (ofOther id left).trans (ofRef id middle).symm
      have sameNull : table.isNull other = table.isNull ref :=
        isNull_congr (left.trans middle.symm)
      exact .inr ⟨sameNull.trans middleNull, right, oneKind ▸ kinds⟩
  · rcases second with ⟨id, middle', right⟩ | ⟨_, right, kinds'⟩
    · have oneKind : ref.kind = last.kind := (ofRef id middle').trans (ofLast id right).symm
      have sameNull : table.isNull last = table.isNull ref :=
        isNull_congr (right.trans middle'.symm)
      exact .inr ⟨left, sameNull.trans middle, oneKind ▸ kinds⟩
    · exact .inr ⟨left, right, kinds.trans kinds'⟩

theorem same_iff_of_live (live : table.isNull ref = false) :
    table.same other ref = true ↔ other.id = ref.id := by
  obtain ⟨id, named, _⟩ := size_of_live live
  rw [same_iff]
  constructor
  · rintro (⟨_, left, right⟩ | ⟨-, null, -⟩)
    · exact left.trans right.symm
    · rw [live] at null
      cases null
  · intro same
    exact .inl ⟨id, same.trans named, named⟩

theorem get?_update :
    (table.update ref change).get? other =
      if other.id = ref.id then
        ((table.get? other).map change).filter fun data => !data.deleted
      else table.get? other := by
  unfold update
  split
  case h_1 id old named found =>
      obtain ⟨_, same, stored, live⟩ := get?_eq_some_iff.mp found
      obtain rfl : id = _ := Option.some.inj (named.symm.trans same)
      have inside : id < table.data.size := (Array.getElem?_eq_some_iff.mp stored).1
      by_cases refersTo : other.id = ref.id
      · have here : table.get? other = some old := (get?_congr refersTo).trans found
        rw [if_pos refersTo, here]
        simp [get?, record?, refersTo, named, inside]
      · rw [if_neg refersTo]
        cases elsewhere : other.id with
        | none => simp [get?, record?, elsewhere]
        | some place =>
            have apart : id ≠ place := by
              rintro rfl
              exact refersTo (elsewhere.trans named.symm)
            simp [get?, record?, elsewhere, apart]
  case h_2 missing =>
      split
      case isFalse => rfl
      case isTrue refersTo =>
          -- A live object has a number, so a reference to it cannot be the one that is missing.
          cases found : table.get? other with
          | none => rfl
          | some data =>
              obtain ⟨id, named, _⟩ := get?_eq_some_iff.mp found
              exact absurd ((get?_congr refersTo).symm.trans found)
                (missing id data (refersTo.symm.trans named))

/-- A change that deletes nothing is seen under every reference to the object, and nowhere else. -/
theorem get?_update_of_kept (kept : ∀ data, (change data).deleted = data.deleted) :
    (table.update ref change).get? other =
      (table.get? other).map fun data => if other.id = ref.id then change data else data := by
  rw [get?_update]
  cases found : table.get? other with
  | none => simp
  | some data =>
      obtain ⟨_, _, _, live⟩ := get?_eq_some_iff.mp found
      by_cases same : other.id = ref.id <;> simp [same, live, kept]

theorem isNull_update_of_kept (kept : ∀ data, (change data).deleted = data.deleted) :
    (table.update ref change).isNull other = table.isNull other := by
  rw [isNull, isNull, get?_update_of_kept kept, Option.isNone_map]

@[simp] theorem size_update : (table.update ref change).data.size = table.data.size := by
  unfold update
  split
  · exact Array.size_setIfInBounds
  · rfl

theorem get?_create (present : data.deleted = false) :
    (table.create kind data).get? ref =
      if ref.id = some table.data.size then some data else table.get? ref := by
  cases named : ref.id with
  | none => simp [get?, record?, named]
  | some id =>
      by_cases new : id = table.data.size
      · simp [get?, record?, create, named, new, present]
      · have apart : table.data.size ≠ id := Ne.symm new
        simp [get?, record?, create, named, new, Array.getElem?_push]

theorem get?_destroy :
    (table.destroy ref).get? other = if other.id = ref.id then none else table.get? other := by
  rw [destroy, get?_update]
  split
  · cases table.get? other <;> rfl
  · rfl

/-! ## The registry -/

theorem mem_live : ref ∈ table.live ↔ ref ∈ table.registry ∧ table.isNull ref = false := by
  simp [live, List.mem_filter]

namespace Enrolled

theorem empty : Enrolled {} where
  ascending := .nil
  given := nofun
  complete := fun ref live => by
    obtain ⟨_, _, inside⟩ := size_of_live live
    exact absurd inside (Nat.not_lt_zero _)

theorem eq_of_id (enrolled : table.Enrolled) (first : entry ∈ table.registry)
    (second : other ∈ table.registry) (same : entry.id = other.id) : entry = other := by
  by_contra apart
  have either : table.registry.Pairwise fun left right => left.Before right ∨ right.Before left :=
    enrolled.ascending.imp Or.inl
  have symmetric : Std.Symm fun left right : ObjectRef => left.Before right ∨ right.Before left :=
    ⟨fun _ _ => Or.symm⟩
  rcases either.forall first second apart with before | before
  · exact ObjectRef.Before.apart before same
  · exact ObjectRef.Before.apart before same.symm

theorem nodup (enrolled : table.Enrolled) : table.registry.Nodup :=
  enrolled.ascending.imp fun before same => before.apart (congrArg ObjectRef.id same)

theorem countP_registry (enrolled : table.Enrolled) (live : table.isNull ref = false) :
    table.registry.countP (fun entry => entry.id = ref.id) = 1 := by
  obtain ⟨entry, member, named⟩ := enrolled.complete ref live
  rw [← List.count_eq_one_of_mem enrolled.nodup member]
  refine List.countP_congr fun other inside => ?_
  rw [decide_eq_true_eq, beq_iff_eq]
  constructor
  · intro same
    exact enrolled.eq_of_id inside member (same.trans named.symm)
  · rintro rfl
    exact named

theorem alike (enrolled : before.Enrolled) (alike : before.Alike after) : after.Enrolled where
  ascending := alike.registry ▸ enrolled.ascending
  given := by
    rw [alike.registry, alike.size]
    exact enrolled.given
  complete := fun ref live => by
    have there := congrArg Option.isSome (alike.rosters ref)
    rw [alike.registry]
    refine enrolled.complete ref ?_
    simpa [isNull] using there.symm.trans (by simpa [isNull] using live)

theorem update (enrolled : table.Enrolled) (ref : ObjectRef)
    (change : ObjectData → ObjectData) : (table.update ref change).Enrolled where
  ascending := by
    rw [registry_update]
    exact enrolled.ascending
  given := by
    rw [registry_update, size_update]
    exact enrolled.given
  complete := fun other live => by
    rw [registry_update]
    refine enrolled.complete other ?_
    obtain ⟨data, found⟩ := isNull_eq_false_iff.mp live
    rw [get?_update] at found
    split at found
    · cases there : table.get? other with
      | none => simp [there] at found
      | some old => exact isNull_eq_false_iff.mpr ⟨old, there⟩
    · exact isNull_eq_false_iff.mpr ⟨data, found⟩

theorem create (enrolled : table.Enrolled) (present : data.deleted = false) :
    (table.create kind data).Enrolled where
  ascending := by
    refine List.pairwise_append.mpr ⟨enrolled.ascending, List.pairwise_singleton _ _, ?_⟩
    intro entry member new last
    obtain rfl := List.mem_singleton.mp last
    obtain ⟨id, named, inside⟩ := enrolled.given entry member
    exact ⟨id, named, table.data.size, rfl, inside⟩
  given := fun entry member => by
    have size : (table.create kind data).data.size = table.data.size + 1 := Array.size_push _
    rw [size]
    rcases List.mem_append.mp member with old | new
    · obtain ⟨id, named, inside⟩ := enrolled.given entry old
      exact ⟨id, named, Nat.lt_succ_of_lt inside⟩
    · obtain rfl := List.mem_singleton.mp new
      exact ⟨table.data.size, rfl, Nat.lt_succ_self _⟩
  complete := fun ref live => by
    obtain ⟨found, there⟩ := isNull_eq_false_iff.mp live
    rw [get?_create present] at there
    split at there
    case isTrue new =>
      exact ⟨table.next kind, List.mem_append_right _ (List.mem_singleton_self _), new.symm⟩
    case isFalse =>
      obtain ⟨entry, member, same⟩ := enrolled.complete ref (isNull_eq_false_iff.mpr ⟨_, there⟩)
      exact ⟨entry, List.mem_append_left _ member, same⟩

theorem loses (enrolled : before.Enrolled) (loses : before.Loses after) : after.Enrolled where
  ascending := enrolled.ascending.sublist loses.registry
  given := by
    rw [loses.size]
    exact fun entry member => enrolled.given entry (loses.registry.subset member)
  complete := fun ref live => by
    obtain ⟨data, found⟩ := isNull_eq_false_iff.mp live
    have old := isNull_eq_false_iff.mpr ⟨data, loses.kept ref data found⟩
    obtain ⟨entry, member, same⟩ := enrolled.complete ref old
    exact ⟨entry, loses.enrolled entry member ((isNull_congr same).trans live), same⟩

end Enrolled

theorem Alike.refl (table : ObjectTable) : table.Alike table :=
  ⟨rfl, rfl, fun _ => rfl⟩

theorem Alike.trans (first : before.Alike middle) (second : middle.Alike after) :
    before.Alike after :=
  ⟨second.registry.trans first.registry, second.size.trans first.size,
    fun ref => (second.rosters ref).trans (first.rosters ref)⟩

theorem alike_update (inert : ObjectData.Inert change) : table.Alike (table.update ref change) := by
  refine ⟨registry_update ref change, size_update, fun other => ?_⟩
  rw [get?_update_of_kept fun data => congrArg (·.2.2) (inert data), Option.map_map]
  congr 1
  funext data
  dsimp only [Function.comp]
  split
  · exact inert data
  · rfl

theorem alike_updateObjects {updates : List (ObjectRef × (ObjectData → ObjectData))}
    (inert : ∀ update ∈ updates, ObjectData.Inert update.2) :
    table.Alike ((Change.updateObjects updates).objects table) := by
  induction updates generalizing table with
  | nil => exact .refl table
  | cons update rest induction =>
      obtain ⟨first, others⟩ := List.forall_mem_cons.mp inert
      exact (alike_update first).trans (induction others)

theorem Loses.refl (table : ObjectTable) : table.Loses table :=
  ⟨rfl, fun _ _ => id, List.Sublist.refl _, fun _ member _ => member⟩

theorem Loses.trans (first : before.Loses middle) (second : middle.Loses after) :
    before.Loses after where
  size := second.size.trans first.size
  kept := fun ref data found => first.kept ref data (second.kept ref data found)
  registry := second.registry.trans first.registry
  enrolled := fun ref member live => by
    obtain ⟨data, found⟩ := isNull_eq_false_iff.mp live
    have old := isNull_eq_false_iff.mpr ⟨data, second.kept ref data found⟩
    exact second.enrolled ref (first.enrolled ref member old) live

theorem loses_destroy (table : ObjectTable) (ref : ObjectRef) :
    table.Loses (table.destroy ref) where
  size := size_update
  kept := fun other data found => by
    rw [get?_destroy] at found
    split at found
    · cases found
    · exact found
  registry := by
    rw [destroy, registry_update]
  enrolled := fun other member _ => by
    rwa [destroy, registry_update]

theorem loses_forgetDeleted (table : ObjectTable) : table.Loses table.forgetDeleted where
  size := rfl
  kept := fun _ _ => id
  registry := List.filter_sublist
  enrolled := fun ref member live => by
    refine List.mem_filter.mpr ⟨member, ?_⟩
    rwa [Bool.not_eq_true']

end ObjectTable

end SimScript
