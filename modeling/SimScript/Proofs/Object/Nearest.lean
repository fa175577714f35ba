import SimScript.Command.Object
import SimScript.Proofs.Config.Ancestry
import SimScript.Proofs.Object.Table
import SimScript.Proofs.Scalar.Steps

/-!
# The objects around a place

The registry is gone through in order of creation, and what is near enough is sorted by
its distance.  The sort keeps that order among objects that are equally far away.  A
distance within the radius is a number, so these distances are in one order.
-/

namespace SimScript

/-! ## Sorting by distance -/

section Sorting

variable {α : Type} {order : α → α → Bool} {relation : α → α → Prop} {items : List α}

theorem pairwise_mergeSort_of_pairwise
    (trans : ∀ first second third, order first second → order second third → order first third)
    (total : ∀ first second, order first second || order second first)
    (ordered : items.Pairwise relation) :
    (items.mergeSort order).Pairwise fun first second =>
      order first second = true ∧ (order second first = true → relation first second) := by
  have sorted := List.pairwise_mergeSort trans total items
  rw [List.pairwise_iff_forall_sublist] at sorted ordered ⊢
  intro first second inside
  refine ⟨sorted inside, fun back => ordered ?_⟩
  -- Whatever ties with the first one is in order already, so the sort leaves it as it is.
  let ties (item : α) : Bool := order first item && order item first
  have kept : (items.filter ties).Sublist (items.mergeSort order) := by
    refine List.sublist_mergeSort trans total ?_ List.filter_sublist
    refine List.pairwise_of_forall_mem_list fun left inLeft right inRight => ?_
    have leftTies := Bool.and_eq_true_iff.mp (List.mem_filter.mp inLeft).2
    have rightTies := Bool.and_eq_true_iff.mp (List.mem_filter.mp inRight).2
    exact trans _ _ _ leftTies.2 rightTies.1
  have same : items.filter ties = (items.mergeSort order).filter ties := by
    have all : (items.filter ties).filter ties = items.filter ties := by
      rw [List.filter_filter]
      simp
    refine List.Sublist.eq_of_length (all ▸ kept.filter ties) ?_
    exact ((List.mergeSort_perm items order).filter ties).length_eq.symm
  have self : order first first = true := by simpa using total first first
  have both : [first, second].filter ties = [first, second] := by
    simp [ties, self, sorted inside, back]
  have among : [first, second].Sublist (items.filter ties) := by
    rw [same, ← both]
    exact inside.filter ties
  exact among.trans List.filter_sublist

/-- The height of a double that has one. -/
def Scalar.heightOf (x : Float) : Int :=
  (Scalar.height? x.toModel.unpack).getD 0

theorem Scalar.hasHeight_heightOf {x limit : Float} (below : x ≤ limit) :
    Scalar.HasHeight x (Scalar.heightOf x) := by
  obtain ⟨⟨height, stands⟩, -⟩ := Scalar.exists_hasHeight_of_le below
  have same : Scalar.heightOf x = height := congrArg (Option.getD · 0) stands
  rwa [same]

/-- What is near enough is sorted by distance, and what is equally far away stays in order. -/
theorem pairwise_nearestFirst {near : List (Float × α)} {nearer : Float × α → Float × α → Prop}
    {radius : Float} (within : ∀ item ∈ near, item.1 ≤ radius) (ordered : near.Pairwise nearer) :
    (near.mergeSort fun left right => left.1 ≤ right.1).Pairwise fun first second =>
      first.1 < second.1 ∨ (first.1 == second.1) = true ∧ nearer first second := by
  -- Distances are compared by their heights, which are in one order even where some are missing.
  let lower (left right : Float × α) : Bool :=
    Scalar.heightOf left.1 ≤ Scalar.heightOf right.1
  have stands : ∀ item ∈ near, Scalar.HasHeight item.1 (Scalar.heightOf item.1) :=
    fun item member => Scalar.hasHeight_heightOf (within item member)
  have same : near.mergeSort (fun left right => left.1 ≤ right.1) = near.mergeSort lower := by
    have mapped := List.map_mergeSort (f := id) (l := near) (s := lower)
      (r := fun left right => left.1 ≤ right.1) ?_
    · simpa only [List.map_id] using mapped
    · intro left inLeft right inRight
      have heights := (stands left inLeft).le_iff (stands right inRight)
      simp only [lower, id_eq, heights]
  rw [same]
  have sorted := @pairwise_mergeSort_of_pairwise _ lower _ _ ?_ ?_ ordered
  · refine sorted.imp_of_mem fun {first second} inFirst inSecond ordered => ?_
    obtain ⟨below, ties⟩ := ordered
    have left := stands first (List.mem_mergeSort.mp inFirst)
    have right := stands second (List.mem_mergeSort.mp inSecond)
    rw [left.lt_iff right, left.beq_iff right]
    rcases (of_decide_eq_true below).lt_or_eq with less | equal
    · exact .inl less
    · exact .inr ⟨equal, ties (decide_eq_true equal.symm.le)⟩
  · intro first second third left right
    exact decide_eq_true ((of_decide_eq_true left).trans (of_decide_eq_true right))
  · intro first second
    simp only [lower, Bool.or_eq_true, decide_eq_true_eq]
    exact le_total _ _

end Sorting

/-! ## Kinds of vehicles -/

/-- A class is of a kind: some name on its chain of parents is the wanted one, but for the case of
letters; a class that is not among the vehicles has its own name only. -/
inductive ConfigTree.OfKind (tree : ConfigTree) (className base : String) : Prop where
  | descends {container current : ConfigClass} {ancestor : String}
      (leads : tree.root.classAt? ["CfgVehicles"] = some container)
      (isClass : container.class? className = some current)
      (descends : container.Descends className ancestor)
      (fits : Text.sameName ancestor base = true)
  | unknown
      (missing : ∀ container, tree.root.classAt? ["CfgVehicles"] = some container →
        container.class? className = none)
      (fits : Text.sameName className base = true)

theorem Command.isKindOfVehicle_iff {tree : ConfigTree} {className base : String} :
    isKindOfVehicle tree className base = true ↔ tree.OfKind className base := by
  by_cases missing : ∀ container, tree.root.classAt? ["CfgVehicles"] = some container →
      container.class? className = none
  · rw [isKindOfVehicle, ConfigTree.isKindOf?_eq_none_iff.mpr missing, Option.getD_none]
    refine ⟨.unknown missing, ?_⟩
    rintro (⟨leads, isClass, -, -⟩ | ⟨-, fits⟩)
    · cases isClass.symm.trans (missing _ leads)
    · exact fits
  · push Not at missing
    obtain ⟨container, leads, there⟩ := missing
    obtain ⟨current, isClass⟩ := Option.ne_none_iff_exists'.mp there
    have asked : tree.isKindOf? ["CfgVehicles"] className base = some true ↔ _ :=
      ConfigTree.isKindOf?_eq_true_iff leads isClass
    obtain ⟨key, -, -, answer⟩ := tree.isKindOf?_of_class? leads isClass base
    rw [isKindOfVehicle, answer, Option.getD_some]
    rw [answer, Option.some.injEq] at asked
    rw [asked]
    constructor
    · rintro ⟨ancestor, descends, fits⟩
      exact .descends leads isClass descends fits
    · rintro (⟨leads', isClass', descends, fits⟩ | ⟨missing, -⟩)
      · cases Option.some.inj (leads.symm.trans leads')
        exact ⟨_, descends, fits⟩
      · cases isClass.symm.trans (missing _ leads)

/-! ## Searching -/

/-- What is looked for around a place. -/
structure Search where
  center : Vec3
  classes : List String
  radius : Float
  /-- Whether heights do not count. -/
  flat : Bool

def Search.away (search : Search) (data : ObjectData) : Float :=
  Vec3.distance search.center data.position search.flat

/-- Whether an object is looked for: its class is of a listed kind, if there is a list, and it is
near enough. -/
structure Search.Wants (search : Search) (configs : ConfigTree) (data : ObjectData) : Prop where
  kind : search.classes = [] ∨ ∃ base ∈ search.classes, configs.OfKind data.className base
  near : search.away data ≤ search.radius

namespace ObjectTable

/-- A list has what is looked for among the live objects but groups, each once; the nearest come
first, and those that are equally far away in order of creation. -/
structure Finds (table : ObjectTable) (configs : ConfigTree) (search : Search)
    (found : List ObjectRef) : Prop where
  nodup : found.Nodup
  mem_iff : ∀ ref, ref ∈ found ↔ ref ∈ table.live ∧ ref.kind ≠ .group ∧
    ∃ data, table.get? ref = some data ∧ search.Wants configs data
  sorted : found.Pairwise fun nearer farther => ∀ first second,
    table.get? nearer = some first → table.get? farther = some second →
      search.away first < search.away second ∨
        (search.away first == search.away second) = true ∧ nearer.Before farther

theorem Enrolled.exists_live {table : ObjectTable} {ref : ObjectRef} (enrolled : table.Enrolled)
    (live : table.isNull ref = false) : ∃ entry ∈ table.live, entry.id = ref.id := by
  obtain ⟨entry, member, same⟩ := enrolled.complete ref live
  exact ⟨entry, mem_live.mpr ⟨member, (isNull_congr same).trans live⟩, same⟩

theorem Enrolled.live_ascending {table : ObjectTable} (enrolled : table.Enrolled) :
    table.live.Pairwise ObjectRef.Before :=
  enrolled.ascending.filter _

end ObjectTable

namespace Command

variable {exec : Execution} {search : Search} {item : Float × ObjectRef}

def nearby? (exec : Execution) (search : Search) (ref : ObjectRef) : Option (Float × ObjectRef) :=
  match (objectsOf exec).get? ref with
  | none => none
  | some data =>
      if ref.kind != .group &&
          (search.classes.isEmpty ||
            search.classes.any (isKindOfVehicle exec.world.configs data.className)) &&
          search.away data ≤ search.radius
      then some (search.away data, ref)
      else none

theorem objectsNear_eq (exec : Execution) (search : Search) :
    objectsNear exec search.center search.classes search.radius search.flat =
      (((objectsOf exec).live.filterMap (nearby? exec search)).mergeSort
        fun left right => left.1 ≤ right.1).map Prod.snd := rfl

theorem nearby?_eq_some_iff {ref : ObjectRef} :
    nearby? exec search ref = some item ↔ item.2 = ref ∧ ref.kind ≠ .group ∧
      ∃ data, (objectsOf exec).get? ref = some data ∧ search.Wants exec.world.configs data ∧
        item.1 = search.away data := by
  unfold nearby?
  cases found : (objectsOf exec).get? ref with
  | none => simp
  | some data =>
      have wants : ((search.classes.isEmpty ||
            search.classes.any (isKindOfVehicle exec.world.configs data.className)) = true ∧
          search.away data ≤ search.radius) ↔ search.Wants exec.world.configs data := by
        simp only [Bool.or_eq_true, List.isEmpty_iff, List.any_eq_true, isKindOfVehicle_iff]
        exact ⟨fun ⟨kind, near⟩ => ⟨kind, near⟩, fun wants => ⟨wants.kind, wants.near⟩⟩
      simp only [Option.ite_none_right_eq_some, Bool.and_eq_true, decide_eq_true_eq, bne_iff_ne,
        and_assoc, wants, Option.some.injEq, exists_eq_left', Prod.ext_iff]
      tauto

/-- The search is exact. -/
theorem objectsNear_finds (enrolled : (objectsOf exec).Enrolled) (search : Search) :
    (objectsOf exec).Finds exec.world.configs search
      (objectsNear exec search.center search.classes search.radius search.flat) := by
  rw [objectsNear_eq]
  generalize listed : (objectsOf exec).live.filterMap (nearby? exec search) = near
  have mem_near : ∀ item, item ∈ near ↔ item.2 ∈ (objectsOf exec).live ∧ item.2.kind ≠ .group ∧
      ∃ data, (objectsOf exec).get? item.2 = some data ∧ search.Wants exec.world.configs data ∧
        item.1 = search.away data := by
    intro item
    simp only [← listed, List.mem_filterMap, nearby?_eq_some_iff]
    constructor
    · rintro ⟨ref, member, rfl, wanted⟩
      exact ⟨member, wanted⟩
    · rintro ⟨member, wanted⟩
      exact ⟨item.2, member, rfl, wanted⟩
  have ordered : near.Pairwise fun first second => first.2.Before second.2 := by
    rw [← listed]
    refine enrolled.live_ascending.filterMap _ ?_
    intro first second before item isItem other isOther
    rw [(nearby?_eq_some_iff.mp isItem).1, (nearby?_eq_some_iff.mp isOther).1]
    exact before
  have within : ∀ item ∈ near, item.1 ≤ search.radius := by
    intro item member
    obtain ⟨-, -, data, -, wants, away⟩ := (mem_near item).mp member
    exact away ▸ wants.near
  refine ⟨?_, ?_, ?_⟩
  · have apart : (near.map Prod.snd).Nodup := by
      refine List.pairwise_map.mpr (ordered.imp fun before same => ?_)
      exact before.apart (congrArg ObjectRef.id same)
    exact ((List.mergeSort_perm near _).map Prod.snd).nodup_iff.mpr apart
  · intro ref
    simp only [List.mem_map, List.mem_mergeSort]
    constructor
    · rintro ⟨item, member, rfl⟩
      obtain ⟨live, kind, data, found, wants, -⟩ := (mem_near item).mp member
      exact ⟨live, kind, data, found, wants⟩
    · rintro ⟨live, kind, data, found, wants⟩
      exact ⟨(search.away data, ref), (mem_near _).mpr ⟨live, kind, data, found, wants, rfl⟩, rfl⟩
  · refine List.pairwise_map.mpr ((pairwise_nearestFirst within ordered).imp_of_mem ?_)
    intro nearer farther inNearer inFarther sorted first second isFirst isSecond
    obtain ⟨-, -, data, found, -, away⟩ := (mem_near _).mp (List.mem_mergeSort.mp inNearer)
    obtain ⟨-, -, other, there, -, far⟩ := (mem_near _).mp (List.mem_mergeSort.mp inFarther)
    obtain rfl := Option.some.inj (found.symm.trans isFirst)
    obtain rfl := Option.some.inj (there.symm.trans isSecond)
    rwa [away, far] at sorted

end Command

end SimScript
