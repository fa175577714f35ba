import Mathlib.Algebra.GroupWithZero.Nat
import SimScript.Proofs.Command.Sanction
import SimScript.Proofs.Object.Table

/-!
# Seats

A vehicle has three seats and a cargo, and no unit has two places, in one vehicle or in
two.  There are no references from units to vehicles, so boarding looks for the vehicle
that a unit is in: since there is one at most, taking the unit out of the first that is
found takes it out of all.  Then it has the place that it was put into, and no other.
-/

namespace SimScript

namespace ObjectData

def place (data : ObjectData) : Option Seat → List ObjectRef
  | some seat => (data.seat seat).toList
  | none => data.crew

def places : List (Option Seat) :=
  [some .driver, some .gunner, some .commander, none]

theorem mem_places (place : Option Seat) : place ∈ places := by
  rcases place with _ | seat
  · simp [places]
  · cases seat <;> simp [places]

theorem listed_eq (data : ObjectData) : data.listed = places.flatMap data.place := by
  simp [listed, places, place, seat]

theorem place_of_roster {data changed : ObjectData} (same : changed.roster = data.roster)
    (place : Option Seat) : changed.place place = data.place place := by
  obtain ⟨seats, rest⟩ := Prod.mk.inj same
  cases place with
  | none => exact (Prod.mk.inj rest).1
  | some seat => exact congrArg Option.toList (congrFun seats seat)

theorem Bare.place {data : ObjectData} (bare : data.Bare) (place : Option Seat) :
    data.place place = [] := by
  have nobody := bare.listed
  rw [listed_eq, List.flatMap_eq_nil_iff] at nobody
  exact nobody place (mem_places place)

theorem place_withoutOccupant (table : ObjectTable) (unit : ObjectRef) (data : ObjectData)
    (place : Option Seat) : (table.withoutOccupant unit data).place place =
      (data.place place).filter fun ref => !table.same ref unit := by
  rcases place with _ | seat
  · rfl
  · cases seat <;> exact Option.toList_filter

/-- Taking a seat puts out whoever had it; the cargo has room for everyone. -/
theorem place_takePlace (wanted : Option Seat) (unit : ObjectRef) (data : ObjectData)
    (place : Option Seat) : (Command.takePlace wanted unit data).place place =
      if place = wanted then (if wanted = none then data.crew else []) ++ [unit]
      else data.place place := by
  rcases wanted with _ | seat
  · rcases place with _ | other
    · rfl
    · cases other <;> simp [Command.takePlace, ObjectData.place, ObjectData.seat]
  · rcases place with _ | other
    · cases seat <;> rfl
    · cases seat <;> cases other <;> rfl

theorem takePlace_deleted (wanted : Option Seat) (unit : ObjectRef) (data : ObjectData) :
    (Command.takePlace wanted unit data).deleted = data.deleted := by
  rcases wanted with _ | seat
  · rfl
  · cases seat <;> rfl

end ObjectData

namespace ObjectTable

def liveOf (table : ObjectTable) (kind : ObjectKind) : List ObjectRef :=
  table.live.filter fun ref => ref.kind = kind

def placed (table : ObjectTable) (vehicle : ObjectRef) (place : Option Seat) : List ObjectRef :=
  ((table.get? vehicle).map fun data => data.place place).getD []

/-- How often a unit has a place in an object. -/
def times (table : ObjectTable) (unit vehicle : ObjectRef) (place : Option Seat) : Nat :=
  (table.placed vehicle place).countP fun ref => ref.id = unit.id

/-- How often a unit is in an object. -/
def share (table : ObjectTable) (unit vehicle : ObjectRef) : Nat :=
  (ObjectData.places.map (table.times unit vehicle)).sum

/-- Everyone in the seats and the cargo of the live vehicles. -/
def aboard (table : ObjectTable) : List ObjectRef :=
  (table.liveOf .vehicle).flatMap fun vehicle => ObjectData.places.flatMap (table.placed vehicle)

/-- A unit is in one vehicle at most, and there it has one place. -/
structure Single (table : ObjectTable) (unit : ObjectRef) : Prop where
  once : ∀ vehicle ∈ table.liveOf .vehicle, table.share unit vehicle ≤ 1
  alone : ∀ vehicle ∈ table.liveOf .vehicle, ∀ other ∈ table.liveOf .vehicle,
    0 < table.share unit vehicle → 0 < table.share unit other → vehicle = other

/-- No live unit has two places, and everyone who has a place was created. -/
structure Seated (table : ObjectTable) : Prop where
  known : ∀ vehicle place, ∀ ref ∈ table.placed vehicle place, ∀ id ∈ ref.id,
    id < table.data.size
  single : ∀ unit ∈ table.liveOf .unit, table.Single unit

variable {table before after : ObjectTable} {unit other vehicle ref : ObjectRef}
  {place wanted : Option Seat} {data : ObjectData} {kind : ObjectKind}
  {change : ObjectData → ObjectData}

theorem mem_liveOf : ref ∈ table.liveOf kind ↔
    (ref ∈ table.registry ∧ table.isNull ref = false) ∧ ref.kind = kind := by
  simp [liveOf, List.mem_filter, mem_live]

theorem live_of_mem_liveOf (member : ref ∈ table.liveOf kind) : table.isNull ref = false :=
  (mem_liveOf.mp member).1.2

theorem placed_of_get? (found : table.get? vehicle = some data) :
    table.placed vehicle place = data.place place := by
  simp [placed, found]

theorem share_eq_zero_iff :
    table.share unit vehicle = 0 ↔ ∀ place, table.times unit vehicle place = 0 := by
  rw [share, List.sum_eq_zero_iff_forall_eq_nat, List.forall_mem_map]
  exact forall_congr' fun place => forall_prop_of_true (ObjectData.mem_places place)

/-! ## One place -/

theorem countP_aboard : table.aboard.countP (fun ref => ref.id = unit.id) =
    ((table.liveOf .vehicle).map (table.share unit)).sum := by
  rw [aboard, List.countP_flatMap]
  refine congrArg List.sum (List.map_congr_left fun vehicle _ => ?_)
  exact List.countP_flatMap

theorem sum_le_one {α : Type} {items : List α} {weight : α → Nat} (distinct : items.Nodup)
    (once : ∀ item ∈ items, weight item ≤ 1)
    (alone : ∀ item ∈ items, ∀ other ∈ items, 0 < weight item → 0 < weight other → item = other) :
    (items.map weight).sum ≤ 1 := by
  induction items with
  | nil => simp
  | cons first rest induction =>
      obtain ⟨apart, distinct⟩ := List.nodup_cons.mp distinct
      have others := induction distinct
          (fun item member => once item (List.mem_cons_of_mem _ member))
        fun item member other inRest => alone item (List.mem_cons_of_mem _ member) other
          (List.mem_cons_of_mem _ inRest)
      rw [List.map_cons, List.sum_cons]
      rcases Nat.eq_zero_or_pos (weight first) with none | some
      · rwa [none, Nat.zero_add]
      · have zero : (rest.map weight).sum = 0 := by
          rw [List.sum_eq_zero_iff_forall_eq_nat, List.forall_mem_map]
          intro item member
          by_contra positive
          have same := alone first List.mem_cons_self item (List.mem_cons_of_mem _ member) some
            (Nat.pos_of_ne_zero positive)
          exact apart (same ▸ member)
        rw [zero, Nat.add_zero]
        exact once first List.mem_cons_self

theorem Seated.countP_aboard (seated : table.Seated) (enrolled : table.Enrolled)
    (member : unit ∈ table.liveOf .unit) :
    table.aboard.countP (fun ref => ref.id = unit.id) ≤ 1 := by
  have single := seated.single unit member
  rw [ObjectTable.countP_aboard]
  exact sum_le_one ((enrolled.nodup.filter _).filter _) single.once single.alone

theorem Single.mono (single : before.Single unit)
    (fewer : ∀ vehicle ∈ after.liveOf .vehicle, 0 < after.share unit vehicle →
      vehicle ∈ before.liveOf .vehicle ∧ after.share unit vehicle ≤ before.share unit vehicle) :
    after.Single unit where
  once := fun vehicle member => by
    rcases Nat.eq_zero_or_pos (after.share unit vehicle) with none | some
    · exact none ▸ Nat.zero_le 1
    · obtain ⟨old, less⟩ := fewer vehicle member some
      exact Nat.le_trans less (single.once vehicle old)
  alone := fun vehicle member other inside some more => by
    obtain ⟨old, less⟩ := fewer vehicle member some
    obtain ⟨older, lesser⟩ := fewer other inside more
    exact single.alone vehicle old other older (Nat.lt_of_lt_of_le some less)
      (Nat.lt_of_lt_of_le more lesser)

theorem Single.ofHome (home : Option ObjectId) (wanted : Option Seat) (enrolled : table.Enrolled)
    (away : ∀ vehicle ∈ table.liveOf .vehicle, ∀ place,
      table.times unit vehicle place ≤ if vehicle.id = home ∧ place = wanted then 1 else 0) :
    table.Single unit where
  once := fun vehicle member => by
    have here : ∀ place, 0 < table.times unit vehicle place → place = wanted := by
      intro place some
      by_contra apart
      have most := away vehicle member place
      rw [if_neg fun both => apart both.2] at most
      exact absurd some (Nat.not_lt.mpr most)
    refine sum_le_one (by decide) (fun place _ => ?_) fun place _ other _ some more =>
      (here place some).trans (here other more).symm
    exact Nat.le_trans (away vehicle member place) (by split <;> decide)
  alone := by
    have home : ∀ vehicle ∈ table.liveOf .vehicle, 0 < table.share unit vehicle →
        vehicle.id = home := by
      intro vehicle member some
      by_contra apart
      refine Nat.lt_irrefl 0 (Nat.lt_of_lt_of_eq some (share_eq_zero_iff.mpr fun place => ?_))
      have most := away vehicle member place
      rw [if_neg fun both => apart both.1] at most
      exact Nat.le_zero.mp most
    intro vehicle member other inside some more
    exact enrolled.eq_of_id (mem_liveOf.mp member).1.1 (mem_liveOf.mp inside).1.1
      ((home vehicle member some).trans (home other inside more).symm)

/-! ## What changes do to places -/

theorem share_le (each : ∀ place,
    after.times unit vehicle place ≤ before.times unit vehicle place) :
    after.share unit vehicle ≤ before.share unit vehicle :=
  Nat.add_le_add (each _) (Nat.add_le_add (each _) (Nat.add_le_add (each _)
    (Nat.add_le_add (each _) (Nat.le_refl 0))))

theorem Alike.isNull (alike : before.Alike after) (ref : ObjectRef) :
    after.isNull ref = before.isNull ref := by
  have there := congrArg Option.isNone (alike.rosters ref)
  rwa [Option.isNone_map, Option.isNone_map] at there

theorem Alike.liveOf (alike : before.Alike after) (kind : ObjectKind) :
    after.liveOf kind = before.liveOf kind := by
  simp only [ObjectTable.liveOf, live, alike.registry, alike.isNull]

theorem Alike.placed (alike : before.Alike after) (vehicle : ObjectRef) (place : Option Seat) :
    after.placed vehicle place = before.placed vehicle place := by
  have rosters := alike.rosters vehicle
  unfold ObjectTable.placed
  cases old : before.get? vehicle with
  | none =>
      rw [old, Option.map_none, Option.map_eq_none_iff] at rosters
      rw [rosters]
  | some data =>
      rw [old, Option.map_some] at rosters
      obtain ⟨changed, new, same⟩ := Option.map_eq_some_iff.mp rosters
      rw [new]
      exact ObjectData.place_of_roster same place

theorem Seated.alike (seated : before.Seated) (alike : before.Alike after) : after.Seated where
  known := fun vehicle place => by
    rw [alike.placed, alike.size]
    exact seated.known vehicle place
  single := fun unit member => by
    refine (seated.single unit (alike.liveOf .unit ▸ member)).mono fun vehicle inside _ => ?_
    refine ⟨alike.liveOf .vehicle ▸ inside, share_le fun place => ?_⟩
    exact Nat.le_of_eq (congrArg _ (alike.placed vehicle place))

theorem Loses.mem_liveOf (loses : before.Loses after) (member : ref ∈ after.liveOf kind) :
    ref ∈ before.liveOf kind := by
  obtain ⟨⟨registered, live⟩, alike⟩ := ObjectTable.mem_liveOf.mp member
  obtain ⟨data, found⟩ := isNull_eq_false_iff.mp live
  exact ObjectTable.mem_liveOf.mpr ⟨⟨loses.registry.subset registered,
    isNull_eq_false_iff.mpr ⟨data, loses.kept ref data found⟩⟩, alike⟩

theorem Loses.placed (loses : before.Loses after) (vehicle : ObjectRef) (place : Option Seat) :
    after.placed vehicle place = [] ∨ after.placed vehicle place = before.placed vehicle place := by
  cases found : after.get? vehicle with
  | none => exact .inl (by simp [ObjectTable.placed, found])
  | some data => exact .inr (by simp [ObjectTable.placed, found, loses.kept vehicle data found])

theorem Seated.loses (seated : before.Seated) (loses : before.Loses after) : after.Seated where
  known := fun vehicle place ref member => by
    rw [loses.size]
    rcases loses.placed vehicle place with nobody | same
    · simp [nobody] at member
    · exact seated.known vehicle place ref (same ▸ member)
  single := fun unit member => by
    refine (seated.single unit (loses.mem_liveOf member)).mono fun vehicle inside _ => ?_
    refine ⟨loses.mem_liveOf inside, share_le fun place => ?_⟩
    rcases loses.placed vehicle place with nobody | same
    · simp [times, nobody]
    · simp [times, same]

theorem placed_create (bare : data.Bare) : (table.create kind data).placed vehicle place =
    if vehicle.id = some table.data.size then [] else table.placed vehicle place := by
  rw [placed, get?_create bare.present]
  split
  · exact bare.place place
  · rfl

theorem liveOf_update_of_kept (kept : ∀ data, (change data).deleted = data.deleted) :
    (table.update ref change).liveOf kind = table.liveOf kind := by
  simp only [liveOf, live, registry_update, isNull_update_of_kept kept]

theorem placed_update_of_kept (kept : ∀ data, (change data).deleted = data.deleted) :
    (table.update ref change).placed vehicle place =
      ((table.get? vehicle).map fun data =>
        (if vehicle.id = ref.id then change data else data).place place).getD [] := by
  rw [placed, get?_update_of_kept kept, Option.map_map]
  rfl

/-- A unit that gets a place in an object is there once more, and whoever was in the way is not. -/
theorem times_takePlace :
    (table.update vehicle (Command.takePlace wanted unit)).times ref other place =
    if (other.id = vehicle.id ∧ place = wanted) ∧ table.isNull vehicle = false then
      (if wanted = none then table.times ref vehicle none else 0) +
        (if unit.id = ref.id then 1 else 0)
    else table.times ref other place := by
  rw [times, placed_update_of_kept (ObjectData.takePlace_deleted wanted unit)]
  by_cases here : other.id = vehicle.id
  · have same : table.get? other = table.get? vehicle := get?_congr here
    cases found : table.get? vehicle with
    | none => simp [same, found, isNull, times, placed]
    | some data =>
        rw [same, found, Option.map_some, Option.getD_some, if_pos here,
          ObjectData.place_takePlace]
        by_cases there : place = wanted
        · cases wanted <;> simp [here, there, isNull, found, times, placed, ObjectData.place,
            List.countP_append, List.countP_cons]
        · simp [here, there, times, placed, same, found]
  · simp [here, times, placed]

/-- A live unit that leaves an object is not there any more, and everyone else is. -/
theorem times_withoutOccupant (live : table.isNull unit = false) :
    (table.update vehicle (table.withoutOccupant unit)).times ref other place =
      if other.id = vehicle.id ∧ unit.id = ref.id then 0 else table.times ref other place := by
  have kept : ∀ data, (table.withoutOccupant unit data).deleted = data.deleted := fun _ => rfl
  rw [times, placed_update_of_kept kept]
  cases found : table.get? other with
  | none => simp [times, placed, found]
  | some data =>
      rw [Option.map_some, Option.getD_some]
      by_cases here : other.id = vehicle.id
      · rw [if_pos here, ObjectData.place_withoutOccupant, List.countP_filter]
        by_cases same : unit.id = ref.id
        · rw [if_pos ⟨here, same⟩, List.countP_eq_zero]
          intro entry _
          simp [same_iff_of_live live, ← same]
        · rw [if_neg fun both => same both.2, times, placed_of_get? found]
          refine List.countP_congr fun entry _ => ?_
          simp only [Bool.and_eq_true, decide_eq_true_eq, Bool.not_eq_true', ← Bool.not_eq_true,
            same_iff_of_live live, and_iff_left_iff_imp]
          rintro named again
          exact same (again.symm.trans named)
      · rw [if_neg here, if_neg fun both => here both.1, times, placed_of_get? found]

theorem times_congr (same : other.id = vehicle.id) :
    table.times unit other place = table.times unit vehicle place := by
  rw [times, times, placed, placed, get?_congr same]

theorem mem_placed_of_update {change : ObjectData → ObjectData}
    (kept : ∀ data, (change data).deleted = data.deleted)
    (member : ref ∈ (table.update vehicle change).placed other place) :
    ref ∈ table.placed other place ∨
      ∃ data, table.placed other place = data.place place ∧ ref ∈ (change data).place place := by
  rw [placed_update_of_kept kept] at member
  cases found : table.get? other with
  | none => simp [found] at member
  | some data =>
      rw [found, Option.map_some, Option.getD_some] at member
      split at member
      case isTrue => exact .inr ⟨data, placed_of_get? found, member⟩
      case isFalse => exact .inl (placed_of_get? found ▸ member)

theorem mem_placed_withoutOccupant
    (member : ref ∈ (table.update vehicle (table.withoutOccupant unit)).placed other place) :
    ref ∈ table.placed other place := by
  have kept : ∀ data, (table.withoutOccupant unit data).deleted = data.deleted := fun _ => rfl
  rcases mem_placed_of_update kept member with stayed | ⟨data, same, changed⟩
  · exact stayed
  · rw [ObjectData.place_withoutOccupant] at changed
    exact same ▸ List.mem_of_mem_filter changed

theorem mem_placed_takePlace
    (member : ref ∈ (table.update vehicle (Command.takePlace wanted unit)).placed other place) :
    ref ∈ table.placed other place ∨ ref = unit := by
  rcases mem_placed_of_update (ObjectData.takePlace_deleted wanted unit) member with
    stayed | ⟨data, same, changed⟩
  · exact .inl stayed
  · rw [ObjectData.place_takePlace] at changed
    rw [same]
    split at changed
    case isFalse => exact .inl changed
    case isTrue there =>
        rcases List.mem_append.mp changed with stayed | new
        · cases wanted with
          | none => exact .inl (there ▸ by simpa [ObjectData.place] using stayed)
          | some seat => simp at stayed
        · exact .inr (List.mem_singleton.mp new)

theorem mem_placed_takePlace_self (live : table.isNull vehicle = false) :
    unit ∈ (table.update vehicle (Command.takePlace wanted unit)).placed vehicle wanted := by
  obtain ⟨data, found⟩ := isNull_eq_false_iff.mp live
  rw [placed_update_of_kept (ObjectData.takePlace_deleted wanted unit), found, Option.map_some,
    Option.getD_some, if_pos rfl, ObjectData.place_takePlace, if_pos rfl]
  exact List.mem_append_right _ (List.mem_singleton_self _)

/-! ## Getting a place -/

theorem times_takePlace_of_free
    (free : ∀ seat ∈ wanted, table.times ref vehicle (some seat) = 0) :
    (table.update vehicle (Command.takePlace wanted unit)).times ref other place =
      table.times ref other place +
        if ((other.id = vehicle.id ∧ place = wanted) ∧ table.isNull vehicle = false) ∧
          unit.id = ref.id then 1 else 0 := by
  rw [times_takePlace]
  by_cases here : (other.id = vehicle.id ∧ place = wanted) ∧ table.isNull vehicle = false
  · have stays : (if wanted = none then table.times ref vehicle none else 0) =
        table.times ref other place := by
      rw [times_congr here.1.1, here.1.2]
      cases wanted with
      | none => rfl
      | some seat => exact (free seat rfl).symm
    rw [if_pos here, stays]
    simp only [here, true_and]
  · rw [if_neg here, if_neg fun both => here both.1, Nat.add_zero]

theorem Seated.takePlace (seated : table.Seated) (enrolled : table.Enrolled)
    (unitKind : unit.kind = .unit) (live : table.isNull unit = false)
    (nowhere : unit ∈ table.liveOf .unit →
      ∀ other ∈ table.liveOf .vehicle, ∀ place, table.times unit other place = 0)
    (free : ∀ ref ∈ table.liveOf .unit, ref.id ≠ unit.id → ∀ seat ∈ wanted,
      table.times ref vehicle (some seat) = 0) :
    (table.update vehicle (Command.takePlace wanted unit)).Seated where
  known := fun other place ref member => by
    rw [size_update]
    rcases mem_placed_takePlace member with old | rfl
    · exact seated.known other place ref old
    · obtain ⟨id, named, inside⟩ := size_of_live live
      intro given same
      exact Option.mem_unique named same ▸ inside
  single := fun ref member => by
    have kept := ObjectData.takePlace_deleted wanted unit
    rw [liveOf_update_of_kept kept] at member
    by_cases same : ref.id = unit.id
    · obtain rfl : ref = unit :=
        ObjectRef.eq_of_kind_of_id ((mem_liveOf.mp member).2.trans unitKind.symm) same
      apply Single.ofHome vehicle.id wanted (enrolled.update vehicle _)
      intro other inside place
      rw [liveOf_update_of_kept kept] at inside
      have nobody := nowhere member other inside
      rw [times_takePlace]
      split
      case isTrue here =>
        have cargo : table.times ref vehicle none = 0 :=
            (times_congr here.1.1).symm.trans (nobody _)
        rw [if_pos here.1, cargo, ite_self, Nat.zero_add]
      case isFalse => exact Nat.le_trans (Nat.le_of_eq (nobody place)) (Nat.zero_le _)
    · refine (seated.single ref member).mono fun other inside _ => ?_
      rw [liveOf_update_of_kept kept] at inside
      refine ⟨inside, share_le fun place => ?_⟩
      rw [times_takePlace_of_free (free ref member same), if_neg fun both => same both.2.symm]
      exact Nat.le_refl _

/-! ## Boarding -/

/-- The objects after a unit has left the vehicle that it is found in. -/
def vacated (table : ObjectTable) (unit : ObjectRef) : ObjectTable :=
  match table.vehicleOf? unit with
  | none => table
  | some previous => table.update previous (table.withoutOccupant unit)

theorem boarding_objects :
    (Change.updateObjects (table.boarding wanted unit vehicle)).objects table =
    (table.vacated unit).update vehicle (Command.takePlace wanted unit) := by
  unfold vacated boarding
  cases table.vehicleOf? unit <;> rfl

theorem mem_listed_iff : ref ∈ data.listed ↔ ∃ place, ref ∈ data.place place := by
  simp [ObjectData.listed_eq, ObjectData.mem_places]

theorem share_pos_iff : 0 < table.share unit vehicle ↔
    ∃ place, ∃ ref ∈ table.placed vehicle place, ref.id = unit.id := by
  simp only [Nat.pos_iff_ne_zero, ne_eq, share_eq_zero_iff, not_forall, times,
    List.countP_eq_zero, decide_eq_true_eq, not_not, exists_prop]

/-- The occupants of a vehicle include a live unit exactly where it has a place there. -/
theorem lists_occupants_iff (live : table.isNull unit = false)
    (found : table.get? vehicle = some data) :
    table.lists (table.occupants data) unit = true ↔ 0 < table.share unit vehicle := by
  rw [share_pos_iff, lists, List.any_eq_true]
  constructor
  · rintro ⟨ref, member, same⟩
    obtain ⟨place, inPlace⟩ := mem_listed_iff.mp (List.mem_of_mem_filter member)
    exact ⟨place, ref, (placed_of_get? found).symm ▸ inPlace, (same_iff_of_live live).mp same⟩
  · rintro ⟨place, ref, inPlace, named⟩
    have listed := mem_listed_iff.mpr ⟨place, placed_of_get? found ▸ inPlace⟩
    refine ⟨ref, List.mem_filter.mpr ⟨listed, ?_⟩, (same_iff_of_live live).mpr named⟩
    rw [isNull_congr named, live, Bool.not_false]

/-- The vehicle that is found for a live unit is one in which it has a place, and one is found if
there is one. -/
theorem vehicleOf?_cases (enrolled : table.Enrolled) (member : unit ∈ table.liveOf .unit) :
    (table.vehicleOf? unit = none ∧
      ∀ vehicle ∈ table.liveOf .vehicle, table.share unit vehicle = 0) ∨
    ∃ previous ∈ table.liveOf .vehicle, table.vehicleOf? unit = some previous ∧
      0 < table.share unit previous := by
  obtain ⟨⟨registered, live⟩, unitKind⟩ := mem_liveOf.mp member
  have finds : ∀ vehicle ∈ table.live, (vehicle.kind = .vehicle && !table.same vehicle unit &&
      (table.get? vehicle).any fun data => table.lists (table.occupants data) unit) = true ↔
        vehicle.kind = .vehicle ∧ 0 < table.share unit vehicle := by
    intro vehicle inside
    obtain ⟨enlisted, there⟩ := mem_live.mp inside
    obtain ⟨data, found⟩ := isNull_eq_false_iff.mp there
    rw [found, Option.any_some, Bool.and_eq_true, Bool.and_eq_true, decide_eq_true_eq,
      lists_occupants_iff live found, Bool.not_eq_true', ← Bool.not_eq_true,
      same_iff_of_live live]
    refine and_congr_left fun _ => and_iff_left_of_imp fun kind same => ?_
    rw [enrolled.eq_of_id enlisted registered same, unitKind] at kind
    cases kind
  cases found : table.vehicleOf? unit with
  | none =>
      refine .inl ⟨rfl, fun vehicle inside => ?_⟩
      obtain ⟨there, kind⟩ := mem_liveOf.mp inside
      by_contra positive
      exact List.find?_eq_none.mp found vehicle (mem_live.mpr there)
        ((finds vehicle (mem_live.mpr there)).mpr ⟨kind, Nat.pos_of_ne_zero positive⟩)
  | some previous =>
      have inside := List.mem_of_find?_eq_some found
      have accepted := List.find?_some (show table.live.find? _ = some previous from found)
      obtain ⟨kind, positive⟩ := (finds previous inside).mp accepted
      exact .inr ⟨previous, mem_liveOf.mpr ⟨mem_live.mp inside, kind⟩, rfl, positive⟩

theorem vacated_enrolled (enrolled : table.Enrolled) : (table.vacated unit).Enrolled := by
  unfold vacated
  split
  · exact enrolled
  · exact enrolled.update _ _

theorem isNull_vacated : (table.vacated unit).isNull ref = table.isNull ref := by
  unfold vacated
  split
  · rfl
  · exact isNull_update_of_kept fun _ => rfl

theorem liveOf_vacated : (table.vacated unit).liveOf kind = table.liveOf kind := by
  unfold vacated
  split
  · rfl
  · exact liveOf_update_of_kept fun _ => rfl

theorem times_vacated_of_ne (live : table.isNull unit = false) (apart : ref.id ≠ unit.id) :
    (table.vacated unit).times ref vehicle place = table.times ref vehicle place := by
  unfold vacated
  split
  · rfl
  · rw [times_withoutOccupant live, if_neg fun both => apart both.2.symm]

/-- A unit that has left the vehicle that it was found in has no place any more: it had none in any
other vehicle. -/
theorem times_vacated (enrolled : table.Enrolled) (seated : table.Seated)
    (member : unit ∈ table.liveOf .unit) (inside : vehicle ∈ table.liveOf .vehicle) :
    (table.vacated unit).times unit vehicle place = 0 := by
  have live := live_of_mem_liveOf member
  rcases vehicleOf?_cases enrolled member with ⟨found, nowhere⟩ | ⟨previous, there, found, some⟩
  · simp only [vacated, found]
    exact share_eq_zero_iff.mp (nowhere vehicle inside) place
  · simp only [vacated, found]
    rw [times_withoutOccupant live]
    split
    · rfl
    case isFalse apart =>
      refine share_eq_zero_iff.mp ?_ place
      by_contra positive
      have same := (seated.single unit member).alone vehicle inside previous there
        (Nat.pos_of_ne_zero positive) some
      exact apart ⟨congrArg ObjectRef.id same, rfl⟩

theorem Seated.vacated (seated : table.Seated) (live : table.isNull unit = false) :
    (table.vacated unit).Seated := by
  unfold ObjectTable.vacated
  split
  · exact seated
  case h_2 previous _ =>
      have kept : ∀ data, (table.withoutOccupant unit data).deleted = data.deleted := fun _ => rfl
      constructor
      · intro vehicle place ref member
        rw [size_update]
        exact seated.known vehicle place ref (mem_placed_withoutOccupant member)
      · intro ref member
        rw [liveOf_update_of_kept kept] at member
        refine (seated.single ref member).mono fun vehicle inside _ => ?_
        rw [liveOf_update_of_kept kept] at inside
        refine ⟨inside, share_le fun place => ?_⟩
        rw [times_withoutOccupant live]
        split
        · exact Nat.zero_le _
        · exact Nat.le_refl _

theorem CanBoard.times (can : table.CanBoard wanted unit vehicle)
    (live : table.isNull ref = false) (apart : ref.id ≠ unit.id) :
    ∀ seat ∈ wanted, table.times ref vehicle (some seat) = 0 := by
  intro seat wants
  obtain ⟨data, found⟩ := isNull_eq_false_iff.mp can.vehicleLive
  have free := can.free seat wants
  rw [ObjectTable.times, placed_of_get? found, List.countP_eq_zero]
  intro other sits
  rw [decide_eq_true_eq]
  intro named
  have seat : data.seat seat = some other := Option.mem_toList.mp sits
  simp only [Command.isTaken, found, Option.bind_some, seat, Option.any_some,
    isNull_congr named, live, Bool.not_false, Bool.true_and, Bool.not_eq_eq_eq_not] at free
  exact apart (named.symm.trans ((same_iff_of_live can.unitLive).mp free))

/-- Boarding puts a unit into the place that was asked for and into no other. -/
theorem times_boarding (enrolled : table.Enrolled) (seated : table.Seated)
    (can : table.CanBoard wanted unit vehicle) (member : unit ∈ table.liveOf .unit)
    (inside : other ∈ table.liveOf .vehicle) :
    ((table.vacated unit).update vehicle (Command.takePlace wanted unit)).times unit other place =
      if other.id = vehicle.id ∧ place = wanted then 1 else 0 := by
  have gone : ∀ place, (table.vacated unit).times unit other place = 0 :=
    fun place => times_vacated enrolled seated member inside
  rw [times_takePlace]
  have live : (table.vacated unit).isNull vehicle = false := isNull_vacated.trans can.vehicleLive
  by_cases here : other.id = vehicle.id ∧ place = wanted
  · have cargo : (table.vacated unit).times unit vehicle none = 0 :=
      (times_congr here.1).symm.trans (gone none)
    rw [if_pos ⟨here, live⟩, if_pos here, cargo, ite_self, if_pos rfl]
  · rw [if_neg fun both => here both.1, if_neg here, gone]

theorem times_boarding_of_ne (can : table.CanBoard wanted unit vehicle)
    (live : table.isNull ref = false) (apart : ref.id ≠ unit.id) :
    ((table.vacated unit).update vehicle (Command.takePlace wanted unit)).times ref other place =
      table.times ref other place := by
  have stays : ∀ other place, (table.vacated unit).times ref other place =
      table.times ref other place := fun other place => times_vacated_of_ne can.unitLive apart
  rw [times_takePlace_of_free, stays, if_neg fun both => apart both.2.symm, Nat.add_zero]
  intro seat wants
  exact (stays vehicle _).trans (can.times live apart seat wants)

theorem Seated.boarding (seated : table.Seated) (enrolled : table.Enrolled)
    (can : table.CanBoard wanted unit vehicle) :
    ((table.vacated unit).update vehicle (Command.takePlace wanted unit)).Seated := by
  refine (seated.vacated can.unitLive).takePlace (vacated_enrolled enrolled) can.unitKind
    (isNull_vacated.trans can.unitLive) ?_ ?_
  · intro member other inside place
    rw [liveOf_vacated] at member inside
    exact times_vacated enrolled seated member inside
  · intro ref member apart seat wants
    rw [liveOf_vacated] at member
    have live := live_of_mem_liveOf member
    exact (times_vacated_of_ne can.unitLive apart).trans (can.times live apart seat wants)

/-! ## All changes -/

/-- Objects are enrolled in order, and no live unit has two places. -/
structure InOrder (table : ObjectTable) : Prop where
  enrolled : table.Enrolled
  seated : table.Seated

namespace InOrder

theorem empty : InOrder {} where
  enrolled := .empty
  seated :=
    { known := fun vehicle place ref member => by
        have nobody : placed {} vehicle place = [] := by
          cases named : vehicle.id <;> simp [placed, get?, record?, named]
        rw [nobody] at member
        cases member
      single := fun unit member => by
        cases (mem_liveOf.mp member).1.1 }

theorem alike (ordered : before.InOrder) (alike : before.Alike after) : after.InOrder :=
  ⟨ordered.enrolled.alike alike, ordered.seated.alike alike⟩

theorem loses (ordered : before.InOrder) (loses : before.Loses after) : after.InOrder :=
  ⟨ordered.enrolled.loses loses, ordered.seated.loses loses⟩

end InOrder

theorem mem_liveOf_create {other : ObjectKind} (enrolled : table.Enrolled) (bare : data.Bare)
    (member : ref ∈ (table.create kind data).liveOf other) :
    ref.id = some table.data.size ∨ ref ∈ table.liveOf other := by
  obtain ⟨⟨registered, live⟩, alike⟩ := mem_liveOf.mp member
  rcases List.mem_append.mp registered with old | new
  · obtain ⟨id, named, inside⟩ := enrolled.given ref old
    have apart : ¬ref.id = some table.data.size := by
      intro same
      exact absurd (Option.mem_unique same named) (Nat.ne_of_gt inside)
    rw [isNull, get?_create bare.present, if_neg apart] at live
    exact .inr (mem_liveOf.mpr ⟨⟨old, live⟩, alike⟩)
  · exact .inl (congrArg ObjectRef.id (List.mem_singleton.mp new))

theorem times_create_new (seated : table.Seated) (bare : data.Bare)
    (new : ref.id = some table.data.size) :
    (table.create kind data).times ref vehicle place = 0 := by
  rw [times, placed_create bare, List.countP_eq_zero]
  intro other member
  rw [decide_eq_true_eq]
  intro named
  split at member
  · cases member
  · exact absurd (seated.known vehicle place other member _ (named.trans new)) (Nat.lt_irrefl _)

namespace InOrder

theorem create (ordered : table.InOrder) (bare : data.Bare) :
    (table.create kind data).InOrder := by
  have enrolled : (table.create kind data).Enrolled := ordered.enrolled.create bare.present
  refine ⟨enrolled, ?_, ?_⟩
  · intro vehicle place ref member id named
    have size : (table.create kind data).data.size = table.data.size + 1 := Array.size_push _
    rw [placed_create bare] at member
    split at member
    · cases member
    · exact size ▸ Nat.lt_succ_of_lt (ordered.seated.known vehicle place ref member id named)
  · intro unit member
    rcases mem_liveOf_create ordered.enrolled bare member with new | old
    · refine .ofHome none none enrolled fun vehicle _ place => ?_
      exact Nat.le_trans (Nat.le_of_eq (times_create_new ordered.seated bare new)) (Nat.zero_le _)
    · refine (ordered.seated.single unit old).mono fun vehicle inside some => ?_
      have each : ∀ place, (table.create kind data).times unit vehicle place ≤
          table.times unit vehicle place := by
        intro place
        rw [times, placed_create bare]
        split
        · exact Nat.zero_le _
        · exact Nat.le_refl _
      rcases mem_liveOf_create ordered.enrolled bare inside with new | there
      · refine absurd (share_eq_zero_iff.mpr fun place => ?_) (Nat.ne_of_gt some)
        rw [times, placed_create bare, if_pos new]
        rfl
      · exact ⟨there, share_le each⟩

theorem join {group : ObjectRef} (ordered : table.InOrder) (bare : data.Bare) :
    ((table.create .unit data).join group (table.next .unit)).InOrder := by
  have created : (table.create .unit data).InOrder := ordered.create bare
  refine ⟨created.enrolled.update _ _, ?_⟩
  change ((table.create .unit data).update group (Command.takePlace none (table.next .unit))).Seated
  refine created.seated.takePlace created.enrolled rfl ?_ ?_ nofun
  · exact isNull_eq_false_iff.mpr ⟨data, (get?_create bare.present).trans (if_pos rfl)⟩
  · exact fun _ _ _ _ => times_create_new ordered.seated bare rfl

theorem delete (ordered : table.InOrder) : (table.destroy ref).forgetDeleted.InOrder :=
  ordered.loses ((loses_destroy table ref).trans (loses_forgetDeleted _))

theorem objects {asked : Change} {holds : Value → Prop} {supplies : CodeBlock → Prop}
    {recruits : Prop} {exec : Execution} (ordered : exec.world.store.objects.InOrder)
    (sanctioned : asked.Sanctioned holds supplies recruits exec) :
    (asked.objects exec.world.store.objects).InOrder := by
  cases asked with
  | updateObjects updates =>
      cases (sanctioned : exec.world.store.objects.Permits _ updates) with
      | inert each => exact ordered.alike (alike_updateObjects each)
      | boarding can =>
          rw [boarding_objects]
          exact ⟨(vacated_enrolled ordered.enrolled).update _ _,
            ordered.seated.boarding ordered.enrolled can⟩
  | createObject kind data group =>
      obtain ⟨bare, joins⟩ := sanctioned
      cases group with
      | none => exact ordered.create bare
      | some group =>
          obtain ⟨-, rfl⟩ := joins rfl
          exact ordered.join bare
  | deleteObject ref => exact ordered.delete
  | _ => exact ordered

end InOrder

end ObjectTable

end SimScript
