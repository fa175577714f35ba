import SimScript.Proofs.Object.Seats

/-!
# Members of groups

A group lists its members, and keeps those that have been deleted.  A reference that
was given out is null, or names an object that was created, and unless that object has
been deleted it is the one in the registry; so no reference to a vehicle is one to a
group, and boarding leaves all members where they are.  Nobody joins a group but a new
unit.
-/

namespace SimScript

namespace ObjectTable

/-- Who is listed in the cargo of a vehicle, or as a member of a group, deleted or not. -/
def crewOf (table : ObjectTable) (ref : ObjectRef) : List ObjectRef :=
  table.placed ref none

/-- A reference with the number of an object that was created. -/
def Created (table : ObjectTable) (ref : ObjectRef) : Prop :=
  ∃ id ∈ ref.id, id < table.data.size

/-- A reference with a number that no object has yet. -/
def Fresh (table : ObjectTable) (ref : ObjectRef) : Prop :=
  ∃ id ∈ ref.id, table.data.size ≤ id

/-- A reference that was given out: a null one, or one to an object that was created, which is the
one in the registry unless the object has been deleted. -/
def Issued (table : ObjectTable) (ref : ObjectRef) : Prop :=
  ∀ id ∈ ref.id, id < table.data.size ∧ (table.isNull ref = false → ref ∈ table.registry)

/-- Objects are enrolled, only references that were given out can be found among them, and the
members of groups are units, each in one group. -/
structure Consistent (table : ObjectTable) : Prop where
  enrolled : table.Enrolled
  player : table.Issued table.player
  listed : ∀ vehicle place, ∀ ref ∈ table.placed vehicle place, table.Issued ref
  units : ∀ group ∈ table.liveOf .group, ∀ member ∈ table.crewOf group, member.kind = .unit
  single : ∀ group ∈ table.liveOf .group, ∀ other ∈ table.liveOf .group,
    ∀ member ∈ table.crewOf group, ∀ again ∈ table.crewOf other, again.id = member.id →
      other = group

/-- Objects have come and gone.  None has come back, and groups have got no members, if any, but new
ones; `recruits` says whether they may have. -/
structure Onward (recruits : Prop) (before after : ObjectTable) : Prop where
  size : before.data.size ≤ after.data.size
  gone : ∀ ref, before.Created ref → after.isNull ref = false → before.isNull ref = false
  kept : ∀ ref ∈ before.registry, before.Created ref → after.isNull ref = false →
    ref ∈ after.registry
  given : ∀ ref ∈ after.registry, before.Created ref → ref ∈ before.registry
  joined : ∀ group ∈ after.liveOf .group, ∃ new, after.crewOf group = before.crewOf group ++ new ∧
    (new = [] ∨ recruits) ∧ ∀ member ∈ new, before.Fresh member

variable {table before middle after : ObjectTable} {ref other unit vehicle group : ObjectRef}
  {place wanted : Option Seat} {data : ObjectData} {kind : ObjectKind}
  {change : ObjectData → ObjectData} {recruits enlists : Prop}

theorem isNull_of_placed (member : other ∈ table.placed ref place) : table.isNull ref = false := by
  cases found : table.get? ref with
  | none => simp [placed, found] at member
  | some data => exact isNull_eq_false_iff.mpr ⟨data, found⟩

theorem Fresh.not_created (fresh : table.Fresh ref) : ¬table.Created ref := by
  rintro ⟨id, named, inside⟩
  obtain ⟨other, same, beyond⟩ := fresh
  obtain rfl := Option.mem_unique named same
  exact absurd inside (Nat.not_lt.mpr beyond)

theorem crewOf_of_not_created (new : ¬table.Created ref) : table.crewOf ref = [] := by
  rw [crewOf, List.eq_nil_iff_forall_not_mem]
  exact fun other member => new (size_of_live (isNull_of_placed member))

theorem crewOf_create (bare : data.Bare) : (table.create kind data).crewOf ref =
    table.crewOf ref := by
  rw [crewOf, placed_create bare]
  split
  case isTrue new =>
    have fresh : table.Fresh ref := ⟨_, new, Nat.le_refl _⟩
    exact (crewOf_of_not_created fresh.not_created).symm
  case isFalse => rfl

theorem placed_update_of_ne (apart : other.id ≠ ref.id) :
    (table.update ref change).placed other place = table.placed other place := by
  rw [placed, get?_update, if_neg apart, placed]

namespace Onward

theorem refl (table : ObjectTable) : table.Onward recruits table where
  size := Nat.le_refl _
  gone := fun _ _ live => live
  kept := fun _ member _ _ => member
  given := fun _ member _ => member
  joined := fun _ _ => ⟨[], (List.append_nil _).symm, .inl rfl, nofun⟩

theorem mono (onward : before.Onward recruits after) (implies : recruits → enlists) :
    before.Onward enlists after :=
  { onward with
    joined := fun group member => by
      obtain ⟨new, crew, may, fresh⟩ := onward.joined group member
      exact ⟨new, crew, may.imp_right implies, fresh⟩ }

theorem created (onward : before.Onward recruits after) (old : before.Created ref) :
    after.Created ref := by
  obtain ⟨id, named, inside⟩ := old
  exact ⟨id, named, Nat.lt_of_lt_of_le inside onward.size⟩

theorem mem_liveOf (onward : before.Onward recruits after) (member : ref ∈ after.liveOf kind)
    (old : before.Created ref) : ref ∈ before.liveOf kind := by
  obtain ⟨⟨registered, live⟩, alike⟩ := ObjectTable.mem_liveOf.mp member
  exact ObjectTable.mem_liveOf.mpr
    ⟨⟨onward.given ref registered old, onward.gone ref old live⟩, alike⟩

theorem crew_subset (onward : before.Onward recruits after)
    (member : group ∈ after.liveOf .group) : before.crewOf group ⊆ after.crewOf group := by
  obtain ⟨new, crew, -⟩ := onward.joined group member
  rw [crew]
  exact List.subset_append_left _ _

theorem group_of_crew (onward : before.Onward recruits after)
    (group_after : group ∈ after.liveOf .group)
    (member : ref ∈ before.crewOf group) : group ∈ before.liveOf .group :=
  onward.mem_liveOf group_after (size_of_live (isNull_of_placed member))

theorem fresh (onward : before.Onward recruits after) (new : after.Fresh ref) :
    before.Fresh ref := by
  obtain ⟨id, named, beyond⟩ := new
  exact ⟨id, named, Nat.le_trans onward.size beyond⟩

theorem issued (onward : before.Onward recruits after) (issued : before.Issued ref) :
    after.Issued ref := by
  intro id named
  obtain ⟨inside, registered⟩ := issued id named
  have old : before.Created ref := ⟨id, named, inside⟩
  exact ⟨Nat.lt_of_lt_of_le inside onward.size, fun live =>
    onward.kept ref (registered (onward.gone ref old live)) old live⟩

theorem trans (first : before.Onward recruits middle) (second : middle.Onward recruits after) :
    before.Onward recruits after where
  size := Nat.le_trans first.size second.size
  gone := fun ref old live => first.gone ref old (second.gone ref (first.created old) live)
  kept := fun ref member old live => by
    have between := second.gone ref (first.created old) live
    exact second.kept ref (first.kept ref member old between) (first.created old) live
  given := fun ref member old => first.given ref (second.given ref member (first.created old)) old
  joined := fun group member => by
    obtain ⟨later, crew, mayLater, newLater⟩ := second.joined group member
    have newBefore : ∀ each ∈ later, before.Fresh each :=
      fun each inside => first.fresh (newLater each inside)
    by_cases there : middle.Created group
    · obtain ⟨earlier, between, may, new⟩ := first.joined group (second.mem_liveOf member there)
      refine ⟨earlier ++ later, by rw [crew, between, List.append_assoc], ?_, ?_⟩
      · rcases may with rfl | may
        · simpa using mayLater
        · exact .inr may
      · exact fun each inside => (List.mem_append.mp inside).elim (new each) (newBefore each)
    · -- A group that is new at last had no members before.
      refine ⟨later, ?_, mayLater, newBefore⟩
      rw [crew, crewOf_of_not_created there,
        crewOf_of_not_created fun old => there (first.created old)]

end Onward

theorem Onward.ofSame (size : before.data.size ≤ after.data.size)
    (gone : ∀ ref, before.Created ref → after.isNull ref = false → before.isNull ref = false)
    (kept : ∀ ref ∈ before.registry, before.Created ref → after.isNull ref = false →
      ref ∈ after.registry)
    (given : ∀ ref ∈ after.registry, before.Created ref → ref ∈ before.registry)
    (crews : ∀ group ∈ after.liveOf .group, after.crewOf group = before.crewOf group) :
    before.Onward recruits after where
  size := size
  gone := gone
  kept := kept
  given := given
  joined := fun group member =>
    ⟨[], (crews group member).trans (List.append_nil _).symm, .inl rfl, nofun⟩

theorem Alike.onward (alike : before.Alike after) : before.Onward recruits after := by
  refine .ofSame (Nat.le_of_eq alike.size.symm) ?_ ?_ ?_ fun group _ => alike.placed group none
  · exact fun ref _ live => (alike.isNull ref).symm.trans live
  · exact fun ref member _ _ => alike.registry ▸ member
  · exact fun ref member _ => alike.registry ▸ member

theorem Loses.onward (loses : before.Loses after) : before.Onward recruits after := by
  refine .ofSame (Nat.le_of_eq loses.size.symm) ?_ ?_ ?_ fun group member => ?_
  · intro ref _ live
    obtain ⟨data, found⟩ := isNull_eq_false_iff.mp live
    exact isNull_eq_false_iff.mpr ⟨data, loses.kept ref data found⟩
  · exact fun ref member _ => loses.enrolled ref member
  · exact fun ref member _ => loses.registry.subset member
  · obtain ⟨data, found⟩ := isNull_eq_false_iff.mp (live_of_mem_liveOf member)
    rw [crewOf, crewOf, placed_of_get? found, placed_of_get? (loses.kept group data found)]

theorem onward_create (bare : data.Bare) : table.Onward recruits (table.create kind data) := by
  have old : ∀ ref, table.Created ref → ¬ref.id = some table.data.size := fun ref created new =>
    Fresh.not_created ⟨_, new, Nat.le_refl _⟩ created
  refine .ofSame ?_ ?_ ?_ ?_ fun group _ => crewOf_create bare
  · exact Nat.le_of_lt (Nat.lt_of_lt_of_eq (Nat.lt_succ_self _) (Array.size_push _).symm)
  · intro ref created live
    rwa [isNull, get?_create bare.present, if_neg (old ref created)] at live
  · exact fun ref member _ _ => List.mem_append_left _ member
  · intro ref member created
    refine (List.mem_append.mp member).resolve_right fun new => old ref created ?_
    exact congrArg ObjectRef.id (List.mem_singleton.mp new)

theorem onward_update (kept : ∀ data, (change data).deleted = data.deleted)
    (apart : ∀ group ∈ table.liveOf .group, group.id ≠ ref.id) :
    table.Onward recruits (table.update ref change) := by
  refine .ofSame (Nat.le_of_eq size_update.symm) ?_ ?_ ?_ ?_
  · exact fun other _ live => (isNull_update_of_kept kept).symm.trans live
  · exact fun other member _ _ => (registry_update ref change).symm ▸ member
  · exact fun other member _ => registry_update ref change ▸ member
  · intro group member
    rw [liveOf_update_of_kept kept] at member
    exact placed_update_of_ne (apart group member)

/-- The unit that is created next joins the group that is given, and no other. -/
theorem crewOf_join (bare : data.Bare) (live : (table.create .unit data).isNull ref = false) :
    ((table.create .unit data).join group (table.next .unit)).crewOf ref =
      if ref.id = group.id then table.crewOf ref ++ [table.next .unit] else table.crewOf ref := by
  have kept : ∀ old : ObjectData,
      { old with crew := old.crew ++ [table.next .unit] }.deleted = old.deleted := fun _ => rfl
  obtain ⟨there, found⟩ := isNull_eq_false_iff.mp live
  have same : there.crew = table.crewOf ref :=
      (placed_of_get? found).symm.trans (crewOf_create bare)
  rw [crewOf, join, placed_update_of_kept kept, found, Option.map_some, Option.getD_some, ← same]
  split <;> rfl

theorem liveOf_join : ((table.create .unit data).join group (table.next .unit)).liveOf kind =
    (table.create .unit data).liveOf kind :=
  liveOf_update_of_kept fun _ => rfl

theorem onward_join (bare : data.Bare) (may : recruits) :
    table.Onward recruits ((table.create .unit data).join group (table.next .unit)) := by
  have created : table.Onward recruits (table.create .unit data) := onward_create bare
  have nulls : ∀ ref, ((table.create .unit data).join group (table.next .unit)).isNull ref =
      (table.create .unit data).isNull ref := fun ref => isNull_update_of_kept fun _ => rfl
  refine ⟨?_, ?_, ?_, ?_, ?_⟩
  · exact Nat.le_trans created.size (Nat.le_of_eq size_update.symm)
  · exact fun ref old live => created.gone ref old ((nulls ref).symm.trans live)
  · intro ref member old live
    rw [join, registry_update]
    exact created.kept ref member old ((nulls ref).symm.trans live)
  · intro ref member
    rw [join, registry_update] at member
    exact created.given ref member
  · intro other member
    rw [liveOf_join] at member
    rw [crewOf_join bare (live_of_mem_liveOf member)]
    split
    · refine ⟨[table.next .unit], rfl, .inr may, ?_⟩
      rintro _ (_ | ⟨_, ⟨⟩⟩)
      exact ⟨_, rfl, Nat.le_refl _⟩
    · exact ⟨[], (List.append_nil _).symm, .inl rfl, nofun⟩

/-! ## Boarding -/

theorem Issued.mem_liveOf (issued : table.Issued ref) (live : table.isNull ref = false) :
    ref ∈ table.liveOf ref.kind := by
  obtain ⟨id, named, _⟩ := size_of_live live
  exact ObjectTable.mem_liveOf.mpr ⟨⟨(issued id named).2 live, live⟩, rfl⟩

theorem Enrolled.apart (enrolled : table.Enrolled) (first : group ∈ table.liveOf .group)
    (second : vehicle ∈ table.liveOf .vehicle) : group.id ≠ vehicle.id := by
  intro same
  obtain ⟨⟨grouped, _⟩, groupKind⟩ := mem_liveOf.mp first
  obtain ⟨⟨parked, _⟩, vehicleKind⟩ := mem_liveOf.mp second
  rw [enrolled.eq_of_id grouped parked same, vehicleKind] at groupKind
  cases groupKind

theorem mem_liveOf_of_vehicleOf? (found : table.vehicleOf? unit = some vehicle) :
    vehicle ∈ table.liveOf .vehicle := by
  have accepted := List.find?_some (show table.live.find? _ = some vehicle from found)
  simp only [Bool.and_eq_true, decide_eq_true_eq] at accepted
  exact mem_liveOf.mpr ⟨mem_live.mp (List.mem_of_find?_eq_some found), accepted.1.1⟩

theorem onward_vacated (enrolled : table.Enrolled) :
    table.Onward recruits (table.vacated unit) := by
  unfold vacated
  split
  · exact .refl table
  case h_2 previous found =>
      exact onward_update (fun _ => rfl) fun group member =>
        enrolled.apart member (mem_liveOf_of_vehicleOf? found)

theorem mem_placed_vacated (member : ref ∈ (table.vacated unit).placed other place) :
    ref ∈ table.placed other place := by
  unfold vacated at member
  split at member
  · exact member
  · exact mem_placed_withoutOccupant member

theorem onward_boarding (enrolled : table.Enrolled) (can : table.CanBoard wanted unit vehicle)
    (issued : table.Issued vehicle) :
    table.Onward recruits
      ((table.vacated unit).update vehicle (Command.takePlace wanted unit)) := by
  refine (onward_vacated enrolled).trans
    (onward_update (ObjectData.takePlace_deleted wanted unit) fun group member => ?_)
  rw [liveOf_vacated] at member
  exact enrolled.apart member (can.vehicleKind ▸ issued.mem_liveOf can.vehicleLive)

/-! ## Who can be found -/

theorem mem_placed_of_create (bare : data.Bare)
    (member : ref ∈ (table.create kind data).placed vehicle place) :
    ref ∈ table.placed vehicle place := by
  rw [placed_create bare] at member
  split at member
  · cases member
  · exact member

@[simp] theorem player_update : (table.update ref change).player = table.player := by
  unfold update
  split <;> rfl

theorem player_objects (asked : Change) : (asked.objects table).player = table.player := by
  cases asked with
  | updateObjects updates =>
      induction updates generalizing table with
      | nil => rfl
      | cons update rest induction => exact induction.trans player_update
  | createObject kind data group =>
      cases group with
      | none => rfl
      | some group => exact player_update
  | deleteObject ref => exact player_update
  | _ => rfl

theorem Issued.of_mem_registry (enrolled : table.Enrolled) (member : ref ∈ table.registry) :
    table.Issued ref := by
  intro id named
  obtain ⟨other, same, inside⟩ := enrolled.given ref member
  exact ⟨Option.mem_unique named same ▸ inside, fun _ => member⟩

namespace Consistent

theorem mentioned (consistent : table.Consistent) (mentioned : table.Mentions ref) :
    table.Issued ref := by
  cases mentioned with
  | null null => exact fun id named => absurd (null ▸ named) (Option.not_mem_none id)
  | registered member => exact .of_mem_registry consistent.enrolled member
  | player => exact consistent.player
  | listed found member =>
      obtain ⟨place, inside⟩ := mem_listed_iff.mp member
      exact consistent.listed _ place ref (placed_of_get? found ▸ inside)

theorem empty : Consistent {} where
  enrolled := .empty
  player := nofun
  listed := fun vehicle place ref member => by
    obtain ⟨_, _, inside⟩ := size_of_live (isNull_of_placed member)
    exact absurd inside (Nat.not_lt_zero _)
  units := nofun
  single := nofun

/-- References stay given out and members stay in their group, so where nobody joins one, only those
matter that can be found where they could not be found before. -/
theorem onward (consistent : before.Consistent) (onward : before.Onward False after)
    (enrolled : after.Enrolled) (player : after.player = before.player ∨ after.Issued after.player)
    (listed : ∀ vehicle place, ∀ ref ∈ after.placed vehicle place,
      ref ∈ before.placed vehicle place ∨ after.Issued ref) : after.Consistent := by
  have crews : ∀ group ∈ after.liveOf .group, after.crewOf group = before.crewOf group := by
    intro group member
    obtain ⟨new, crew, nobody, -⟩ := onward.joined group member
    obtain rfl := nobody.resolve_right id
    rw [crew, List.append_nil]
  refine ⟨enrolled, ?_, ?_, ?_, ?_⟩
  · exact player.elim (fun same => same ▸ onward.issued consistent.player) id
  · exact fun vehicle place ref member => (listed vehicle place ref member).elim
      (fun old => onward.issued (consistent.listed vehicle place ref old)) id
  · intro group there member inside
    rw [crews group there] at inside
    exact consistent.units group (onward.group_of_crew there inside) member inside
  · intro group there other also member inside again within
    rw [crews group there] at inside
    rw [crews other also] at within
    exact consistent.single group (onward.group_of_crew there inside) other
      (onward.group_of_crew also within) member inside again within

theorem alike (consistent : before.Consistent) (alike : before.Alike after)
    (player : after.player = before.player ∨ after.Issued after.player) : after.Consistent :=
  consistent.onward alike.onward (consistent.enrolled.alike alike) player
    fun vehicle place _ member => .inl (alike.placed vehicle place ▸ member)

theorem loses (consistent : before.Consistent) (loses : before.Loses after)
    (player : after.player = before.player) : after.Consistent := by
  refine consistent.onward loses.onward (consistent.enrolled.loses loses) (.inl player)
    fun vehicle place ref member => .inl ?_
  rcases loses.placed vehicle place with nobody | same
  · simp [nobody] at member
  · exact same ▸ member

theorem create (consistent : table.Consistent) (bare : data.Bare) :
    (table.create kind data).Consistent :=
  consistent.onward (onward_create bare) (consistent.enrolled.create bare.present) (.inl rfl)
    fun _ _ _ member => .inl (mem_placed_of_create bare member)

theorem join (consistent : table.Consistent) (bare : data.Bare) :
    ((table.create .unit data).join group (table.next .unit)).Consistent := by
  have created : (table.create .unit data).Consistent := consistent.create bare
  have enrolled : ((table.create .unit data).join group (table.next .unit)).Enrolled :=
    created.enrolled.update _ _
  have onward : table.Onward True ((table.create .unit data).join group (table.next .unit)) :=
    onward_join bare trivial
  have registered : table.next .unit ∈
      ((table.create .unit data).join group (table.next .unit)).registry := by
    rw [ObjectTable.join, registry_update]
    exact List.mem_append_right _ (List.mem_singleton_self _)
  -- Whoever is a member now was one before, or is the new unit.
  have members : ∀ other ∈ ((table.create .unit data).join group (table.next .unit)).liveOf .group,
      ∀ member ∈ ((table.create .unit data).join group (table.next .unit)).crewOf other,
        (other ∈ table.liveOf .group ∧ member ∈ table.crewOf other) ∨
          (other.id = group.id ∧ member = table.next .unit) := by
    intro other there member inside
    have live := live_of_mem_liveOf (liveOf_join ▸ there)
    rw [crewOf_join bare live] at inside
    split at inside
    case isTrue same =>
      rcases List.mem_append.mp inside with old | new
      · exact .inl ⟨onward.group_of_crew there old, old⟩
      · exact .inr ⟨same, List.mem_singleton.mp new⟩
    case isFalse => exact .inl ⟨onward.group_of_crew there inside, inside⟩
  have apart : ∀ other, ∀ member ∈ table.crewOf other, member.id ≠ (table.next .unit).id := by
    intro other member inside same
    exact absurd (consistent.listed other none member inside _ same).1 (Nat.lt_irrefl _)
  refine ⟨enrolled, ?_, ?_, ?_, ?_⟩
  · rw [ObjectTable.join, player_update]
    exact onward.issued consistent.player
  · intro vehicle place ref member
    -- Joining a group is taking a place in its list.
    change ref ∈ ((table.create .unit data).update group
      (Command.takePlace none (table.next .unit))).placed vehicle place at member
    rcases mem_placed_takePlace member with old | rfl
    · exact onward.issued (consistent.listed vehicle place ref (mem_placed_of_create bare old))
    · exact .of_mem_registry enrolled registered
  · intro other there member inside
    rcases members other there member inside with ⟨old, listed⟩ | ⟨-, rfl⟩
    · exact consistent.units other old member listed
    · rfl
  · intro first there second also member inside again within same
    rcases members first there member inside with ⟨old, listed⟩ | ⟨here, rfl⟩ <;>
      rcases members second also again within with ⟨older, relisted⟩ | ⟨near, rfl⟩
    · exact consistent.single first old second older member listed again relisted same
    · exact absurd same.symm (apart first member listed)
    · exact absurd same (apart second again relisted)
    · exact enrolled.eq_of_id (mem_liveOf.mp also).1.1 (mem_liveOf.mp there).1.1
        (near.trans here.symm)

theorem boarding (consistent : table.Consistent) (can : table.CanBoard wanted unit vehicle)
    (unitIssued : table.Issued unit) (vehicleIssued : table.Issued vehicle) :
    ((table.vacated unit).update vehicle (Command.takePlace wanted unit)).Consistent := by
  have onward : table.Onward False _ := onward_boarding consistent.enrolled can vehicleIssued
  have player : ((Change.updateObjects (table.boarding wanted unit vehicle)).objects table).player =
      table.player := player_objects _
  rw [boarding_objects] at player
  refine consistent.onward onward ((vacated_enrolled consistent.enrolled).update _ _)
    (.inl player) ?_
  intro other place ref member
  rcases mem_placed_takePlace member with stayed | rfl
  · exact .inl (mem_placed_vacated stayed)
  · exact .inr (onward.issued unitIssued)

theorem objects {asked : Change} {holds : Value → Prop} {supplies : CodeBlock → Prop}
    {exec : Execution} (consistent : exec.world.store.objects.Consistent)
    (known : ∀ ref, holds (.object ref) → exec.world.store.objects.Issued ref)
    (sanctioned : asked.Sanctioned holds supplies recruits exec) :
    (asked.objects exec.world.store.objects).Consistent ∧
      exec.world.store.objects.Onward recruits (asked.objects exec.world.store.objects) := by
  cases asked with
  | updateObjects updates =>
      cases (sanctioned : exec.world.store.objects.Permits _ updates) with
      | inert each =>
          have alike : exec.world.store.objects.Alike
              ((Change.updateObjects updates).objects exec.world.store.objects) :=
            alike_updateObjects each
          exact ⟨consistent.alike alike (.inl (player_objects _)), alike.onward⟩
      | boarding can unitHeld vehicleHeld =>
          have issued := known _ vehicleHeld
          rw [boarding_objects]
          exact ⟨consistent.boarding can (known _ unitHeld) issued,
            onward_boarding consistent.enrolled can issued⟩
  | createObject kind data group =>
      obtain ⟨bare, joins⟩ := sanctioned
      cases group with
      | none => exact ⟨consistent.create bare, onward_create bare⟩
      | some group =>
          obtain ⟨may, rfl⟩ := joins rfl
          exact ⟨consistent.join bare, onward_join bare may⟩
  | deleteObject ref =>
      have loses := (loses_destroy exec.world.store.objects ref).trans (loses_forgetDeleted _)
      exact ⟨consistent.loses loses (player_objects (.deleteObject ref)), loses.onward⟩
  | _ => exact ⟨consistent, .refl _⟩

end Consistent

/-! ## Looking a group up -/

/-- The group of an object is the first one that lists it. -/
theorem groupOf?_eq : table.groupOf? ref =
    (table.liveOf .group).find? fun group => table.lists (table.crewOf group) ref := by
  rw [groupOf?, liveOf, ← List.head?_filter, ← List.head?_filter, List.filter_filter]
  refine congrArg List.head? (List.filter_congr fun group member => ?_)
  obtain ⟨data, found⟩ := isNull_eq_false_iff.mp (mem_live.mp member).2
  rw [found, crewOf, placed_of_get? found, Option.any_some, Bool.and_comm]
  rfl

theorem lists_of_groupOf? (found : table.groupOf? ref = some group) :
    group ∈ table.liveOf .group ∧ table.lists (table.crewOf group) ref = true := by
  rw [groupOf?_eq] at found
  exact ⟨List.mem_of_find?_eq_some found,
    List.find?_some (p := fun group => table.lists (table.crewOf group) ref) found⟩

theorem lists_eq_false_of_groupOf? (missing : table.groupOf? ref = none)
    (there : group ∈ table.liveOf .group) : ¬table.lists (table.crewOf group) ref = true := by
  rw [groupOf?_eq] at missing
  exact List.find?_eq_none.mp missing group there

theorem Consistent.lists_iff (consistent : table.Consistent) (member : ref ∈ table.live) :
    table.lists (table.crewOf group) ref = true ↔ ref ∈ table.crewOf group := by
  obtain ⟨registered, live⟩ := mem_live.mp member
  obtain ⟨id, known, _⟩ := size_of_live live
  rw [lists, List.any_eq_true]
  constructor
  · rintro ⟨other, inside, same⟩
    have named := (same_iff_of_live live).mp same
    have issued := consistent.listed group none other inside id (named.trans known)
    have enlisted := issued.2 ((isNull_congr named).trans live)
    exact consistent.enrolled.eq_of_id enlisted registered named ▸ inside
  · exact fun inside => ⟨ref, inside, (same_iff_of_live live).mpr rfl⟩

theorem Consistent.groupOf?_of_live (consistent : table.Consistent) (member : ref ∈ table.live) :
    table.groupOf? ref = some group ↔ group ∈ table.liveOf .group ∧ ref ∈ table.crewOf group := by
  constructor
  · intro found
    obtain ⟨there, lists⟩ := lists_of_groupOf? found
    exact ⟨there, (consistent.lists_iff member).mp lists⟩
  · rintro ⟨there, inside⟩
    cases found : table.groupOf? ref with
    | none =>
        exact absurd ((consistent.lists_iff member).mpr inside)
          (lists_eq_false_of_groupOf? found there)
    | some other =>
        obtain ⟨also, lists⟩ := lists_of_groupOf? found
        have within := (consistent.lists_iff member).mp lists
        exact congrArg some (consistent.single group there other also ref inside ref within rfl)

/-- For a null or deleted reference a group is found that lists someone who has been deleted. -/
theorem groupOf?_of_isNull (null : table.isNull ref = true)
    (found : table.groupOf? ref = some group) :
    group ∈ table.liveOf .group ∧ ∃ member ∈ table.crewOf group, table.isNull member = true := by
  obtain ⟨there, lists⟩ := lists_of_groupOf? found
  obtain ⟨member, inside, same⟩ := List.any_eq_true.mp lists
  refine ⟨there, member, inside, ?_⟩
  rcases Bool.or_eq_true_iff.mp same with named | both
  · exact (isNull_congr (eq_of_beq (Bool.and_eq_true_iff.mp named).2)).trans null
  · exact (Bool.and_eq_true_iff.mp (Bool.and_eq_true_iff.mp both).1).1

/-- For such a reference to a unit or a vehicle one is found if there is one. -/
theorem Consistent.isNull_of_groupOf?_eq_none (consistent : table.Consistent)
    (null : table.isNull ref = true) (type : ref.kind.valueType = .object)
    (missing : table.groupOf? ref = none) (there : group ∈ table.liveOf .group)
    (inside : other ∈ table.crewOf group) : table.isNull other = false := by
  rw [Bool.eq_false_iff]
  intro gone
  refine lists_eq_false_of_groupOf? missing there (List.any_eq_true.mpr ⟨other, inside, ?_⟩)
  have typed : other.kind.valueType = .object := by
    rw [consistent.units group there other inside]
    rfl
  simp [same, gone, null, type, typed]

end ObjectTable

end SimScript
