import Mathlib.Data.List.Nodup
import Mathlib.Data.List.Perm.Subperm
import Mathlib.Data.Nat.Find
import Mathlib.Logic.Relation
import SimScript.Proofs.Config.Lookup

/-!
# Ancestors of config classes

A class names its parent, which names its own, and so on within the container, until a
name stands for no class or a class has no parent.  Nothing keeps such a chain from going
round in a circle.  The search for an ancestor takes a number of steps that depends on the
container only; it is enough, because the first name that fits stands no farther away
than there are entries.
-/

namespace SimScript

namespace ConfigClass

/-- The name of the parent of the class that a name stands for. -/
def parentOf? (container : ConfigClass) (name : String) : Option String :=
  (container.class? name).bind ConfigClass.parent

/-- The names that are reached from one by going to the parent any number of times. -/
def Descends (container : ConfigClass) : String → String → Prop :=
  Relation.ReflTransGen fun name parent => container.parentOf? name = some parent

/-- The name that is reached by going to the parent so many times. -/
def ancestor? (container : ConfigClass) (name : String) : (distance : Nat) → Option String
  | 0 => some name
  | distance + 1 =>
      (container.parentOf? name).bind fun parent => container.ancestor? parent distance

variable {container current : ConfigClass} {name other ancestor base : String}
  {distance steps : Nat}

theorem parentOf?_congr (same : Text.sameName other name = true) :
    container.parentOf? other = container.parentOf? name := by
  rw [parentOf?, parentOf?, class?_congr same]

theorem ancestor?_zero (container : ConfigClass) (name : String) :
    container.ancestor? name 0 = some name := rfl

theorem ancestor?_succ (container : ConfigClass) (name : String) (distance : Nat) :
    container.ancestor? name (distance + 1) =
      (container.parentOf? name).bind fun parent => container.ancestor? parent distance := rfl

theorem ancestor?_add (first second : Nat) :
    container.ancestor? name (first + second) =
      (container.ancestor? name first).bind fun passed => container.ancestor? passed second := by
  induction first generalizing name with
  | zero => rw [Nat.zero_add, ancestor?_zero, Option.bind_some]
  | succ first induction =>
      rw [Nat.succ_add, ancestor?_succ, ancestor?_succ, Option.bind_assoc]
      simp only [induction]

theorem ancestor?_congr (same : Text.sameName other name = true) (farther : 0 < distance) :
    container.ancestor? other distance = container.ancestor? name distance := by
  obtain ⟨distance, rfl⟩ := Nat.exists_eq_add_one.mpr farther
  rw [ancestor?_succ, ancestor?_succ, parentOf?_congr same]

theorem descends_iff :
    container.Descends name ancestor ↔
      ∃ distance, container.ancestor? name distance = some ancestor := by
  constructor
  · intro descends
    induction descends using Relation.ReflTransGen.head_induction_on with
    | refl => exact ⟨0, rfl⟩
    | head parent _ induction =>
        obtain ⟨distance, reached⟩ := induction
        exact ⟨distance + 1, by rw [ancestor?_succ, parent, Option.bind_some, reached]⟩
  · rintro ⟨distance, reached⟩
    induction distance generalizing name with
    | zero =>
        cases reached
        exact .refl
    | succ distance induction =>
        obtain ⟨parent, up, reached⟩ := Option.bind_eq_some_iff.mp reached
        exact .head up (induction reached)

theorem declared_of_ancestor? (farther : 0 < distance)
    (reached : container.ancestor? name distance = some ancestor) :
    ∃ entry ∈ container.entries, Text.lower entry.1 = Text.lower name := by
  obtain ⟨distance, rfl⟩ := Nat.exists_eq_add_one.mpr farther
  obtain ⟨parent, up, _⟩ := Option.bind_eq_some_iff.mp reached
  obtain ⟨inner, isClass, _⟩ := Option.bind_eq_some_iff.mp up
  obtain ⟨entry, found, _⟩ := Option.bind_eq_some_iff.mp isClass
  obtain ⟨declared, found, _⟩ := Option.map_eq_some_iff.mp found
  exact ⟨declared, List.mem_of_find?_eq_some found,
    Text.sameName_iff.mp (List.find?_eq_some_iff_append.mp found).1⟩

/-- A chain of parents passes some name at every distance up to its end. -/
theorem exists_passed (reached : container.ancestor? name distance = some ancestor)
    {place : Nat} (early : place ≤ distance) :
    ∃ passed, container.ancestor? name place = some passed ∧
      container.ancestor? passed (distance - place) = some ancestor := by
  have whole : place + (distance - place) = distance := by omega
  rw [← whole, ancestor?_add] at reached
  exact Option.bind_eq_some_iff.mp reached

/-- Where a chain of parents comes to one name twice, what is between can be left out. -/
theorem ancestor?_shorten (reached : container.ancestor? name distance = some ancestor)
    {place later : Nat} (earlier : place < later) (early : later < distance)
    (same : (container.ancestor? name place).map Text.lower =
      (container.ancestor? name later).map Text.lower) :
    container.ancestor? name (place + (distance - later)) = some ancestor := by
  obtain ⟨passed, here, _⟩ := exists_passed reached (Nat.le_of_lt (Nat.lt_trans earlier early))
  obtain ⟨again, there, goesOn⟩ := exists_passed reached (Nat.le_of_lt early)
  have one : Text.lower passed = Text.lower again := by simpa [here, there] using same
  have farther : 0 < distance - later := by omega
  rw [ancestor?_add, here, Option.bind_some, ancestor?_congr (Text.sameName_iff.mpr one) farther,
    goesOn]

/-- Where the names before one on a chain of parents are all different, there are no more of them
than entries. -/
theorem distance_le_length (reached : container.ancestor? name distance = some ancestor)
    (apart : ∀ place later, place < later → later < distance →
      (container.ancestor? name place).map Text.lower ≠
        (container.ancestor? name later).map Text.lower) :
    distance ≤ container.entries.length := by
  let folded (place : Nat) := (container.ancestor? name place).map Text.lower
  have nodup : ((List.range distance).map folded).Nodup := by
    refine List.Nodup.map_on (fun place early later lately same => ?_) List.nodup_range
    rw [List.mem_range] at early lately
    rcases Nat.lt_trichotomy place later with less | equal | more
    · exact absurd same (apart place later less lately)
    · exact equal
    · exact absurd same.symm (apart later place more early)
  have declared : (List.range distance).map folded ⊆
      container.entries.map fun entry => some (Text.lower entry.1) := by
    intro key member
    obtain ⟨place, early, rfl⟩ := List.mem_map.mp member
    rw [List.mem_range] at early
    obtain ⟨passed, here, goesOn⟩ := exists_passed reached (Nat.le_of_lt early)
    obtain ⟨entry, declared, same⟩ := declared_of_ancestor? (Nat.sub_pos_of_lt early) goesOn
    exact List.mem_map.mpr ⟨entry, declared, by simp [folded, here, same]⟩
  simpa using (List.Nodup.subperm nodup declared).length_le

/-- Where some name on the chain of parents fits, one that is no farther away than there are entries
does: the names before the first that fits are all different, and each is that of an entry. -/
theorem exists_near (reached : container.ancestor? name distance = some ancestor)
    (fits : Text.sameName ancestor base = true) :
    ∃ near ≤ container.entries.length, ∃ ancestor,
      container.ancestor? name near = some ancestor ∧ Text.sameName ancestor base = true := by
  classical
  have stands : ∃ near ancestor,
      container.ancestor? name near = some ancestor ∧ Text.sameName ancestor base = true :=
    ⟨distance, ancestor, reached, fits⟩
  obtain ⟨first, reached, fits⟩ := Nat.find_spec stands
  refine ⟨Nat.find stands, distance_le_length reached ?_, first, reached, fits⟩
  intro place later earlier early same
  -- If two of them were one name, the chain would come to the fitting one by a shorter way.
  have shortens : place + (Nat.find stands - later) < Nat.find stands := by omega
  exact Nat.find_min stands shortens ⟨first, ancestor?_shorten reached earlier early same, fits⟩

/-! ## The search -/

theorem hasAncestor_succ (container current : ConfigClass) (base name : String) (steps : Nat) :
    container.hasAncestor base (steps + 1) current name =
      if Text.sameName name base then true
      else
        match current.parent with
        | none => false
        | some parent =>
            match container.class? parent with
            | some next => container.hasAncestor base steps next parent
            | none => Text.sameName parent base := rfl

theorem descends_of_hasAncestor (isClass : container.class? name = some current)
    (has : container.hasAncestor base steps current name = true) :
    ∃ ancestor, container.Descends name ancestor ∧ Text.sameName ancestor base = true := by
  induction steps generalizing current name with
  | zero => cases has
  | succ steps induction =>
      rw [hasAncestor_succ] at has
      split at has
      case isTrue fits => exact ⟨name, .refl, fits⟩
      case isFalse =>
          split at has
          case h_1 => cases has
          case h_2 parent named =>
              have up : container.parentOf? name = some parent := by
                rw [parentOf?, isClass, Option.bind_some, named]
              split at has
              case h_1 next found =>
                  obtain ⟨ancestor, descends, fits⟩ := induction found has
                  exact ⟨ancestor, .head up descends, fits⟩
              case h_2 => exact ⟨parent, .single up, has⟩

/-- With more steps than there are to a name that fits, the search finds one. -/
theorem hasAncestor_of_ancestor? (isClass : container.class? name = some current)
    (reached : container.ancestor? name distance = some ancestor)
    (fits : Text.sameName ancestor base = true) (enough : distance < steps) :
    container.hasAncestor base steps current name = true := by
  induction steps generalizing current name distance with
  | zero => omega
  | succ steps induction =>
      rw [hasAncestor_succ]
      split
      case isTrue => rfl
      case isFalse other =>
          cases distance with
          | zero =>
              cases reached
              exact absurd fits other
          | succ distance =>
              obtain ⟨parent, up, reached⟩ := Option.bind_eq_some_iff.mp reached
              have named : current.parent = some parent := by
                rwa [parentOf?, isClass, Option.bind_some] at up
              rw [named]
              dsimp only
              split
              case h_1 next found => exact induction found reached (by omega)
              case h_2 missing =>
                  -- The chain ends at a name that stands for no class.
                  cases distance with
                  | zero =>
                      cases reached
                      exact fits
                  | succ distance => simp [ancestor?_succ, parentOf?, missing] at reached

/-- With more steps than there are entries, the search finds a name that fits exactly where there is
one on the chain of parents. -/
theorem hasAncestor_iff (isClass : container.class? name = some current)
    (enough : container.entries.length < steps) :
    container.hasAncestor base steps current name = true ↔
      ∃ ancestor, container.Descends name ancestor ∧ Text.sameName ancestor base = true := by
  constructor
  · exact descends_of_hasAncestor isClass
  · rintro ⟨ancestor, descends, fits⟩
    obtain ⟨distance, reached⟩ := descends_iff.mp descends
    obtain ⟨near, bound, ancestor, reached, fits⟩ := exists_near reached fits
    exact hasAncestor_of_ancestor? isClass reached fits (by omega)

/-- Whether a name on the chain of parents fits does not depend on how the first one is spelled. -/
theorem descends_of_sameName (same : Text.sameName other name = true)
    (descends : container.Descends name ancestor) (fits : Text.sameName ancestor base = true) :
    ∃ ancestor, container.Descends other ancestor ∧ Text.sameName ancestor base = true := by
  rcases Relation.ReflTransGen.cases_head descends with rfl | ⟨parent, up, beyond⟩
  · have folded := (Text.sameName_iff.mp same).trans (Text.sameName_iff.mp fits)
    exact ⟨other, .refl, Text.sameName_iff.mpr folded⟩
  · exact ⟨ancestor, .head ((parentOf?_congr same).trans up) beyond, fits⟩

end ConfigClass

theorem ConfigTree.isKindOf?_eq (tree : ConfigTree) (path : List String)
    (className base : String) :
    tree.isKindOf? path className base =
      (tree.root.classAt? path).bind fun container =>
        (container.class? className).bind fun current =>
          (container.keyOf? className).bind fun key =>
            some (container.hasAncestor base (container.entries.length + 1) current key) := by
  rw [ConfigClass.classAt?, Option.bind_assoc]
  rfl

theorem ConfigTree.isKindOf?_of_class? (tree : ConfigTree) {path : List String}
    {className : String} {container current : ConfigClass}
    (leads : tree.root.classAt? path = some container)
    (isClass : container.class? className = some current) (base : String) :
    ∃ key, container.keyOf? className = some key ∧ container.class? key = some current ∧
      tree.isKindOf? path className base =
        some (container.hasAncestor base (container.entries.length + 1) current key) := by
  have declared := container.isSome_keyOf? className
  rw [ConfigClass.isSome_get?_of_class? isClass] at declared
  obtain ⟨key, keyed⟩ := Option.isSome_iff_exists.mp declared
  have same : container.class? key = container.class? className :=
    ConfigClass.class?_congr (ConfigClass.sameName_of_keyOf? keyed)
  refine ⟨key, keyed, same.trans isClass, ?_⟩
  rw [tree.isKindOf?_eq, leads, Option.bind_some, isClass, Option.bind_some, keyed,
    Option.bind_some]

/-- There is no answer exactly where the path leads to no class, or to one without a class of that
name. -/
theorem ConfigTree.isKindOf?_eq_none_iff {tree : ConfigTree} {path : List String}
    {className base : String} :
    tree.isKindOf? path className base = none ↔
      ∀ container, tree.root.classAt? path = some container →
        container.class? className = none := by
  constructor
  · intro unanswered container leads
    cases isClass : container.class? className with
    | none => rfl
    | some current =>
        obtain ⟨key, _, _, answer⟩ := tree.isKindOf?_of_class? leads isClass base
        rw [unanswered] at answer
        cases answer
  · intro noClass
    rw [tree.isKindOf?_eq]
    cases leads : tree.root.classAt? path with
    | none => rfl
    | some container => rw [Option.bind_some, noClass container leads, Option.bind_none]

/-- For a class that is there, the answer is yes where some name on its chain of parents fits. -/
theorem ConfigTree.isKindOf?_eq_true_iff {tree : ConfigTree} {path : List String}
    {className base : String} {container current : ConfigClass}
    (leads : tree.root.classAt? path = some container)
    (isClass : container.class? className = some current) :
    tree.isKindOf? path className base = some true ↔
      ∃ ancestor, container.Descends className ancestor ∧ Text.sameName ancestor base = true := by
  obtain ⟨key, keyed, stands, answer⟩ := tree.isKindOf?_of_class? leads isClass base
  have same := ConfigClass.sameName_of_keyOf? keyed
  rw [answer, Option.some.injEq, ConfigClass.hasAncestor_iff stands (Nat.lt_succ_self _)]
  constructor
  · rintro ⟨ancestor, descends, fits⟩
    exact ConfigClass.descends_of_sameName (Text.sameName_comm _ _ ▸ same) descends fits
  · rintro ⟨ancestor, descends, fits⟩
    exact ConfigClass.descends_of_sameName same descends fits

/-- There is no answer exactly where the path leads to no class, or to a class without a class of
that name.  Otherwise the answer is whether some name on the chain of parents is the wanted one, but
for the case of letters; and with any more steps than there are entries it is the same, also where
the chain goes round in a circle. -/
theorem kinds_are_ancestors (tree : ConfigTree) (path : List String)
    (className base : String) :
    (tree.isKindOf? path className base = none ↔
      ∀ container, tree.root.classAt? path = some container →
        container.class? className = none) ∧
    ∀ container current, tree.root.classAt? path = some container →
      container.class? className = some current →
      (tree.isKindOf? path className base = some true ↔
        ∃ ancestor, container.Descends className ancestor ∧
          Text.sameName ancestor base = true) ∧
      ∃ key, container.keyOf? className = some key ∧
        ∀ steps, container.entries.length < steps →
          tree.isKindOf? path className base =
            some (container.hasAncestor base steps current key) := by
  refine ⟨ConfigTree.isKindOf?_eq_none_iff, fun container current leads isClass =>
    ⟨ConfigTree.isKindOf?_eq_true_iff leads isClass, ?_⟩⟩
  obtain ⟨key, keyed, stands, answer⟩ := tree.isKindOf?_of_class? leads isClass base
  refine ⟨key, keyed, fun steps enough => ?_⟩
  rw [answer, Option.some.injEq, Bool.eq_iff_iff,
    ConfigClass.hasAncestor_iff stands (Nat.lt_succ_self _),
    ConfigClass.hasAncestor_iff stands enough]

/-- Two classes that name each other as parents, and one whose parent is a number: a name off the
circle is not found, and the name of the number ends its chain. -/
theorem kinds_in_a_circle :
    let entries : List (String × ConfigEntry) :=
      [("Car", .classOf (some "LANDVEHICLE") []), ("LandVehicle", .classOf (some "car") []),
        ("Bike", .classOf (some "Wheels") []), ("wheels", .value (.number 2))]
    let container : ConfigClass := { entries }
    let tree : ConfigTree := ⟨⟨none, [("CfgVehicles", container.toEntry)]⟩⟩
    let path := ["cfgvehicles"]
    (∃ ancestor, container.Descends "CAR" ancestor ∧
      Text.sameName ancestor "landVehicle" = true) ∧
    (¬ ∃ ancestor, container.Descends "CAR" ancestor ∧ Text.sameName ancestor "Bike" = true) ∧
    tree.isKindOf? path "bike" "WHEELS" = some true ∧
    ∀ container, tree.root.classAt? path = some container → container.class? "wheels" = none := by
  intro entries container tree path
  have leads : tree.root.classAt? path = some container := by
    have same : Text.sameName "CfgVehicles" "cfgvehicles" = true := by decide +kernel
    simp [tree, path, ConfigClass.classAt?_cons, ConfigClass.class?, ConfigClass.get?,
      ConfigClass.find?, same, ConfigClass.toEntry, ConfigEntry.asClass?, ConfigClass.classAt?_nil]
  have asked (className base : String) (isClass : (container.class? className).isSome = true) :
      tree.isKindOf? path className base = some true ↔ ∃ ancestor,
        container.Descends className ancestor ∧ Text.sameName ancestor base = true := by
    obtain ⟨current, isClass⟩ := Option.isSome_iff_exists.mp isClass
    exact ((kinds_are_ancestors tree path className base).2 container current leads isClass).1
  have found : tree.isKindOf? path "CAR" "landVehicle" = some true := by decide +kernel
  have missed : tree.isKindOf? path "CAR" "Bike" ≠ some true := by decide +kernel
  have up : container.parentOf? "bike" = some "Wheels" := by decide +kernel
  refine ⟨(asked "CAR" "landVehicle" (by decide +kernel)).mp found,
    fun kind => missed ((asked "CAR" "Bike" (by decide +kernel)).mpr kind), ?_,
    (kinds_are_ancestors tree path "wheels" "").1.mp (by decide +kernel)⟩
  exact (asked "bike" "WHEELS" (by decide +kernel)).mpr ⟨"Wheels", .single up, by decide +kernel⟩

end SimScript
