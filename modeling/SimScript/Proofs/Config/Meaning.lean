import Mathlib.Data.Set.Finite.Lemmas
import Mathlib.Data.String.Basic
import SimScript.Config.Loader
import SimScript.Proofs.Config.Lookup

/-!
# What a JSON document means as a config tree

A number, a text or an array is a value.  An object is a class: its member `#parent` names
the parent, and the other members are gathered by their names, whose case does not matter.
A name is kept in its first spelling and stands for the last member of that name.  Paths are
followed in the document as they are in the tree.
-/

namespace SimScript

theorem Text.sameName_congr {left right other : String} (same : sameName left right = true) :
    sameName left other = sameName right other := by
  rw [sameName, sameName, sameName_iff.mp same]

namespace ConfigTree

/-- What a JSON value is as a value of a config tree. -/
inductive Means : Json → ConfigValue → Prop where
  | number {json : Json} {number : Float} (scalar : json.asScalar? = some number) :
      Means json (.number number)
  | text (content : String) : Means (.string content) (.text content)
  | array {items : List Json} {values : List ConfigValue}
      (each : List.Forall₂ Means items values) : Means (.array items) (.array values)

/-- A key of an object, other than the parent's, is a spelling of a name. -/
structure Spells (members : List (String × Json)) (name key : String) : Prop where
  mem : key ∈ members.map Prod.fst
  notParent : key ≠ parentKey
  same : Text.sameName key name = true

/-- A key of an object comes first among the spellings of its name. -/
structure IsFirst (members : List (String × Json)) (key : String) : Prop where
  spells : Spells members key key
  least : ∀ other, Spells members key other → key ≤ other

/-- The member of an object that a name stands for: that of its last spelling. -/
def Chosen (members : List (String × Json)) (name : String) (member : Json) : Prop :=
  ∃ key, (key, member) ∈ members ∧ Spells members name key ∧
    ∀ other, Spells members name other → other ≤ key

/-- What a JSON value is as an entry of a config tree.  A class has the names of its members in
their first spellings, in the order of these, and each name has the member that it stands for. -/
inductive Denotes : Json → ConfigEntry → Prop where
  | value {json : Json} {held : ConfigValue} (means : Means json held) : Denotes json (.value held)
  | classOf {members : List (String × Json)} {parent : Option String}
      {entries : List (String × ConfigEntry)}
      (parents : ∀ name, parent = some name ↔ (parentKey, Json.string name) ∈ members)
      (ascending : (entries.map Prod.fst).Pairwise (· < ·))
      (spelled : ∀ key, key ∈ entries.map Prod.fst ↔ IsFirst members key)
      (each : ∀ key entry member, (key, entry) ∈ entries → Chosen members key member →
        Denotes member entry) :
      Denotes (.object members) (.classOf parent entries)

/-- Follows a path of names down from a JSON value. -/
inductive Finds : Json → List String → Json → Prop where
  | here (json : Json) : Finds json [] json
  | step {members : List (String × Json)} {name : String} {member found : Json}
      {path : List String} (chosen : Chosen members name member)
      (finds : Finds member path found) : Finds (.object members) (name :: path) found

end ConfigTree

/-- At every depth, no two keys of a class differ in the case of letters only. -/
inductive ConfigEntry.KeysDiffer : ConfigEntry → Prop where
  | value (held : ConfigValue) : KeysDiffer (.value held)
  | classOf (parent : Option String) {entries : List (String × ConfigEntry)}
      (differ : entries.Pairwise fun one other => Text.sameName one.1 other.1 = false)
      (each : ∀ entry ∈ entries, KeysDiffer entry.2) : KeysDiffer (.classOf parent entries)

namespace ConfigTree

variable {members : List (String × Json)} {name other key : String} {json member : Json}
  {parent : Option String} {entries : List (String × ConfigEntry)} {entry : ConfigEntry}
  {container built : ConfigClass} {path : List String}

/-! ## Spellings -/

theorem Spells.congr (same : Text.sameName other name = true) (spells : Spells members other key) :
    Spells members name key := by
  refine ⟨spells.mem, spells.notParent, ?_⟩
  rw [Text.sameName_comm, ← Text.sameName_congr same, Text.sameName_comm]
  exact spells.same

theorem finite_spells (members : List (String × Json)) (name : String) :
    {key | Spells members name key}.Finite :=
  (List.finite_toSet (members.map Prod.fst)).subset fun _ spells => spells.mem

theorem exists_isFirst (spells : Spells members name key) :
    ∃ first, IsFirst members first ∧ Text.sameName first name = true := by
  obtain ⟨first, spelled, least⟩ :=
    Set.exists_min_image _ id (finite_spells members name) ⟨key, spells⟩
  refine ⟨first, ⟨⟨spelled.mem, spelled.notParent, Text.sameName_self first⟩, ?_⟩, spelled.same⟩
  intro other otherSpells
  exact least other (otherSpells.congr spelled.same)

theorem exists_chosen (spells : Spells members name key) :
    ∃ member, Chosen members name member := by
  obtain ⟨last, spelled, greatest⟩ :=
    Set.exists_max_image _ id (finite_spells members name) ⟨key, spells⟩
  obtain ⟨⟨_, member⟩, mem, rfl⟩ := List.mem_map.mp spelled.mem
  exact ⟨member, _, mem, spelled, greatest⟩

theorem Chosen.congr (same : Text.sameName other name = true)
    (chosen : Chosen members name member) : Chosen members other member := by
  have back : Text.sameName name other = true := by rwa [Text.sameName_comm]
  obtain ⟨key, mem, spells, greatest⟩ := chosen
  refine ⟨key, mem, spells.congr back, ?_⟩
  intro rival rivals
  exact greatest rival (rivals.congr same)

/-! ## What is meant -/

theorem not_means_object {held : ConfigValue} : ¬ Means (.object members) held := by
  intro means
  cases means with
  | number scalar => cases scalar

theorem Denotes.exists_object (denotes : Denotes json container.toEntry) :
    ∃ members, json = .object members := by
  cases denotes with
  | @classOf members => exact ⟨members, rfl⟩

theorem Denotes.exists_classOf (denotes : Denotes (.object members) entry) :
    ∃ inner : ConfigClass, entry = inner.toEntry := by
  cases denotes with
  | value means => exact absurd means not_means_object
  | @classOf _ parent entries => exact ⟨⟨parent, entries⟩, rfl⟩

theorem exists_chosen_of_spelled
    (spelled : ∀ key, key ∈ entries.map Prod.fst ↔ IsFirst members key)
    (mem : (key, entry) ∈ entries) : ∃ member, Chosen members key member := by
  apply exists_chosen
  exact ((spelled key).mp (List.mem_map_of_mem mem)).spells

theorem differ_of_spelled (ascending : (entries.map Prod.fst).Pairwise (· < ·))
    (spelled : ∀ key, key ∈ entries.map Prod.fst ↔ IsFirst members key) :
    entries.Pairwise fun one other => Text.sameName one.1 other.1 = false := by
  apply (List.pairwise_map.mp ascending).imp_of_mem
  intro one other mem otherMem below
  apply Bool.eq_false_iff.mpr
  intro same
  have first := (spelled one.1).mp (List.mem_map_of_mem mem)
  have second := (spelled other.1).mp (List.mem_map_of_mem otherMem)
  have atMost := second.least one.1 ⟨first.spells.mem, first.spells.notParent, same⟩
  exact absurd below (not_lt.mpr atMost)

theorem Denotes.keysDiffer (denotes : Denotes json entry) : entry.KeysDiffer := by
  induction denotes with
  | value means => exact .value _
  | classOf parents ascending spelled each induction =>
      apply ConfigEntry.KeysDiffer.classOf _ (differ_of_spelled ascending spelled)
      intro entry mem
      obtain ⟨member, chosen⟩ := exists_chosen_of_spelled spelled mem
      exact induction _ _ member mem chosen

theorem exists_key_of_get? (held : container.get? name = some entry) :
    ∃ key, (key, entry) ∈ container.entries ∧ Text.sameName key name = true := by
  obtain ⟨⟨key, _⟩, found, rfl⟩ := Option.map_eq_some_iff.mp held
  exact ⟨key, List.mem_of_find?_eq_some found, (List.find?_eq_some_iff_append.mp found).1⟩

mutual

theorem Means.unique : ∀ {json : Json} {one other : ConfigValue},
    Means json one → Means json other → one = other
  | _, _, _, .number first, .number second => by
      cases first.symm.trans second
      rfl
  | _, _, _, .text content, .text _ => rfl
  | .array _, _, _, .array first, .array second =>
      congrArg ConfigValue.array (means_unique first second)

theorem means_unique : ∀ {items : List Json} {ones others : List ConfigValue},
    List.Forall₂ Means items ones → List.Forall₂ Means items others → ones = others
  | [], _, _, .nil, .nil => rfl
  | _ :: _, _, _, .cons first firsts, .cons second seconds => by
      rw [Means.unique first second, means_unique firsts seconds]

end

/-- Entries with the same keys are the same where each key has the same entry in both. -/
theorem entries_eq {others : List (String × ConfigEntry)}
    (keys : entries.map Prod.fst = others.map Prod.fst)
    (each : ∀ key one other, (key, one) ∈ entries → (key, other) ∈ others → one = other) :
    entries = others := by
  induction entries generalizing others with
  | nil => exact (List.map_eq_nil_iff.mp keys.symm).symm
  | cons head rest induction =>
      obtain ⟨⟨key, one⟩, further, rfl, rfl, below⟩ := List.map_eq_cons_iff.mp keys.symm
      have heads : head.2 = one := each head.1 _ _ List.mem_cons_self List.mem_cons_self
      have tails : rest = further := induction below.symm fun key one other mem otherMem =>
        each key one other (List.mem_cons_of_mem _ mem) (List.mem_cons_of_mem _ otherMem)
      rw [tails, ← heads]

theorem Denotes.unique {one other : ConfigEntry} (first : Denotes json one)
    (second : Denotes json other) : one = other := by
  induction first generalizing other with
  | value means =>
      cases second with
      | value also => rw [means.unique also]
      | classOf => exact absurd means not_means_object
  | classOf parents ascending spelled each induction =>
      cases second with
      | value means => exact absurd means not_means_object
      | classOf alsoParents alsoAscending alsoSpelled alsoEach =>
          have sameParent := Option.ext fun name => (parents name).trans (alsoParents name).symm
          have sameKeys := ascending.eq_of_mem_iff alsoAscending fun key =>
            (spelled key).trans (alsoSpelled key).symm
          rw [sameParent, entries_eq sameKeys]
          intro key entry other mem otherMem
          obtain ⟨member, chosen⟩ := exists_chosen_of_spelled spelled mem
          exact induction key entry member mem chosen (alsoEach key other member otherMem chosen)

theorem Denotes.exists_of_get? (denotes : Denotes (.object members) container.toEntry)
    (held : container.get? name = some entry) :
    ∃ member, Chosen members name member ∧ Denotes member entry := by
  obtain ⟨parent, entries⟩ := container
  cases denotes with
  | classOf parents ascending spelled each =>
      obtain ⟨key, mem, same⟩ := exists_key_of_get? held
      obtain ⟨member, chosen⟩ := exists_chosen_of_spelled spelled mem
      rw [Text.sameName_comm] at same
      exact ⟨member, chosen.congr same, each _ _ _ mem chosen⟩

theorem Denotes.get?_of_chosen (denotes : Denotes (.object members) container.toEntry)
    (chosen : Chosen members name member) :
    ∃ entry, container.get? name = some entry ∧ Denotes member entry := by
  obtain ⟨parent, entries⟩ := container
  cases denotes with
  | classOf parents ascending spelled each =>
      obtain ⟨_, _, spells, _⟩ := id chosen
      obtain ⟨first, isFirst, same⟩ := exists_isFirst spells
      obtain ⟨stored, storedMem, rfl⟩ := List.mem_map.mp ((spelled first).mpr isFirst)
      have present : (ConfigClass.get? ⟨parent, entries⟩ name).isSome = true := by
        rw [ConfigClass.get?, Option.isSome_map]
        exact List.find?_isSome.mpr ⟨stored, storedMem, same⟩
      obtain ⟨entry, held⟩ := Option.isSome_iff_exists.mp present
      obtain ⟨key, mem, keySame⟩ := exists_key_of_get? held
      exact ⟨entry, held, each key entry member mem (chosen.congr keySame)⟩

/-! ## Paths -/

/-- A path that leads to an entry leads, in the document, to a value that the entry denotes. -/
theorem Denotes.finds_of_lookup? (denotes : Denotes json container.toEntry)
    (found : container.lookup? path = some entry) :
    ∃ member, Finds json path member ∧ Denotes member entry := by
  induction path generalizing json container with
  | nil =>
      cases found
      exact ⟨json, .here json, denotes⟩
  | cons name rest induction =>
      obtain ⟨members, rfl⟩ := denotes.exists_object
      cases rest with
      | nil =>
          obtain ⟨member, chosen, denoted⟩ := denotes.exists_of_get? found
          exact ⟨member, .step chosen (.here member), denoted⟩
      | cons second rest =>
          rw [ConfigClass.lookup?_cons_cons] at found
          obtain ⟨inner, isClass, found⟩ := Option.bind_eq_some_iff.mp found
          obtain ⟨entry, held, asClass⟩ := Option.bind_eq_some_iff.mp isClass
          obtain ⟨member, chosen, denoted⟩ := denotes.exists_of_get? held
          cases entry with
          | value => cases asClass
          | classOf parent entries =>
              cases asClass
              obtain ⟨last, finds, meant⟩ := induction denoted found
              exact ⟨last, .step chosen finds, meant⟩

/-- A path that leads somewhere in the document leads to an entry that denotes it. -/
theorem Denotes.lookup?_of_finds (finds : Finds json path member)
    (denotes : Denotes json container.toEntry) :
    ∃ entry, container.lookup? path = some entry ∧ Denotes member entry := by
  induction finds generalizing container with
  | here json => exact ⟨container.toEntry, rfl, denotes⟩
  | step chosen finds induction =>
      obtain ⟨entry, held, denoted⟩ := denotes.get?_of_chosen chosen
      cases finds with
      | here => exact ⟨entry, held, denoted⟩
      | step next further =>
          obtain ⟨inner, rfl⟩ := denoted.exists_classOf
          obtain ⟨last, found, meant⟩ := induction denoted
          refine ⟨last, ?_, meant⟩
          rw [ConfigClass.lookup?_cons_cons, ConfigClass.class?, held]
          exact found

/-! ## One more entry of a class -/

theorem mem_of_mem_insertInto (differ : entries.Pairwise fun one other =>
      Text.sameName one.1 other.1 = false) {held : ConfigEntry}
    (mem : (key, held) ∈ ConfigClass.insertInto name entry entries) :
    Text.sameName key name = true ∧ held = entry ∨
      Text.sameName key name = false ∧ (key, held) ∈ entries := by
  induction entries with
  | nil =>
      cases List.mem_singleton.mp mem
      exact .inl ⟨Text.sameName_self name, rfl⟩
  | cons head rest induction =>
      obtain ⟨distinct, differ⟩ := List.pairwise_cons.mp differ
      rw [ConfigClass.insertInto] at mem
      split at mem
      · next same =>
          rcases List.mem_cons.mp mem with here | later
          · cases here
            exact .inl ⟨same, rfl⟩
          · refine .inr ⟨?_, List.mem_cons_of_mem _ later⟩
            rw [Text.sameName_comm, ← Text.sameName_congr same]
            exact distinct (key, held) later
      · next apart =>
          rcases List.mem_cons.mp mem with here | later
          · cases here
            exact .inr ⟨Bool.eq_false_iff.mpr apart, List.mem_cons_self⟩
          · exact (induction differ later).imp_right fun earlier =>
              ⟨earlier.1, List.mem_cons_of_mem _ earlier.2⟩

theorem keys_insertInto_of_same
    (stored : ∃ key ∈ entries.map Prod.fst, Text.sameName key name = true) :
    (ConfigClass.insertInto name entry entries).map Prod.fst = entries.map Prod.fst := by
  induction entries with
  | nil => simp at stored
  | cons head rest induction =>
      rw [ConfigClass.insertInto]
      split
      · rfl
      · next apart =>
          obtain ⟨key, mem, same⟩ := stored
          rcases List.mem_cons.mp mem with rfl | later
          · exact absurd same apart
          · rw [List.map_cons, List.map_cons, induction ⟨key, later, same⟩]

theorem keys_insertInto_of_new
    (new : ∀ key ∈ entries.map Prod.fst, Text.sameName key name = false) :
    (ConfigClass.insertInto name entry entries).map Prod.fst = entries.map Prod.fst ++ [name] := by
  induction entries with
  | nil => rfl
  | cons head rest induction =>
      obtain ⟨apart, new⟩ := List.forall_mem_cons.mp new
      rw [ConfigClass.insertInto, if_neg (Bool.eq_false_iff.mp apart), List.map_cons, induction new]
      rfl

/-! ## One more member of an object -/

section OneMore

variable (fresh : ∀ earlier ∈ members, earlier.1 < name)

theorem mem_keys_snoc_iff :
    other ∈ (members ++ [(name, member)]).map Prod.fst ↔
      other ∈ members.map Prod.fst ∨ other = name := by
  rw [List.map_append, List.mem_append, List.map_singleton, List.mem_singleton]

theorem spells_snoc_parent_iff :
    Spells (members ++ [(parentKey, member)]) key other ↔ Spells members key other := by
  constructor
  · rintro ⟨mem, notParent, same⟩
    exact ⟨(mem_keys_snoc_iff.mp mem).resolve_right notParent, notParent, same⟩
  · rintro ⟨mem, notParent, same⟩
    exact ⟨mem_keys_snoc_iff.mpr (.inl mem), notParent, same⟩

theorem isFirst_snoc_parent_iff :
    IsFirst (members ++ [(parentKey, member)]) key ↔ IsFirst members key := by
  constructor
  · rintro ⟨spells, least⟩
    exact ⟨spells_snoc_parent_iff.mp spells, fun other spelled =>
      least other (spells_snoc_parent_iff.mpr spelled)⟩
  · rintro ⟨spells, least⟩
    exact ⟨spells_snoc_parent_iff.mpr spells, fun other spelled =>
      least other (spells_snoc_parent_iff.mp spelled)⟩

theorem Chosen.of_snoc_parent {json : Json}
    (chosen : Chosen (members ++ [(parentKey, member)]) key json) : Chosen members key json := by
  obtain ⟨last, mem, spells, greatest⟩ := chosen
  refine ⟨last, ?_, spells_snoc_parent_iff.mp spells, fun other spelled =>
    greatest other (spells_snoc_parent_iff.mpr spelled)⟩
  rcases List.mem_append.mp mem with earlier | here
  · exact earlier
  · cases List.mem_singleton.mp here
    exact absurd rfl spells.notParent

theorem spells_snoc_iff (notParent : name ≠ parentKey) :
    Spells (members ++ [(name, member)]) key other ↔
      Spells members key other ∨ other = name ∧ Text.sameName name key = true := by
  constructor
  · rintro ⟨mem, otherNotParent, same⟩
    rcases mem_keys_snoc_iff.mp mem with earlier | rfl
    · exact .inl ⟨earlier, otherNotParent, same⟩
    · exact .inr ⟨rfl, same⟩
  · rintro (⟨mem, otherNotParent, same⟩ | ⟨rfl, same⟩)
    · exact ⟨mem_keys_snoc_iff.mpr (.inl mem), otherNotParent, same⟩
    · exact ⟨mem_keys_snoc_iff.mpr (.inr rfl), notParent, same⟩

include fresh

theorem Spells.lt (spells : Spells members key other) : other < name := by
  obtain ⟨earlier, mem, rfl⟩ := List.mem_map.mp spells.mem
  exact fresh earlier mem

theorem isFirst_snoc_iff (notParent : name ≠ parentKey) :
    IsFirst (members ++ [(name, member)]) key ↔
      IsFirst members key ∨ key = name ∧ ∀ other, ¬ Spells members name other := by
  constructor
  · rintro ⟨spells, least⟩
    have leastEarlier (other : String) (spelled : Spells members key other) : key ≤ other :=
      least other ((spells_snoc_iff notParent).mpr (.inl spelled))
    rcases (spells_snoc_iff notParent).mp spells with earlier | ⟨rfl, _⟩
    · exact .inl ⟨earlier, leastEarlier⟩
    · refine .inr ⟨rfl, fun other spelled => ?_⟩
      exact absurd (spelled.lt fresh) (not_lt.mpr (leastEarlier other spelled))
  · rintro (⟨spells, least⟩ | ⟨rfl, new⟩)
    · refine ⟨(spells_snoc_iff notParent).mpr (.inl spells), fun other spelled => ?_⟩
      rcases (spells_snoc_iff notParent).mp spelled with earlier | ⟨rfl, _⟩
      · exact least other earlier
      · exact le_of_lt (spells.lt fresh)
    · refine ⟨(spells_snoc_iff notParent).mpr (.inr ⟨rfl, Text.sameName_self key⟩),
        fun other spelled => ?_⟩
      rcases (spells_snoc_iff notParent).mp spelled with earlier | ⟨rfl, _⟩
      · exact absurd earlier (new other)
      · exact le_rfl

theorem Chosen.of_snoc (notParent : name ≠ parentKey) {json : Json}
    (chosen : Chosen (members ++ [(name, member)]) key json) :
    Text.sameName name key = true ∧ json = member ∨
      Text.sameName name key = false ∧ Chosen members key json := by
  obtain ⟨last, mem, spells, greatest⟩ := chosen
  cases same : Text.sameName name key with
  | true =>
      have atLeast : name ≤ last :=
        greatest name ((spells_snoc_iff notParent).mpr (.inr ⟨rfl, same⟩))
      rcases List.mem_append.mp mem with earlier | here
      · exact absurd (fresh _ earlier) (not_lt.mpr atLeast)
      · cases List.mem_singleton.mp here
        exact .inl ⟨rfl, rfl⟩
  | false =>
      refine .inr ⟨rfl, last, ?_, ?_, fun other spelled =>
        greatest other ((spells_snoc_iff notParent).mpr (.inl spelled))⟩
      · rcases List.mem_append.mp mem with earlier | here
        · exact earlier
        · cases List.mem_singleton.mp here
          rw [spells.same] at same
          cases same
      · rcases (spells_snoc_iff notParent).mp spells with earlier | ⟨_, taken⟩
        · exact earlier
        · rw [same] at taken
          cases taken

/-- The first spellings are kept in their order where an entry is added or replaced. -/
theorem keys_insertInto_spelled (entry : ConfigEntry) (member : Json) (notParent : name ≠ parentKey)
    (ascending : (entries.map Prod.fst).Pairwise (· < ·))
    (spelled : ∀ key, key ∈ entries.map Prod.fst ↔ IsFirst members key) :
    ((ConfigClass.insertInto name entry entries).map Prod.fst).Pairwise (· < ·) ∧
      ∀ key, key ∈ (ConfigClass.insertInto name entry entries).map Prod.fst ↔
        IsFirst (members ++ [(name, member)]) key := by
  by_cases stored : ∃ key ∈ entries.map Prod.fst, Text.sameName key name = true
  · rw [keys_insertInto_of_same stored]
    refine ⟨ascending, fun key => ?_⟩
    rw [spelled key, isFirst_snoc_iff fresh notParent]
    refine (or_iff_left ?_).symm
    rintro ⟨_, new⟩
    obtain ⟨first, mem, same⟩ := stored
    exact new first (((spelled first).mp mem).spells.congr same)
  · have new (key : String) (mem : key ∈ entries.map Prod.fst) :
        Text.sameName key name = false :=
      Bool.eq_false_iff.mpr fun same => stored ⟨key, mem, same⟩
    have unspelled (other : String) : ¬ Spells members name other := by
      intro spells
      obtain ⟨first, isFirst, same⟩ := exists_isFirst spells
      exact stored ⟨first, (spelled first).mpr isFirst, same⟩
    rw [keys_insertInto_of_new new]
    constructor
    · refine List.pairwise_append.mpr ⟨ascending, List.pairwise_singleton _ _, ?_⟩
      intro key mem last isLast
      cases List.mem_singleton.mp isLast
      exact ((spelled key).mp mem).spells.lt fresh
    · intro key
      rw [List.mem_append, List.mem_singleton, spelled key, isFirst_snoc_iff fresh notParent]
      exact or_congr_right (and_iff_left unspelled).symm

end OneMore

theorem denotes_nil : Denotes (.object []) ({} : ConfigClass).toEntry := by
  apply Denotes.classOf
  · simp
  · exact .nil
  · intro key
    refine iff_of_false (by simp) fun first => ?_
    cases first.spells.mem
  · simp

theorem Denotes.snoc_parent (denotes : Denotes (.object members) built.toEntry)
    (fresh : ∀ earlier ∈ members, earlier.1 < parentKey) (parent : String) :
    Denotes (.object (members ++ [(parentKey, .string parent)]))
      ({ built with parent := some parent } : ConfigClass).toEntry := by
  obtain ⟨_, entries⟩ := built
  cases denotes with
  | classOf parents ascending spelled each =>
      refine .classOf ?_ ascending ?_ ?_
      · intro name
        constructor
        · intro same
          cases same
          simp
        · intro mem
          rcases List.mem_append.mp mem with earlier | here
          · exact absurd (fresh _ earlier) (lt_irrefl _)
          · cases List.mem_singleton.mp here
            rfl
      · intro key
        exact (spelled key).trans isFirst_snoc_parent_iff.symm
      · intro key entry member mem chosen
        exact each key entry member mem chosen.of_snoc_parent

theorem Denotes.snoc (denotes : Denotes (.object members) built.toEntry)
    (fresh : ∀ earlier ∈ members, earlier.1 < name) (notParent : name ≠ parentKey)
    (denoted : Denotes member entry) :
    Denotes (.object (members ++ [(name, member)])) (built.insert name entry).toEntry := by
  obtain ⟨parent, entries⟩ := built
  cases denotes with
  | classOf parents ascending spelled each =>
      have differ := differ_of_spelled ascending spelled
      have keys := keys_insertInto_spelled fresh entry member notParent ascending spelled
      refine .classOf ?_ keys.1 keys.2 ?_
      · intro text
        apply (parents text).trans
        rw [List.mem_append]
        refine (or_iff_left fun here => ?_).symm
        cases List.mem_singleton.mp here
        exact notParent rfl
      · intro key held json mem chosen
        rcases mem_of_mem_insertInto differ mem with ⟨same, rfl⟩ | ⟨apart, earlier⟩
        · rw [Text.sameName_comm] at same
          rcases chosen.of_snoc fresh notParent with ⟨_, rfl⟩ | ⟨apart, _⟩
          · exact denoted
          · rw [same] at apart
            cases apart
        · rw [Text.sameName_comm] at apart
          rcases chosen.of_snoc fresh notParent with ⟨same, _⟩ | ⟨_, chosen⟩
          · rw [apart] at same
            cases same
          · exact each key held json earlier chosen

end ConfigTree

end SimScript
