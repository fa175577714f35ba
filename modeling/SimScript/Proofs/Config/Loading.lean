import SimScript.Host.Loading
import SimScript.Proofs.Config.Meaning
import SimScript.Proofs.Json.Ordering

/-!
# Reading a config tree

The reader goes through the members of a document in their order, down into an object
before the member after it, and stops at the first that is wrong.  What it has built of an
object is, at each member, what the members so far mean.
-/

namespace SimScript

/-- Numbers, texts and arrays, which contain nothing else at any depth. -/
inductive Json.IsData : Json → Prop where
  | integer (value : Int) : IsData (.integer value)
  | decimal (value : Float) : IsData (.decimal value)
  | string (value : String) : IsData (.string value)
  | array {items : List Json} (each : ∀ item ∈ items, IsData item) : IsData (.array items)

namespace ConfigTree

/-- The documents that are entries of a config tree.  In a class, what `#parent` names is a text,
and every other member is an entry. -/
inductive IsEntry : Json → Prop where
  | data {json : Json} (isData : json.IsData) : IsEntry json
  | classOf {members : List (String × Json)}
      (parents : ∀ member, (parentKey, member) ∈ members → ∃ parent, member = .string parent)
      (entries : ∀ name member, (name, member) ∈ members → name ≠ parentKey → IsEntry member) :
      IsEntry (.object members)

/-- The member at a path is wrong: it is neither data nor a class, or it names a parent and is no
text. -/
inductive Offends : Json → List String → Prop where
  | data {json : Json} (noClass : ∀ members, json ≠ .object members) (noData : ¬ json.IsData) :
      Offends json []
  | parent {members : List (String × Json)} {member : Json} (mem : (parentKey, member) ∈ members)
      (noText : ∀ parent, member ≠ .string parent) : Offends (.object members) [parentKey]
  | inside {members : List (String × Json)} {name : String} {member : Json} {path : List String}
      (mem : (name, member) ∈ members) (other : name ≠ parentKey) (offends : Offends member path) :
      Offends (.object members) (name :: path)

/-- The first wrong member: paths are compared name by name, so that the members of an object come
in the order of their keys, and one that is an object before the next. -/
def OffendsFirst (json : Json) (path : List String) : Prop :=
  Offends json path ∧ ∀ other, Offends json other → path ≤ other

variable {members done rest : List (String × Json)} {name other key path parent : String}
  {json member : Json} {entries : List (String × ConfigEntry)} {entry : ConfigEntry}
  {built : ConfigClass} {names : List String}

/-! ## The documents that are entries -/

theorem IsEntry.not_offends (isEntry : IsEntry json) : ¬ Offends json names := by
  intro offends
  induction offends with
  | data noClass noData =>
      cases isEntry with
      | data isData => exact noData isData
      | classOf => exact noClass _ rfl
  | parent mem noText =>
      cases isEntry with
      | data isData => cases isData
      | classOf parents _ =>
          obtain ⟨parent, same⟩ := parents _ mem
          exact noText parent same
  | inside mem other _ induction =>
      cases isEntry with
      | data isData => cases isData
      | classOf _ entries => exact induction (entries _ _ mem other)

theorem isEntry_object_nil : IsEntry (.object []) :=
  .classOf (by simp) (by simp)

theorem isEntry_object_cons (head : IsEntry (.object [(name, member)]))
    (tail : IsEntry (.object rest)) : IsEntry (.object ((name, member) :: rest)) := by
  cases head with
  | data isData => cases isData
  | classOf headParents headEntries =>
      cases tail with
      | data isData => cases isData
      | classOf parents entries =>
          apply IsEntry.classOf
          · intro other mem
            rcases List.mem_cons.mp mem with here | later
            · exact headParents other (List.mem_singleton.mpr here)
            · exact parents other later
          · intro key other mem notParent
            rcases List.mem_cons.mp mem with here | later
            · exact headEntries key other (List.mem_singleton.mpr here) notParent
            · exact entries key other later notParent

theorem Offends.mono (offends : Offends (.object members) names) (more : members ⊆ rest) :
    Offends (.object rest) names := by
  cases offends with
  | data noClass => exact absurd rfl (noClass members)
  | parent mem noText => exact .parent (more mem) noText
  | inside mem other offends => exact .inside (more mem) other offends

theorem offends_object_cons_iff :
    Offends (.object ((name, member) :: rest)) names ↔
      Offends (.object [(name, member)]) names ∨ Offends (.object rest) names := by
  constructor
  · intro offends
    cases offends with
    | data noClass => exact absurd rfl (noClass _)
    | parent mem noText =>
        rcases List.mem_cons.mp mem with here | later
        · exact .inl (.parent (List.mem_singleton.mpr here) noText)
        · exact .inr (.parent later noText)
    | inside mem other offends =>
        rcases List.mem_cons.mp mem with here | later
        · exact .inl (.inside (List.mem_singleton.mpr here) other offends)
        · exact .inr (.inside later other offends)
  · intro offends
    rcases offends with here | inRest
    · exact here.mono (List.cons_subset_cons _ (List.nil_subset rest))
    · exact inRest.mono (List.subset_cons_self _ rest)

/-! ## Reading a value -/

/-- What reading a value comes to: what the document means, or an error at its own path. -/
def ValueOutcome (path : String) (json : Json) : Except ConfigLoadError ConfigValue → Prop
  | .ok value => json.IsData ∧ Means json value
  | .error error => error.path = path ∧ ¬ json.IsData

/-- What reading the items of an array comes to. -/
def ItemsOutcome (path : String) (items : List Json) :
    Except ConfigLoadError (List ConfigValue) → Prop
  | .ok values => (∀ item ∈ items, item.IsData) ∧ List.Forall₂ Means items values
  | .error error => error.path = path ∧ ¬ ∀ item ∈ items, item.IsData

mutual

theorem loadValue_outcome (path : String) :
    ∀ json : Json, ValueOutcome path json (loadValue path json)
  | .null => ⟨rfl, by nofun⟩
  | .bool _ => ⟨rfl, by nofun⟩
  | .integer (.ofNat _) => ⟨.integer _, .number rfl⟩
  | .integer (.negSucc _) => ⟨.integer _, .number rfl⟩
  | .decimal value => ⟨.decimal value, .number rfl⟩
  | .string content => ⟨.string content, .text content⟩
  | .object _ => ⟨rfl, by nofun⟩
  | .array items => by
      have outcome := loadValues_outcome path items
      rw [loadValue]
      cases loaded : loadValues path items with
      | ok values =>
          rw [loaded] at outcome
          exact ⟨.array outcome.1, .array outcome.2⟩
      | error error =>
          rw [loaded] at outcome
          refine ⟨outcome.1, fun isData => ?_⟩
          cases isData with
          | array each => exact outcome.2 each

theorem loadValues_outcome (path : String) :
    ∀ items : List Json, ItemsOutcome path items (loadValues path items)
  | [] => ⟨by simp, .nil⟩
  | item :: items => by
      have first := loadValue_outcome path item
      have others := loadValues_outcome path items
      rw [loadValues]
      cases loaded : loadValue path item with
      | error error =>
          rw [loaded] at first
          exact ⟨first.1, fun each => first.2 (List.forall_mem_cons.mp each).1⟩
      | ok value =>
          rw [loaded] at first
          cases loadedOthers : loadValues path items with
          | error error =>
              rw [loadedOthers] at others
              exact ⟨others.1, fun each => others.2 (List.forall_mem_cons.mp each).2⟩
          | ok values =>
              rw [loadedOthers] at others
              exact ⟨List.forall_mem_cons.mpr ⟨first.1, others.1⟩, .cons first.2 others.2⟩

end

/-! ## The first wrong member -/

theorem Offends.exists_key (offends : Offends (.object members) names) :
    ∃ key ∈ members.map Prod.fst, ∃ below, names = key :: below := by
  cases offends with
  | data noClass => exact absurd rfl (noClass members)
  | parent mem => exact ⟨parentKey, List.mem_map_of_mem mem, [], rfl⟩
  | @inside _ key _ below mem => exact ⟨key, List.mem_map_of_mem mem, below, rfl⟩

/-- What is wrong in the first member comes before what is wrong in the others. -/
theorem OffendsFirst.object_cons (first : OffendsFirst (.object [(name, member)]) names)
    (least : ∀ later ∈ rest, name < later.1) :
    OffendsFirst (.object ((name, member) :: rest)) names := by
  refine ⟨offends_object_cons_iff.mpr (.inl first.1), fun other offends => ?_⟩
  rcases offends_object_cons_iff.mp offends with here | inRest
  · exact first.2 other here
  · obtain ⟨key, mem, below, rfl⟩ := first.1.exists_key
    obtain ⟨later, laterMem, further, rfl⟩ := inRest.exists_key
    cases List.mem_singleton.mp mem
    obtain ⟨last, lastMem, rfl⟩ := List.mem_map.mp laterMem
    exact le_of_lt (List.Lex.rel (least last lastMem))

/-- Where the first member is right, the first wrong one is among the others. -/
theorem OffendsFirst.object_cons_of_right (first : OffendsFirst (.object rest) names)
    (right : IsEntry (.object [(name, member)])) :
    OffendsFirst (.object ((name, member) :: rest)) names := by
  refine ⟨offends_object_cons_iff.mpr (.inr first.1), fun other offends => ?_⟩
  rcases offends_object_cons_iff.mp offends with here | inRest
  · exact absurd here right.not_offends
  · exact first.2 other inRest

theorem offendsFirst_parent (noText : ∀ parent, member ≠ .string parent) :
    OffendsFirst (.object [(parentKey, member)]) [parentKey] := by
  refine ⟨.parent List.mem_cons_self noText, fun other offends => ?_⟩
  obtain ⟨key, mem, below, rfl⟩ := offends.exists_key
  cases List.mem_singleton.mp mem
  exact List.cons_le_cons parentKey (not_lt.mp (List.not_lt_nil below))

theorem OffendsFirst.inside (first : OffendsFirst member names) (notParent : name ≠ parentKey) :
    OffendsFirst (.object [(name, member)]) (name :: names) := by
  refine ⟨.inside List.mem_cons_self notParent first.1, fun other offends => ?_⟩
  cases offends with
  | data noClass => exact absurd rfl (noClass _)
  | parent mem =>
      cases List.mem_singleton.mp mem
      exact absurd rfl notParent
  | inside mem _ offends =>
      cases List.mem_singleton.mp mem
      exact List.cons_le_cons name (first.2 _ offends)

/-! ## Reading an entry -/

/-- What reading an entry comes to: the entry that the document means, or else an error at the
first wrong member. -/
def EntryOutcome (path : String) (json : Json) : Except ConfigLoadError ConfigEntry → Prop
  | .ok entry => IsEntry json ∧ Denotes json entry
  | .error error =>
      ∃ names, OffendsFirst json names ∧ error.path = names.foldl memberPath path

/-- What reading the rest of a class comes to, after some of its members: what all of them mean, or
else an error at the first wrong member of the rest. -/
def ClassOutcome (path : String) (done rest : List (String × Json)) :
    Except ConfigLoadError ConfigClass → Prop
  | .ok built => IsEntry (.object rest) ∧ Denotes (.object (done ++ rest)) built.toEntry
  | .error error =>
      ∃ names, OffendsFirst (.object rest) names ∧ error.path = names.foldl memberPath path

theorem ClassOutcome.cons {result : Except ConfigLoadError ConfigClass}
    (right : IsEntry (.object [(name, member)]))
    (outcome : ClassOutcome path (done ++ [(name, member)]) rest result) :
    ClassOutcome path done ((name, member) :: rest) result := by
  cases result with
  | ok built =>
      refine ⟨isEntry_object_cons right outcome.1, ?_⟩
      have denotes := outcome.2
      rwa [List.append_assoc] at denotes
  | error error =>
      obtain ⟨names, first, located⟩ := outcome
      exact ⟨names, first.object_cons_of_right right, located⟩

theorem loadEntry_outcome_of_value (noClass : ∀ members, json ≠ .object members) :
    EntryOutcome path json (loadEntry path json) := by
  have outcome := loadValue_outcome path json
  rw [loadEntry]
  · cases loaded : loadValue path json with
    | ok value =>
        rw [loaded] at outcome
        exact ⟨.data outcome.1, .value outcome.2⟩
    | error error =>
        rw [loaded] at outcome
        refine ⟨[], ⟨.data noClass outcome.2, fun other _ => ?_⟩, outcome.1⟩
        exact not_lt.mp (List.not_lt_nil other)
  · exact noClass

theorem loadMembers_parent :
    loadMembers path built ((parentKey, .string parent) :: rest) =
      loadMembers path { built with parent := some parent } rest := by
  rw [loadMembers, if_pos rfl]

theorem loadMembers_noText (noText : ∀ parent, member ≠ .string parent) :
    loadMembers path built ((parentKey, member) :: rest) =
      .error ⟨memberPath path parentKey, "the parent must be a class name"⟩ := by
  rw [loadMembers, if_pos rfl]
  exact noText

theorem loadMembers_entry (notParent : name ≠ parentKey) :
    loadMembers path built ((name, member) :: rest) =
      (loadEntry (memberPath path name) member).bind fun entry =>
        loadMembers path (built.insert name entry) rest := by
  by_cases text : ∃ parent, member = .string parent
  · obtain ⟨parent, rfl⟩ := text
    rw [loadMembers, if_neg notParent]
    cases loadEntry (memberPath path name) (.string parent) <;> rfl
  · rw [loadMembers, if_neg notParent]
    · cases loadEntry (memberPath path name) member <;> rfl
    · exact not_exists.mp text

/-- A class is read member by member.  What is built after some of them is what they mean. -/
theorem loadMembers_outcome (denotes : Denotes (.object done) built.toEntry)
    (ascending : (done ++ rest).Pairwise fun one other => one.1 < other.1)
    (each : ∀ member ∈ rest, ∀ path, EntryOutcome path member.2 (loadEntry path member.2)) :
    ClassOutcome path done rest (loadMembers path built rest) := by
  induction rest generalizing done built with
  | nil =>
      rw [loadMembers]
      refine ⟨isEntry_object_nil, ?_⟩
      rwa [List.append_nil]
  | cons head rest induction =>
      obtain ⟨name, member⟩ := head
      obtain ⟨reads, others⟩ := List.forall_mem_cons.mp each
      have fresh : ∀ earlier ∈ done, earlier.1 < name := fun earlier mem =>
        (List.pairwise_append.mp ascending).2.2 earlier mem (name, member) List.mem_cons_self
      have least : ∀ later ∈ rest, name < later.1 :=
        (List.pairwise_cons.mp (List.pairwise_append.mp ascending).2.1).1
      have continues : ((done ++ [(name, member)]) ++ rest).Pairwise
          fun one other => one.1 < other.1 := by
        rwa [List.append_assoc]
      by_cases isParent : name = parentKey
      · subst isParent
        by_cases text : ∃ parent, member = .string parent
        · obtain ⟨parent, rfl⟩ := text
          have right : IsEntry (.object [(parentKey, .string parent)]) :=
            .classOf (by simp) (by simp)
          rw [loadMembers_parent]
          exact .cons right (induction (denotes.snoc_parent fresh parent) continues others)
        · have noText := not_exists.mp text
          rw [loadMembers_noText noText]
          exact ⟨[parentKey], (offendsFirst_parent noText).object_cons least, rfl⟩
      · have read := reads (memberPath path name)
        rw [loadMembers_entry isParent]
        cases loaded : loadEntry (memberPath path name) member with
        | ok entry =>
            rw [loaded] at read
            have right : IsEntry (.object [(name, member)]) :=
              .classOf (by simp [Ne.symm isParent]) (by simp [read.1])
            exact .cons right (induction (denotes.snoc fresh isParent read.2) continues others)
        | error error =>
            rw [loaded] at read
            obtain ⟨names, first, located⟩ := read
            exact ⟨name :: names, (first.inside isParent).object_cons least, located⟩

theorem loadEntry_outcome (ordered : json.Ordered) (path : String) :
    EntryOutcome path json (loadEntry path json) := by
  induction ordered generalizing path with
  | @object members ascending each induction =>
      have outcome : ClassOutcome path [] members (loadMembers path {} members) :=
        loadMembers_outcome denotes_nil ascending induction
      rw [loadEntry]
      cases loaded : loadMembers path {} members with
      | ok built =>
          rw [loaded] at outcome
          exact outcome
      | error error =>
          rw [loaded] at outcome
          exact outcome
  | _ => exact loadEntry_outcome_of_value (by simp)

/-! ## The path of an error -/

theorem intercalate_append_cons (separator left right : String) (rest : List String) :
    separator.intercalate ((left ++ right) :: rest) =
      left ++ separator.intercalate (right :: rest) := by
  cases rest with
  | nil => simp
  | cons next rest => simp [String.append_assoc]

theorem foldl_memberPath_of_ne_empty (nonempty : path ≠ "") (names : List String) :
    names.foldl memberPath path = " >> ".intercalate (path :: names) := by
  induction names generalizing path with
  | nil => simp
  | cons name rest induction =>
      have extended : memberPath path name = path ++ " >> " ++ name := by
        rw [memberPath, if_neg (by simpa using nonempty)]
      rw [List.foldl_cons, extended, induction (by simp), intercalate_append_cons,
        String.intercalate_cons_cons]

/-- The path of an error has its names between separators; empty ones leave no trace at the
front. -/
theorem foldl_memberPath (names : List String) :
    names.foldl memberPath "" = " >> ".intercalate (names.dropWhile String.isEmpty) := by
  induction names with
  | nil => rfl
  | cons name rest induction =>
      have first : memberPath "" name = name := rfl
      rw [List.foldl_cons, first, List.dropWhile_cons]
      split
      · next empty =>
          rw [String.isEmpty_iff.mp empty]
          exact induction
      · next nonempty =>
          exact foldl_memberPath_of_ne_empty (by simpa using nonempty) rest

/-! ## Reading a tree -/

/-- What reading the document of a class comes to: the tree that it means, or else an error at the
first wrong member. -/
def TreeOutcome (json : Json) : Except ConfigLoadError ConfigTree → Prop
  | .ok tree => IsEntry json ∧ Denotes json tree.root.toEntry
  | .error error => ∃ names, OffendsFirst json names ∧
      error.path = " >> ".intercalate (names.dropWhile String.isEmpty)

theorem ofJson_object_outcome (ordered : (Json.object members).Ordered) :
    TreeOutcome (.object members) (ofJson (.object members)) := by
  have outcome := loadEntry_outcome ordered ""
  rw [loadEntry] at outcome
  rw [ofJson]
  cases read : loadMembers "" {} members with
  | ok root =>
      rw [read] at outcome
      exact outcome
  | error error =>
      rw [read] at outcome
      obtain ⟨names, first, located⟩ := outcome
      exact ⟨names, first, located.trans (foldl_memberPath names)⟩

theorem ofJson_of_not_object (noClass : ∀ members, json ≠ .object members) :
    ofJson json = .error ⟨"", "the root must be an object"⟩ := by
  rw [ofJson]
  exact noClass

/-- What reading a text comes to: no document; or a document that is no class or is wrong somewhere;
or the tree that the document means. -/
def TextOutcome (text : String) : Except HostError ConfigTree → Prop
  | .ok tree => ∃ json, Json.parse? text = some json ∧ TreeOutcome json (.ok tree)
  | .error .json => Json.parse? text = none
  | .error (.configTree error) => ∃ json, Json.parse? text = some json ∧
      ((∀ members, json ≠ .object members) ∧ error.path = "" ∨ TreeOutcome json (.error error))
  | .error _ => False

/-- Every text is read as the document in it says; what the reader gives is in order, whatever the
order in the text. -/
theorem ofText_outcome (text : String) : TextOutcome text (ofText text) := by
  rw [ofText]
  cases parsed : Json.parse? text with
  | none => exact parsed
  | some json =>
      have ordered := Json.ordered_of_parse? parsed
      dsimp only
      by_cases isClass : ∃ members, json = .object members
      · obtain ⟨members, rfl⟩ := isClass
        have outcome := ofJson_object_outcome ordered
        cases read : ofJson (.object members) with
        | ok tree =>
            rw [read] at outcome
            exact ⟨_, parsed, outcome⟩
        | error error =>
            rw [read] at outcome
            exact ⟨_, parsed, .inr outcome⟩
      · have noClass := not_exists.mp isClass
        rw [ofJson_of_not_object noClass]
        exact ⟨json, parsed, .inl ⟨noClass, rfl⟩⟩

end ConfigTree

open ConfigTree

/-- A JSON document is read as a config tree exactly where it is an object and, in each class of it,
what `#parent` names is a text and every other member is a class, a number, a text or an array,
which contains such values only.  Else the error is at the root, which is no object, or at the first
member that is wrong; its path is that of the member, without the empty names at the front.

The tree is the one that the document means.  At no depth do two keys of a class differ in the case
of letters only; and a path leads to an entry exactly where, in the document, it leads to a value
that this entry denotes, going at each name to the last member of that name other than the
parent's. -/
theorem config_documents_mean_what_they_say (json : Json) (ordered : json.Ordered) :
    ((∃ tree, ofJson json = .ok tree) ↔
      (∃ members, json = .object members) ∧ IsEntry json) ∧
    (∀ error, ofJson json = .error error →
      ((∀ members, json ≠ .object members) → error.path = "") ∧
      ((∃ members, json = .object members) → ∃ names, OffendsFirst json names ∧
        error.path = " >> ".intercalate (names.dropWhile String.isEmpty))) ∧
    ∀ tree, ofJson json = .ok tree →
      (∀ entry, Denotes json entry ↔ entry = tree.root.toEntry) ∧
      tree.root.toEntry.KeysDiffer ∧
      ∀ path entry, tree.lookup? path = some entry ↔
        ∃ member, Finds json path member ∧ Denotes member entry := by
  by_cases isClass : ∃ members, json = .object members
  · obtain ⟨members, rfl⟩ := isClass
    have outcome := ofJson_object_outcome ordered
    cases read : ofJson (.object members) with
    | ok tree =>
        rw [read] at outcome
        obtain ⟨isEntry, denotes⟩ := outcome
        refine ⟨iff_of_true ⟨tree, rfl⟩ ⟨⟨members, rfl⟩, isEntry⟩, by nofun, ?_⟩
        rintro _ ⟨⟩
        refine ⟨fun entry => ⟨fun also => also.unique denotes, ?_⟩, denotes.keysDiffer, ?_⟩
        · rintro rfl
          exact denotes
        · intro path entry
          constructor
          · exact denotes.finds_of_lookup?
          · rintro ⟨member, finds, denoted⟩
            obtain ⟨found, leads, also⟩ := denotes.lookup?_of_finds finds
            rw [denoted.unique also]
            exact leads
    | error error =>
        rw [read] at outcome
        obtain ⟨names, first, located⟩ := outcome
        refine ⟨iff_of_false (by nofun) ?_, ?_, by nofun⟩
        · rintro ⟨_, isEntry⟩
          exact isEntry.not_offends first.1
        · rintro _ ⟨⟩
          exact ⟨fun noClass => absurd rfl (noClass members), fun _ => ⟨names, first, located⟩⟩
  · have noClass := not_exists.mp isClass
    rw [ofJson_of_not_object noClass]
    refine ⟨iff_of_false (by nofun) fun both => isClass both.1, ?_, by nofun⟩
    rintro _ ⟨⟩
    exact ⟨fun _ => rfl, fun also => absurd also isClass⟩

/-- A class is given twice, and so is a name in it.  The path finds the last of each; but what is
wrong in the class that would be replaced is an error all the same. -/
theorem config_documents_with_names_given_twice :
    let car (armed : Json) : Json := .object [("#parent", .string "All"), ("Armed", armed)]
    let last : Json := .object [("NAME", .string "one"), ("name", .string "two")]
    let right : Json := .object [("CAR", car (.string "no")), ("car", last)]
    let wrong : Json := .object [("CAR", car (.bool true)), ("car", last)]
    (∃ tree, ofJson right = .ok tree ∧
      tree.lookup? ["Car", "Name"] = some (.value (.text "two"))) ∧
    ∃ error, ofJson wrong = .error error ∧ ∃ names, OffendsFirst wrong names ∧
      error.path = " >> ".intercalate (names.dropWhile String.isEmpty) ∧
      error.path = "CAR >> Armed" := by
  intro car last right wrong
  have armedLast : "#parent" < "Armed" := by decide +kernel
  have nameLast : "NAME" < "name" := by decide +kernel
  have carLast : "CAR" < "car" := by decide +kernel
  have twice : last.Ordered :=
    .object (List.pairwise_pair.mpr nameLast) (by simp [Json.Ordered.string])
  have ordered (armed : Json) (held : armed.Ordered) :
      (Json.object [("CAR", car armed), ("car", last)]).Ordered := by
    have given : (car armed).Ordered :=
      .object (List.pairwise_pair.mpr armedLast) (by simp [held, Json.Ordered.string])
    exact .object (List.pairwise_pair.mpr carLast) (by simp [given, twice])
  have takesLast (first second : Json) (capital small name : String)
      (below : capital ≤ small) (notParent : small ≠ parentKey)
      (same : Text.sameName small name = true) :
      Chosen [(capital, first), (small, second)] name second := by
    refine ⟨small, by simp, ⟨by simp, notParent, same⟩, fun other spells => ?_⟩
    have mem : other = capital ∨ other = small := by simpa using spells.mem
    rcases mem with rfl | rfl
    · exact below
    · exact le_rfl
  constructor
  · obtain ⟨accepts, _, means⟩ :=
      config_documents_mean_what_they_say right (ordered _ (.string "no"))
    obtain ⟨tree, read⟩ : ∃ tree, ofJson right = .ok tree := ⟨_, rfl⟩
    refine ⟨tree, read, ((means tree read).2.2 _ _).mpr ⟨.string "two", ?_, .value (.text "two")⟩⟩
    have carChosen := takesLast (car (.string "no")) last "CAR" "car" "Car" (le_of_lt carLast)
      (by decide) (by decide +kernel)
    have nameChosen := takesLast (.string "one") (.string "two") "NAME" "name" "Name"
      (le_of_lt nameLast) (by decide) (by decide +kernel)
    exact .step carChosen (.step nameChosen (.here _))
  · obtain ⟨_, errors, _⟩ := config_documents_mean_what_they_say wrong (ordered _ (.bool true))
    obtain ⟨error, read, located⟩ :
      ∃ error, ofJson wrong = .error error ∧ error.path = "CAR >> Armed" := ⟨_, rfl, rfl⟩
    obtain ⟨names, first, path⟩ := (errors error read).2 ⟨_, rfl⟩
    exact ⟨error, read, names, first, path, located⟩

end SimScript
