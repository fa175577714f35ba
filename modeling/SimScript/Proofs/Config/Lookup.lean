import Mathlib.Data.List.Forall2
import SimScript.Command.Config
import SimScript.Proofs.Report.Grading

/-!
# Paths of the config tree

A path is followed in three ways: to its entry, to its entry or the name that fails, and
to the declared spelling of its names.  All three go down by the same classes, so they
agree on every path, and none of them sees the case of a letter.
-/

namespace SimScript

/-- Paths whose names agree, one by one, once the case of `A`–`Z` is ignored. -/
def SamePath (left right : List String) : Prop :=
  List.Forall₂ (fun one other => Text.sameName one other = true) left right

namespace ConfigClass

def classAt? (container : ConfigClass) (path : List String) : Option ConfigClass :=
  (container.lookup? path).bind ConfigEntry.asClass?

/-- A path fails at a name: the names before it lead to a class, and with it they lead nowhere, or
to a value although the path goes on. -/
structure FailsAt (container : ConfigClass) (path passed : List String) (name : String) :
    Prop where
  onPath : passed ++ [name] <+: path
  arrives : (container.classAt? passed).isSome = true
  fails : container.lookup? (passed ++ [name]) = none ∨
    passed ++ [name] ≠ path ∧ container.classAt? (passed ++ [name]) = none

variable {container inner : ConfigClass} {name other first second key : String}
  {path passed rest keys names : List String} {entry : ConfigEntry}

theorem find?_congr (same : Text.sameName other name = true) :
    container.find? other = container.find? name := by
  simp only [find?, Text.sameName, Text.sameName_iff.mp same]

theorem get?_congr (same : Text.sameName other name = true) :
    container.get? other = container.get? name := by
  rw [get?, get?, find?_congr same]

theorem keyOf?_congr (same : Text.sameName other name = true) :
    container.keyOf? other = container.keyOf? name := by
  rw [keyOf?, keyOf?, find?_congr same]

theorem class?_congr (same : Text.sameName other name = true) :
    container.class? other = container.class? name := by
  rw [class?, class?, get?_congr same]

theorem sameName_of_keyOf? (declared : container.keyOf? name = some key) :
    Text.sameName key name = true := by
  obtain ⟨found, held, rfl⟩ := Option.map_eq_some_iff.mp declared
  exact (List.find?_eq_some_iff_append.mp held).1

theorem isSome_keyOf? (container : ConfigClass) (name : String) :
    (container.keyOf? name).isSome = (container.get? name).isSome := by
  rw [keyOf?, get?, Option.isSome_map, Option.isSome_map]

theorem isSome_get?_of_class? (isClass : container.class? name = some inner) :
    (container.get? name).isSome = true := by
  obtain ⟨entry, held, _⟩ := Option.bind_eq_some_iff.mp isClass
  rw [held, Option.isSome_some]

/-! ## Going down by one name -/

theorem lookup?_nil (container : ConfigClass) :
    container.lookup? [] = some container.toEntry := rfl

theorem lookup?_singleton (container : ConfigClass) (name : String) :
    container.lookup? [name] = container.get? name := rfl

theorem lookup?_cons_cons (container : ConfigClass) (first second : String)
    (rest : List String) :
    container.lookup? (first :: second :: rest) =
      (container.class? first).bind fun inner => inner.lookup? (second :: rest) := by
  rw [lookup?]
  · cases container.class? first <;> rfl
  · simp

theorem lookup?_cons_of_class? (isClass : container.class? first = some inner)
    (goesOn : rest ≠ []) : container.lookup? (first :: rest) = inner.lookup? rest := by
  obtain ⟨second, rest, rfl⟩ := List.exists_cons_of_ne_nil goesOn
  rw [lookup?_cons_cons, isClass, Option.bind_some]

theorem classAt?_nil (container : ConfigClass) : container.classAt? [] = some container := rfl

theorem classAt?_cons (container : ConfigClass) (first : String) (rest : List String) :
    container.classAt? (first :: rest) =
      (container.class? first).bind fun inner => inner.classAt? rest := by
  cases rest with
  | nil =>
      have alone : container.classAt? [first] = container.class? first := rfl
      rw [alone]
      cases container.class? first <;> rfl
  | cons second rest =>
      rw [classAt?, lookup?_cons_cons, Option.bind_assoc]
      rfl

theorem canonical?_singleton (container : ConfigClass) (name : String) :
    container.canonical? [name] = (container.keyOf? name).map fun key => [key] := rfl

theorem canonical?_cons_cons (container : ConfigClass) (first second : String)
    (rest : List String) :
    container.canonical? (first :: second :: rest) =
      (container.keyOf? first).bind fun key => (container.class? first).bind fun inner =>
        (inner.canonical? (second :: rest)).map fun keys => key :: keys := by
  rw [canonical?]
  · cases container.keyOf? first <;> cases container.class? first <;> rfl
  · simp

theorem walk_nil (container : ConfigClass) (passed : List String) :
    container.walk passed [] = .ok container.toEntry := rfl

theorem walk_cons (container : ConfigClass) (passed : List String) (first : String)
    (rest : List String) :
    container.walk passed (first :: rest) =
      match container.get? first, rest with
      | some (.classOf parent entries), _ :: _ =>
          ConfigClass.walk ⟨parent, entries⟩ (passed ++ [first]) rest
      | some entry, [] => .ok entry
      | _, _ => .error (passed, first) := rfl

theorem walk_singleton (container : ConfigClass) (passed : List String) (name : String) :
    container.walk passed [name] =
      (container.get? name).elim (.error (passed, name)) .ok := by
  rw [walk_cons]
  cases container.get? name with
  | none => rfl
  | some entry => cases entry <;> rfl

theorem walk_cons_cons (container : ConfigClass) (passed : List String) (first second : String)
    (rest : List String) :
    container.walk passed (first :: second :: rest) =
      (container.class? first).elim (.error (passed, first)) fun inner =>
        inner.walk (passed ++ [first]) (second :: rest) := by
  rw [walk_cons, class?]
  cases container.get? first with
  | none => rfl
  | some entry => cases entry <;> rfl

theorem walk_of_class? (isClass : container.class? first = some inner) (goesOn : rest ≠ []) :
    container.walk passed (first :: rest) = inner.walk (passed ++ [first]) rest := by
  obtain ⟨second, rest, rfl⟩ := List.exists_cons_of_ne_nil goesOn
  rw [walk_cons_cons, isClass, Option.elim_some]

/-- A path leads no further than its first name. -/
def StopsAt (container : ConfigClass) (first : String) (rest : List String) : Prop :=
  (rest = [] → container.get? first = none) ∧ (rest ≠ [] → container.class? first = none)

/-- A path leads to an entry, or into a class, or no further than its first name. -/
theorem cons_cases (container : ConfigClass) (first : String) (rest : List String) :
    (∃ entry, rest = [] ∧ container.get? first = some entry) ∨
    (∃ inner, rest ≠ [] ∧ container.class? first = some inner) ∨
    container.StopsAt first rest := by
  by_cases ends : rest = []
  · cases held : container.get? first with
    | none => exact .inr (.inr ⟨fun _ => held, fun goesOn => absurd ends goesOn⟩)
    | some entry => exact .inl ⟨entry, ends, rfl⟩
  · cases isClass : container.class? first with
    | none => exact .inr (.inr ⟨fun none => absurd none ends, fun _ => isClass⟩)
    | some inner => exact .inr (.inl ⟨inner, ends, rfl⟩)

theorem StopsAt.lookup?_eq_none (stops : container.StopsAt first rest) :
    container.lookup? (first :: rest) = none := by
  cases rest with
  | nil => exact stops.1 rfl
  | cons second rest => rw [lookup?_cons_cons, stops.2 (List.cons_ne_nil _ _), Option.bind_none]

theorem StopsAt.walk (stops : container.StopsAt first rest) :
    container.walk passed (first :: rest) = .error (passed, first) := by
  cases rest with
  | nil => rw [walk_singleton, stops.1 rfl, Option.elim_none]
  | cons second rest => rw [walk_cons_cons, stops.2 (List.cons_ne_nil _ _), Option.elim_none]

/-- Such a path fails at its first name. -/
theorem StopsAt.failsAt_iff (stops : container.StopsAt first rest) :
    container.FailsAt (first :: rest) passed name ↔ passed = [] ∧ name = first := by
  constructor
  · rintro ⟨onPath, arrives, _⟩
    cases passed with
    | nil => exact ⟨rfl, (List.cons_prefix_cons.mp onPath).1⟩
    | cons top below =>
        obtain ⟨rfl, along⟩ := List.cons_prefix_cons.mp onPath
        have goesOn : rest ≠ [] := by
          rintro rfl
          simp at along
        rw [classAt?_cons, stops.2 goesOn] at arrives
        cases arrives
  · rintro ⟨rfl, rfl⟩
    refine ⟨List.cons_prefix_cons.mpr ⟨rfl, List.nil_prefix⟩, rfl, ?_⟩
    cases rest with
    | nil => exact .inl (stops.1 rfl)
    | cons second below =>
        refine .inr ⟨by simp, ?_⟩
        rw [List.nil_append, classAt?_cons, stops.2 (List.cons_ne_nil _ _), Option.bind_none]

/-- Below a class, a path fails where its rest fails in the class. -/
theorem failsAt_cons_iff (isClass : container.class? first = some inner) :
    container.FailsAt (first :: rest) passed name ↔
      ∃ below, passed = first :: below ∧ inner.FailsAt rest below name := by
  have deeper (below : List String) (leads : below ≠ []) :
      container.lookup? (first :: below) = inner.lookup? below :=
    lookup?_cons_of_class? isClass leads
  have within (below : List String) :
      container.classAt? (first :: below) = inner.classAt? below := by
    rw [classAt?_cons, isClass, Option.bind_some]
  constructor
  · rintro ⟨onPath, arrives, fails⟩
    cases passed with
    | nil =>
        obtain ⟨rfl, _⟩ := List.cons_prefix_cons.mp onPath
        have found : container.classAt? [name] = some inner := within []
        rcases fails with nowhere | ⟨_, noClass⟩
        · rw [List.nil_append] at nowhere
          rw [classAt?, nowhere] at found
          cases found
        · rw [List.nil_append, found] at noClass
          cases noClass
    | cons top below =>
        obtain ⟨rfl, along⟩ := List.cons_prefix_cons.mp onPath
        rw [within] at arrives
        rw [List.cons_append, deeper _ (by simp), within, ne_eq, List.cons.injEq] at fails
        exact ⟨below, rfl, along, arrives, by simpa using fails⟩
  · rintro ⟨below, rfl, onPath, arrives, fails⟩
    refine ⟨List.cons_prefix_cons.mpr ⟨rfl, onPath⟩, by rwa [within], ?_⟩
    rw [List.cons_append, deeper _ (by simp), within, ne_eq, List.cons.injEq]
    simpa using fails

theorem not_failsAt_of_get? (held : container.get? first = some entry) :
    ¬ container.FailsAt [first] passed name := by
  rintro ⟨onPath, _, fails⟩
  cases passed with
  | nil =>
      obtain ⟨rfl, _⟩ := List.cons_prefix_cons.mp onPath
      have found : container.lookup? [name] = some entry := held
      simp [found] at fails
  | cons top below => simp at onPath

/-! ## The three ways agree -/

/-- One walk finds the entry that a path leads to. -/
theorem walk_eq_ok_iff :
    container.walk passed path = .ok entry ↔ container.lookup? path = some entry := by
  induction path generalizing container passed with
  | nil => rw [walk_nil, lookup?_nil, Except.ok.injEq, Option.some.injEq]
  | cons first rest induction =>
      rcases container.cons_cases first rest with
        ⟨found, rfl, held⟩ | ⟨inner, goesOn, isClass⟩ | stops
      · rw [walk_singleton, lookup?_singleton, held, Option.elim_some, Except.ok.injEq,
          Option.some.injEq]
      · rw [walk_of_class? isClass goesOn, lookup?_cons_of_class? isClass goesOn, induction]
      · simp [stops.walk, stops.lookup?_eq_none]

/-- Where a path leads nowhere, one walk finds the name that fails, and tells what it has passed. -/
theorem walk_eq_error_iff : container.walk passed path = .error (names, name) ↔
    ∃ below, names = passed ++ below ∧ container.FailsAt path below name := by
  induction path generalizing container passed with
  | nil =>
      constructor
      · rintro ⟨⟩
      · rintro ⟨below, _, ⟨onPath, _, _⟩⟩
        simp at onPath
  | cons first rest induction =>
      rcases container.cons_cases first rest with
        ⟨found, rfl, held⟩ | ⟨inner, goesOn, isClass⟩ | stops
      · simp [walk_singleton, held, not_failsAt_of_get? held]
      · rw [walk_of_class? isClass goesOn, induction]
        simp only [failsAt_cons_iff isClass]
        constructor
        · rintro ⟨below, rfl, fails⟩
          exact ⟨first :: below, List.append_assoc _ _ _, below, rfl, fails⟩
        · rintro ⟨_, rfl, below, rfl, fails⟩
          exact ⟨below, by simp, fails⟩
      · simp only [stops.walk, stops.failsAt_iff, Except.error.injEq, Prod.mk.injEq]
        constructor
        · rintro ⟨rfl, rfl⟩
          exact ⟨[], (List.append_nil _).symm, rfl, rfl⟩
        · rintro ⟨_, rfl, rfl, rfl⟩
          exact ⟨(List.append_nil _).symm, rfl⟩

/-- The declared spelling of a path is there exactly where the path leads somewhere. -/
theorem isSome_canonical? (container : ConfigClass) (path : List String) :
    (container.canonical? path).isSome = (container.lookup? path).isSome := by
  induction path generalizing container with
  | nil => rfl
  | cons first rest induction =>
      cases rest with
      | nil => rw [canonical?_singleton, lookup?_singleton, Option.isSome_map, isSome_keyOf?]
      | cons second rest =>
          rw [canonical?_cons_cons, lookup?_cons_cons]
          cases isClass : container.class? first with
          | none => cases container.keyOf? first <;> rfl
          | some inner =>
              have declared := isSome_keyOf? container first
              rw [isSome_get?_of_class? isClass] at declared
              obtain ⟨key, keyed⟩ := Option.isSome_iff_exists.mp declared
              rw [keyed, Option.bind_some, Option.bind_some, Option.bind_some, Option.isSome_map,
                induction]

theorem samePath_of_canonical? (spelled : container.canonical? path = some keys) :
    SamePath keys path := by
  induction path generalizing container keys with
  | nil =>
      cases spelled
      exact .nil
  | cons first rest induction =>
      cases rest with
      | nil =>
          obtain ⟨key, keyed, rfl⟩ := Option.map_eq_some_iff.mp spelled
          exact .cons (sameName_of_keyOf? keyed) .nil
      | cons second rest =>
          rw [canonical?_cons_cons] at spelled
          obtain ⟨key, keyed, spelled⟩ := Option.bind_eq_some_iff.mp spelled
          obtain ⟨inner, _, spelled⟩ := Option.bind_eq_some_iff.mp spelled
          obtain ⟨below, rest, rfl⟩ := Option.map_eq_some_iff.mp spelled
          exact .cons (sameName_of_keyOf? keyed) (induction rest)

/-- Where a path leads, and how it is declared, depends on it only up to the case of letters. -/
theorem lookup?_congr {others : List String} (same : SamePath others path) :
    container.lookup? others = container.lookup? path ∧
      container.canonical? others = container.canonical? path := by
  induction same generalizing container with
  | nil => exact ⟨rfl, rfl⟩
  | @cons other first others rest one tail induction =>
      cases tail with
      | nil =>
          rw [canonical?_singleton, canonical?_singleton, keyOf?_congr one]
          exact ⟨get?_congr one, rfl⟩
      | cons two tail =>
          rw [lookup?_cons_cons, lookup?_cons_cons, canonical?_cons_cons, canonical?_cons_cons,
            class?_congr one, keyOf?_congr one]
          simp only [induction, and_self]

end ConfigClass

namespace ConfigTree

variable {tree : ConfigTree} {path keys passed : List String} {name : String} {entry : ConfigEntry}

theorem lookupChecked_of_lookup? (found : tree.lookup? path = some entry) (strength : Strength) :
    tree.lookupChecked path strength = pure (some entry) := by
  rw [lookupChecked, ConfigClass.walk_eq_ok_iff.mpr found]

theorem lookupChecked_of_failsAt (fails : tree.root.FailsAt path passed name)
    (strength : Strength) :
    tree.lookupChecked path strength =
      Report.recover (Fault.configEntryNotFound passed name strength) none := by
  rw [lookupChecked, ConfigClass.walk_eq_error_iff.mpr ⟨passed, (List.nil_append _).symm, fails⟩]

theorem lookup?_eq_none_iff :
    tree.lookup? path = none ↔ ∃ passed name, tree.root.FailsAt path passed name := by
  cases walked : tree.root.walk [] path with
  | ok entry =>
      have found : tree.lookup? path = some entry := ConfigClass.walk_eq_ok_iff.mp walked
      refine iff_of_false (by simp [found]) ?_
      rintro ⟨passed, name, fails⟩
      rw [ConfigClass.walk_eq_error_iff.mpr ⟨passed, rfl, fails⟩] at walked
      cases walked
  | error missing =>
      obtain ⟨_, _, fails⟩ := ConfigClass.walk_eq_error_iff.mp walked
      refine iff_of_true (Option.eq_none_iff_forall_ne_some.mpr fun entry found => ?_)
        ⟨_, _, fails⟩
      rw [ConfigClass.walk_eq_ok_iff.mpr found] at walked
      cases walked

end ConfigTree

/-- Going down by one name gives the declared spelling of the longer path, or null where the longer
path leads nowhere. -/
theorem Command.navigate_result (exec : Execution) (path : List String) (name : String)
    (site : Site) :
    (navigate (.config (.ofPath path)) (.text name) exec site).result =
      .ok (.value (.config
        ((exec.world.configs.canonical? (path ++ [name])).elim .null .ofPath))) := by
  have longer : (Value.text name).content = name := rfl
  have agree : (exec.world.configs.canonical? (path ++ [name])).isSome =
      (exec.world.configs.lookup? (path ++ [name])).isSome :=
    exec.world.configs.root.isSome_canonical? _
  simp only [navigate, ConfigRef.ofPath, longer]
  cases found : exec.world.configs.lookup? (path ++ [name]) with
  | some entry =>
      rw [found] at agree
      obtain ⟨keys, spelled⟩ := Option.isSome_iff_exists.mp agree
      rw [ConfigTree.lookupChecked_of_lookup? found, spelled]
      rfl
  | none =>
      rw [found] at agree
      have unspelled := Option.not_isSome_iff_eq_none.mp (Bool.eq_false_iff.mp agree)
      obtain ⟨passed, missing, fails⟩ := ConfigTree.lookup?_eq_none_iff.mp found
      rw [ConfigTree.lookupChecked_of_failsAt fails, unspelled]
      rfl

/-- On every path, the checked look-up finds without an event what the plain look-up finds.  Where
the plain look-up finds nothing, the checked one reports the first name that fails and the names
before it, and that is all; in the weak form it goes on with nothing, and in the strong form the
statement is given up.  The declared spelling of a path is there exactly where the path leads
somewhere; it has as many names, which differ in the case of letters only, leads to the same entry
and is declared as it is.  It depends on the path up to the case of letters only; and so do the
references that scripts get, which hold it, or are null where the path leads nowhere. -/
theorem config_lookups_agree (tree : ConfigTree) (path : List String) :
    (∀ strength site entry,
      tree.lookupChecked path strength site = ⟨.ok (some entry), []⟩ ↔
        tree.lookup? path = some entry) ∧
    (tree.lookup? path = none → ∃ passed name, tree.root.FailsAt path passed name ∧
      (∀ site, tree.lookupChecked path .weak site =
        ⟨.ok none, [⟨Fault.configEntryNotFound passed name .weak, site.location⟩]⟩) ∧
      ∀ site, tree.lookupChecked path .strong site =
        ⟨.error .statement, [⟨Fault.configEntryNotFound passed name .strong, site.location⟩]⟩) ∧
    (tree.canonical? path).isSome = (tree.lookup? path).isSome ∧
    (∀ keys, tree.canonical? path = some keys →
      keys.length = path.length ∧ SamePath keys path ∧
      tree.lookup? keys = tree.lookup? path ∧ tree.canonical? keys = some keys) ∧
    (∀ others, SamePath others path → tree.canonical? others = tree.canonical? path) ∧
    ∀ (exec : Execution) others name other site, exec.world.configs = tree →
      SamePath others path → Text.sameName other name = true →
      (Command.navigate (.config (.ofPath others)) (.text other) exec site).result =
        .ok (.value (.config
          ((tree.canonical? (path ++ [name])).elim .null .ofPath))) := by
  refine ⟨?_, ?_, tree.root.isSome_canonical? path, ?_, ?_, ?_⟩
  · intro strength site entry
    constructor
    · intro checked
      cases found : tree.lookup? path with
      | some other =>
          rw [ConfigTree.lookupChecked_of_lookup? found] at checked
          cases checked
          rfl
      | none =>
          obtain ⟨passed, name, fails⟩ := ConfigTree.lookup?_eq_none_iff.mp found
          rw [ConfigTree.lookupChecked_of_failsAt fails] at checked
          cases strength <;> cases checked
    · intro found
      rw [ConfigTree.lookupChecked_of_lookup? found]
      rfl
  · intro found
    obtain ⟨passed, name, fails⟩ := ConfigTree.lookup?_eq_none_iff.mp found
    simp only [ConfigTree.lookupChecked_of_failsAt fails]
    exact ⟨passed, name, fails, fun _ => rfl, fun _ => rfl⟩
  · intro keys spelled
    have same := ConfigClass.samePath_of_canonical? spelled
    have kept : tree.lookup? keys = tree.lookup? path ∧
        tree.canonical? keys = tree.canonical? path := ConfigClass.lookup?_congr same
    exact ⟨same.length_eq, same, kept.1, kept.2.trans spelled⟩
  · intro others same
    exact (ConfigClass.lookup?_congr same).2
  · rintro exec others name other site rfl same one
    have longer : SamePath (others ++ [other]) (path ++ [name]) :=
      List.rel_append same (.cons one .nil)
    have spelled : exec.world.configs.canonical? (others ++ [other]) =
        exec.world.configs.canonical? (path ++ [name]) := (ConfigClass.lookup?_congr longer).2
    rw [Command.navigate_result, spelled]

/-- A path of four names fails at the third, which leads to a number.  The first two have a declared
spelling; and going down from it by the third, in other letters, gives the reference as it is
declared. -/
theorem config_path_beyond_a_number :
    let speed : ConfigEntry := .value (.number 90)
    let car : ConfigEntry := .classOf (some "LandVehicle") [("maxSpeed", speed)]
    let tree : ConfigTree := ⟨⟨none, [("CfgVehicles", .classOf none [("Car", car)])]⟩⟩
    let exec : Execution :=
      .resume { World.ofSettings {} with configs := tree } { id := 1, stack := [] }
    let path := ["cfgvehicles", "CAR"]
    let declared := ["CfgVehicles", "Car"]
    (∃ passed name, tree.root.FailsAt (path ++ ["maxspeed", "unit"]) passed name ∧
      (∀ site, tree.lookupChecked (path ++ ["maxspeed", "unit"]) .weak site =
        ⟨.ok none, [⟨Fault.configEntryNotFound passed name .weak, site.location⟩]⟩) ∧
      ∀ site, tree.lookupChecked (path ++ ["maxspeed", "unit"]) .strong site =
        ⟨.error .statement, [⟨Fault.configEntryNotFound passed name .strong, site.location⟩]⟩) ∧
    tree.canonical? path = some declared ∧ tree.lookup? declared = tree.lookup? path ∧
    (Command.navigate (.config (.ofPath declared)) (.text "MaxSpeed") exec
      exec.site).result =
      .ok (.value (.config (.ofPath ["CfgVehicles", "Car", "maxSpeed"]))) := by
  intro speed car tree exec path declared
  obtain ⟨_, missing, _, _, _, _⟩ := config_lookups_agree tree (path ++ ["maxspeed", "unit"])
  obtain ⟨_, _, _, spelling, _, navigates⟩ := config_lookups_agree tree path
  have spelled : tree.canonical? path = some declared := by decide +kernel
  obtain ⟨_, same, resolves, _⟩ := spelling declared spelled
  have longer : tree.canonical? (path ++ ["maxspeed"]) =
      some ["CfgVehicles", "Car", "maxSpeed"] := by decide +kernel
  have reference := navigates exec declared "maxspeed" "MaxSpeed" exec.site rfl same
    (by decide +kernel)
  rw [longer, Option.elim_some] at reference
  exact ⟨missing (by decide +kernel), spelled, resolves, reference⟩

end SimScript
