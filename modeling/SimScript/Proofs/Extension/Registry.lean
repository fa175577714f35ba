import SimScript.Proofs.Extension.Exchange

/-!
# Failures stay in the libraries

Whatever the libraries do, asking the registry comes to an answer and reports nothing graver
than a warning.  A library is put in use after all that can reject it, at the end and under
a name that was not in use, so no library that is in use is ever dropped or replaced, and
the loader is asked for names that are not in use only.  Only where the loader itself fails
there is no answer, and the registry is still as it was.
-/

namespace SimScript

theorem Message.Mild.warning_atLeast {message : Message} (mild : message.Mild) :
    Severity.warning.atLeast message.severity = true := by
  unfold Mild at mild
  cases severity : message.severity with
  | error | fatal => simp [severity, Abort.forSeverity] at mild
  | _ => rfl

namespace Extension

inductive Use where
  | load (name : String)
  | call (name function : String)
  | callArgs (name function : String) (args : List String)

inductive Output where
  | available (flag : Bool)
  | text (content : String)
  | coded (content : String) (code : Int)

/-- An exchange that comes to an outcome and leaves a registry, whatever it reports. -/
def Exchange.Yields {failure α : Type} (exchange : Exchange failure α) (site : Site)
    (registry : Registry failure) (outcome : Except failure α) (after : Registry failure) : Prop :=
  ∃ events, exchange.run site registry = (⟨.ok outcome, events⟩, after)

namespace Registry

variable {failure : Type}

def use : Use → Exchange failure Output
  | .load name => do return .available (← load name)
  | .call name function => do return .text (← call name function)
  | .callArgs name function args => do
      let (content, code) ← callArgs name function args
      return .coded content code

/-- Asks for one thing after the other; a failure of the host ends what is asked for alone. -/
def useAll : List Use → Work (Registry failure) (List (Except failure Output))
  | [] => return []
  | asked :: later => do
      let outcome ← (use asked).run
      let outcomes ← useAll later
      return outcome :: outcomes

/-- A library that is in use fails on a request. -/
def FailsOn (registry : Registry failure) (name : String) (request : Request) : Prop :=
  ∃ loaded what, registry.get? name = some loaded ∧
    loaded.library loaded.requests request registry.bufferSize = .failed what

/-- The loader finds a library for a name that is not in use, and the library fails to tell its
version. -/
def FailsToLoad (registry : Registry failure) (name : String) : Prop :=
  registry.get? name = none ∧ ∃ library what, (registry.ask name).1 = .library library ∧
    library [] .version registry.bufferSize = .failed what

/-- The loader fails on a name that is not in use. -/
def FailsToFind (registry : Registry failure) (name : String) (what : failure) : Prop :=
  registry.get? name = none ∧ (registry.ask name).1 = .failed what

/-- Every failure of a library, in use or to be found, can be thrown away. -/
structure Disposable (registry : Registry failure) : Prop where
  loaded : ∀ loaded ∈ registry.loaded, ∀ earlier request size what,
    loaded.library earlier request size ≠ .escaped what
  found : ∀ loader, registry.loader = some loader → ∀ names name library,
    loader names name = .library library → ∀ earlier request size what,
      library earlier request size ≠ .escaped what

/-- Every library in use stays in use, with its version, and the loader is asked for no name of
one. -/
structure Keeps (before after : Registry failure) : Prop where
  loaded : ∀ name loaded, before.get? name = some loaded → ∃ later, after.get? name = some later ∧
    later.library = loaded.library ∧ later.version = loaded.version
  asked : ∃ newer, after.asked = before.asked ++ newer ∧ ∀ name ∈ newer, before.get? name = none

variable {registry before middle after : Registry failure} {name function : String}
  {site : Site}

theorem Keeps.refl (registry : Registry failure) : registry.Keeps registry :=
  ⟨fun _ loaded inUse => ⟨loaded, inUse, rfl, rfl⟩, [], (List.append_nil _).symm, nofun⟩

theorem Keeps.trans (first : before.Keeps middle) (second : middle.Keeps after) :
    before.Keeps after := by
  constructor
  · intro name loaded inUse
    obtain ⟨then_, inUse, sameLibrary, sameVersion⟩ := first.loaded name loaded inUse
    obtain ⟨later, inUse, library, version⟩ := second.loaded name then_ inUse
    exact ⟨later, inUse, library.trans sameLibrary, version.trans sameVersion⟩
  · obtain ⟨newer, asked, unknown⟩ := first.asked
    obtain ⟨newest, askedLater, unknownLater⟩ := second.asked
    refine ⟨newer ++ newest, by rw [askedLater, asked, List.append_assoc], ?_⟩
    intro name member
    rcases List.mem_append.mp member with old | new
    · exact unknown name old
    · cases inUse : before.get? name with
      | none => rfl
      | some loaded =>
          obtain ⟨_, kept, _, _⟩ := first.loaded name loaded inUse
          rw [unknownLater name new] at kept
          cases kept

/-! ## Asking the loader and recording requests -/

theorem ask_get? (registry : Registry failure) (name other : String) :
    (registry.ask name).2.get? other = registry.get? other := by
  unfold ask
  split <;> rfl

theorem ask_bufferSize (registry : Registry failure) (name : String) :
    (registry.ask name).2.bufferSize = registry.bufferSize := by
  unfold ask
  split <;> rfl

theorem ask_loader (registry : Registry failure) (name : String) :
    (registry.ask name).2.loader = registry.loader := by
  unfold ask
  split <;> rfl

theorem keeps_ask (unknown : registry.get? name = none) : registry.Keeps (registry.ask name).2 := by
  constructor
  · intro other loaded inUse
    exact ⟨loaded, by rw [ask_get?, inUse], rfl, rfl⟩
  · unfold ask
    split
    · exact ⟨[], (List.append_nil _).symm, nofun⟩
    · exact ⟨[name], rfl, List.forall_mem_singleton.mpr unknown⟩

def adding (registry : Registry failure) (loaded : Loaded failure) : Registry failure :=
  { registry with loaded := registry.loaded ++ [loaded] }

theorem keeps_adding (registry : Registry failure) (loaded : Loaded failure) :
    registry.Keeps (registry.adding loaded) := by
  refine ⟨fun name held inUse => ⟨held, ?_, rfl, rfl⟩, [], (List.append_nil _).symm, nofun⟩
  rw [get?, adding, List.find?_append, ← get?, inUse, Option.some_or]

theorem adding_get?_isSome (registry : Registry failure) (loaded : Loaded failure) :
    ((registry.adding loaded).get? loaded.name).isSome = true := by
  simp [get?, adding]

theorem recordRequest_get? (registry : Registry failure) (name other : String) (request : Request) :
    (registry.recordRequest name request).get? other =
      (registry.get? other).map fun loaded =>
        if loaded.name = name then { loaded with requests := loaded.requests ++ [request] }
        else loaded := by
  have sameName : ∀ loaded : Loaded failure, (if loaded.name = name then
      { loaded with requests := loaded.requests ++ [request] } else loaded).name = loaded.name := by
    intro loaded
    split <;> rfl
  rw [get?, recordRequest, List.find?_map, get?]
  simp only [Function.comp_def, sameName]

theorem keeps_recordRequest (registry : Registry failure) (name : String) (request : Request) :
    registry.Keeps (registry.recordRequest name request) := by
  refine ⟨fun other loaded inUse => ?_, [], (List.append_nil _).symm, nofun⟩
  rw [recordRequest_get?, inUse]
  refine ⟨_, rfl, ?_⟩
  dsimp only
  split <;> exact ⟨rfl, rfl⟩

/-- What every exchange leaves: the same loader, and failures that can be thrown away if they could
before. -/
structure Tends (before after : Registry failure) : Prop where
  keeps : before.Keeps after
  loader : after.loader = before.loader
  disposable : before.Disposable → after.Disposable

theorem Tends.refl (registry : Registry failure) : registry.Tends registry :=
  ⟨.refl registry, rfl, fun disposable => disposable⟩

theorem Tends.trans (first : before.Tends middle) (second : middle.Tends after) :
    before.Tends after :=
  ⟨first.keeps.trans second.keeps, second.loader.trans first.loader,
    fun disposable => second.disposable (first.disposable disposable)⟩

theorem tends_ask (unknown : registry.get? name = none) :
    registry.Tends (registry.ask name).2 := by
  refine ⟨keeps_ask unknown, ask_loader registry name, fun disposable => ?_⟩
  unfold ask
  split
  · exact disposable
  · exact ⟨disposable.loaded, disposable.found⟩

theorem tends_adding (registry : Registry failure) (loaded : Loaded failure)
    (disposable : registry.Disposable → ∀ earlier request size what,
      loaded.library earlier request size ≠ .escaped what) :
    registry.Tends (registry.adding loaded) := by
  refine ⟨keeps_adding registry loaded, rfl, fun sound => ⟨?_, sound.found⟩⟩
  exact List.forall_mem_append.mpr ⟨sound.loaded, List.forall_mem_singleton.mpr (disposable sound)⟩

theorem tends_recordRequest (registry : Registry failure) (name : String) (request : Request) :
    registry.Tends (registry.recordRequest name request) := by
  refine ⟨keeps_recordRequest registry name request, rfl, fun sound => ⟨?_, sound.found⟩⟩
  refine List.forall_mem_map.mpr fun loaded member => ?_
  split <;> exact sound.loaded loaded member

theorem Disposable.of_ask {library : Library failure} (disposable : after.Disposable)
    (sameLoader : after.loader = registry.loader)
    (asked : (registry.ask name).1 = .library library) (earlier : List Request)
    (request : Request) (size : Nat) (what : failure) :
    library earlier request size ≠ .escaped what := by
  unfold ask at asked
  split at asked
  case h_1 => cases asked
  case h_2 loader there =>
    exact disposable.found loader (sameLoader.trans there) _ name library asked _ _ _ _

/-! ## Loading and asking -/

/-- What loading a library comes to. -/
structure Loads (registry : Registry failure) (name : String) (outcome : Except failure Bool)
    (after : Registry failure) : Prop where
  tends : registry.Tends after
  available : ∀ flag, outcome = .ok flag → flag = (after.get? name).isSome
  rejects : registry.FailsToLoad name → outcome = .ok false
  ends : ∀ what, registry.FailsToFind name what → outcome = .error what
  unchanged : ∀ what, outcome = .error what → after.get? name = none
  ended : ∀ what, outcome = .error what → registry.Disposable → registry.FailsToFind name what

theorem loads_nothing (unknown : registry.get? name = none)
    (found : ∀ what, (registry.ask name).1 ≠ .failed what) :
    registry.Loads name (.ok false) (registry.ask name).2 := by
  refine ⟨tends_ask unknown, ?_, fun _ => rfl, fun what fails => absurd fails.2 (found what), ?_,
    ?_⟩
  · rintro _ ⟨⟩
    rw [ask_get?, unknown]
    rfl
  all_goals rintro what ⟨⟩

/-- A failure of the host leaves the registry as it is. -/
theorem loads_failure {what : failure} (unknown : registry.get? name = none)
    (rejects : ¬registry.FailsToLoad name)
    (ends : ∀ other, registry.FailsToFind name other → other = what)
    (ended : registry.Disposable → registry.FailsToFind name what) :
    registry.Loads name (.error what) (registry.ask name).2 := by
  refine ⟨tends_ask unknown, ?_, fun fails => absurd fails rejects, ?_, ?_, ?_⟩
  · rintro flag ⟨⟩
  · exact fun other fails => by rw [ends other fails]
  · exact fun _ _ => by rw [ask_get?, unknown]
  · rintro _ ⟨⟩
    exact ended

theorem load_settles (registry : Registry failure) (name : String) :
    (load name).Settles registry (registry.Loads name) := by
  refine .look ?_
  dsimp only
  split
  case isTrue inUse =>
    have known : registry.get? name ≠ none := by
      rintro unknown
      simp [unknown] at inUse
    refine .pure ⟨.refl registry, ?_, fun fails => absurd fails.1 known,
      fun what fails => absurd fails.1 known, ?_, ?_⟩
    · rintro _ ⟨⟩
      exact inUse.symm
    all_goals rintro what ⟨⟩
  case isFalse notInUse =>
    have unknown : registry.get? name = none := by simpa using notInUse
    refine .when rfl (.ask ?_)
    split
    case h_1 what failed =>
      refine .throw (loads_failure unknown ?_ ?_ fun _ => ⟨unknown, failed⟩)
      · rintro ⟨_, library, _, found, _⟩
        simp [failed] at found
      · rintro other ⟨_, found⟩
        rw [failed] at found
        cases found
        rfl
    case h_2 missing =>
      exact .raise rfl (.pure (loads_nothing unknown fun what => by simp [missing]))
    case h_3 library found =>
      have answered : ∀ what, (registry.ask name).1 ≠ .failed what := by simp [found]
      have same {other : Library failure} (asked : (registry.ask name).1 = .library other) :
          other = library := by
        rw [found] at asked
        cases asked
        rfl
      refine .look ?_
      rw [ask_bufferSize]
      split
      case h_1 what escaped =>
        refine .throw (loads_failure unknown ?_ (fun other fails => absurd fails.2 (answered other))
          fun disposable => absurd escaped (disposable.of_ask rfl found _ _ _ _))
        rintro ⟨_, other, what, asked, failed⟩
        rw [same asked, escaped] at failed
        cases failed
      case h_2 what failed => exact .raise rfl (.pure (loads_nothing unknown answered))
      case h_3 buffer code wrote =>
        refine .when rfl (.note rfl (.change (.pure ?_)))
        refine ⟨(tends_ask unknown).trans (tends_adding _ _ fun disposable => ?_), ?_, ?_,
          fun what fails => absurd fails.2 (answered what), ?_, ?_⟩
        · exact disposable.of_ask (ask_loader registry name) found
        · rintro _ ⟨⟩
          exact (adding_get?_isSome _ _).symm
        · rintro ⟨_, other, what, asked, failed⟩
          rw [same asked, wrote] at failed
          cases failed
        all_goals rintro what ⟨⟩

/-- What an exchange comes to, of which nothing but failures of the loader come out. -/
structure Deals {α : Type} (registry : Registry failure) (outcome : Except failure α)
    (after : Registry failure) : Prop where
  tends : registry.Tends after
  ended : ∀ what, outcome = .error what → registry.Disposable →
    ∃ name, registry.FailsToFind name what

theorem Tends.deals {α : Type} {value : α} (tends : registry.Tends after) :
    registry.Deals (.ok value) after :=
  ⟨tends, fun _ ended => by cases ended⟩

theorem Loads.deals {outcome : Except failure Bool} (loads : registry.Loads name outcome after) :
    registry.Deals outcome after :=
  ⟨loads.tends, fun what ended disposable => ⟨name, loads.ended what ended disposable⟩⟩

theorem Deals.onward {α β : Type} {what : failure}
    (deals : registry.Deals (.error what : Except failure α) after) :
    registry.Deals (.error what : Except failure β) after :=
  ⟨deals.tends, fun other same => deals.ended other (by cases same; rfl)⟩

theorem deals_map {α β : Type} {exchange : Exchange failure α}
    (settles : exchange.Settles registry registry.Deals) (change : α → β) :
    (do return change (← exchange) : Exchange failure β).Settles registry registry.Deals :=
  settles.bind (fun _ _ deals => .pure deals.tends.deals) fun _ _ deals => deals.onward

theorem request_settles (registry : Registry failure) (name : String) (asked : Request)
    (unterminated : Fault) (mild : Message.Mild unterminated) :
    (Registry.request name asked unterminated).Settles registry registry.Deals := by
  refine (load_settles registry name).bind (fun available middle loads => ?_)
    fun _ _ loads => loads.deals.onward
  split
  case isTrue => exact .pure loads.tends.deals
  case isFalse =>
    refine .look ?_
    split
    case h_1 => exact .pure loads.tends.deals
    case h_2 loaded inUse =>
      have recorded := loads.tends.trans (tends_recordRequest middle name asked)
      refine .change (.look ?_)
      dsimp only
      split
      case h_1 what escaped =>
        refine .throw ⟨recorded, fun _ _ disposable => absurd escaped ?_⟩
        have held : loaded ∈ middle.loaded := List.mem_of_find?_eq_some inUse
        exact (loads.tends.disposable disposable).loaded loaded held _ _ _ _
      case h_2 => exact .raise rfl (.pure recorded.deals)
      case h_3 => exact .when mild (.pure recorded.deals)

theorem call_settles (registry : Registry failure) (name function : String) :
    (call name function).Settles registry registry.Deals :=
  deals_map (request_settles registry name (.call function)
    (.extensionNotTerminatingCallExtensionBufferString name) rfl) Prod.fst

theorem callArgs_settles (registry : Registry failure) (name function : String)
    (args : List String) : (callArgs name function args).Settles registry registry.Deals :=
  request_settles registry name (.callArgs function args)
    (.extensionNotTerminatingCallExtensionArgBufferString name) rfl

theorem use_settles (registry : Registry failure) (asked : Use) :
    (use asked).Settles registry registry.Deals := by
  cases asked with
  | load name =>
      exact deals_map ((load_settles registry name).mono fun _ _ loads => loads.deals) _
  | call name function => exact deals_map (call_settles registry name function) _
  | callArgs name function args =>
      exact deals_map (callArgs_settles registry name function args) fun answer =>
        Output.coded answer.1 answer.2

/-- A failure that comes out of some exchange is one of the loader. -/
def LoaderFails (registry : Registry failure) (what : failure) : Prop :=
  ∃ loader names name, registry.loader = some loader ∧ loader names name = .failed what

theorem FailsToFind.loaderFails {what : failure} (fails : registry.FailsToFind name what) :
    registry.LoaderFails what := by
  obtain ⟨_, failed⟩ := fails
  unfold ask at failed
  split at failed
  case h_1 => cases failed
  case h_2 loader there => exact ⟨loader, _, name, there, failed⟩

theorem useAll_comes_to_outcomes (registry : Registry failure) (uses : List Use) (site : Site) :
    ∃ outcomes events after,
      useAll uses site registry = (⟨.ok outcomes, events⟩, after) ∧
      outcomes.length = uses.length ∧ registry.Tends after ∧
      (registry.Disposable → ∀ what, .error what ∈ outcomes → registry.LoaderFails what) ∧
      ∀ event ∈ events, event.message.Mild := by
  induction uses generalizing registry site with
  | nil => exact ⟨[], [], registry, rfl, rfl, .refl registry, by simp, by simp⟩
  | cons asked later induction =>
      obtain ⟨outcome, events, middle, used, deals, mild⟩ :=
        (use_settles registry asked).each site
      obtain ⟨outcomes, more, after, rest, length, tends, failures, mildLater⟩ :=
        induction middle (site.after events)
      refine ⟨outcome :: outcomes, events ++ more, after, ?_, congrArg Nat.succ length,
        deals.tends.trans tends, fun disposable what failed => ?_,
        List.forall_mem_append.mpr ⟨mild, mildLater⟩⟩
      · rw [useAll, Work.bind_of_ok used, Work.bind_of_ok rest, Work.pure_apply, List.append_nil]
      · rcases List.mem_cons.mp failed with first | among
        · obtain ⟨_, fails⟩ := deals.ended what first.symm disposable
          exact fails.loaderFails
        · have fails := failures (deals.tends.disposable disposable) what among
          simpa only [LoaderFails, deals.tends.loader] using fails

/-! ## What calls come to after loading -/

section Yields

variable {α β : Type} {exchange : Exchange failure α} {next : α → Exchange failure β}

theorem yields_error {what : failure} (first : exchange.Yields site registry (.error what) middle) :
    (exchange >>= next).Yields site registry (.error what) middle := by
  obtain ⟨events, run⟩ := first
  exact ⟨events ++ [], by rw [ExceptT.run_bind, Work.bind_of_ok run]; rfl⟩

theorem yields_ok {value : α} {outcome : Except failure β}
    (first : exchange.Yields site registry (.ok value) middle)
    (second : ∀ site, (next value).Yields site middle outcome after) :
    (exchange >>= next).Yields site registry outcome after := by
  obtain ⟨events, run⟩ := first
  obtain ⟨more, ran⟩ := second (site.after events)
  refine ⟨events ++ more, ?_⟩
  rw [ExceptT.run_bind, Work.bind_of_ok run]
  dsimp only
  rw [ran]

theorem get_yields : (get : Exchange failure _).Yields site registry (.ok registry) registry :=
  ⟨[], rfl⟩

theorem modify_yields (change : Registry failure → Registry failure) :
    (modify change : Exchange failure PUnit).Yields site registry (.ok ()) (change registry) :=
  ⟨[], rfl⟩

end Yields

variable {asked : Request} {fault : Fault}

theorem request_of_unavailable (loads : (load name).Yields site registry (.ok false) middle) :
    (Registry.request name asked fault).Yields site registry (.ok ("", 0)) middle :=
  yields_ok loads fun _ => ⟨[], rfl⟩

theorem request_of_failsOn (loads : (load name).Yields site registry (.ok true) middle)
    (fails : middle.FailsOn name asked) :
    (Registry.request name asked fault).Yields site registry (.ok ("", 0))
      (middle.recordRequest name asked) := by
  obtain ⟨loaded, what, inUse, failed⟩ := fails
  refine yields_ok loads fun _ => yields_ok get_yields fun _ => ?_
  rw [inUse]
  refine yields_ok (modify_yields _) fun _ => yields_ok get_yields fun _ => ?_
  have sameSize : (middle.recordRequest name asked).bufferSize = middle.bufferSize := rfl
  simp only [sameSize, failed]
  exact ⟨[_], rfl⟩

theorem call_of_request {outcome : Except failure (String × Int)}
    (requested : (Registry.request name (.call function)
      (.extensionNotTerminatingCallExtensionBufferString name)).Yields site registry outcome
        after) :
    (call name function).Yields site registry (outcome.map Prod.fst) after := by
  cases outcome with
  | error what => exact yields_error requested
  | ok answer => exact yields_ok requested fun _ => ⟨[], rfl⟩

/-- Whatever the libraries do, a registry that is asked for anything, any number of times, reports
nothing graver than a warning and comes to an answer each time, or to a failure of the loader; a
library that is in use stays in use with its version, also where it fails, and the loader is not
asked for its name.  Where the loader fails on a name, loading it and calling it come to that
failure, and the name is not in use.  Elsewhere loading tells whether a library of the name is in
use, and one that fails to tell its version is not.  A call of a library that is not in use then, or
fails on the call, answers the empty text and code 0. -/
theorem extension_faults_are_contained (registry : Registry failure) (site : Site)
    (disposable : registry.Disposable) :
    (∀ uses, ∃ outcomes events after,
      useAll uses site registry = (⟨.ok outcomes, events⟩, after) ∧
      outcomes.length = uses.length ∧ registry.Keeps after ∧
      (∀ what, .error what ∈ outcomes → registry.LoaderFails what) ∧
      ∀ event ∈ events, Severity.warning.atLeast event.severity = true) ∧
    (∀ name what, registry.FailsToFind name what → ∃ after,
      registry.Keeps after ∧ after.get? name = none ∧
      (load name).Yields site registry (.error what) after ∧
      ∀ function args,
        (call name function).Yields site registry (.error what) after ∧
        (callArgs name function args).Yields site registry (.error what) after) ∧
    ∀ name, (∀ what, ¬registry.FailsToFind name what) → ∃ available middle,
      (load name).Yields site registry (.ok available) middle ∧
      available = (middle.get? name).isSome ∧
      (registry.FailsToLoad name → middle.get? name = none) ∧
      ∀ function args,
        (available = false →
          (call name function).Yields site registry (.ok "") middle ∧
          (callArgs name function args).Yields site registry (.ok ("", 0)) middle) ∧
        (middle.FailsOn name (.call function) → ∃ after, middle.Keeps after ∧
          (call name function).Yields site registry (.ok "") after) ∧
        (middle.FailsOn name (.callArgs function args) → ∃ after, middle.Keeps after ∧
          (callArgs name function args).Yields site registry (.ok ("", 0)) after) := by
  refine ⟨fun uses => ?_, fun name what fails => ?_, fun name finds => ?_⟩
  · obtain ⟨outcomes, events, after, run, length, tends, failures, mild⟩ :=
      useAll_comes_to_outcomes registry uses site
    exact ⟨outcomes, events, after, run, length, tends.keeps, failures disposable,
      fun event member => (mild event member).warning_atLeast⟩
  · obtain ⟨outcome, events, after, run, loads, _⟩ := (load_settles registry name).each site
    obtain rfl := loads.ends what fails
    have ends : (load name).Yields site registry (.error what) after := ⟨events, run⟩
    have requested {asked : Request} {fault : Fault} :
        (Registry.request name asked fault).Yields site registry (.error what) after :=
      yields_error ends
    exact ⟨after, loads.tends.keeps, loads.unchanged what rfl, ends,
      fun function args => ⟨call_of_request requested, requested⟩⟩
  · obtain ⟨outcome, events, middle, run, loads, _⟩ := (load_settles registry name).each site
    cases outcome with
    | error what => exact absurd (loads.ended what rfl disposable) (finds what)
    | ok available =>
      have inUse : available = (middle.get? name).isSome := loads.available available rfl
      have loaded : (load name).Yields site registry (.ok available) middle := ⟨events, run⟩
      have answers (asked : Request) (fails : middle.FailsOn name asked) : available = true := by
        obtain ⟨library, _, held, _⟩ := fails
        rw [inUse, held, Option.isSome_some]
      refine ⟨available, middle, loaded,
        inUse, fun rejected => ?_, fun function args => ⟨?_, ?_, ?_⟩⟩
      · obtain rfl : available = false := by simpa using loads.rejects rejected
        simpa using inUse
      · rintro rfl
        exact ⟨call_of_request (request_of_unavailable loaded), request_of_unavailable loaded⟩
      · intro fails
        obtain rfl := answers _ fails
        exact ⟨_, keeps_recordRequest middle name (.call function),
          call_of_request (request_of_failsOn loaded fails)⟩
      · intro fails
        obtain rfl := answers _ fails
        exact ⟨_, keeps_recordRequest _ _ _, request_of_failsOn loaded fails⟩

def failsLate : Library String := fun _ request _ =>
  match request with
  | .version => .wrote [49] 0
  | _ => .failed (some "boom")

def failsEarly : Library String := fun _ _ _ => .failed none

/-- A loader that fails itself on one name. -/
def failingLoader : Loader String := fun _ name =>
  if name = "none" then .failed "lost"
  else .library (if name = "late" then failsLate else failsEarly)

def failing : Registry String := { bufferSize := 4, loader := some failingLoader }

theorem failing_disposable : failing.Disposable := by
  refine ⟨by simp [failing], ?_⟩
  rintro _ ⟨⟩ names name library found earlier request size what escaped
  unfold failingLoader at found
  split at found
  · cases found
  · split at found <;> cases found
    · cases request <;> cases escaped
    · cases escaped

/-- The first library is in use after its failure, under its version; the second one is not. -/
theorem failing_libraries_answer_nothing :
    failing.Disposable ∧
    (∃ after, (call "late" "f").Yields ⟨.host, {}⟩ failing (.ok "") after ∧
      (after.get? "late").map Loaded.version = some "1") ∧
    (∃ after, (callArgs "early" "f" []).Yields ⟨.host, {}⟩ failing (.ok ("", 0)) after ∧
      after.get? "early" = none) ∧
    ∃ after, (call "none" "f").Yields ⟨.host, {}⟩ failing (.error "lost") after ∧
      after.get? "none" = none := by
  obtain ⟨_, lost, each⟩ := extension_faults_are_contained failing ⟨.host, {}⟩ failing_disposable
  have finds (name : String) (other : name ≠ "none") (what : String) :
      ¬failing.FailsToFind name what := by
    rintro ⟨_, failed⟩
    simp [ask, failing, failingLoader, other] at failed
  refine ⟨failing_disposable, ?_, ?_, ?_⟩
  · obtain ⟨available, middle, ⟨_, loads⟩, _, _, calls⟩ := each "late" (finds _ (by decide))
    let late : Loaded String := ⟨"late", failsLate, "1", [.version]⟩
    have loaded : (load "late").run ⟨.host, {}⟩ failing = (⟨.ok (.ok true), _⟩,
        { failing with asked := ["late"], loaded := [late] }) := rfl
    obtain ⟨sameOutcome, rfl⟩ := Prod.mk.inj (loaded.symm.trans loads)
    obtain ⟨_, failing, _⟩ := calls "f" []
    obtain ⟨after, keeps, answered⟩ := failing ⟨late, some "boom", rfl, rfl⟩
    obtain ⟨later, inUse, _, version⟩ := keeps.loaded "late" late rfl
    refine ⟨after, answered, ?_⟩
    rw [inUse, Option.map_some, version]
  · obtain ⟨available, middle, _, inUse, rejects, calls⟩ := each "early" (finds _ (by decide))
    have rejected := rejects ⟨rfl, failsEarly, none, rfl, rfl⟩
    rw [rejected] at inUse
    obtain ⟨missing, _, _⟩ := calls "f" []
    exact ⟨middle, (missing inUse).2, rejected⟩
  · obtain ⟨after, _, unused, _, calls⟩ := lost "none" "lost" ⟨rfl, rfl⟩
    exact ⟨after, (calls "f" []).1, unused⟩

/-- Where the loader fails, a call answers no text, the empty one as little as any other. -/
theorem call_ends_with_the_failing_loader :
    failing.FailsToFind "none" "lost" ∧
    ∀ text after, ¬(call "none" "f").Yields ⟨.host, {}⟩ failing (.ok text) after := by
  refine ⟨⟨rfl, rfl⟩, ?_⟩
  rintro text after ⟨events, run⟩
  have lost : (call "none" "f").run ⟨.host, {}⟩ failing =
      (⟨.ok (.error "lost"), []⟩, { failing with asked := ["none"] }) := rfl
  rw [lost] at run
  cases run

end Registry

end Extension

end SimScript
