import SimScript.Check
import SimScript.Proofs.Diagnostics.Logging

/-!
# Graded work

Every event of a grave severity demands an abort.  Work is graded when it gives up
exactly what its events demand: nothing, and then none of them is grave, or one
abort, and then exactly one of them is grave and demands that abort, and it is the
last one.  `Report.Runs` says so together with a property of what the work yields,
that the work never looks at the log, and that it raises no message that is reserved:
the instruction budget is for the steps alone to count, and the trace of a script is
for them to report.  The rules below follow the ways in which work is put together.
-/

namespace SimScript

/-- What some events demand to be given up, in order. -/
def Abort.demanded (events : List Event) : List Abort :=
  events.filterMap fun event => Abort.forSeverity event.severity

theorem Abort.demanded_append (first second : List Event) :
    Abort.demanded (first ++ second) =
      Abort.demanded first ++ Abort.demanded second :=
  List.filterMap_append

def Abort.given {α : Type} : Except Abort α → List Abort
  | .ok _ => []
  | .error abort => [abort]

/-- A message of no grave severity. -/
def Message.Mild (message : Message) : Prop :=
  Abort.forSeverity message.severity = none

def Message.reportsBudget : Message → Bool
  | .fault (.maximumInstructionCountReached _) => true
  | _ => false

def Message.reportsTrace : Message → Bool
  | .fault (.stacktrace _) => true
  | _ => false

/-- Whether a message is raised by the steps alone, and by no work that they have done. -/
def Message.isReserved (message : Message) : Bool :=
  message.reportsBudget || message.reportsTrace

theorem Message.reportsBudget_of_unreserved {message : Message}
    (unreserved : message.isReserved = false) : message.reportsBudget = false :=
  (Bool.or_eq_false_iff.mp unreserved).1

theorem Message.reportsTrace_of_unreserved {message : Message}
    (unreserved : message.isReserved = false) : message.reportsTrace = false :=
  (Bool.or_eq_false_iff.mp unreserved).2

theorem Message.Mild.unreserved {message : Message} (mild : message.Mild) :
    message.isReserved = false := by
  have grave : ∀ fault : Fault, message = fault → fault.heading.severity ≠ .fatal := by
    rintro fault rfl fatal
    simp [Mild, severity, heading, fatal, Abort.forSeverity] at mild
  unfold isReserved reportsBudget reportsTrace
  split
  · exact absurd rfl (grave _ rfl)
  · split
    · exact absurd rfl (grave _ rfl)
    · rfl

namespace Checked

variable {α : Type}

/-- The events of the work demand exactly what its result has given up. -/
def Graded (checked : Checked α) : Prop :=
  Abort.demanded checked.events = Abort.given checked.result

/-- Work that gives something up raises the event that demands it, and nothing after that. -/
def Closes (checked : Checked α) : Prop :=
  ∀ abort, checked.result = .error abort → ∃ earlier event,
    checked.events = earlier ++ [event] ∧ Abort.forSeverity event.severity = some abort

/-- Graded work that yields nothing but what satisfies `post`. -/
structure Runs (post : α → Prop) (checked : Checked α) : Prop where
  graded : checked.Graded
  closes : checked.Closes
  yields : ∀ value, checked.result = .ok value → post value
  unreserved : ∀ event ∈ checked.events, event.message.isReserved = false

theorem Graded.append {β : Type} {first : Checked α} {value : α} {second : Checked β}
    (graded : first.Graded) (result : first.result = .ok value) (later : second.Graded) :
    Graded ⟨second.result, first.events ++ second.events⟩ := by
  have nothingDemanded : Abort.demanded first.events = [] := by
    simpa only [Graded, result, Abort.given] using graded
  simpa only [Graded, Abort.demanded_append, nothingDemanded, List.nil_append] using later

theorem closes_of_ok {checked : Checked α} {value : α} (result : checked.result = .ok value) :
    checked.Closes := by
  intro abort failed
  simp [result] at failed

theorem Closes.congr {β : Type} {checked : Checked α} {abort : Abort} (closes : checked.Closes)
    (result : checked.result = .error abort) :
    Closes (⟨.error abort, checked.events⟩ : Checked β) := by
  rintro _ ⟨⟩
  exact closes abort result

/-- What is done first takes nothing from how later work closes. -/
theorem Closes.prepend {later : Checked α} (closes : later.Closes) (events : List Event) :
    Closes ⟨later.result, events ++ later.events⟩ := by
  intro abort result
  obtain ⟨earlier, event, same, demands⟩ := closes abort result
  exact ⟨events ++ earlier, event, by rw [same, List.append_assoc], demands⟩

end Checked

theorem Site.after_append (site : Site) (first second : List Event) :
    site.after (first ++ second) = (site.after first).after second := by
  simp [Site.after, Logger.emitAll_eq_offer, Logger.offer_append]

namespace Report

variable {α β : Type} {post : α → Prop}

theorem pure_apply (value : α) (site : Site) :
    (pure value : Report α) site = ⟨.ok value, []⟩ := rfl

theorem bind_of_error {work : Report α} {next : α → Report β} {site : Site}
    {abort : Abort} (result : (work site).result = .error abort) :
    (work >>= next) site = ⟨.error abort, (work site).events⟩ := by
  simp only [Bind.bind, result]

theorem bind_of_ok {work : Report α} {next : α → Report β} {site : Site}
    {value : α} (result : (work site).result = .ok value) :
    (work >>= next) site =
      ⟨(next value (site.after (work site).events)).result,
        (work site).events ++ (next value (site.after (work site).events)).events⟩ := by
  simp only [Bind.bind, result]

instance : LawfulMonad Report := by
  refine LawfulMonad.mk' Report ?_ ?_ ?_
  · intro α work
    funext site
    change (work >>= pure) site = work site
    cases result : (work site).result with
    | error abort => rw [bind_of_error result, ← result]
    | ok value =>
        rw [bind_of_ok result, pure_apply, List.append_nil, ← result]
  · intro α β value next
    funext site
    rw [bind_of_ok rfl]
    rfl
  · intro α β γ work next last
    funext site
    cases result : (work site).result with
    | error abort =>
        rw [bind_of_error (by rw [bind_of_error result]), bind_of_error result,
          bind_of_error result]
    | ok value =>
        have unfolded : (work >>= fun value => next value >>= last) site = _ :=
          bind_of_ok result
        rw [unfolded]
        cases later : (next value (site.after (work site).events)).result with
        | error abort =>
            rw [bind_of_error (by rw [bind_of_ok result]; exact later), bind_of_ok result,
              bind_of_error later]
        | ok second =>
            rw [bind_of_ok (by rw [bind_of_ok result]; exact later), bind_of_ok result,
              bind_of_ok later, Site.after_append, List.append_assoc]

theorem map_apply (change : α → β) (work : Report α) (site : Site) :
    (change <$> work) site =
      ⟨(work site).result.map change, (work site).events⟩ := by
  rw [← bind_pure_comp]
  cases result : (work site).result with
  | error abort => rw [bind_of_error result, Except.map]
  | ok value => rw [bind_of_ok result, pure_apply, List.append_nil, Except.map]

/-- Work that comes to the same whatever the log holds and whichever severities it keeps. -/
def Blind (work : Report α) : Prop :=
  ∀ site logger, work { site with logger } = work site

/-- Work that is graded, yields what satisfies `post`, wherever it is done, and never looks at the
log. -/
structure Runs (post : α → Prop) (work : Report α) : Prop where
  each : ∀ site, (work site).Runs post
  blind : work.Blind

def Graded (work : Report α) : Prop :=
  work.Runs fun _ => True

namespace Runs

theorem mono {weaker : α → Prop} {work : Report α} (runs : work.Runs post)
    (implies : ∀ value, post value → weaker value) : work.Runs weaker where
  each site :=
    ⟨(runs.each site).graded, (runs.each site).closes,
      fun value result => implies value ((runs.each site).yields value result),
      (runs.each site).unreserved⟩
  blind := runs.blind

theorem pure {value : α} (holds : post value) : (pure value : Report α).Runs post := by
  refine ⟨fun site => ⟨rfl, Checked.closes_of_ok rfl, ?_, by simp [pure_apply]⟩, fun _ _ => rfl⟩
  rintro _ ⟨⟩
  exact holds

theorem bind {middle : α → Prop} {post : β → Prop} {work : Report α}
    {next : α → Report β} (first : work.Runs middle)
    (second : ∀ value, middle value → (next value).Runs post) :
    (work >>= next).Runs post := by
  constructor
  · intro site
    obtain ⟨graded, closes, yields, unreserved⟩ := first.each site
    cases result : (work site).result with
    | error abort =>
        rw [bind_of_error result]
        refine ⟨by simpa only [Checked.Graded, result, Abort.given] using graded,
          closes.congr result, ?_, unreserved⟩
        rintro _ ⟨⟩
    | ok value =>
        have later := (second value (yields value result)).each (site.after (work site).events)
        rw [bind_of_ok result]
        refine ⟨graded.append result later.graded, later.closes.prepend _, later.yields, ?_⟩
        exact List.forall_mem_append.mpr ⟨unreserved, later.unreserved⟩
  · intro site logger
    have same : work { site with logger } = work site := first.blind site logger
    cases result : (work site).result with
    | error abort => rw [bind_of_error (same ▸ result), bind_of_error result, same]
    | ok value =>
        have holds : middle value := (first.each site).yields value result
        have later : next value (Site.after { site with logger } (work site).events) =
            next value (site.after (work site).events) :=
          (second value holds).blind (site.after _) _
        rw [bind_of_ok (same ▸ result), bind_of_ok result, same, later]

theorem raise {post : Unit → Prop} (message : Message) (holds : post ())
    (unreserved : message.isReserved = false) :
    (Report.raise message).Runs post := by
  refine ⟨fun site => ⟨?_, ?_, fun _ _ => holds, List.forall_mem_singleton.mpr unreserved⟩,
    fun _ _ => rfl⟩
  · cases demanded : Abort.forSeverity message.severity with
    | none =>
        simp [Checked.Graded, Report.raise, Abort.demanded, Abort.given, Event.severity, demanded]
    | some abort =>
        simp [Checked.Graded, Report.raise, Abort.demanded, Abort.given, Event.severity, demanded]
  · intro abort result
    refine ⟨[], _, rfl, ?_⟩
    cases demanded : Abort.forSeverity message.severity with
    | none => simp [Report.raise, demanded] at result
    | some given => simpa [Report.raise, Event.severity, demanded] using result

theorem recover (message : Message) {fallback : α} (holds : post fallback)
    (unreserved : message.isReserved = false) :
    (Report.recover message fallback).Runs post := by
  have raised : (Report.raise message).Graded := raise message trivial unreserved
  exact bind raised fun _ _ => pure holds

theorem abort {post : Unit → Prop} {message : Message} {abort : Abort}
    (grave : Abort.forSeverity message.severity = some abort)
    (unreserved : message.isReserved = false) :
    (Report.raise message).Runs post := by
  have raised : (Report.raise message).Graded := raise message trivial unreserved
  refine ⟨fun site => ?_, raised.blind⟩
  refine ⟨(raised.each site).graded, (raised.each site).closes, ?_, (raised.each site).unreserved⟩
  simp [Report.raise, grave]

/-- A note never aborts, so only a mild message may be noted. -/
theorem note {post : Unit → Prop} {message : Message} (mild : message.Mild) (holds : post ()) :
    (Report.note message).Runs post := by
  refine ⟨fun site => ⟨?_, Checked.closes_of_ok rfl, fun _ _ => holds,
    List.forall_mem_singleton.mpr mild.unreserved⟩, fun _ _ => rfl⟩
  have notGrave : Abort.forSeverity message.severity = none := mild
  simp [Checked.Graded, Report.note, Abort.demanded, Abort.given, Event.severity, notGrave]

theorem after {post : β → Prop} {work : Report α} {next : α → Report β}
    (first : work.Graded) (second : ∀ value, (next value).Runs post) :
    (work >>= next).Runs post :=
  bind first fun value _ => second value

/-- Graded work yields nothing but what it yields somewhere. -/
theorem somewhere {work : Report α} (graded : work.Graded) :
    work.Runs fun value => ∃ site, (work site).result = .ok value where
  each site :=
    ⟨(graded.each site).graded, (graded.each site).closes, fun _ result => ⟨site, result⟩,
      (graded.each site).unreserved⟩
  blind := graded.blind

theorem ite {condition : Prop} [Decidable condition] {first second : Report α}
    (holds : condition → first.Runs post) (fails : ¬condition → second.Runs post) :
    (if condition then first else second).Runs post := by
  split
  case isTrue choice => exact holds choice
  case isFalse choice => exact fails choice

theorem when {condition : Prop} [Decidable condition] {first : Report Unit} {work : Report α}
    (graded : first.Graded) (rest : work.Runs post) :
    (if condition then first >>= fun _ => work else work).Runs post :=
  .ite (fun _ => after graded fun _ => rest) fun _ => rest

theorem mapM {items : List α} {work : α → Report β}
    (each : ∀ item ∈ items, (work item).Graded) : (items.mapM work).Graded := by
  induction items with
  | nil => exact pure trivial
  | cons item rest induction =>
      rw [List.mapM_cons]
      apply after (each item (by simp))
      intro value
      refine after (induction fun later member => each later (by simp [member])) fun values => ?_
      exact pure trivial

end Runs

end Report

namespace Check

private theorem ite_recover_graded {condition : Prop} [Decidable condition] {α : Type}
    (message : Message) (passed failed : α)
    (unreserved : message.isReserved = false) :
    (if condition then pure passed else Report.recover message failed : Report α).Graded :=
  .ite (fun _ => .pure trivial) fun _ => .recover message trivial unreserved

theorem size_graded (items : List Value) (expected : Nat) (strength : Strength) :
    (size items expected strength).Graded :=
  ite_recover_graded _ _ _ rfl

theorem sizeBetween_graded (items : List Value) (least most : Nat) (strength : Strength) :
    (sizeBetween items least most strength).Graded :=
  ite_recover_graded _ _ _ rfl

theorem sizeAtLeast_graded (items : List Value) (least : Nat) (strength : Strength) :
    (sizeAtLeast items least strength).Graded :=
  ite_recover_graded _ _ _ rfl

theorem notEmpty_graded (items : List Value) (strength : Strength) :
    (notEmpty items strength).Graded :=
  .ite (fun _ => .recover _ trivial rfl) fun _ => .pure trivial

theorem types_graded (items : List Value) (expected : List ValueType) (strength : Strength) :
    (types items expected strength).Graded := by
  unfold types
  split
  · exact .pure trivial
  · exact .recover _ trivial rfl

theorem allOf_graded (items : List Value) (type : ValueType) (strength : Strength) :
    (allOf items type strength).Graded :=
  types_graded _ _ _

theorem uniform_graded (items : List Value) (type : ValueType) (count : Nat)
    (strength : Strength) : (uniform items type count strength).Graded :=
  .after (size_graded _ _ _) fun _ =>
    .ite (fun _ => types_graded _ _ _) fun _ => .pure trivial

theorem subType_graded (path : List Nat) (item : Value) (expected : List ValueType)
    (strength : Strength) : (subType path item expected strength).Graded :=
  ite_recover_graded _ _ _ rfl

theorem subTypes_graded (outer : List Nat) (expected : List ValueType) (strength : Strength)
    (position : Nat) (items : List Value) :
    (subTypes outer expected strength position items).Graded := by
  induction items generalizing position with
  | nil => exact .pure trivial
  | cons item rest induction =>
      refine .after (subType_graded _ _ _ _) fun _ => ?_
      exact .ite (fun _ => induction (position + 1)) fun _ => .pure trivial

theorem index_graded (length : Nat) (number : Float) (strength : Strength) :
    (index length number strength).Graded := by
  unfold index
  refine .ite (fun _ => .recover _ trivial rfl) fun _ => ?_
  refine .ite (fun _ => .pure trivial) fun _ => ?_
  exact .ite (fun _ => .recover _ trivial rfl) fun _ => .recover _ trivial rfl

end Check

end SimScript
