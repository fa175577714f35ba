import SimScript.Diagnostics.Logger

/-!
# Checked work

Work that a script asks for may find fault.  Each fault becomes an event, and its
severity decides how the work goes on: a fatal one aborts the whole handle, an error
aborts the current statement, and anything milder lets the work continue.  Work has the
log at hand, as it stands after all that was raised before.
-/

namespace SimScript

/-- How much is given up. -/
inductive Abort where
  | statement
  | handle
  deriving DecidableEq

def Abort.forSeverity : Severity → Option Abort
  | .fatal => some .handle
  | .error => some .statement
  | _ => none

/-- What work came to: a value or an abort, and the events it raised, in order. -/
structure Checked (α : Type) where
  result : Except Abort α
  events : List Event

/-- Where work raises its events: at a location, with the log as it stands. -/
structure Site where
  location : Location
  logger : Logger

def Site.after (site : Site) (events : List Event) : Site :=
  { site with logger := site.logger.emitAll events.toArray }

/-- Checked work at a site. -/
def Report (α : Type) : Type :=
  Site → Checked α

namespace Report

variable {α β : Type}

instance : Monad Report where
  pure value := fun _ => ⟨.ok value, []⟩
  bind work next := fun site =>
    let first := work site
    match first.result with
    | .error abort => ⟨.error abort, first.events⟩
    | .ok value =>
        let second := next value (site.after first.events)
        ⟨second.result, first.events ++ second.events⟩

/-- Raises an event, and aborts as its severity demands. -/
def raise (message : Message) : Report Unit := fun site =>
  { result :=
      match Abort.forSeverity message.severity with
      | some abort => .error abort
      | none => .ok ()
    events := [⟨message, site.location⟩] }

/-- Raises an event, and goes on with `fallback` where its severity allows. -/
def recover (message : Message) (fallback : α) : Report α := do
  raise message
  return fallback

/-- Raises an event and goes on, whatever its severity. -/
def note (message : Message) : Report Unit := fun site =>
  ⟨.ok (), [⟨message, site.location⟩]⟩

end Report

end SimScript
