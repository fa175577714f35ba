import SimScript.Document.Value
import SimScript.Host.Basic

/-!
# Reports as documents

The JSON form of what the machine and the host tell about their work.
-/

namespace SimScript.Document

def stateWord : HandleState → String
  | .created => "Created"
  | .running => "Running"
  | .suspended => "Suspended"
  | .finished => "Finished"
  | .terminated => "Terminated"

def state (state : HandleState) : Json :=
  .string (stateWord state)

def abort : Abort → Json
  | .statement => .string "Statement"
  | .handle => .string "Handle"

def checked {α : Type} (write : α → Json) : Except Abort α → Json
  | .ok value => write value
  | .error given => object [("abort", abort given)]

def outcome (store : Store) (outcome : ScriptOutcome) : Json :=
  object [("id", count outcome.id), ("state", state outcome.state),
    ("value", value store outcome.value), ("executed", count outcome.executed)]

def turn (report : TurnReport) : Json :=
  object [("turn", count report.turn), ("ran", count report.ran),
    ("finished", count report.finished), ("terminated", count report.terminated),
    ("suspended", count report.suspended), ("instructions", count report.instructions)]

def summary (summary : RunSummary) : Json :=
  object [("turns", count summary.turns), ("finished", count summary.finished),
    ("terminated", count summary.terminated), ("instructions", count summary.instructions),
    ("reaped", count summary.reaped), ("idle", .bool summary.idle)]

def wake : WakeCondition → Json
  | .nextTurn => .string "next"
  | .at time => scalar time

def handle (world : World) (handle : Handle) : Json :=
  object [("name", orNull Json.string handle.name), ("state", state handle.state),
    ("executed", count handle.executed), ("result", value world.store handle.result),
    ("trace", orNull (fun trace => .string (StackTrace.text trace)) handle.trace),
    ("depth", count handle.stack.length), ("wake", orNull wake handle.wake),
    ("terminating", .bool handle.terminateRequested), ("ready", .bool (handle.isReady world.now))]

def stackTrace (trace : StackTrace) : Json :=
  let entry := fun (entry : TraceEntry) =>
    object [("depth", count entry.depth), ("kind", .string entry.kind),
      ("scope_name", orNull Json.string entry.scopeName), ("location", .string entry.location)]
  object [("text", .string trace.text), ("empty", .bool trace.isEmpty),
    ("entries", list entry trace)]

def objectData (objects : ObjectTable) (held : ObjectRef) : Json :=
  match objects.get? held, held.id with
  | some data, some id =>
      let seat := orNull (ref objects)
      object [("obj", .string (kindWord held.kind)), ("id", count (ObjectId.number id)),
        ("class", .string data.className), ("name", .string data.varName),
        ("position", list scalarText data.position.toList),
        ("velocity", list scalarText data.velocity.toList), ("damage", scalarText data.damage),
        ("driver", seat data.driver), ("gunner", seat data.gunner),
        ("commander", seat data.commander), ("crew", list (ref objects) data.crew),
        ("captive", .bool data.captive), ("side", .string data.side.name),
        ("occupants", list (ref objects) (objects.occupants data))]
  | _, _ => ref objects held

def wireCall : Network.WireCall → Json
  | .connect target => .array [.string "connect", .string target.host, count target.port]
  | .disconnect target => .array [.string "disconnect", .string target.host, count target.port]

def connection (state : Network.ConnectionState) : Json :=
  .string state.name

def extension (registry : Extension.Registry Empty) (name : String) : Json :=
  let loaded := registry.get? name
  object [("loaded", .bool loaded.isSome),
    ("version", orNull (fun loaded => .string loaded.version) loaded),
    ("len", count registry.loaded.length), ("empty", .bool registry.loaded.isEmpty)]

def event (event : Event) : Json :=
  let heading := event.message.heading
  object [("name", .string heading.name), ("severity", .string heading.severity.name),
    ("code", count heading.code), ("location", .string event.location.render),
    ("message", .string event.message.text), ("render", .string event.render)]

def traceLine (record : Record) : Json :=
  .array [.string (TraceLevel.ofSeverity record.severity).name,
    orNull (fun severity => .string severity.name) record.namedSeverity?, .string record.text]

def hostSettings (settings : HostSettings) : List (String × Json) :=
  [("vm", settings.machine.toJson),
    ("logging", object [("filter", .string settings.logging.filter),
      ("min_level", .string settings.logging.minLevel.name)]),
    ("config_tree", orNull (fun tree => .string tree.text) settings.configTree),
    ("effective", list Json.bool settings.effective.logLevels.toList)]

end SimScript.Document
