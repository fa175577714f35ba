import SimScript.Decimal.Reader
import SimScript.Text.Blank
import SimScript.Work

/-!
# Network sessions

The host owns the transport.  The table checks targets, numbers the sessions and
keeps the state of each; a target has at most one session that is not down.
-/

namespace SimScript.Network

inductive ConnectionState where
  | disconnected
  | connecting
  | connected
  deriving DecidableEq, Inhabited

def ConnectionState.name : ConnectionState → String
  | .disconnected => "DISCONNECTED"
  | .connecting => "CONNECTING"
  | .connected => "CONNECTED"

structure Target where
  host : String
  port : Nat
  deriving DecidableEq

def splitLastColon? (chars : List Char) : Option (List Char × List Char) :=
  let reversed := chars.reverse
  match reversed.dropWhile (· != ':') with
  | [] => none
  | _ :: hostReversed => some (hostReversed.reverse, (reversed.takeWhile (· != ':')).reverse)

/-- Reads `host:port`: the host is not empty and has no blanks, and the port fits 16 bits. -/
def Target.parse? (text : String) : Option Target :=
  match splitLastColon? text.toList with
  | none => none
  | some (host, port) =>
      if host.isEmpty || host.any Text.isBlank then none
      else
        (Decimal.readCount? (Nat.pow 2 16) (String.ofList port)).map fun port =>
          ⟨String.ofList host, port⟩

abbrev SessionId := Nat

structure Session where
  id : SessionId
  target : Target
  state : ConnectionState
  deriving DecidableEq

inductive WireCall where
  | connect (target : Target)
  | disconnect (target : Target)
  deriving DecidableEq

/-- The transport of the host: the state it answers to a target may depend on all it was asked
before. -/
structure Connector where
  answer : (earlier : List WireCall) → Target → ConnectionState
  /-- What it was asked so far. -/
  calls : List WireCall := []

/-- The sessions, in order of their numbers. -/
structure SessionTable where
  sessions : List Session := []
  lastId : Nat := 0
  connector : Option Connector := none

namespace SessionTable

def get? (table : SessionTable) (id : SessionId) : Option Session :=
  table.sessions.find? fun session => session.id = id

/-- Whether some session to a target is not down. -/
def isActive (table : SessionTable) (target : Target) : Bool :=
  table.sessions.any fun session =>
    session.target = target && session.state != .disconnected

/-- Asks the connector for a connection; without a connector there is none. -/
def dial (table : SessionTable) (target : Target) : ConnectionState × SessionTable :=
  match table.connector with
  | none => (.disconnected, table)
  | some connector =>
      (connector.answer connector.calls target,
        { table with
          connector := some { connector with calls := connector.calls ++ [.connect target] } })

/-- Opens a session to the target that a text names.  An attempt that fails still uses up a number,
and its session is down. -/
def connect (enabled : Bool) (text : String) : Work SessionTable (Option SessionId) := do
  if !enabled then
    Report.raise Fault.networkingDisabled
    return none
  match Target.parse? text with
  | none =>
      Report.raise (Fault.networkingFormatMismatch text)
      return none
  | some target =>
      if (← get).isActive target then
        Report.raise Fault.alreadyConnected
        return none
      let id := (← get).lastId + 1
      modify fun table => { table with lastId := id }
      let state ← modifyGet fun table => table.dial target
      modify fun table => { table with sessions := table.sessions ++ [⟨id, target, state⟩] }
      if state = .disconnected then
        Report.raise Fault.failedToEstablishConnection
      return some id

def status? (table : SessionTable) (id : SessionId) : Option ConnectionState :=
  (table.get? id).map fun session => session.state

/-- Changes the state of a session, and tells whether there is one. -/
def setState (table : SessionTable) (id : SessionId) (state : ConnectionState) :
    Bool × SessionTable :=
  ((table.get? id).isSome,
    { table with
      sessions := table.sessions.map fun session =>
        if session.id = id then { session with state } else session })

/-- Takes a session down, and tells whether it was up. -/
def disconnect (table : SessionTable) (id : SessionId) : Bool × SessionTable :=
  match table.get? id with
  | none => (false, table)
  | some session =>
      if session.state = .disconnected then (false, table)
      else
        let (_, table) := table.setState id .disconnected
        (true,
          { table with
            connector := table.connector.map fun connector =>
              { connector with calls := connector.calls ++ [.disconnect session.target] } })

end SessionTable

end SimScript.Network
