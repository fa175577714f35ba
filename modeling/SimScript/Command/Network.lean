import SimScript.Command.Basic

/-!
# Network sessions of scripts
-/

namespace SimScript.Command

/-- The session that a number names; only whole numbers from zero on name one. -/
def sessionOf? (value : Value) : Option Network.SessionId :=
  let number := value.number
  if number ≥ 0 && Scalar.isWhole number then some (Scalar.toCount number) else none

def onNetwork {α : Type} : Work Network.SessionTable α → Work Execution α :=
  Work.onPart (fun exec => exec.world.network) fun network exec =>
    { exec with world := { exec.world with network } }

/-- Opens a session and replies its number, or -1 where none was opened. -/
def connectTo (right : Value) : Command := do
  let enabled := (← get).world.settings.networkingEnabled
  let session ← onNetwork (Network.SessionTable.connect enabled right.content)
  return .value (countOrMinusOne session)

def connectionStatus (right : Value) : Query := fun exec =>
  let state := (sessionOf? right).bind exec.world.network.status?
  reply (.text ((state.map Network.ConnectionState.name).getD ""))

/-- Takes a session down, and replies whether it was up. -/
def disconnect (right : Value) : Command := do
  match sessionOf? right with
  | none => return .value (.boolean false)
  | some id =>
      let closed ← onNetwork (modifyGet fun table => table.disconnect id)
      return .value (.boolean closed)

def network : CommandSet where
  unaries :=
    [⟨"connectTo", .string, connectTo⟩,
      unary "connectionStatus" .scalar connectionStatus,
      ⟨"disconnect", .scalar, disconnect⟩]

end SimScript.Command
