import SimScript.Command.Basic
import SimScript.Json.Printer
import SimScript.Store.Render

/-!
# Calling extensions

The plain call replies the text that the extension wrote.  The call with arguments
hands them over in literal form, and replies the text and the code.
-/

namespace SimScript.Command

/-- An exchange with extensions, which the host does not end by a failure. -/
def onExtensions {α : Type} (exchange : Extension.Exchange Empty α) : Work Execution α := do
  let outcome ← Work.onPart (fun exec : Execution => exec.world.extensions)
    (fun extensions exec => { exec with world := { exec.world with extensions } }) exchange.run
  match outcome with
  | .ok value => return value
  | .error what => what.elim

def callPlain (left right : Value) : Command := do
  let output ← onExtensions (Extension.Registry.call left.content right.content)
  return .value (.text output)

def callWithArgs (left right : Value) : Command := do
  let store := (← get).world.store
  let request := store.itemsOf right
  let _ ← Check.size request 2 .strong
  let _ ← Check.types request [.string, .array] .strong
  let function := (argument request 0).content
  let args := (store.itemsOf (argument request 1)).map store.literal
  let (output, code) ← onExtensions (Extension.Registry.callArgs left.content function args)
  if code != 0 then
    Report.note (Fault.returningErrorCode (Json.integerText code))
  return .reply (.array [.text output, .scalar (Float.ofInt code), .scalar 0])

def extension : CommandSet where
  binaries :=
    [⟨"callExtension", .string, .string, callPlain⟩,
      ⟨"callExtension", .string, .array, callWithArgs⟩]

end SimScript.Command
