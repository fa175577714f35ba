import SimScript.Machine.Basic
import SimScript.Proofs.Execution.Moves

/-!
# Operations of the host

Everything that a host can ask of a machine, as data, so that a session of a host is
a list of operations.  An operation that runs scripts has no answer where the fuel is
not enough.
-/

namespace SimScript

/-- What a host asks for. -/
inductive Operation where
  | execute (code : CodeBlock)
  | spawn (code : CodeBlock) (bindings : Bindings)
  | runTurn
  | tick (seconds : Float)
  | runUntilIdle (turns : Nat)
  | advance (seconds : Float)
  | terminate (id : HandleId)
  | scriptDone (id : HandleId)
  | reap
  | handle (id : HandleId)
  | setGlobal (name : String) (value : Value)
  | global (name : String)
  | newArray (items : List Value)
  | newBlock (code : CodeBlock)
  | createObject (kind : ObjectKind) (className : String)
  | updateObject (ref : ObjectRef) (update : ObjectData → ObjectData)
  | destroyObject (ref : ObjectRef)
  | setPlayer (ref : ObjectRef)
  | setConfigs (configs : ConfigTree)
  | lookupConfig (path : List String) (strength : Strength)
  | setLoader (loader : Extension.Loader Empty)
  | loadExtension (name : String)
  | setConnector (connector : Network.Connector)
  | connect (target : String)
  | setState (id : Network.SessionId) (state : Network.ConnectionState)
  | disconnect (id : Network.SessionId)
  | log (severity : Severity) (text : String)

def Operation.values : Operation → List Value
  | .execute code | .newBlock code => code.constants
  | .spawn code bindings => code.constants ++ bindings.map Prod.snd
  | .setGlobal _ value => [value]
  | .newArray items => items
  | _ => []

inductive Answer where
  | done
  | flag (flag : Bool)
  | count (count : Nat)
  | outcome (outcome : ScriptOutcome)
  | report (report : TurnReport)
  | state (state : Except MachineError HandleState)
  | ended (ended : Except MachineError Bool)
  | stored (stored : Except MachineError Unit)
  | handle (handle : Option Handle)
  | value (value : Option Value)
  | object (ref : ObjectRef)
  | entry (entry : Except Abort (Option ConfigEntry))
  | session (id : Option Network.SessionId)

namespace Machine

/-- The answer to an operation that may be refused; one that is refused changes nothing. -/
def orRefused {α : Type} (machine : Machine) (answer : Except MachineError α → Answer) :
    Except MachineError (α × Machine) → Answer × Machine
  | .ok (result, after) => (answer (.ok result), after)
  | .error error => (answer (.error error), machine)

def serve (fuel : Nat) (machine : Machine) : Operation → Option (Answer × Machine)
  | .execute code => (machine.execute fuel code).map (Prod.map .outcome id)
  | .spawn code bindings => some ((machine.spawn code bindings).map .count id)
  | .runTurn => (machine.runTurn fuel).map (Prod.map .report id)
  | .tick seconds => (machine.tick fuel seconds).map (Prod.map .report id)
  | .runUntilIdle turns => (machine.runUntilIdle fuel turns).map (Prod.map .count id)
  | .advance seconds => some (.done, machine.advance seconds)
  | .terminate id => some (machine.orRefused .state (machine.terminate id))
  | .scriptDone id => some (machine.orRefused .ended (machine.scriptDone id))
  | .reap => some (machine.reap.map .count id)
  | .handle id => some (.handle (machine.handle? id), machine)
  | .setGlobal name value =>
      some (machine.orRefused .stored ((machine.setGlobal name value).map fun after => ((), after)))
  | .global name => some (.value (machine.global? name), machine)
  | .newArray items =>
      let (value, store) := machine.world.store.newArray items.toArray
      some (.value (some value), machine.mapWorld fun world => { world with store })
  | .newBlock code =>
      let (block, store) := machine.world.store.newBlock code
      some (.value (some (.code block)), machine.mapWorld fun world => { world with store })
  | .createObject kind className =>
      some ((machine.createObject kind className).map .object id)
  | .updateObject ref update =>
      some (.done, machine.mapObjects fun table => table.update ref update)
  | .destroyObject ref => some (.done, machine.mapObjects fun table => table.destroy ref)
  | .setPlayer ref => some (.done, machine.mapObjects fun table => { table with player := ref })
  | .setConfigs configs => some (.done, machine.setConfigs configs)
  | .lookupConfig path strength =>
      some ((machine.lookupConfig path strength).map .entry id)
  | .setLoader loader => some (.done, machine.setLoader loader)
  | .loadExtension name => some ((machine.loadExtension name).map .flag id)
  | .setConnector connector =>
      some (.done, machine.mapNetwork fun table => { table with connector := some connector })
  | .connect target => some ((machine.connect target).map .session id)
  | .setState id state =>
      let (found, table) := machine.world.network.setState id state
      some (.flag found, machine.mapNetwork fun _ => table)
  | .disconnect id =>
      let (closed, table) := machine.world.network.disconnect id
      some (.flag closed, machine.mapNetwork fun _ => table)
  | .log severity text => some (.done, machine.mapLogger fun logger => logger.log severity text)

def serveAll (fuel : Nat) (machine : Machine) : List Operation → Option (List Answer × Machine)
  | [] => some ([], machine)
  | operation :: rest =>
      (machine.serve fuel operation).bind fun (answer, after) =>
        (after.serveAll fuel rest).map (Prod.map (answer :: ·) id)

end Machine

end SimScript
