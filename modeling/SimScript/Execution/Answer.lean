import SimScript.Execution.Basic
import SimScript.Store.Build
import SimScript.Store.Copy

/-!
# Answers of commands

A command ends with an answer, which the execution then acts on.
-/

namespace SimScript

/-- What is put on the operands of the caller. -/
inductive Reply where
  | value (value : Value)
  /-- A new array. -/
  | array (items : List Value)
  /-- A config value, with new arrays. -/
  | config (value : ConfigValue)
  /-- A deep copy. -/
  | copy (value : Value)

def Reply.make (store : Store) : Reply → Value × Store
  | .value given => (given, store)
  | .array items => store.newArray items.toArray
  | .config given => store.ofConfig given
  | .copy given => store.copy given

/-- How a command ends. -/
inductive Command.Answer where
  | reply (reply : Reply)
  /-- The command has changed the frames; what it is called for comes when they are left. -/
  | deferred
  /-- Replies nil, and waits. -/
  | suspend (wake : WakeCondition)

def Command.Answer.value (value : Value) : Command.Answer :=
  .reply (.value value)

def Command.Answer.nil : Command.Answer :=
  .value .nil

namespace Execution

def give (exec : Execution) (reply : Reply) : Execution :=
  let (value, store) := reply.make exec.world.store
  (exec.withStore store).pushOperand value

def respond (exec : Execution) : Command.Answer → Execution
  | .reply reply => exec.give reply
  | .deferred => exec
  | .suspend wake => (exec.pushOperand .nil).suspend wake

end Execution

end SimScript
