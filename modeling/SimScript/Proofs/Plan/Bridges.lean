import SimScript.Command.Extension
import SimScript.Proofs.Extension.Registry
import SimScript.Proofs.Network.Sessions
import SimScript.Proofs.Plan.Arrays

/-!
# Plans of the commands on extensions and sessions

What lies outside the machine is asked in the plan already, by way of rehearsal, and the
effect is what it left.  That comes to the same only because an exchange with an extension
is never given up, and because a session is opened after all that can reject it.
-/

namespace SimScript

namespace Plan

open Command

def callPlain (left right : Value) : Plan := fun exec => do
  let (outcome, extensions) ←
    (Extension.Registry.call left.content right.content).run.rehearse exec.world.extensions
  match outcome with
  | .ok output => return .answer (.extensions extensions) (.value (.text output))
  | .error what => what.elim

def callWithArgs (left right : Value) : Plan := fun exec => do
  let store := exec.world.store
  let request := store.itemsOf right
  let _ ← Check.size request 2 .strong
  let _ ← Check.types request [.string, .array] .strong
  let function := (argument request 0).content
  let args := (store.itemsOf (argument request 1)).map store.literal
  let (outcome, extensions) ←
    (Extension.Registry.callArgs left.content function args).run.rehearse exec.world.extensions
  match outcome with
  | .ok (output, code) =>
      if code != 0 then
        Report.note (Fault.returningErrorCode (Json.integerText code))
      return .answer (.extensions extensions)
        (.array [.text output, .scalar (Float.ofInt code), .scalar 0])
  | .error what => what.elim

def connectTo (right : Value) : Plan := fun exec => do
  let enabled := exec.world.settings.networkingEnabled
  let (session, table) ←
    (Network.SessionTable.connect enabled right.content).rehearse exec.world.network
  return .answer (.network table) (.value (countOrMinusOne session))

def disconnect (right : Value) : Plan := fun exec =>
  match sessionOf? right with
  | none => pure (.answer .nothing (.value (.boolean false)))
  | some id =>
      let (closed, table) := exec.world.network.disconnect id
      pure (.answer (.network table) (.value (.boolean closed)))

end Plan

namespace Command

variable {exec : Execution} {α : Type}

/-- What comes after an exchange may go by what it left, because an exchange is never given up. -/
theorem Meets.exchange {exchange : Extension.Exchange Empty α}
    {post : Except Empty α → Extension.Registry Empty → Prop}
    (settles : exchange.Settles exec.world.extensions post) {next : α → Command}
    {plan : Except Empty α × Extension.Registry Empty → Report Effect}
    (goesOn : ∀ value extensions site,
      next value site { exec with world := { exec.world with extensions } } =
        exec.conclude (plan (.ok value, extensions) site)) :
    Meets exec (onExtensions exchange >>= next)
      (exchange.run.rehearse exec.world.extensions >>= plan) := by
  rw [onExtensions, bind_assoc]
  refine .rehearse (fun site abort events after worked => ?_)
    fun site outcome events after worked => ?_
  · obtain ⟨outcome, more, extensions, settled, _⟩ := settles.each site
    rw [settled] at worked
    cases worked
  · cases outcome with
    | ok value => exact goesOn value after
    | error what => exact what.elim

theorem callPlain_follows (left right : Value) :
    (callPlain left right).Follows (.plan (Plan.callPlain left right)) :=
  follows_of_meets fun _ =>
    .exchange (Extension.Registry.call_settles _ _ _) fun _ _ _ => rfl

theorem callWithArgs_follows (left right : Value) :
    (callWithArgs left right).Follows (.plan (Plan.callWithArgs left right)) := by
  refine follows_of_meets fun exec => .look (.check fun sized => .check fun typed => ?_)
  refine .exchange (Extension.Registry.callArgs_settles _ _ _ _) ?_
  rintro ⟨output, code⟩ extensions site
  dsimp only
  split <;> rfl

theorem connectTo_follows (right : Value) :
    (connectTo right).Follows (.plan (Plan.connectTo right)) := by
  refine follows_of_meets fun exec => .look (.rehearse ?_ ?_)
  · intro site abort events after worked
    rw [Network.SessionTable.connect_error worked]
  · exact fun _ _ _ _ _ _ => rfl

theorem disconnect_follows (right : Value) :
    (disconnect right).Follows (.plan (Plan.disconnect right)) := by
  refine follows_of_meets fun exec => ?_
  unfold disconnect Plan.disconnect
  cases sessionOf? right with
  | none => exact .done fun _ => rfl
  | some id => exact .done fun _ => rfl

end Command

end SimScript
