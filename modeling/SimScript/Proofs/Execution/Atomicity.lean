import SimScript.Proofs.Execution.Frames
import SimScript.Proofs.Execution.Movement

/-!
# Commands that are given up

A command that follows one plan changes nothing where it is given up, because it makes
all its checks before it changes anything.  Of all commands of the table only `doMove`
over an array goes on to check after it has changed something.  So whatever else is given
up leaves everything as it was, and only the log has grown.
-/

namespace SimScript

/-- Graded work that is given up raises the event that demands it last, and no other event that
demands anything. -/
theorem Checked.only_last_is_grave {α : Type} {checked : Checked α} {abort : Abort}
    (graded : checked.Graded) (closes : checked.Closes)
    (result : checked.result = .error abort) :
    ∃ earlier event, checked.events = earlier ++ [event] ∧
      Abort.forSeverity event.severity = some abort ∧
      ∀ each ∈ earlier, Abort.forSeverity each.severity = none := by
  obtain ⟨earlier, event, same, grave⟩ := closes abort result
  have demanded : Abort.demanded earlier ++ [abort] = [abort] := by
    simpa [Checked.Graded, same, result, Abort.demanded_append, Abort.given, Abort.demanded,
      grave] using graded
  refine ⟨earlier, event, same, grave, ?_⟩
  exact List.filterMap_eq_nil_iff.mp (List.append_left_eq_self.mp demanded)

/-- Work that is given up leaves the execution as it was.  It raises the event that demands this
last, and no other event that demands anything. -/
def Outcome.ChangesNothing (exec : Execution) (outcome : Outcome) : Prop :=
  ∀ abort, outcome.1.result = .error abort → outcome.2 = exec ∧
    ∃ earlier event, outcome.1.events = earlier ++ [event] ∧
      Abort.forSeverity event.severity = some abort ∧
      ∀ each ∈ earlier, Abort.forSeverity each.severity = none

/-- A call of the command that moves all elements of an array. -/
def Command.MovesMany (name : String) (left right : Value) : Prop :=
  Text.sameName name "doMove" = true ∧ left.type = .array ∧ right.type = .array

namespace Execution

variable {exec : Execution} {name : String} {left right : Value} {operands : List Value}
  {abort : Abort}

theorem attempt_of_error {work : Execution → Report Execution}
    (fails : (exec.attempt work).1.result = .error abort) :
    exec.attempt work = (⟨.error abort, (work exec exec.site).events⟩, exec) ∧
      (work exec exec.site).result = .error abort := by
  cases result : (work exec exec.site).result with
  | ok after => simp [attempt, result] at fails
  | error given =>
      obtain rfl : given = abort := by simpa [attempt, result] using fails
      simp only [attempt, result, and_self]

theorem attempt_changesNothing {work : Execution → Report Execution}
    (graded : (work exec).Graded) : Outcome.ChangesNothing exec (exec.attempt work) := by
  intro abort fails
  obtain ⟨demanded, closes, _, _⟩ := graded.each exec.site
  obtain ⟨attempted, result⟩ := attempt_of_error fails
  obtain ⟨earlier, event, raised⟩ := Checked.only_last_is_grave demanded closes result
  rw [attempted]
  exact ⟨rfl, earlier, event, raised⟩

theorem refuse_changesNothing {message : Message} (unreserved : message.isReserved = false) :
    Outcome.ChangesNothing exec (exec.refuse message) :=
  attempt_changesNothing (.recover _ trivial unreserved)

theorem fulfil_changesNothing {design : Design} {recruits : Prop} (onePlan : design.IsPlan)
    (sanctioned : design.Sanctioned recruits exec operands) :
    Outcome.ChangesNothing exec (exec.fulfil design) := by
  cases design with
  | series => cases onePlan
  | plan made => exact attempt_changesNothing (.bind sanctioned fun _ _ => .pure trivial)

theorem callNular_changesNothing : Outcome.ChangesNothing exec (exec.callNular name) := by
  rcases callNular_cases name with ⟨command, design, obeys, same⟩ | same
  · rw [same]
    exact fulfil_changesNothing obeys.single (obeys.sanctioned exec)
  · rw [same]
    exact attempt_changesNothing (.recover _ trivial rfl)

theorem callUnary_changesNothing : Outcome.ChangesNothing exec (exec.callUnary name right) := by
  rcases callUnary_cases name right with
    ⟨command, design, _, _, obeys, same⟩ | ⟨message, unreserved, same⟩
  · rw [same]
    exact fulfil_changesNothing obeys.single (obeys.sanctioned exec)
  · rw [same]
    exact refuse_changesNothing unreserved

theorem callBinary_changesNothing (single : ¬Command.MovesMany name left right) :
    Outcome.ChangesNothing exec (exec.callBinary name left right) := by
  rcases callBinary_cases name left right with
    ⟨command, design, named, accepts, obeys, same⟩ | ⟨message, unreserved, same⟩
  · rw [same]
    rcases obeys.single with ⟨called, first, second, _⟩ | onePlan
    · rw [first, second, ValueType.accepts_iff (by decide), ValueType.accepts_iff (by decide)]
        at accepts
      exact absurd ⟨called ▸ named, accepts⟩ single
    · exact fulfil_changesNothing onePlan (obeys.sanctioned exec)
  · rw [same]
    exact refuse_changesNothing unreserved

/-- The command over all elements of an array gives up the statement at most, so no call that gives
up the script has changed anything. -/
theorem callBinary_unchanged (spared : abort = .handle ∨ ¬Command.MovesMany name left right)
    (fails : (exec.callBinary name left right).1.result = .error abort) :
    (exec.callBinary name left right).2 = exec := by
  by_cases many : Command.MovesMany name left right
  · have fatal : abort = .handle := spared.resolve_right (not_not_intro many)
    obtain ⟨named, type, _⟩ := many
    obtain ⟨cell, rfl⟩ := Value.eq_array_of_type type
    have statement : abort = .statement := ((callBinary_moves named).stops fails).1
    rw [fatal] at statement
    cases statement
  · exact (callBinary_changesNothing many abort fails).1

end Execution

def Op.MovesMany (op : Op) (operands : List Value) : Prop :=
  ∃ name left right rest, op = .callBinary name ∧ operands = right :: left :: rest ∧
    Command.MovesMany name left right

namespace Execution

variable {exec : Execution} {frame : CallFrame} {outer : CallStack} {abort : Abort}

/-- An operation that is given up has taken its operands, and has changed nothing. -/
theorem dispatch_unchanged {op : Op} (stack : exec.handle.stack = frame :: outer)
    (spared : abort = .handle ∨ ¬op.MovesMany frame.operands)
    (fails : (exec.dispatch op).1.result = .error abort) :
    ∃ operands, (exec.dispatch op).2 = exec.withStack ({ frame with operands } :: outer) := by
  have whole : exec = exec.withStack ({ frame with operands := frame.operands } :: outer) := by
    rw [withStack, ← stack]
  have popped := popOperand_of_stack stack
  cases op with
  | push value | endStatement => cases fails
  | getVariable name | assignTo name | assignToLocal name | makeArray count =>
      refine ⟨frame.operands, ?_⟩
      rw [← whole]
      exact congrArg Prod.snd (attempt_of_error fails).1
  | callNular name =>
      refine ⟨frame.operands, ?_⟩
      rw [← whole]
      exact (callNular_changesNothing abort fails).1
  | callUnary name =>
      simp only [dispatch, popped] at fails ⊢
      cases operands : frame.operands with
      | nil =>
          refine ⟨frame.operands, ?_⟩
          rw [← whole]
          simp only [operands, List.head?_nil] at fails ⊢
          exact (callUnary_changesNothing abort fails).1
      | cons right rest =>
          refine ⟨rest, ?_⟩
          simp only [operands, List.head?_cons, List.tail_cons] at fails ⊢
          exact (callUnary_changesNothing abort fails).1
  | callBinary name =>
      simp only [dispatch, popped] at fails ⊢
      cases operands : frame.operands with
      | nil =>
          refine ⟨frame.operands, ?_⟩
          rw [← whole]
          simp only [operands, List.head?_nil] at fails ⊢
          exact congrArg Prod.snd (attempt_of_error fails).1
      | cons right rest =>
          have next : (exec.withStack ({ frame with operands := rest } :: outer)).popOperand =
              (rest.head?, exec.withStack ({ frame with operands := rest.tail } :: outer)) := by
            rw [popOperand_of_stack rfl]
            rfl
          simp only [operands, List.head?_cons, List.tail_cons, next] at fails ⊢
          cases rest with
          | nil =>
              refine ⟨[], ?_⟩
              simp only [List.head?_nil] at fails ⊢
              exact congrArg Prod.snd (attempt_of_error fails).1
          | cons left rest =>
              refine ⟨rest, ?_⟩
              simp only [List.head?_cons, List.tail_cons] at fails ⊢
              refine callBinary_unchanged (spared.imp_right fun single many => ?_) fails
              exact single ⟨name, left, right, rest, rfl, operands, many⟩

/-- A step that calls the command over all elements of an array. -/
def MovesMany (exec : Execution) : Prop :=
  ∃ frame instruction moved, exec.handle.top? = some frame ∧
    frame.fetch? = some (instruction, moved) ∧ instruction.op.MovesMany frame.operands

/-- Where a step may stop that changes nothing: before it is paid for, in a loop, or in an
instruction that has been fetched and has taken its operands. -/
inductive StopsIn (exec : Execution) : Execution → Prop where
  | unpaid (unpaid : exec.charge? = none) : StopsIn exec exec
  | loop {frame : CallFrame} {outer : CallStack} (stack : exec.handle.stack = frame :: outer)
      (paid : exec.charge? = some exec.charged) (codeless : frame.fetch? = none) :
      StopsIn exec exec.charged
  | instruction {frame moved : CallFrame} {instruction : Instruction} {outer : CallStack}
      (stack : exec.handle.stack = frame :: outer) (paid : exec.charge? = some exec.charged)
      (fetched : frame.fetch? = some (instruction, moved)) (operands : List Value) :
      StopsIn exec
        ((exec.placed instruction moved).withStack ({ moved with operands } :: outer))

theorem stepFrame_stopsIn (stack : exec.handle.stack = frame :: outer)
    (spared : abort = .handle ∨ ¬exec.MovesMany)
    (fails : (exec.stepFrame frame).1.result = .error abort) :
    exec.StopsIn (exec.stepFrame frame).2 := by
  have top : exec.handle.top? = some frame := by simp [Handle.top?, stack]
  unfold stepFrame at fails ⊢
  split at fails
  case isTrue done => cases fails
  case isFalse unfinished =>
    rw [if_neg unfinished]
    cases paid : exec.charge? with
    | none => exact .unpaid paid
    | some charged =>
        obtain rfl := charge?_eq_some charged paid
        simp only [paid] at fails ⊢
        cases fetched : frame.fetch? with
        | none =>
            simp only [fetched] at fails ⊢
            rw [(attempt_of_error fails).1]
            exact .loop stack paid fetched
        | some next =>
            obtain ⟨instruction, moved⟩ := next
            simp only [fetched] at fails ⊢
            have operands : moved.operands = frame.operands := by
              obtain ⟨_, _, taken⟩ := Option.map_eq_some_iff.mp fetched
              rw [← (Prod.mk.inj taken).2]
            have single : abort = .handle ∨ ¬instruction.op.MovesMany moved.operands := by
              refine spared.imp_right fun single many => single ?_
              exact ⟨frame, instruction, moved, top, fetched, operands ▸ many⟩
            have inside : (exec.placed instruction moved).handle.stack = moved :: outer :=
              placed_stack stack
            obtain ⟨rest, same⟩ := dispatch_unchanged inside single fails
            exact same ▸ .instruction stack paid fetched rest

theorem step_stopsIn (spared : abort = .handle ∨ ¬exec.MovesMany)
    (fails : exec.step.1.result = .error abort) : exec.StopsIn exec.step.2 := by
  unfold step at fails ⊢
  split at fails
  case isTrue requested => cases fails
  case isFalse proceeds =>
    rw [if_neg proceeds]
    cases stack : exec.handle.stack with
    | nil => simp [stack] at fails
    | cons frame outer =>
        simp only [stack] at fails
        exact stepFrame_stopsIn stack spared fails

theorem StopsIn.state {after : Execution} (stops : exec.StopsIn after) :
    after.handle.state = exec.handle.state := by
  cases stops with
  | unpaid => rfl
  | loop => rfl
  | instruction => exact placed_state

theorem StopsIn.world {after : Execution} (stops : exec.StopsIn after) :
    after.world = exec.world := by
  cases stops with
  | unpaid => rfl
  | loop => rfl
  | instruction => exact mapTop_world _

end Execution

/-- A command that is given up changes nothing, unless it is `doMove` over an array, and its last
event says why.  Neither does the step that calls it, which has at most fetched the call and
taken its operands. -/
theorem aborted_commands_change_nothing (exec : Execution) (name : String) (left right : Value) :
    Outcome.ChangesNothing exec (exec.callNular name) ∧
    Outcome.ChangesNothing exec (exec.callUnary name right) ∧
    (¬Command.MovesMany name left right →
      Outcome.ChangesNothing exec (exec.callBinary name left right)) ∧
    (¬exec.MovesMany → ∀ abort, exec.step.1.result = .error abort →
      exec.StopsIn exec.step.2 ∧ exec.step.2.world = exec.world) := by
  refine ⟨Execution.callNular_changesNothing, Execution.callUnary_changesNothing,
    Execution.callBinary_changesNothing, ?_⟩
  intro single abort fails
  have stops := Execution.step_stopsIn (.inr single) fails
  exact ⟨stops, stops.world⟩

/-- Damage that nobody can take gives up the statement, and everything stays as it was. -/
theorem nobody_is_not_damaged :
    ¬Command.MovesMany "setDamage" (.object Command.noVehicle) (.scalar 1) ∧
      let exec := Execution.among #[]
      let outcome := exec.callBinary "setDamage" (.object Command.noVehicle) (.scalar 1)
      outcome.1.result = .error .statement ∧ outcome.2 = exec := by
  have other : ¬Command.MovesMany "setDamage" (.object Command.noVehicle) (.scalar 1) := by
    rintro ⟨named, _⟩
    revert named
    decide
  refine ⟨other, ?_⟩
  have fails : ((Execution.among #[]).callBinary "setDamage" (.object Command.noVehicle)
      (.scalar 1)).1.result = .error .statement := rfl
  obtain ⟨_, _, between, _⟩ := aborted_commands_change_nothing (.among #[]) "setDamage"
    (.object Command.noVehicle) (.scalar 1)
  exact ⟨fails, (between other _ fails).1⟩

end SimScript
