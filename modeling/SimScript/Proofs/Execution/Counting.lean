import SimScript.Proofs.Execution.Bodies
import SimScript.Proofs.Scalar.Steps

/-!
# Loops that count

A `for` loop counts by steps of one size, and each number that it counts is given to its
variable and to one round of its body.  The numbers can be told from the bounds alone, as
long as the body leaves the variable as it is; the loop itself looks at the variable
again before each step.
-/

namespace SimScript

namespace ForSpec

/-- The steps lead up to the end and a number is not above it, or down and it is not below. -/
def Reaches (spec : ForSpec) (number : Float) : Prop :=
  0 < spec.step ∧ number ≤ spec.stop ∨ spec.step < 0 ∧ spec.stop ≤ number

instance (spec : ForSpec) (number : Float) : Decidable (spec.Reaches number) :=
  inferInstanceAs (Decidable (_ ∨ _))

/-- The number that is counted after so many others: the start, and then one step after the other,
as long as a step leads to another number and not beyond the end. -/
def count? (spec : ForSpec) : (rounds : Nat) → Option Float
  | 0 => if spec.Reaches spec.start then some spec.start else none
  | rounds + 1 =>
      (spec.count? rounds).bind fun last =>
        if last + spec.step == last then none
        else if spec.Reaches (last + spec.step) then some (last + spec.step)
        else none

/-- What is reported when a loop is left after so many rounds: that there is nothing to do, if there
has been no round, or if a step does not lead to another number. -/
def reports (spec : ForSpec) : (rounds : Nat) → List Fault
  | 0 => [.forStepNoWorkShouldBeDone spec.step spec.start spec.stop]
  | rounds + 1 =>
      match spec.count? rounds with
      | none => []
      | some last =>
          if last + spec.step == last then
            [.forStepNoWorkShouldBeDone spec.step last spec.stop]
          else []

variable {spec : ForSpec} {number : Float} {rounds : Nat}

theorem reaches_iff :
    Execution.reaches spec.step number spec.stop = true ↔ spec.Reaches number := by
  simp [Execution.reaches, Reaches]

theorem continues_iff {first : Float} (counts : spec.Reaches first) :
    Execution.continues spec.step number spec.stop = true ↔ spec.Reaches number := by
  unfold Execution.continues Reaches
  rcases counts with ⟨up, _⟩ | ⟨down, _⟩
  · simp [up, Scalar.lt_asymm up]
  · simp [down, Scalar.lt_asymm down]

theorem reaches_of_count? (counted : spec.count? rounds = some number) : spec.Reaches number := by
  cases rounds with
  | zero =>
      rw [count?] at counted
      split at counted
      case isTrue reaches => exact Option.some.inj counted ▸ reaches
      case isFalse => cases counted
  | succ rounds =>
      obtain ⟨last, _, counted⟩ := Option.bind_eq_some_iff.mp counted
      split at counted
      · cases counted
      · split at counted
        case isTrue reaches => exact Option.some.inj counted ▸ reaches
        case isFalse => cases counted

/-- Each number that is counted is at least one height further than the one before. -/
theorem hasHeight_of_count? (counted : spec.count? rounds = some number) :
    ∃ height, Scalar.HasHeight number height ∧
      (0 < spec.step → rounds ≤ height + Scalar.top) ∧
      (spec.step < 0 → rounds ≤ Scalar.top - height) := by
  have standing {number : Float} (reaches : spec.Reaches number) :
      ∃ height, Scalar.HasHeight number height := by
    rcases reaches with ⟨_, below⟩ | ⟨_, above⟩
    · exact (Scalar.exists_hasHeight_of_le below).1
    · exact (Scalar.exists_hasHeight_of_le above).2
  have reaches := reaches_of_count? counted
  obtain ⟨height, stands⟩ := standing reaches
  refine ⟨height, stands, ?_⟩
  -- On the rounds: the bounds of all heights to begin with, and one height further for each step.
  induction rounds generalizing number height with
  | zero =>
      have := stands.bounds
      exact ⟨fun _ => by omega, fun _ => by omega⟩
  | succ rounds induction =>
      obtain ⟨last, before, counted⟩ := Option.bind_eq_some_iff.mp counted
      have reached := reaches_of_count? before
      obtain ⟨lower, stood⟩ := standing reached
      obtain ⟨up, down⟩ := induction before reached lower stood
      split at counted
      case isTrue => cases counted
      case isFalse elsewhere =>
          obtain ⟨rfl⟩ : last + spec.step = number := by
            split at counted
            · exact Option.some.inj counted
            · cases counted
          obtain ⟨higher, deeper⟩ := stood.add stands elsewhere
          exact ⟨fun steps => by have := up steps; have := higher steps; omega,
            fun steps => by have := down steps; have := deeper steps; omega⟩

/-- A loop counts so many numbers only. -/
theorem exists_count?_eq_none (spec : ForSpec) : ∃ rounds, spec.count? rounds = none := by
  refine ⟨(2 * Scalar.top).toNat + 1, Option.eq_none_iff_forall_ne_some.mpr ?_⟩
  intro number counted
  obtain ⟨height, stands, up, down⟩ := hasHeight_of_count? counted
  have := stands.bounds
  rcases reaches_of_count? counted with ⟨steps, _⟩ | ⟨steps, _⟩
  · have := up steps
    omega
  · have := down steps
    omega

end ForSpec

namespace Execution

/-- A step of a `for` loop has counted a number: it has given the number to the variable, and
entered the body, which sees it. -/
structure Counts (after : Execution) (events : List Event) (loop : CallFrame) (outer : CallStack)
    (spec : ForSpec) (body : CodeBlock) (number : Float) : Prop where
  silent : events = []
  state : after.handle.state = .running
  stack : ∃ block counting, after.handle.stack = block :: counting :: outer ∧
    block.kind = .block ∧ block.code = body ∧ block.ip = 0 ∧ block.operands = [] ∧
    counting = { loop with
      kind := .forLoop spec.variableName number spec.stop spec.step body .body, delivered := none }
  held : after.world.scopes.held? loop.scope spec.variableName = some (.scalar number)
  seen : after.resolve spec.variableName = some (.scalar number)

/-- A `for` loop is about to go on after so many rounds: it has yet to begin, or its variable holds
the number that it has counted last. -/
inductive Pending (exec : Execution) (loop : CallFrame) (spec : ForSpec) (body : CodeBlock) :
    (rounds : Nat) → Prop where
  | first (kind : loop.kind =
      .forLoop spec.variableName spec.start spec.stop spec.step body .start) :
      Pending exec loop spec body 0
  | later {rounds : Nat} {current last : Float}
      (kind : loop.kind = .forLoop spec.variableName current spec.stop spec.step body .body)
      (counted : spec.count? rounds = some last)
      (held : exec.world.scopes.held? loop.scope spec.variableName = some (.scalar last)) :
      Pending exec loop spec body (rounds + 1)

variable {exec after : Execution} {loop : CallFrame} {outer : CallStack} {spec : ForSpec}
  {body : CodeBlock} {number : Float} {rounds : Nat}

/-- The number that a loop counts tells nothing of where the loop was before. -/
theorem Counts.anew {events : List Event} {kind : FrameKind} {delivered : Option Value}
    (counts : after.Counts events { loop with kind, delivered } outer spec body number) :
    after.Counts events loop outer spec body number :=
  ⟨counts.silent, counts.state, counts.stack, counts.held, counts.seen⟩

theorem AtLoop.counts (atLoop : exec.AtLoop loop outer) (tidy : exec.Tidy)
    (made : exec.charged.stepLoop loop =
      exec.charged.enterFor spec.variableName number spec.stop spec.step body) :
    exec.advance.2.Counts exec.advance.1 loop outer spec body number := by
  obtain ⟨inner, isOpen⟩ := atLoop.scope_open tidy
  have scope : exec.charged.scope = loop.scope := atLoop.scope_eq
  obtain ⟨scopes, bound, _⟩ := Scopes.exists_bind isOpen spec.variableName (.scalar number)
  have held : scopes.held? loop.scope spec.variableName = some (.scalar number) := by
    rw [Scopes.held?_of_bind bound, if_pos ⟨rfl, rfl⟩]
  have declared : exec.charged.world.scopes.declare exec.charged.scope spec.variableName
      (.scalar number) = .ok scopes := by
    rw [scope]
    exact Scopes.declare_of_bind bound
  have enters := atLoop.enters inner (Scopes.Owned.bind tidy.owned bound).tight
    (by rw [made, enterFor, declared]; rfl)
  obtain ⟨block, stack, isBlock, code, ip, operands⟩ := enters.stack
  exact ⟨enters.events, enters.state, ⟨block, _, stack, isBlock, code, ip, operands, rfl⟩,
    enters.held held, enters.seen held⟩

/-- What the scope of a loop holds is what the loop looks at before each step but the first. -/
theorem AtLoop.stepLoop_eq (atLoop : exec.AtLoop loop outer) {current : Float} {phase : LoopPhase}
    (kind : loop.kind = .forLoop spec.variableName current spec.stop spec.step body phase)
    (goesOn : phase ≠ .start) :
    exec.charged.stepLoop loop =
      match exec.world.scopes.held? loop.scope spec.variableName with
      | some (.scalar last) =>
          if last + spec.step == last then do
            Report.note (Fault.forStepNoWorkShouldBeDone spec.step last spec.stop)
            return exec.charged.leaveLoop
          else if continues spec.step (last + spec.step) spec.stop then
            exec.charged.enterFor spec.variableName (last + spec.step) spec.stop spec.step body
          else return exec.charged.leaveLoop
      | other => do
          Report.note (Fault.forStepVariableTypeMismatch spec.variableName .scalar
            ((other.map Value.type).getD .nil))
          return exec.charged.leaveLoop := by
  have scope : exec.charged.scope = loop.scope := atLoop.scope_eq
  simp only [stepLoop, kind, stepFor, scope, goesOn, if_false]
  rfl

namespace Pending

/-- A loop that has a number to count counts it. -/
theorem counts (pending : exec.Pending loop spec body rounds) (atLoop : exec.AtLoop loop outer)
    (tidy : exec.Tidy) (counted : spec.count? rounds = some number) :
    exec.advance.2.Counts exec.advance.1 loop outer spec body number := by
  apply atLoop.counts tidy
  cases pending with
  | first kind =>
      rw [ForSpec.count?] at counted
      split at counted
      case isFalse => cases counted
      case isTrue reaches =>
          obtain rfl := Option.some.inj counted
          simp only [stepLoop, kind, stepFor, if_true, ForSpec.reaches_iff.mpr reaches]
  | later kind before held =>
      have first := ForSpec.reaches_of_count? before
      rw [ForSpec.count?, before, Option.bind_some] at counted
      rw [atLoop.stepLoop_eq kind nofun, held]
      split at counted
      case isTrue => cases counted
      case isFalse moves =>
          split at counted
          case isFalse => cases counted
          case isTrue reaches =>
              obtain rfl := Option.some.inj counted
              simp only [moves, (ForSpec.continues_iff first).mpr reaches, if_true]
              rfl

/-- A loop that has nothing more to count is left, with what it has to report. -/
theorem endsLoop (pending : exec.Pending loop spec body rounds) (atLoop : exec.AtLoop loop outer)
    (ended : spec.count? rounds = none) : exec.EndsLoop outer (spec.reports rounds) := by
  apply atLoop.endsLoop
  cases pending with
  | first kind =>
      rw [ForSpec.count?] at ended
      split at ended
      case isTrue => cases ended
      case isFalse beyond =>
          rw [← ForSpec.reaches_iff] at beyond
          simp only [stepLoop, kind, stepFor, if_true, beyond]
          rfl
  | later kind before held =>
      have first := ForSpec.reaches_of_count? before
      rw [ForSpec.count?, before, Option.bind_some] at ended
      rw [atLoop.stepLoop_eq kind nofun, held, ForSpec.reports, before]
      dsimp only
      split at ended
      case isTrue stuck =>
          simp only [stuck, if_true]
          rfl
      case isFalse moves =>
          split at ended
          case isTrue => cases ended
          case isFalse beyond =>
              rw [← ForSpec.continues_iff first] at beyond
              simp only [moves, beyond]
              rfl

end Pending

/-- A loop whose variable holds no number any more is left, and that is reported. -/
theorem AtLoop.endsLoop_of_mismatch (atLoop : exec.AtLoop loop outer) {current : Float}
    (kind : loop.kind = .forLoop spec.variableName current spec.stop spec.step body .body)
    (lost : ∀ last, exec.world.scopes.held? loop.scope spec.variableName ≠ some (.scalar last)) :
    exec.EndsLoop outer [.forStepVariableTypeMismatch spec.variableName .scalar
      (((exec.world.scopes.held? loop.scope spec.variableName).map Value.type).getD .nil)] := by
  apply atLoop.endsLoop
  rw [atLoop.stepLoop_eq kind nofun]
  split
  case h_1 last held => exact absurd held (lost last)
  case h_2 => rfl

/-- A `for` loop counts some number, or it is left. -/
theorem AtLoop.stepLoop_cases (atLoop : exec.AtLoop loop outer) {current : Float}
    {phase : LoopPhase}
    (kind : loop.kind = .forLoop spec.variableName current spec.stop spec.step body phase) :
    (∃ number, exec.charged.stepLoop loop =
      exec.charged.enterFor spec.variableName number spec.stop spec.step body) ∨
    ∃ faults : List Fault, exec.charged.stepLoop loop exec.site =
      ⟨.ok exec.charged.leaveLoop, faults.map fun fault => ⟨.fault fault, exec.location⟩⟩ := by
  by_cases begins : phase = .start
  · simp only [stepLoop, kind, stepFor, begins, if_true]
    split
    · exact .inl ⟨current, rfl⟩
    · exact .inr ⟨[_], rfl⟩
  · rw [atLoop.stepLoop_eq kind begins]
    split
    case h_1 last _ =>
        split
        · exact .inr ⟨[_], rfl⟩
        · split
          · exact .inl ⟨last + spec.step, rfl⟩
          · exact .inr ⟨[], rfl⟩
    case h_2 => exact .inr ⟨[_], rfl⟩

theorem AtLoop.counts_of_grows (atLoop : exec.AtLoop loop outer) (tidy : exec.Tidy)
    {current : Float} {phase : LoopPhase}
    (kind : loop.kind = .forLoop spec.variableName current spec.stop spec.step body phase)
    (grows : outer.length < exec.advance.2.handle.stack.length) :
    ∃ number, exec.advance.2.Counts exec.advance.1 loop outer spec body number := by
  rcases atLoop.stepLoop_cases kind with ⟨number, enters⟩ | ⟨faults, leaves⟩
  · exact ⟨number, atLoop.counts tidy enters⟩
  · obtain ⟨caller, rest, rfl, left⟩ := (atLoop.endsLoop leaves).stack
    rw [left] at grows
    exact absurd grows (Nat.lt_irrefl _)

end Execution

end SimScript
