import SimScript.Command.Table
import SimScript.Proofs.Command.Control
import SimScript.Proofs.Command.Objects
import SimScript.Proofs.Command.Values

/-!
# The table of commands

Every command of the table obeys a design, and so does every command that is found in it
under a name.  So a call comes to a design, or a message is raised in place of a command;
which of the two it is depends on the name and on the types of the operands only.
-/

namespace SimScript

namespace Command

variable {name : String}

theorem all_obey : ∀ set ∈ all, set.Obeys := by
  simp only [all, List.mem_cons, List.not_mem_nil, or_false]
  rintro set (rfl | rfl | rfl | rfl | rfl | rfl | rfl | rfl | rfl | rfl)
  · exact math_obeys
  · exact formatting_obeys
  · exact array_obeys
  · exact flow_obeys
  · exact script_obeys
  · exact object_obeys
  · exact crews_obeys
  · exact config_obeys
  · exact extension_obeys
  · exact network_obeys

/-! ## What is found under a name -/

theorem mem_of_mem_named {α : Type} {entries : CommandSet → List α} {label : α → String}
    {entry : α}
    (member : entry ∈ named
      ((all.flatMap entries).map fun command => (Text.lower (label command), command)) name) :
    entry ∈ all.flatMap entries := by
  simp only [named, List.mem_map, List.mem_filter] at member
  obtain ⟨_, ⟨⟨command, found, rfl⟩, _⟩, rfl⟩ := member
  exact found

theorem named_sameName {α : Type} (table : List (String × α)) {left right : String}
    (same : Text.sameName left right = true) : named table left = named table right := by
  unfold named
  rw [Text.sameName_iff.mp same]

/-- A command that is found under a name has that name, apart from the case of its letters. -/
theorem sameName_of_mem_named {α : Type} {entries : CommandSet → List α} {label : α → String}
    {entry : α}
    (member : entry ∈ named
      ((all.flatMap entries).map fun command => (Text.lower (label command), command)) name) :
    Text.sameName name (label entry) = true := by
  simp only [named, List.mem_map, List.mem_filter] at member
  obtain ⟨_, ⟨⟨found, _, rfl⟩, same⟩, rfl⟩ := member
  rw [Text.sameName_iff]
  exact (eq_of_beq same).symm

theorem obeys_of_nular? {command : Nular} (found : nular? name = some command) :
    ∃ design, command.Obeys design := by
  obtain ⟨set, inTable, member⟩ := List.mem_flatMap.mp (mem_of_mem_named (List.mem_of_head? found))
  exact (all_obey set inTable).nulars command member

theorem obeys_of_mem_unariesOf {command : Unary} (member : command ∈ unariesOf name)
    (right : Value) : ∃ design, command.Obeys right design := by
  obtain ⟨set, inTable, member⟩ := List.mem_flatMap.mp (mem_of_mem_named member)
  exact (all_obey set inTable).unaries command member right

theorem obeys_of_mem_binariesOf {command : Binary} (member : command ∈ binariesOf name)
    (left right : Value) : ∃ design, command.Obeys left right design := by
  obtain ⟨set, inTable, member⟩ := List.mem_flatMap.mp (mem_of_mem_named member)
  exact (all_obey set inTable).binaries command member left right

end Command

/-! ## Calls -/

namespace Execution

theorem callNular_cases (name : String) :
    (∃ command design, Nular.Obeys command design ∧
      ∀ exec : Execution, exec.callNular name = exec.fulfil design) ∨
    ∀ exec : Execution, exec.callNular name =
      exec.attempt fun exec => Report.recover (AssemblyMessage.unknownNularOperator name) exec := by
  cases found : Command.nular? name with
  | none => exact .inr fun exec => by simp only [callNular, found]
  | some command =>
      obtain ⟨design, obeys⟩ := Command.obeys_of_nular? found
      refine .inl ⟨command, design, obeys, fun exec => ?_⟩
      simp only [callNular, found]
      exact obeys.follows exec

theorem callUnary_cases (name : String) (right : Value) :
    (∃ command design, Text.sameName name command.name = true ∧
      command.right.accepts right.type = true ∧ Unary.Obeys command right design ∧
      ∀ exec : Execution, exec.callUnary name right = exec.fulfil design) ∨
    ∃ message : Message, message.isReserved = false ∧
      ∀ exec : Execution, exec.callUnary name right = exec.refuse message := by
  cases signatures : Command.unariesOf name with
  | nil =>
      refine .inr ⟨AssemblyMessage.unknownUnaryOperator name, rfl, fun exec => ?_⟩
      simp only [callUnary, signatures]
  | cons first others =>
      cases found : Command.unaryFor? (first :: others) right.type with
      | none =>
          refine .inr ⟨Fault.typeMismatch ((first :: others).map Unary.right) right.type .strong,
            rfl, fun exec => ?_⟩
          simp only [callUnary, signatures, found]
      | some command =>
          have member : command ∈ Command.unariesOf name :=
            signatures ▸ List.mem_of_find?_eq_some found
          have accepts := List.find?_some (p := fun signature : Unary =>
            signature.right.accepts right.type) found
          obtain ⟨design, obeys⟩ := Command.obeys_of_mem_unariesOf member right
          refine .inl ⟨command, design, Command.sameName_of_mem_named member,
            accepts, obeys, fun exec => ?_⟩
          simp only [callUnary, signatures, found]
          exact obeys.follows exec

theorem callBinary_cases (name : String) (left right : Value) :
    (∃ command design, Text.sameName name command.name = true ∧
      (command.left.accepts left.type = true ∧ command.right.accepts right.type = true) ∧
      Binary.Obeys command left right design ∧
      ∀ exec : Execution, exec.callBinary name left right = exec.fulfil design) ∨
    ∃ message : Message, message.isReserved = false ∧
      ∀ exec : Execution, exec.callBinary name left right = exec.refuse message := by
  cases signatures : Command.binariesOf name with
  | nil =>
      refine .inr ⟨AssemblyMessage.unknownBinaryOperator name, rfl, fun exec => ?_⟩
      simp only [callBinary, signatures]
  | cons first others =>
      cases found : Command.binaryFor? (first :: others) left.type right.type with
      | none =>
          refine .inr ⟨Fault.unknownInputTypeCombinationBinary name (some left.type) right.type,
            rfl, fun exec => ?_⟩
          simp only [callBinary, signatures, found]
      | some command =>
          have member : command ∈ Command.binariesOf name :=
            signatures ▸ List.mem_of_find?_eq_some found
          have accepts := List.find?_some (p := fun signature : Binary =>
            signature.left.accepts left.type && signature.right.accepts right.type) found
          obtain ⟨design, obeys⟩ := Command.obeys_of_mem_binariesOf member left right
          refine .inl ⟨command, design, Command.sameName_of_mem_named member,
            Bool.and_eq_true_iff.mp accepts, obeys, fun exec => ?_⟩
          simp only [callBinary, signatures, found]
          exact obeys.follows exec

end Execution

end SimScript
