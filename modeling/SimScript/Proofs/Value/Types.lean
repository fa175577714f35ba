import SimScript.Value.Basic

/-!
# Values of a type

A type other than `any` accepts values of that type only, and a value whose type is that
of numbers, truth values, texts or arrays is one.
-/

namespace SimScript

theorem ValueType.accepts_iff {expected offered : ValueType} (specific : expected ≠ .any) :
    expected.accepts offered = true ↔ offered = expected := by
  simp [accepts, specific, eq_comm]

namespace Value

variable {value : Value}

theorem type_object (ref : ObjectRef) :
    (Value.object ref).type = .object ∨ (Value.object ref).type = .group ∨
      (Value.object ref).type = .marker := by
  cases kind : ref.kind <;> simp [type, kind, ObjectKind.valueType]

theorem eq_scalar_of_type (type : value.type = .scalar) : ∃ number, value = .scalar number := by
  cases value with
  | scalar number => exact ⟨number, rfl⟩
  | object ref => rcases type_object ref with other | other | other <;> cases other.symm.trans type
  | _ => cases type

theorem eq_boolean_of_type (type : value.type = .boolean) : ∃ flag, value = .boolean flag := by
  cases value with
  | boolean flag => exact ⟨flag, rfl⟩
  | object ref => rcases type_object ref with other | other | other <;> cases other.symm.trans type
  | _ => cases type

theorem eq_text_of_type (type : value.type = .string) : ∃ content, value = .text content := by
  cases value with
  | text content => exact ⟨content, rfl⟩
  | object ref => rcases type_object ref with other | other | other <;> cases other.symm.trans type
  | _ => cases type

theorem eq_array_of_type (type : value.type = .array) : ∃ cell, value = .array cell := by
  cases value with
  | array cell => exact ⟨cell, rfl⟩
  | object ref => rcases type_object ref with other | other | other <;> cases other.symm.trans type
  | _ => cases type

end Value

end SimScript
