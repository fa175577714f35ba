import SimScript.Diagnostics.Severity

/-!
# Headings of diagnostics

Every kind of diagnostic has a name, a severity and a stable code.
-/

namespace SimScript

/-- What is fixed for one kind of diagnostic. -/
structure Heading where
  name : String
  severity : Severity
  code : Nat
  deriving DecidableEq

/-- Which form of a condition a check uses: the strong form aborts, the weak form goes on. -/
inductive Strength where
  | strong
  | weak
  deriving DecidableEq, Inhabited

/-- The heading of a condition that exists in both forms: the strong form is an error, the weak
form is a warning with the next code. -/
def Strength.heading (strength : Strength) (name : String) (code : Nat) : Heading :=
  match strength with
  | .strong => ⟨name, .error, code⟩
  | .weak => ⟨name ++ "Weak", .warning, code + 1⟩

/-- A name in camel case as words: `ExpectedCallNular` is `Expected call nular`. -/
def camelWords (name : String) : String :=
  match name.toList with
  | [] => ""
  | first :: rest =>
      String.ofList (first :: rest.flatMap fun char =>
        if char.isUpper then [' ', char.toLower] else [char])

def Heading.sentence (heading : Heading) : String :=
  camelWords heading.name ++ "."

end SimScript
