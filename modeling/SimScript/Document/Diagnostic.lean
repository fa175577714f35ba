import SimScript.Diagnostics.Event
import SimScript.Document.Program

/-!
# Diagnostics from documents

The stages before the machine hand in their diagnostics as documents: the family
and the kind of the message, its fields by name, and where it arose.
-/

namespace SimScript.Document

/-- The text of a field, and none where it is missing. -/
def textField (fields : Json) (name : String) : String :=
  (fields.get name).asString?.getD ""

def countField (fields : Json) (name : String) : Nat :=
  (fields.get name).asNat?.getD 0

def scalarField (fields : Json) (name : String) : Float :=
  (readScalar? (fields.get name)).getD 0

def textsField (fields : Json) (name : String) : List String :=
  (readTexts? (fields.get name)).getD []

/-- The strength of a check; it is weak unless it is said to be strong. -/
def strengthField (fields : Json) : Strength :=
  if textField fields "strength" = "strong" then .strong else .weak

def readType? : String → Option ValueType
  | "Any" => some .any
  | "Nil" => some .nil
  | "Boolean" => some .boolean
  | "Scalar" => some .scalar
  | "String" => some .string
  | "Array" => some .array
  | "Config" => some .config
  | "Code" => some .code
  | "Script" => some .script
  | "Object" => some .object
  | "Group" => some .group
  | "Side" => some .side
  | "Marker" => some .marker
  | "If" => some .ifPart
  | "While" => some .whilePart
  | "For" => some .forPart
  | _ => none

def typeField? (fields : Json) (name : String) : Option ValueType :=
  (fields.get name).asString?.bind readType?

def typeField (fields : Json) (name : String) : ValueType :=
  (typeField? fields name).getD .any

def typesField (fields : Json) (name : String) : List ValueType :=
  (textsField fields name).filterMap readType?

/-- The size of a field: a count, or a pair of the least and the most. -/
def sizeField (fields : Json) (name : String) : SizeExpectation :=
  match fields.get name with
  | .array [least, most] => .between (least.asNat?.getD 0) (most.asNat?.getD 0)
  | other => .exactly (other.asNat?.getD 0)

def countsField (fields : Json) (name : String) : List Nat :=
  ((fields.get name).asArray?.getD []).filterMap Json.asNat?

def preprocessorMessages (fields : Json) : List PreprocessorMessage :=
  [.argCountMismatch, .unexpectedDataAfterInclude,
    .recursiveInclude (textField fields "include_tree"),
    .includeFailed (textField fields "line") (textField fields "reason"),
    .macroDefinedTwice (textField fields "macro_name"),
    .macroNotFound (textField fields "macro_name"), .unexpectedIfdef, .unexpectedIfndef,
    .unexpectedElse, .unexpectedEndif, .missingEndif,
    .unknownInstruction (textField fields "instruction"), .emptyArgument]

def assemblyMessages (fields : Json) : List AssemblyMessage :=
  let operator := textField fields "operator"
  [.expectedSemicolon, .noViableAlternativeInstructions, .noViableAlternativeArg,
    .expectedEndStatement, .expectedCallNular, .expectedNularOperator,
    .unknownNularOperator operator, .expectedCallUnary, .expectedUnaryOperator,
    .unknownUnaryOperator operator, .expectedCallBinary, .expectedBinaryOperator,
    .unknownBinaryOperator operator, .expectedAssignTo, .expectedVariableName,
    .expectedAssignToLocal, .expectedGetVariable, .expectedMakeArray, .expectedInteger,
    .expectedPush, .expectedTypeName, .numberOutOfRange]

def scriptMessages (fields : Json) : List ScriptMessage :=
  [.expectedStatementTerminator, .noViableAlternativeStatement,
    .missingUnderscoreOnPrivateVariable (textField fields "variable"), .expectedBinaryExpression,
    .missingRightArgument (textField fields "operator"), .missingRoundClosingBracket,
    .missingCurlyClosingBracket, .missingSquareClosingBracket,
    .noViableAlternativePrimaryExpression, .emptyNumber, .expectedScript, .endOfFile]

def configMessages : List ConfigMessage :=
  [.expectedStatementTerminator, .noViableAlternativeNode, .expectedIdentifier,
    .missingRoundClosingBracket, .missingCurlyOpeningBracket, .missingCurlyClosingBracket,
    .missingSquareClosingBracket, .missingEqualSign, .expectedArray, .expectedValue,
    .noViableAlternativeValue, .endOfFileNotReached]

def lintingMessages (fields : Json) : List LintingMessage :=
  [.unassignedVariable (textField fields "variable")]

def faults (fields : Json) : List Fault :=
  let strength := strengthField fields
  let got := typeField fields "got"
  let expected := typesField fields "expected"
  let range := countField fields "range"
  let index := countField fields "index"
  let name := textField fields "name"
  let operator := textField fields "operator"
  let variableName := textField fields "variable"
  let source := textField fields "source"
  let message := textField fields "message"
  let marker := textField fields "marker"
  [.stacktrace (textField fields "trace"),
    .maximumInstructionCountReached (countField fields "maximum"),
    .expectedArraySizeMismatch (sizeField fields "expected") (countField fields "got") strength,
    .expectedMinimumArraySizeMismatch (countField fields "expected") (countField fields "got")
      strength,
    .expectedArrayTypeMismatch (countField fields "position") expected got strength,
    .indexOutOfRange range index strength,
    .negativeIndex strength,
    .indexEqualsRange range index,
    .returningNil,
    .returningEmptyArray,
    .negativeSize strength,
    .arrayRecursion,
    .infoMessage source message,
    .suspensionDisabled,
    .suspensionInUnscheduledEnvironment,
    .returningConfigNull,
    .assertFailed,
    .startIndexExceedsToIndex (countField fields "from") (countField fields "to") strength,
    .magicVariableTypeMismatch variableName expected got,
    .scriptHandleAlreadyTerminated,
    .scriptHandleAlreadyFinished,
    .extensionLoaded name (textField fields "version"),
    .extensionNotTerminatingVersionString name,
    .extensionNotTerminatingCallExtensionBufferString name,
    .extensionNotTerminatingCallExtensionArgBufferString name,
    .libraryNameContainsPath name,
    .returningEmptyString,
    .extensionRuntimeError name (textField fields "what"),
    .fileNotFound (textField fields "filename"),
    .scopeNameAlreadySet,
    .scriptNameAlreadySet,
    .returningEmptyScriptHandle,
    .returningErrorCode (textField fields "error_code"),
    .expectedSubArrayTypeMismatch (countsField fields "position") expected got strength,
    .errorMessage source message,
    .fileSystemDisabled,
    .networkingDisabled,
    .alreadyConnected,
    .networkingFormatMismatch (textField fields "provided"),
    .failedToEstablishConnection,
    .expectedArrayToHaveElements strength,
    .clipboardDisabled,
    .failedToCopyToClipboard,
    .formatInvalidPlaceholder ((textField fields "placeholder").toList.headD '%') index,
    .zeroDivisor,
    .markerNotExisting marker,
    .returningDefaultArray (countField fields "size"),
    .returningScalarZero,
    .expectedNonNullValue strength,
    .configEntryNotFound (textsField fields "path") name strength,
    .expectedVehicle strength,
    .expectedUnit strength,
    .returningFalse,
    .markerAlreadyExisting marker,
    .invalidMarkerShape (textField fields "shape"),
    .typeMismatch expected got strength,
    .variableNotFound variableName,
    .stackCorruptionMissingValues (countField fields "expected") (countField fields "got"),
    .noValueFoundForRightArgument operator strength,
    .noValueFoundForLeftArgument operator strength,
    .unknownInputTypeCombinationBinary operator (typeField? fields "left")
      (typeField fields "right"),
    .foundNoValue,
    .callstackFoundNoValue (textField fields "callstack") strength,
    .groupNotEmpty (textField fields "group"),
    .forStepVariableTypeMismatch variableName (typeField fields "expected") got,
    .forStepNoWorkShouldBeDone (scalarField fields "step") (scalarField fields "from")
      (scalarField fields "to")]

/-- Every message of a family, with the given fields. -/
def familyMessages (family : String) (fields : Json) : List Message :=
  match family with
  | "preprocessor" => (preprocessorMessages fields).map .preprocessor
  | "assembly" => (assemblyMessages fields).map .assembly
  | "script" => (scriptMessages fields).map .script
  | "config" => configMessages.map .config
  | "linting" => (lintingMessages fields).map .linting
  | "runtime" => (faults fields).map .fault
  | _ => []

/-- Reads a message.  The kind is its name in the strong form. -/
def readMessage? (json : Json) : Option Message :=
  let kind := textField json "kind"
  (familyMessages (textField json "family") (json.get "fields")).find? fun message =>
    message.heading.name = kind || message.heading.name = kind ++ "Weak"

def readLocation? : Json → Option Location
  | .array [.string path, line, column] => do
      return ⟨path, ← line.asNat?, ← column.asNat?⟩
  | _ => none

/-- Reads where an event arose, by way of what knew it; where that is missing it is the host, or
nowhere by default. -/
def readOrigin (json : Json) : Location :=
  let via := textField json "via"
  match readLocation? (json.get "loc") with
  | none => if via = "default" then {} else Location.host
  | some ⟨path, line, column⟩ =>
      match via with
      | "file" => FileCursor.location { path, line, column, offset := 0 }
      | "node" =>
          SyntaxNode.location { kind := "", path, line, column, offset := 0, length := 0 }
      | "marker" => PositionMarker.location { path, line, column }
      | "instruction" => Instruction.location ⟨.endStatement, ⟨path, line, column⟩⟩
      | _ => ⟨path, line, column⟩

def readEvent? (json : Json) : Option Event :=
  (readMessage? json).map fun message => ⟨message, readOrigin json⟩

end SimScript.Document
