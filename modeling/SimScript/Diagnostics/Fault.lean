import SimScript.Decimal.Layout
import SimScript.Diagnostics.Heading
import SimScript.Value.Kind

/-!
# Faults of running scripts

One constructor for each condition that the machine checks while scripts run.  A
condition that exists in both forms carries its strength; `Fault.heading` is the
one table of names, severities and codes.
-/

namespace SimScript

inductive SizeExpectation where
  | exactly (count : Nat)
  | between (least most : Nat)
  deriving DecidableEq

def SizeExpectation.text : SizeExpectation → String
  | .exactly count => s!"{count}"
  | .between least most => s!"{least}..{most}"

/-- A condition found while a script runs. -/
inductive Fault where
  | stacktrace (trace : String)
  | maximumInstructionCountReached (maximum : Nat)
  | expectedArraySizeMismatch (expected : SizeExpectation) (got : Nat) (strength : Strength)
  | expectedMinimumArraySizeMismatch (expected got : Nat) (strength : Strength)
  | expectedArrayTypeMismatch (position : Nat) (expected : List ValueType) (got : ValueType)
      (strength : Strength)
  | indexOutOfRange (range index : Nat) (strength : Strength)
  | negativeIndex (strength : Strength)
  | indexEqualsRange (range index : Nat)
  | returningNil
  | returningEmptyArray
  | negativeSize (strength : Strength)
  | arrayRecursion
  | infoMessage (source message : String)
  | suspensionDisabled
  | suspensionInUnscheduledEnvironment
  | returningConfigNull
  | assertFailed
  | startIndexExceedsToIndex (start stop : Nat) (strength : Strength)
  | magicVariableTypeMismatch (variableName : String) (expected : List ValueType)
      (got : ValueType)
  | scriptHandleAlreadyTerminated
  | scriptHandleAlreadyFinished
  | extensionLoaded (name version : String)
  | extensionNotTerminatingVersionString (name : String)
  | extensionNotTerminatingCallExtensionBufferString (name : String)
  | extensionNotTerminatingCallExtensionArgBufferString (name : String)
  | libraryNameContainsPath (name : String)
  | returningEmptyString
  | extensionRuntimeError (name what : String)
  | fileNotFound (filename : String)
  | scopeNameAlreadySet
  | scriptNameAlreadySet
  | returningEmptyScriptHandle
  | returningErrorCode (errorCode : String)
  | expectedSubArrayTypeMismatch (position : List Nat) (expected : List ValueType)
      (got : ValueType) (strength : Strength)
  | errorMessage (source message : String)
  | fileSystemDisabled
  | networkingDisabled
  | alreadyConnected
  | networkingFormatMismatch (provided : String)
  | failedToEstablishConnection
  | expectedArrayToHaveElements (strength : Strength)
  | clipboardDisabled
  | failedToCopyToClipboard
  | formatInvalidPlaceholder (placeholder : Char) (index : Nat)
  | zeroDivisor
  | markerNotExisting (marker : String)
  | returningDefaultArray (size : Nat)
  | returningScalarZero
  | expectedNonNullValue (strength : Strength)
  | configEntryNotFound (path : List String) (name : String) (strength : Strength)
  | expectedVehicle (strength : Strength)
  | expectedUnit (strength : Strength)
  | returningFalse
  | markerAlreadyExisting (marker : String)
  | invalidMarkerShape (shape : String)
  | typeMismatch (expected : List ValueType) (got : ValueType) (strength : Strength)
  | variableNotFound (variableName : String)
  | stackCorruptionMissingValues (expected got : Nat)
  | noValueFoundForRightArgument (operator : String) (strength : Strength)
  | noValueFoundForLeftArgument (operator : String) (strength : Strength)
  | unknownInputTypeCombinationBinary (operator : String) (left : Option ValueType)
      (right : ValueType)
  | foundNoValue
  | callstackFoundNoValue (callstack : String) (strength : Strength)
  | groupNotEmpty (group : String)
  | forStepVariableTypeMismatch (variableName : String) (expected got : ValueType)
  | forStepNoWorkShouldBeDone (step start stop : Float)

namespace Fault

def heading : Fault → Heading
  | .stacktrace _ => ⟨"Stacktrace", .fatal, 60001⟩
  | .maximumInstructionCountReached _ => ⟨"MaximumInstructionCountReached", .fatal, 60002⟩
  | .expectedArraySizeMismatch _ _ strength =>
      strength.heading "ExpectedArraySizeMismatch" 60003
  | .expectedMinimumArraySizeMismatch _ _ strength =>
      strength.heading "ExpectedMinimumArraySizeMismatch" 60005
  | .expectedArrayTypeMismatch _ _ _ strength =>
      strength.heading "ExpectedArrayTypeMismatch" 60007
  | .indexOutOfRange _ _ strength => strength.heading "IndexOutOfRange" 60009
  | .negativeIndex strength => strength.heading "NegativeIndex" 60011
  | .indexEqualsRange _ _ => ⟨"IndexEqualsRange", .warning, 60013⟩
  | .returningNil => ⟨"ReturningNil", .verbose, 60014⟩
  | .returningEmptyArray => ⟨"ReturningEmptyArray", .verbose, 60015⟩
  | .negativeSize strength => strength.heading "NegativeSize" 60016
  | .arrayRecursion => ⟨"ArrayRecursion", .fatal, 60018⟩
  | .infoMessage _ _ => ⟨"InfoMessage", .info, 60019⟩
  | .suspensionDisabled => ⟨"SuspensionDisabled", .error, 60020⟩
  | .suspensionInUnscheduledEnvironment => ⟨"SuspensionInUnscheduledEnvironment", .error, 60021⟩
  | .returningConfigNull => ⟨"ReturningConfigNull", .verbose, 60022⟩
  | .assertFailed => ⟨"AssertFailed", .error, 60023⟩
  | .startIndexExceedsToIndex _ _ strength => strength.heading "StartIndexExceedsToIndex" 60024
  | .magicVariableTypeMismatch _ _ _ => ⟨"MagicVariableTypeMismatch", .error, 60026⟩
  | .scriptHandleAlreadyTerminated => ⟨"ScriptHandleAlreadyTerminated", .warning, 60027⟩
  | .scriptHandleAlreadyFinished => ⟨"ScriptHandleAlreadyFinished", .warning, 60028⟩
  | .extensionLoaded _ _ => ⟨"ExtensionLoaded", .verbose, 60029⟩
  | .extensionNotTerminatingVersionString _ =>
      ⟨"ExtensionNotTerminatingVersionString", .warning, 60030⟩
  | .extensionNotTerminatingCallExtensionBufferString _ =>
      ⟨"ExtensionNotTerminatingCallExtensionBufferString", .warning, 60031⟩
  | .extensionNotTerminatingCallExtensionArgBufferString _ =>
      ⟨"ExtensionNotTerminatingCallExtensionArgBufferString", .warning, 60032⟩
  | .libraryNameContainsPath _ => ⟨"LibraryNameContainsPath", .warning, 60033⟩
  | .returningEmptyString => ⟨"ReturningEmptyString", .verbose, 60034⟩
  | .extensionRuntimeError _ _ => ⟨"ExtensionRuntimeError", .warning, 60035⟩
  | .fileNotFound _ => ⟨"FileNotFound", .warning, 60036⟩
  | .scopeNameAlreadySet => ⟨"ScopeNameAlreadySet", .error, 60037⟩
  | .scriptNameAlreadySet => ⟨"ScriptNameAlreadySet", .warning, 60038⟩
  | .returningEmptyScriptHandle => ⟨"ReturningEmptyScriptHandle", .verbose, 60039⟩
  | .returningErrorCode _ => ⟨"ReturningErrorCode", .verbose, 60040⟩
  | .expectedSubArrayTypeMismatch _ _ _ strength =>
      strength.heading "ExpectedSubArrayTypeMismatch" 60041
  | .errorMessage _ _ => ⟨"ErrorMessage", .error, 60043⟩
  | .fileSystemDisabled => ⟨"FileSystemDisabled", .warning, 60044⟩
  | .networkingDisabled => ⟨"NetworkingDisabled", .warning, 60045⟩
  | .alreadyConnected => ⟨"AlreadyConnected", .error, 60046⟩
  | .networkingFormatMismatch _ => ⟨"NetworkingFormatMismatch", .error, 60047⟩
  | .failedToEstablishConnection => ⟨"FailedToEstablishConnection", .warning, 60048⟩
  | .expectedArrayToHaveElements strength =>
      strength.heading "ExpectedArrayToHaveElements" 60049
  | .clipboardDisabled => ⟨"ClipboardDisabled", .warning, 60051⟩
  | .failedToCopyToClipboard => ⟨"FailedToCopyToClipboard", .warning, 60052⟩
  | .formatInvalidPlaceholder _ _ => ⟨"FormatInvalidPlaceholder", .warning, 60053⟩
  | .zeroDivisor => ⟨"ZeroDivisor", .warning, 60054⟩
  | .markerNotExisting _ => ⟨"MarkerNotExisting", .warning, 60055⟩
  | .returningDefaultArray _ => ⟨"ReturningDefaultArray", .verbose, 60056⟩
  | .returningScalarZero => ⟨"ReturningScalarZero", .verbose, 60057⟩
  | .expectedNonNullValue strength => strength.heading "ExpectedNonNullValue" 60058
  | .configEntryNotFound _ _ strength => strength.heading "ConfigEntryNotFound" 60060
  | .expectedVehicle strength => strength.heading "ExpectedVehicle" 60062
  | .expectedUnit strength => strength.heading "ExpectedUnit" 60064
  | .returningFalse => ⟨"ReturningFalse", .verbose, 60066⟩
  | .markerAlreadyExisting _ => ⟨"MarkerAlreadyExisting", .warning, 60067⟩
  | .typeMismatch _ _ strength => strength.heading "TypeMismatch" 60068
  | .variableNotFound _ => ⟨"VariableNotFound", .warning, 60070⟩
  | .stackCorruptionMissingValues _ _ => ⟨"StackCorruptionMissingValues", .fatal, 60071⟩
  | .noValueFoundForRightArgument _ strength =>
      strength.heading "NoValueFoundForRightArgument" 60072
  | .noValueFoundForLeftArgument _ strength =>
      strength.heading "NoValueFoundForLeftArgument" 60074
  | .unknownInputTypeCombinationBinary _ _ _ =>
      ⟨"UnknownInputTypeCombinationBinary", .error, 60076⟩
  | .foundNoValue => ⟨"FoundNoValue", .error, 60077⟩
  | .callstackFoundNoValue _ strength => strength.heading "CallstackFoundNoValue" 60078
  | .groupNotEmpty _ => ⟨"GroupNotEmpty", .warning, 60080⟩
  | .forStepVariableTypeMismatch _ _ _ => ⟨"ForStepVariableTypeMismatch", .warning, 60081⟩
  | .forStepNoWorkShouldBeDone _ _ _ => ⟨"ForStepNoWorkShouldBeDone", .warning, 60082⟩
  | .invalidMarkerShape _ => ⟨"InvalidMarkerShape", .warning, 60083⟩

def joinCounts (counts : List Nat) : String :=
  String.intercalate "," (counts.map Decimal.digitText)

def text : Fault → String
  | .stacktrace trace => s!"Stacktrace:\n{trace}"
  | .maximumInstructionCountReached maximum =>
      s!"Maximum instruction count of {maximum} reached."
  | .expectedArraySizeMismatch expected got _ =>
      s!"Array size mismatch. Expected {expected.text} elements, got {got}."
  | .expectedMinimumArraySizeMismatch expected got _ =>
      s!"Array size mismatch. Expected at least {expected} elements, got {got}."
  | .expectedArrayTypeMismatch position expected got _ =>
      s!"Array element type mismatch at position {position}. " ++
        s!"Expected {ValueType.joinNames expected}, got {got.name}."
  | .indexOutOfRange range index _ => s!"Index out of range. Range: {range}, Index: {index}."
  | .negativeIndex _ => "Negative index provided."
  | .indexEqualsRange range index =>
      s!"Index equals range. Range: {range}, Index: {index}. Result is nil."
  | .returningNil => "Returning nil."
  | .returningEmptyArray => "Returning empty array."
  | .negativeSize _ => "Negative size provided."
  | .arrayRecursion => "Array recursion detected. An array cannot contain itself."
  | .infoMessage source message => s!"[{source}] {message}"
  | .suspensionDisabled => "Suspension is disabled for this VM."
  | .suspensionInUnscheduledEnvironment => "Cannot suspend in unscheduled environment."
  | .returningConfigNull => "Returning configNull."
  | .assertFailed => "Assert failed."
  | .startIndexExceedsToIndex start stop _ =>
      s!"Start index exceeds end index. From: {start}, To: {stop}."
  | .magicVariableTypeMismatch variableName expected got =>
      s!"Magic variable '{variableName}' has wrong type. " ++
        s!"Expected {ValueType.joinNames expected}, got {got.name}."
  | .scriptHandleAlreadyTerminated => "Script handle was already terminated."
  | .scriptHandleAlreadyFinished => "Script handle has already finished."
  | .extensionLoaded name version => s!"Extension '{name}' loaded. Version: {version}"
  | .extensionNotTerminatingVersionString name =>
      s!"Extension '{name}' did not terminate its version string. Output was truncated."
  | .extensionNotTerminatingCallExtensionBufferString name =>
      s!"Extension '{name}' did not terminate its output buffer. Output was truncated."
  | .extensionNotTerminatingCallExtensionArgBufferString name =>
      s!"Extension '{name}' did not terminate its argument call output buffer. " ++
        "Output was truncated."
  | .libraryNameContainsPath name => s!"Library name '{name}' contains a path. Loading anyway."
  | .returningEmptyString => "Returning empty string."
  | .extensionRuntimeError name what => s!"Extension '{name}' raised an error: {what}"
  | .fileNotFound filename => s!"File '{filename}' not found."
  | .scopeNameAlreadySet => "Scope name was already set."
  | .scriptNameAlreadySet => "Script name was already set."
  | .returningEmptyScriptHandle => "Returning empty script handle."
  | .returningErrorCode errorCode => s!"Returning error code {errorCode}."
  | .expectedSubArrayTypeMismatch position expected got _ =>
      s!"Sub-array element type mismatch at [{joinCounts position}]. " ++
        s!"Expected {ValueType.joinNames expected}, got {got.name}."
  | .errorMessage source message => s!"[{source}] {message}"
  | .fileSystemDisabled => "File system access is disabled."
  | .networkingDisabled => "Networking is disabled."
  | .alreadyConnected => "Already connected."
  | .networkingFormatMismatch provided =>
      s!"Invalid network target '{provided}'. Expected 'host:port'."
  | .failedToEstablishConnection => "Failed to establish connection."
  | .expectedArrayToHaveElements _ => "Expected array to have elements."
  | .clipboardDisabled => "Clipboard access is disabled."
  | .failedToCopyToClipboard => "Failed to copy to clipboard."
  | .formatInvalidPlaceholder placeholder index =>
      s!"Invalid format placeholder '{placeholder}' at index {index}."
  | .zeroDivisor => "Division by zero."
  | .markerNotExisting marker => s!"Marker '{marker}' does not exist."
  | .returningDefaultArray size => s!"Returning default array of size {size}."
  | .returningScalarZero => "Returning scalar zero."
  | .expectedNonNullValue _ => "Expected non-null value."
  | .configEntryNotFound path name _ =>
      s!"Config entry '{name}' not found in '" ++ String.intercalate " >> " path ++ "'."
  | .expectedVehicle _ => "Expected vehicle."
  | .expectedUnit _ => "Expected unit."
  | .returningFalse => "Returning false."
  | .markerAlreadyExisting marker => s!"Marker '{marker}' already exists."
  | .invalidMarkerShape shape => s!"Invalid marker shape '{shape}'."
  | .typeMismatch expected got _ =>
      s!"Type mismatch. Expected {ValueType.joinNames expected}, got {got.name}."
  | .variableNotFound variableName => s!"Variable '{variableName}' not found."
  | .stackCorruptionMissingValues expected got =>
      s!"Stack corruption. Expected {expected} values, found {got}."
  | .noValueFoundForRightArgument operator _ =>
      s!"No value found for right argument of '{operator}'."
  | .noValueFoundForLeftArgument operator _ =>
      s!"No value found for left argument of '{operator}'."
  | .unknownInputTypeCombinationBinary operator (some left) right =>
      s!"Unknown input type combination for '{operator}'. " ++
        s!"Left: {left.name}, Right: {right.name}."
  | .unknownInputTypeCombinationBinary operator none right =>
      s!"Unknown input type combination for '{operator}'. Right: {right.name}."
  | .foundNoValue => "Found no value."
  | .callstackFoundNoValue callstack _ => s!"Callstack '{callstack}' found no value."
  | .groupNotEmpty group => s!"Group '{group}' is not empty."
  | .forStepVariableTypeMismatch variableName expected got =>
      s!"Loop variable '{variableName}' changed type. Expected {expected.name}, got {got.name}."
  | .forStepNoWorkShouldBeDone step start stop =>
      s!"For-loop does no work. Step: {Decimal.scalarText step}, " ++
        s!"From: {Decimal.scalarText start}, To: {Decimal.scalarText stop}."

end Fault

end SimScript
