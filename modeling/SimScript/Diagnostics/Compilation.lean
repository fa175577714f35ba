import SimScript.Diagnostics.Heading

/-!
# Messages of the compilation stages

Preprocessing, assembling, parsing and linting happen before code reaches the
machine, but their messages share its log and its space of codes.
-/

namespace SimScript

inductive PreprocessorMessage where
  | argCountMismatch
  | unexpectedDataAfterInclude
  | recursiveInclude (includeTree : String)
  | includeFailed (line reason : String)
  | macroDefinedTwice (macroName : String)
  | macroNotFound (macroName : String)
  | unexpectedIfdef
  | unexpectedIfndef
  | unexpectedElse
  | unexpectedEndif
  | missingEndif
  | unknownInstruction (instruction : String)
  | emptyArgument
  deriving DecidableEq

namespace PreprocessorMessage

def heading : PreprocessorMessage → Heading
  | .argCountMismatch => ⟨"ArgCountMismatch", .error, 10001⟩
  | .unexpectedDataAfterInclude => ⟨"UnexpectedDataAfterInclude", .warning, 10002⟩
  | .recursiveInclude _ => ⟨"RecursiveInclude", .error, 10003⟩
  | .includeFailed _ _ => ⟨"IncludeFailed", .error, 10004⟩
  | .macroDefinedTwice _ => ⟨"MacroDefinedTwice", .warning, 10005⟩
  | .macroNotFound _ => ⟨"MacroNotFound", .warning, 10006⟩
  | .unexpectedIfdef => ⟨"UnexpectedIfdef", .error, 10007⟩
  | .unexpectedIfndef => ⟨"UnexpectedIfndef", .error, 10008⟩
  | .unexpectedElse => ⟨"UnexpectedElse", .error, 10009⟩
  | .unexpectedEndif => ⟨"UnexpectedEndif", .error, 10010⟩
  | .missingEndif => ⟨"MissingEndif", .error, 10011⟩
  | .unknownInstruction _ => ⟨"UnknownInstruction", .error, 10012⟩
  | .emptyArgument => ⟨"EmptyArgument", .warning, 10013⟩

def text : PreprocessorMessage → String
  | .argCountMismatch => "Macro argument count does not match the definition."
  | .unexpectedDataAfterInclude => "Unexpected data after include path."
  | .recursiveInclude includeTree => s!"Recursive include detected. Include tree: {includeTree}"
  | .includeFailed line reason => s!"Failed to include '{line}': {reason}"
  | .macroDefinedTwice macroName => s!"Macro '{macroName}' defined twice."
  | .macroNotFound macroName => s!"Macro '{macroName}' not found."
  | .unexpectedIfdef => "Unexpected #ifdef."
  | .unexpectedIfndef => "Unexpected #ifndef."
  | .unexpectedElse => "Unexpected #else."
  | .unexpectedEndif => "Unexpected #endif."
  | .missingEndif => "Missing #endif."
  | .unknownInstruction instruction => s!"Unknown preprocessor instruction '{instruction}'."
  | .emptyArgument => "Empty macro argument."

end PreprocessorMessage

/-- What the assembler reports, and what the machine reports about operators it does not know. -/
inductive AssemblyMessage where
  | expectedSemicolon
  | noViableAlternativeInstructions
  | noViableAlternativeArg
  | expectedEndStatement
  | expectedCallNular
  | expectedNularOperator
  | unknownNularOperator (operator : String)
  | expectedCallUnary
  | expectedUnaryOperator
  | unknownUnaryOperator (operator : String)
  | expectedCallBinary
  | expectedBinaryOperator
  | unknownBinaryOperator (operator : String)
  | expectedAssignTo
  | expectedVariableName
  | expectedAssignToLocal
  | expectedGetVariable
  | expectedMakeArray
  | expectedInteger
  | expectedPush
  | expectedTypeName
  | numberOutOfRange
  deriving DecidableEq

namespace AssemblyMessage

def heading : AssemblyMessage → Heading
  | .expectedSemicolon => ⟨"ExpectedSemicolon", .error, 20001⟩
  | .noViableAlternativeInstructions => ⟨"NoViableAlternativeInstructions", .error, 20002⟩
  | .noViableAlternativeArg => ⟨"NoViableAlternativeArg", .error, 20003⟩
  | .expectedEndStatement => ⟨"ExpectedEndStatement", .error, 20004⟩
  | .expectedCallNular => ⟨"ExpectedCallNular", .error, 20005⟩
  | .expectedNularOperator => ⟨"ExpectedNularOperator", .error, 20006⟩
  | .unknownNularOperator _ => ⟨"UnknownNularOperator", .error, 20007⟩
  | .expectedCallUnary => ⟨"ExpectedCallUnary", .error, 20008⟩
  | .expectedUnaryOperator => ⟨"ExpectedUnaryOperator", .error, 20009⟩
  | .unknownUnaryOperator _ => ⟨"UnknownUnaryOperator", .error, 20010⟩
  | .expectedCallBinary => ⟨"ExpectedCallBinary", .error, 20011⟩
  | .expectedBinaryOperator => ⟨"ExpectedBinaryOperator", .error, 20012⟩
  | .unknownBinaryOperator _ => ⟨"UnknownBinaryOperator", .error, 20013⟩
  | .expectedAssignTo => ⟨"ExpectedAssignTo", .error, 20014⟩
  | .expectedVariableName => ⟨"ExpectedVariableName", .error, 20015⟩
  | .expectedAssignToLocal => ⟨"ExpectedAssignToLocal", .error, 20016⟩
  | .expectedGetVariable => ⟨"ExpectedGetVariable", .error, 20017⟩
  | .expectedMakeArray => ⟨"ExpectedMakeArray", .error, 20018⟩
  | .expectedInteger => ⟨"ExpectedInteger", .error, 20019⟩
  | .expectedPush => ⟨"ExpectedPush", .error, 20020⟩
  | .expectedTypeName => ⟨"ExpectedTypeName", .error, 20021⟩
  | .numberOutOfRange => ⟨"NumberOutOfRange", .warning, 20022⟩

def text : AssemblyMessage → String
  | .unknownNularOperator operator => s!"Unknown nular operator '{operator}'."
  | .unknownUnaryOperator operator => s!"Unknown unary operator '{operator}'."
  | .unknownBinaryOperator operator => s!"Unknown binary operator '{operator}'."
  | .numberOutOfRange => "Number out of range. Value was clamped."
  | .noViableAlternativeInstructions | .noViableAlternativeArg => "No viable alternative."
  | message => message.heading.sentence

end AssemblyMessage

inductive ScriptMessage where
  | expectedStatementTerminator
  | noViableAlternativeStatement
  | missingUnderscoreOnPrivateVariable (variableName : String)
  | expectedBinaryExpression
  | missingRightArgument (operator : String)
  | missingRoundClosingBracket
  | missingCurlyClosingBracket
  | missingSquareClosingBracket
  | noViableAlternativePrimaryExpression
  | emptyNumber
  | expectedScript
  | endOfFile
  deriving DecidableEq

namespace ScriptMessage

def heading : ScriptMessage → Heading
  | .expectedStatementTerminator => ⟨"ExpectedStatementTerminator", .error, 30001⟩
  | .noViableAlternativeStatement => ⟨"NoViableAlternativeStatement", .error, 30002⟩
  | .missingUnderscoreOnPrivateVariable _ =>
      ⟨"MissingUnderscoreOnPrivateVariable", .error, 30003⟩
  | .expectedBinaryExpression => ⟨"ExpectedBinaryExpression", .error, 30004⟩
  | .missingRightArgument _ => ⟨"MissingRightArgument", .error, 30005⟩
  | .missingRoundClosingBracket => ⟨"MissingRoundClosingBracket", .error, 30006⟩
  | .missingCurlyClosingBracket => ⟨"MissingCurlyClosingBracket", .error, 30007⟩
  | .missingSquareClosingBracket => ⟨"MissingSquareClosingBracket", .error, 30008⟩
  | .noViableAlternativePrimaryExpression =>
      ⟨"NoViableAlternativePrimaryExpression", .error, 30009⟩
  | .emptyNumber => ⟨"EmptyNumber", .error, 30010⟩
  | .expectedScript => ⟨"ExpectedScript", .error, 30011⟩
  | .endOfFile => ⟨"EndOfFile", .error, 30012⟩

def text : ScriptMessage → String
  | .missingUnderscoreOnPrivateVariable variableName =>
      s!"Private variable '{variableName}' is missing its leading underscore."
  | .missingRightArgument operator => s!"Missing right argument for operator '{operator}'."
  | .endOfFile => "Unexpected end of file."
  | message => message.heading.sentence

end ScriptMessage

inductive ConfigMessage where
  | expectedStatementTerminator
  | noViableAlternativeNode
  | expectedIdentifier
  | missingRoundClosingBracket
  | missingCurlyOpeningBracket
  | missingCurlyClosingBracket
  | missingSquareClosingBracket
  | missingEqualSign
  | expectedArray
  | expectedValue
  | noViableAlternativeValue
  | endOfFileNotReached
  deriving DecidableEq

namespace ConfigMessage

def heading : ConfigMessage → Heading
  | .expectedStatementTerminator => ⟨"ExpectedStatementTerminator", .error, 40001⟩
  | .noViableAlternativeNode => ⟨"NoViableAlternativeNode", .error, 40002⟩
  | .expectedIdentifier => ⟨"ExpectedIdentifier", .error, 40003⟩
  | .missingRoundClosingBracket => ⟨"MissingRoundClosingBracket", .error, 40004⟩
  | .missingCurlyOpeningBracket => ⟨"MissingCurlyOpeningBracket", .error, 40005⟩
  | .missingCurlyClosingBracket => ⟨"MissingCurlyClosingBracket", .error, 40006⟩
  | .missingSquareClosingBracket => ⟨"MissingSquareClosingBracket", .error, 40007⟩
  | .missingEqualSign => ⟨"MissingEqualSign", .error, 40008⟩
  | .expectedArray => ⟨"ExpectedArray", .error, 40009⟩
  | .expectedValue => ⟨"ExpectedValue", .error, 40010⟩
  | .noViableAlternativeValue => ⟨"NoViableAlternativeValue", .error, 40011⟩
  | .endOfFileNotReached => ⟨"EndOfFileNotReached", .error, 40012⟩

def text (message : ConfigMessage) : String :=
  message.heading.sentence

end ConfigMessage

inductive LintingMessage where
  | unassignedVariable (variableName : String)
  deriving DecidableEq

namespace LintingMessage

def heading : LintingMessage → Heading
  | .unassignedVariable _ => ⟨"UnassignedVariable", .warning, 50001⟩

def text : LintingMessage → String
  | .unassignedVariable variableName => s!"Variable '{variableName}' is read but never assigned."

end LintingMessage

end SimScript
