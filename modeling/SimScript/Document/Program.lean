import SimScript.Decimal.Reader
import SimScript.Json.Basic
import SimScript.Store.Basic

/-!
# Programs from documents

The JSON form in which values and code enter the machine.  Code is a list of
instructions, each a list of a word and its arguments; arrays and code inside it
become new cells and blocks of the store.
-/

namespace SimScript.Document

/-- What a document leaves open: the source text that its code comes from, and the objects that it
names. -/
structure Context where
  path : String
  objects : List (String × ObjectRef) := []

/-- Reads into the store; there is no answer where the document makes no sense. -/
abbrev Reader := StateT Store Option

/-- Reads a number, or an object with the decimal text of one. -/
def readScalar? (json : Json) : Option Float :=
  match json with
  | .object [("n", .string text)] => Decimal.readScalar? text
  | _ => json.asScalar?

def readTexts? (json : Json) : Option (List String) :=
  json.asArray?.bind fun items => items.mapM Json.asString?

def readKind? : String → Option ObjectKind
  | "Unit" => some .unit
  | "Vehicle" => some .vehicle
  | "Group" => some .group
  | "Marker" => some .marker
  | _ => none

def readSide? : String → Option Side
  | "West" => some .west
  | "East" => some .east
  | "Independent" => some .independent
  | "Civilian" => some .civilian
  | "Unknown" => some .unknown
  | _ => none

/-- Reads the values that have a tag and hold neither arrays nor code. -/
def readTagged? (context : Context) (tag : String) (held : Json) : Option Value :=
  match tag, held with
  | "n", .string text => (Decimal.readScalar? text).map .scalar
  | "script", .null => some (.script none)
  | "script", id => id.asNat?.map fun id => .script (some id)
  | "side", .string word => (readSide? word).map .side
  | "null", .string word => (readKind? word).map fun kind => .object { kind }
  | "object", .string name => (context.objects.lookup name).map .object
  | "config", .null => some (.config .null)
  | "config", path => (readTexts? path).map fun path => .config (.ofPath path)
  | "if", .bool condition => some (.ifPart condition)
  | "for", .array [.string variableName, start, stop, step] => do
      return .forPart ⟨variableName, ← readScalar? start, ← readScalar? stop, ← readScalar? step⟩
  | _, _ => none

def readNamed? : String → Option (String → Op)
  | "get" => some .getVariable
  | "assign" => some .assignTo
  | "local" => some .assignToLocal
  | "nular" => some .callNular
  | "unary" => some .callUnary
  | "binary" => some .callBinary
  | _ => none

def readPlainOp? (builder : CodeBuilder) : List Json → Option CodeBuilder
  | [.string "end"] => some (builder.add .endStatement)
  | [.string "array", size] => size.asNat?.map fun size => builder.add (.makeArray size)
  | [.string word, .string name] => (readNamed? word).map fun op => builder.add (op name)
  | [.string "at", line, column] => do
      return builder.moveTo (← line.asNat?) (← column.asNat?)
  | _ => none

def readStart (context : Context) (members : List (String × Json)) : CodeBuilder :=
  let path := ((members.lookup "path").bind Json.asString?).getD context.path
  let builder : CodeBuilder := { path }
  match members.lookup "at" with
  | some (.array [.integer line, .integer column]) => builder.moveTo line.toNat column.toNat
  | _ => builder

mutual

def readValue (context : Context) : Json → Reader Value
  | .null => pure .nil
  | .bool flag => pure (.boolean flag)
  | .integer number => liftM (readScalar? (.integer number) |>.map Value.scalar)
  | .decimal number => pure (.scalar number)
  | .string content => pure (.text content)
  | .array items => do
      let values ← readValues context items
      modifyGet fun store => store.newArray values.toArray
  | .object [(tag, held)] => do
      match tag with
      | "code" =>
          let code ← readCode context held
          return .code (← modifyGet fun store => store.newBlock code)
      | "while" =>
          let code ← readCode context held
          return .whilePart (← modifyGet fun store => store.newBlock code)
      | _ => liftM (readTagged? context tag held)
  | .object _ => failure
termination_by json => sizeOf json

def readValues (context : Context) : List Json → Reader (List Value)
  | [] => pure []
  | item :: items => do
      let value ← readValue context item
      let values ← readValues context items
      return value :: values
termination_by items => sizeOf items

/-- Reads code: a list of instructions, or an object that holds one and says where it begins. -/
def readCode (context : Context) : Json → Reader CodeBlock
  | .array items => do
      let built ← readOps context { path := context.path } items
      return built.build
  | .object members => do
      let built ← readCodeMembers context (readStart context members) members
      return built.build
  | _ => failure
termination_by json => sizeOf json

def readCodeMembers (context : Context) (builder : CodeBuilder) :
    List (String × Json) → Reader CodeBuilder
  | [] => pure builder
  | (key, .array items) :: members =>
      if key = "ops" then readOps context builder items
      else readCodeMembers context builder members
  | (_, _) :: members => readCodeMembers context builder members
termination_by members => sizeOf members

def readOps (context : Context) (builder : CodeBuilder) : List Json → Reader CodeBuilder
  | [] => pure builder
  | .array [.string "push", held] :: items => do
      let value ← readValue context held
      readOps context (builder.add (.push value)) items
  | .array parts :: items => do
      let added ← liftM (readPlainOp? builder parts)
      readOps context added items
  | _ :: _ => failure
termination_by items => sizeOf items

end

end SimScript.Document
