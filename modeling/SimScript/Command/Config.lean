import SimScript.Command.Basic

/-!
# Commands on the config tree

Going down the tree by names, and reading what is found there.
-/

namespace SimScript.Command

def entryOf? (exec : Execution) (value : Value) : Option ConfigEntry :=
  match value with
  | .config ⟨some path⟩ => exec.world.configs.lookup? path
  | _ => none

/-- Goes down by one name.  The reference keeps the spelling of the tree; where there is no such
entry it is null. -/
def navigate (left right : Value) : Query := fun exec => do
  match left with
  | .config ⟨some path⟩ =>
      let longer := path ++ [right.content]
      match ← exec.world.configs.lookupChecked longer .weak with
      | none =>
          Report.note Fault.returningConfigNull
          reply (.config .null)
      | some _ =>
          reply (.config (.ofPath ((exec.world.configs.canonical? longer).getD [])))
  | _ => reply (.config .null)

def configType : ConfigValue → ValueType
  | .number _ => .scalar
  | .text _ => .string
  | .array _ => .array

/-- Reads a config value of a type.  Another kind of entry is reported; where nothing is found,
`notice` is, and the reply is `fallback`. -/
def readEntry (expected : ValueType) (notice : Fault) (fallback : Reply) (right : Value) : Query :=
  fun exec => do
    let missing : Report Reply := do
      Report.note notice
      return fallback
    match entryOf? exec right with
    | none => missing
    | some (.classOf _ _) =>
        Report.raise (Fault.typeMismatch [expected] .config .weak)
        missing
    | some (.value held) =>
        if configType held = expected then
          return .config held
        else
          Report.raise (Fault.typeMismatch [expected] (configType held) .weak)
          missing

def question (name : String) (holds : ConfigEntry → Bool) : Unary :=
  unary name .config fun right exec => reply (.boolean ((entryOf? exec right).any holds))

def valueQuestion (name : String) (type : ValueType) : Unary :=
  question name fun entry => entry.asValue?.any fun held => configType held = type

def config : CommandSet where
  nulars :=
    [nular "configFile" fun _ => reply (.config .root),
      nular "configNull" fun _ => reply (.config .null)]
  unaries :=
    [unary "getNumber" .config (readEntry .scalar .returningScalarZero (.value (.scalar 0))),
      unary "getText" .config (readEntry .string .returningEmptyString (.value (.text ""))),
      unary "getArray" .config (readEntry .array .returningEmptyArray (.array [])),
      question "isClass" fun entry => entry.asClass?.isSome,
      valueQuestion "isNumber" .scalar,
      valueQuestion "isText" .string,
      valueQuestion "isArray" .array,
      unary "configName" .config fun right _ =>
        match right with
        | .config ref => reply (.text ref.name)
        | _ => reply (.text "")]
  binaries :=
    [binary ">>" .config .string navigate,
      binary "/" .config .string navigate]

end SimScript.Command
