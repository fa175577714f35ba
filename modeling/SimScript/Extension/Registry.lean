import SimScript.Extension.Buffer
import SimScript.Work

/-!
# Extensions

An extension is a library of the host that scripts call by name.  What a library answers
may depend on everything it was asked before.  It may also fail, and such a failure is
contained, unless it fails once more while it is thrown away.  The loader that finds the
libraries may fail too, and its failures are not contained: they end the call of the
registry and go on to whoever made it.
-/

namespace SimScript.Extension

inductive Request where
  | version
  | call (function : String)
  | callArgs (function : String) (args : List String)
  deriving DecidableEq

inductive Answer (failure : Type) where
  /-- It fills the buffer, with a code where it was asked with arguments. -/
  | wrote (buffer : Buffer) (code : Int)
  /-- It fails, with or without a text. -/
  | failed (what : Option String)
  /-- It fails, and its failure fails while it is thrown away. -/
  | escaped (what : failure)

/-- A library: what it answers to a request, after earlier requests, for a zeroed buffer of some
size. -/
abbrev Library (failure : Type) :=
  (earlier : List Request) → Request → (size : Nat) → Answer failure

/-- What a loader does. -/
inductive Found (failure : Type) where
  | library (library : Library failure)
  | missing
  | failed (what : failure)

/-- Finds libraries by name; what it answers may depend on the names it was asked for before. -/
abbrev Loader (failure : Type) := (earlier : List String) → String → Found failure

structure Loaded (failure : Type) where
  name : String
  library : Library failure
  version : String
  /-- What it was asked so far. -/
  requests : List Request

/-- The libraries in use, and where to find more. -/
structure Registry (failure : Type) where
  bufferSize : Nat := 1
  loader : Option (Loader failure) := none
  /-- The names that the loader was asked for so far. -/
  asked : List String := []
  loaded : List (Loaded failure) := []

/-- Work on a registry that a failure of the host may end. -/
abbrev Exchange (failure : Type) :=
  ExceptT failure (Work (Registry failure))

/-- The text for a failure that came without one. -/
def unknownFailure : String := "unknown panic"

def fit (size : Nat) (buffer : Buffer) : Buffer :=
  overwrite buffer (List.replicate size 0)

namespace Registry

variable {failure : Type}

/-- A registry without libraries; the buffer has at least one byte. -/
def ofBufferSize (size : Nat) : Registry failure :=
  { bufferSize := max size 1 }

def setLoader (registry : Registry failure) (loader : Loader failure) : Registry failure :=
  { registry with loader := some loader, asked := [] }

def get? (registry : Registry failure) (name : String) : Option (Loaded failure) :=
  registry.loaded.find? fun loaded => loaded.name = name

/-- Asks the loader for a library; without a loader there is none. -/
def ask (registry : Registry failure) (name : String) : Found failure × Registry failure :=
  match registry.loader with
  | none => (.missing, registry)
  | some loader =>
      (loader registry.asked name, { registry with asked := registry.asked ++ [name] })

def namesPath (name : String) : Bool :=
  name.toList.any fun char => char = '/' || char = '\\'

/-- Makes a library available, and tells whether it is. -/
def load (name : String) : Exchange failure Bool := do
  if ((← get).get? name).isSome then
    return true
  if namesPath name then
    Report.raise (Fault.libraryNameContainsPath name)
  match ← modifyGet fun registry => registry.ask name with
  | .failed what => throw what
  | .missing =>
      Report.raise (Fault.fileNotFound name)
      return false
  | .library library =>
      let size := (← get).bufferSize
      match library [] .version size with
      | .escaped what => throw what
      | .failed what =>
          Report.raise (Fault.extensionRuntimeError name (what.getD unknownFailure))
          return false
      | .wrote buffer _ =>
          let (version, terminated) := readOutput (fit size buffer)
          if !terminated then
            Report.raise (Fault.extensionNotTerminatingVersionString name)
          Report.note (Fault.extensionLoaded name version)
          modify fun registry =>
            { registry with
              loaded := registry.loaded ++ [{ name, library, version, requests := [.version] }] }
          return true

def recordRequest (registry : Registry failure) (name : String) (request : Request) :
    Registry failure :=
  { registry with
    loaded := registry.loaded.map fun loaded =>
      if loaded.name = name then { loaded with requests := loaded.requests ++ [request] }
      else loaded }

/-- Asks a library, which is loaded first where needed.  A library that is not there or fails
answers nothing, with code 0; `unterminated` is what is reported of a buffer without a zero. -/
def request (name : String) (request : Request) (unterminated : Fault) :
    Exchange failure (String × Int) := do
  if !(← load name) then
    return ("", 0)
  match (← get).get? name with
  | none => return ("", 0)
  | some loaded =>
      modify fun registry => registry.recordRequest name request
      let size := (← get).bufferSize
      match loaded.library loaded.requests request size with
      | .escaped what => throw what
      | .failed what =>
          Report.raise (Fault.extensionRuntimeError name (what.getD unknownFailure))
          return ("", 0)
      | .wrote buffer code =>
          let (text, terminated) := readOutput (fit size buffer)
          if !terminated then
            Report.raise unterminated
          return (text, code)

def call (name function : String) : Exchange failure String := do
  let (text, _) ← request name (.call function)
    (.extensionNotTerminatingCallExtensionBufferString name)
  return text

def callArgs (name function : String) (args : List String) : Exchange failure (String × Int) :=
  request name (.callArgs function args)
    (.extensionNotTerminatingCallExtensionArgBufferString name)

end Registry

end SimScript.Extension
