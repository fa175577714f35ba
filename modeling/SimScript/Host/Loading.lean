import SimScript.Config.Loader
import SimScript.Host.Files
import SimScript.Host.Settings
import SimScript.Machine.Basic

/-!
# Loading settings and config trees

Settings are looked for in a directory and in those above it.  A config tree that
they name is looked for beside them.
-/

namespace SimScript

inductive HostError where
  /-- A file cannot be read. -/
  | unreadable
  /-- A settings file makes no sense. -/
  | settings
  /-- There is no settings file. -/
  | settingsNotFound
  /-- A config tree is no JSON document. -/
  | json
  | configTree (error : ConfigLoadError)
  | machine (error : MachineError)

def HostError.message? : HostError → Option String
  | .configTree error => some error.message
  | .machine error => some s!"VM error: {error.message}"
  | .unreadable | .settings | .settingsNotFound | .json => none

namespace ConfigTree

def ofText (text : String) : Except HostError ConfigTree :=
  match Json.parse? text with
  | none => .error .json
  | some json => (ofJson json).mapError .configTree

def ofFile (files : FileTree) (path : FilePath) : Except HostError ConfigTree :=
  match files.read? path with
  | none => .error .unreadable
  | some text => ofText text

end ConfigTree

namespace HostSettings

def ofText (application : Application) (text : String) : Except HostError HostSettings :=
  match ofToml? application text with
  | some settings => .ok settings
  | none => .error .settings

/-- Puts the file of the config tree into a directory, unless its path is absolute. -/
def placeIn (directory : FilePath) (settings : HostSettings) : HostSettings :=
  { settings with
    configTree := settings.configTree.map fun tree =>
      match tree with
      | .placed path => .placed path
      | .named text =>
          let path := FilePath.ofText text
          if path.isAbsolute then .named text else .placed (directory.join path) }

def ofFile (application : Application) (files : FileTree) (path : FilePath) :
    Except HostError HostSettings :=
  match files.read? path with
  | none => .error .unreadable
  | some text => (ofText application text).map fun settings =>
      match path.parent? with
      | some directory => settings.placeIn directory
      | none => settings

/-- Looks for a settings file in a directory, and then in its parents as its path names them.  Gives
the directory where it is too. -/
def findFrom (application : Application) (files : FileTree) (directory : FilePath) :
    Except HostError (HostSettings × FilePath) :=
  let candidate := directory.join (.ofText application.settingsFile)
  if files.contains candidate then
    (ofFile application files candidate).map fun settings => (settings, directory.trimmed)
  else
    match _found : directory.parent? with
    | some parent => findFrom application files parent
    | none => .error .settingsNotFound
termination_by directory.segments.length
decreasing_by exact FilePath.length_parent?_lt _found

/-- Looks for a settings file in a directory and in those above it.  Outside of the host's files
there is none. -/
def find (application : Application) (files : FileTree) (start : FilePath) :
    Except HostError (HostSettings × FilePath) :=
  if start.isAbsolute then .error .settingsNotFound else findFrom application files start

end HostSettings

end SimScript
