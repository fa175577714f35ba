import SimScript.Host.FilePath

/-!
# Files

A directory of the host as a value: files with their texts, and directories.
What lies outside of it cannot be reached.
-/

namespace SimScript

/-- Files with their texts, by the names that lead to them from the directory; an entry without a
text is a directory. -/
structure FileTree where
  entries : List (List String × Option String) := []

namespace FileTree

def isDirectory (files : FileTree) (names : List String) : Bool :=
  names.isEmpty || files.entries.any fun (other, content) =>
    (names == other && content.isNone) || (names.isPrefixOf other && names != other)

/-- The names that lead where segments lead from `walked`.  Every segment is a step from a
directory, also one that leads nowhere, and no step leads above the whole tree. -/
def walk? (files : FileTree) (walked : List String) : List String → Option (List String)
  | [] => some walked
  | segment :: rest =>
      if !files.isDirectory walked then none
      else if FilePath.isIdle segment then files.walk? walked rest
      else if segment == ".." then
        if walked.isEmpty then none else files.walk? walked.dropLast rest
      else files.walk? (walked ++ [segment]) rest

def resolve? (files : FileTree) (path : FilePath) : Option (List String) :=
  if path.isAbsolute then none else files.walk? [] path.segments

def contains (files : FileTree) (path : FilePath) : Bool :=
  (files.resolve? path).any fun names =>
    files.isDirectory names || files.entries.any fun (other, _) => names == other

def read? (files : FileTree) (path : FilePath) : Option String :=
  (files.resolve? path).bind fun names =>
    (files.entries.find? fun (other, content) => names == other && content.isSome).bind Prod.snd

end FileTree

end SimScript
