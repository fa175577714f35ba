/-!
# Paths

A path is kept as it is written, by the segments between its separators.  A segment
that is empty or a single dot leads nowhere, and two dots lead to the directory
above.
-/

namespace SimScript

/-- A path, by what stands between its separators. -/
structure FilePath where
  segments : List String
  deriving DecidableEq

namespace FilePath

def ofText (text : String) : FilePath :=
  ⟨text.splitOn "/"⟩

def text (path : FilePath) : String :=
  String.intercalate "/" path.segments

/-- Whether a path begins with a separator, and so at the root of the host. -/
def isAbsolute (path : FilePath) : Bool :=
  1 < path.segments.length && path.segments.head? == some ""

def isIdle (segment : String) : Bool :=
  segment == "" || segment == "."

def names (path : FilePath) : List String :=
  path.segments.filter fun segment => !isIdle segment

def trimEnd (segments : List String) : List String :=
  (segments.reverse.dropWhile isIdle).reverse

/-- A path without the segments at its two ends that lead nowhere; those inside are kept. -/
def trimmed (path : FilePath) : FilePath :=
  ⟨(trimEnd path.segments).dropWhile isIdle⟩

/-- A path without its last name.  Two dots count as a name, so that dropping them leads back down;
a path without names has no parent. -/
def parent? (path : FilePath) : Option FilePath :=
  let segments := trimEnd path.segments
  if segments.isEmpty then none else some ⟨trimEnd segments.dropLast⟩

/-- A path that is written behind a directory.  A separator at the end of the directory is used
again. -/
def join (directory path : FilePath) : FilePath :=
  if directory.segments.getLast? == some "" then
    ⟨directory.segments.dropLast ++ path.segments⟩
  else ⟨directory.segments ++ path.segments⟩

theorem length_trimEnd_le (segments : List String) :
    (trimEnd segments).length ≤ segments.length := by
  have shorter := (List.dropWhile_sublist isIdle : (segments.reverse.dropWhile isIdle).Sublist _)
  simpa [trimEnd] using shorter.length_le

theorem length_parent?_lt {path parent : FilePath} (found : path.parent? = some parent) :
    parent.segments.length < path.segments.length := by
  unfold parent? at found
  simp only [List.isEmpty_iff] at found
  split at found
  · simp at found
  · next nonempty =>
      obtain rfl := Option.some.inj found
      have trimmed := length_trimEnd_le path.segments
      have dropped := length_trimEnd_le (trimEnd path.segments).dropLast
      have positive := List.length_pos_iff.2 nonempty
      simp only [List.length_dropLast] at dropped
      show (trimEnd (trimEnd path.segments).dropLast).length < _
      omega

end FilePath

end SimScript
