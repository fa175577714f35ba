import SimScript.Text.Utf8

/-!
# The output buffer of extensions

An extension answers by writing text into a buffer of fixed size and ending it
with a zero byte.  Text that does not fit is cut between two bytes.
-/

namespace SimScript.Extension

abbrev Buffer := List UInt8

/-- Puts bytes at the start of a buffer, as far as they fit. -/
def overwrite (bytes buffer : List UInt8) : Buffer :=
  bytes.take buffer.length ++ buffer.drop bytes.length

/-- Writes a text and its ending zero; a buffer without room stays as it is. -/
def writeOutput (buffer : Buffer) (text : String) : Buffer :=
  match buffer.length with
  | 0 => buffer
  | room + 1 => overwrite ((Text.encode text).take room ++ [0]) buffer

/-- The text up to the first zero byte, and whether there was one. -/
def readOutput (buffer : Buffer) : String × Bool :=
  (Text.decode (buffer.takeWhile fun byte => byte != 0), buffer.contains 0)

end SimScript.Extension
