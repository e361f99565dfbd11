import EvmListing.Text.Utf8

/-! Files as a run sees them: a path leads to the bytes of a regular file or to a reason why not. -/
namespace EvmListing

inductive FileFault where
  | notFound
  | notDirectory
  | isDirectory
  | nameTooLong
  | notUtf8
  deriving DecidableEq, Repr

def FileFault.message : FileFault → String
  | notFound => "No such file or directory (os error 2)"
  | notDirectory => "Not a directory (os error 20)"
  | isDirectory => "Is a directory (os error 21)"
  | nameTooLong => "File name too long (os error 36)"
  | notUtf8 => "stream did not contain valid UTF-8"

abbrev Files := String → Except FileFault Bytes

namespace Files

/-- The text of a file. -/
def readText (files : Files) (path : String) : Except FileFault String :=
  match files path with
  | .error fault => .error fault
  | .ok content =>
    match Utf8.decode? content with
    | some text => .ok (String.ofList text)
    | none => .error .notUtf8

end Files
end EvmListing
