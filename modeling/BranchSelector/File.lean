/-!
# Files as values

The library sees a file as its name and its content, which is a list of bytes or the
fault that kept it from being read. A text is read from the content as UTF-8, and
bytes that are not UTF-8 are a fault of their own.
-/

namespace BranchSelector

/-- Why a file cannot be read as a text. -/
inductive FileFault where
  | notFound
  | notUtf8
  /-- The system gives another reason. -/
  | refused (reason : String)
  deriving DecidableEq, Repr

def FileFault.message : FileFault → String
  | notFound => "No such file or directory (os error 2)"
  | notUtf8 => "stream did not contain valid UTF-8"
  | refused reason => reason

/-- What reading the bytes of a file comes to. -/
abbrev FileContent := Except FileFault (List UInt8)

/-- A file: its name and its content. -/
structure File where
  /-- The name under which the file is spoken of. -/
  name : String
  /-- The bytes, or the reason why there are none. -/
  content : FileContent

def decodeText (bytes : List UInt8) : Except FileFault String :=
  match String.fromUTF8? bytes.toByteArray with
  | some text => .ok text
  | none => .error .notUtf8

end BranchSelector
