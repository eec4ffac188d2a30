import LayeredConfig.OrderedMap

/-!
# File systems

A file system answers two questions: which file a path leads to, named by its canonical path, and
what that file holds. It holds finitely many files.
-/

namespace LayeredConfig

/-- Why a file cannot be opened or read. -/
inductive FileError
  | notFound
  | notDirectory
  | isDirectory
  | nameTooLong
  | nulInName
  | notUtf8
  /-- Any other failure, in the words of the system. -/
  | other (message : String)
deriving DecidableEq, Repr

/-- The text of a file error. -/
def FileError.message : FileError → String
  | .notFound => "No such file or directory (os error 2)"
  | .notDirectory => "Not a directory (os error 20)"
  | .isDirectory => "Is a directory (os error 21)"
  | .nameTooLong => "File name too long (os error 36)"
  | .nulInName => "file name contained an unexpected NUL byte"
  | .notUtf8 => "stream did not contain valid UTF-8"
  | .other message => message

/-- A file system with finitely many files. -/
structure FileSystem where
  /-- The canonical path of the file that a path leads to. -/
  canonicalize : String → Except FileError String
  /-- What reading gives at each canonical path. -/
  contents : OrderedMap (Except FileError String)

namespace FileSystem

/-- The text of the file at a canonical path. -/
def read (fs : FileSystem) (path : String) : Except FileError String :=
  (fs.contents.get? path).getD (.error .notFound)

/-- The canonical path and the text of the file that a path leads to. -/
def fetch (fs : FileSystem) (path : String) : Except FileError (String × String) := do
  let canonical ← fs.canonicalize path
  let text ← fs.read canonical
  .ok (canonical, text)

/-- The file system without any files. -/
def empty : FileSystem :=
  { canonicalize := fun _ => .error .notFound, contents := ∅ }

end FileSystem

end LayeredConfig
