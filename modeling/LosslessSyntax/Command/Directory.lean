/-!
# Directories

A directory holds files, and directories that hold nothing. `Directory.contents` looks up a path
from inside of it: a path is walked name by name, a dot stays in place, two dots lead out, and only
a directory can be walked through. Outside of the directory there are directories, but nothing to
read.
-/

namespace LosslessSyntax

/-- Why the bytes of a file cannot be had. -/
inductive FileFault
  | notFound
  | isDirectory
  | notDirectory
  | nameTooLong
  /-- Any other reason, in the words of the system. -/
  | other (reason : String)
deriving DecidableEq, Repr

/-- The wording of a reason. -/
def FileFault.message : FileFault → String
  | notFound => "No such file or directory (os error 2)"
  | isDirectory => "Is a directory (os error 21)"
  | notDirectory => "Not a directory (os error 20)"
  | nameTooLong => "File name too long (os error 36)"
  | other reason => reason

/-- What stands under a name in a directory. -/
inductive Entry
  | file (bytes : ByteArray)
  /-- A directory that holds nothing. -/
  | emptyDirectory

/-- A directory: the names in it, and what stands under them. -/
abbrev Directory := List (String × Entry)

namespace Directory

/-- Where a walk along a path can be. -/
inductive Place
  /-- In the directory itself. -/
  | top
  /-- Somewhere outside of it. -/
  | outside
  | entry (entry : Entry)

/-- The most bytes that a name can have. -/
def longestName : Nat := 255

/-- The most bytes that a path can have. -/
def longestPath : Nat := 4095

/-- One step of a walk. An empty name, as between two slashes, stays in place. -/
def step (directory : Directory) (place : Place) (name : String) : Except FileFault Place :=
  match place with
  | .entry (.file _) => .error .notDirectory
  | place =>
    if name = "" || name = "." then .ok place
    else if name = ".." then
      match place with
      | .entry _ => .ok .top
      | _ => .ok .outside
    else if longestName < name.utf8ByteSize then .error .nameTooLong
    else
      match place, directory.lookup name with
      | .top, some entry => .ok (.entry entry)
      | _, _ => .error .notFound

/-- The bytes of the file at a path. A path that begins with a slash begins outside. -/
def contents (directory : Directory) (path : String) : Except FileFault ByteArray :=
  if path = "" then .error .notFound
  else if longestPath < path.utf8ByteSize then .error .nameTooLong
  else do
    let start := if path.toList.head? = some '/' then Place.outside else .top
    match ← (path.splitOn "/").foldlM directory.step start with
    | .entry (.file bytes) => .ok bytes
    | _ => .error .isDirectory

end Directory

end LosslessSyntax
