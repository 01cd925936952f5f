/-!
# Files by their paths

A working directory is known by the files below it.  `Directory.read` follows a path from there,
component by component; what lies outside the directory is not known, except that directories above
it exist.
-/

namespace StackScript.CommandLine

/-- Why a path leads to no file. -/
inductive PathFault where
  | missing
  /-- The path leads to a directory. -/
  | directory
  /-- The path goes on behind a file. -/
  | behindFile
  /-- The path or a component of it is too long. -/
  | tooLong
  /-- The path holds a NUL character. -/
  | malformed
deriving DecidableEq, Repr

/-- How many bytes a component may have. -/
def maxComponent : Nat := 255

/-- How many bytes a path may have. -/
def maxPath : Nat := 4095

/-- Where a path has led so far. -/
inductive Place where
  /-- A directory below the working directory, or that itself. -/
  | below (components : List String)
  /-- A directory elsewhere. -/
  | elsewhere
  | file (bytes : ByteArray)

/-- The files below a working directory, by the components of their paths. -/
structure Directory where
  files : List (List String × ByteArray)

namespace Directory

/-- The directory with files of the given names. -/
def ofFiles (files : List (String × ByteArray)) : Directory :=
  ⟨files.map fun (name, bytes) => (name.splitOn "/", bytes)⟩

/-- What stands at a place below the directory. -/
def find (d : Directory) (components : List String) : Except PathFault Place :=
  match d.files.lookup components with
  | some bytes => .ok (.file bytes)
  | none =>
    if d.files.any fun (path, _) => components.isPrefixOf path then .ok (.below components)
    else .error .missing

/-- Follow one component. -/
def follow (d : Directory) : Place → String → Except PathFault Place
  | .file _, _ => .error .behindFile
  | place, "" => .ok place
  | place, "." => .ok place
  | .elsewhere, ".." => .ok .elsewhere
  | .below components, ".." =>
    .ok (if components.isEmpty then .elsewhere else .below components.dropLast)
  | place, name =>
    if maxComponent < name.utf8ByteSize then .error .tooLong
    else
      match place with
      | .below components => d.find (components ++ [name])
      | _ => .error .missing

/-- The file at a path. -/
def read (d : Directory) (path : String) : Except PathFault ByteArray :=
  if path.toList.contains '\x00' then .error .malformed
  else if maxPath < path.utf8ByteSize then .error .tooLong
  else do
    let start := if path.toList.head? = some '/' then .elsewhere else .below []
    match ← (path.splitOn "/").foldlM d.follow start with
    | .file bytes => return bytes
    | _ => .error .directory

end Directory

end StackScript.CommandLine
