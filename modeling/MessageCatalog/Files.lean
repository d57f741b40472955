import MessageCatalog.ByteStream
import MessageCatalog.Separated
import MessageCatalog.Text.Utf8

set_option autoImplicit false

/-! # A directory of files

A `FileTree` is a directory with the files below it, held in memory. Subdirectories exist as far
as there are files in them. Paths are walked one component after another, and whatever is not the
last component has to be a directory, so `a/../b` is `b` only if there is a directory `a`.

A path may lead out of the tree, to a directory that the tree lies in or to the root of the file
system. Of what is there only the directories that every system has and the null device are known.
Files can be written there too, but they are not seen again.
-/

namespace MessageCatalog

/-- Why a file cannot be read or written. -/
inductive FileFault
  | missing
  | notDirectory
  | isDirectory
  | nameTooLong
  | nulInName
  deriving Repr, DecidableEq

namespace FileFault

/-- The wording of a fault, with the error number of the system. -/
def message : FileFault → String
  | missing => "No such file or directory (os error 2)"
  | notDirectory => "Not a directory (os error 20)"
  | isDirectory => "Is a directory (os error 21)"
  | nameTooLong => "File name too long (os error 36)"
  | nulInName => "file name contained an unexpected NUL byte"

/-- The fault as a failure to read. -/
def failure (f : FileFault) : ReadFailure := ⟨f = missing, f.message⟩

end FileFault

/-- A directory that a path leads through. -/
inductive Location
  /-- The tree itself or a directory below it. -/
  | inside (names : List String)
  /-- A directory that the tree lies in. -/
  | above
  /-- A directory reached from the root of the file system. -/
  | system (names : List String)
  deriving Repr, DecidableEq

namespace Location

/-- The directory that a directory lies in. The root lies in itself. -/
def parent : Location → Location
  | inside [] => above
  | inside names => inside names.dropLast
  | above => above
  | system names => system names.dropLast

/-- The directories below the root that every system has. -/
def systemDirectories : List String :=
  ["bin", "dev", "etc", "home", "lib", "opt", "proc", "root", "run", "sys", "tmp", "usr", "var"]

/-- The names that lead from the root to the file that is empty and swallows what is written. -/
def nullDevice : List String := ["dev", "null"]

end Location

/-- What a name in a directory stands for. -/
inductive Place
  | file (data : Bytes)
  | directory (location : Location)
  | nothing
  deriving Repr, DecidableEq

/-- A path taken apart: the directory in which its last component is looked up, that component, and
whether a slash comes after it. -/
structure Target where
  directory : Location
  name : String
  slash : Bool
  deriving Repr, DecidableEq

/-- A directory: its files, each with the names that lead to it. -/
structure FileTree where
  files : List (List String × Bytes)
  deriving Repr, DecidableEq

namespace FileTree

/-- The components of a path. -/
def components (path : String) : List String :=
  ((Separated.split '/' path.toList).map String.ofList).filter fun name => !name.isEmpty

/-- The tree with the given files. -/
def ofFiles (files : List (String × Bytes)) : FileTree :=
  ⟨files.map fun (path, data) => ((components path).filter (· != "."), data)⟩

/-- There is a directory below the tree. -/
def hasDirectory (t : FileTree) (names : List String) : Bool :=
  t.files.any fun (file, _) => names.isPrefixOf file && names != file

/-- What is in a directory under a name. -/
def entry (t : FileTree) (here : Location) (name : String) : Place :=
  match here with
  | .inside names =>
      let names := names ++ [name]
      if t.hasDirectory names then .directory (.inside names)
      else match t.files.lookup names with
        | some data => .file data
        | none => .nothing
  | .above => .nothing
  | .system names =>
      let names := names ++ [name]
      if Location.systemDirectories.any fun d => [d] = names then .directory (.system names)
      else if names = Location.nullDevice then .file []
      else .nothing

/-- What a component of a path leads to. -/
def step (t : FileTree) (here : Location) (name : String) : Except FileFault Place :=
  if name = "." then .ok (.directory here)
  else if name = ".." then .ok (.directory here.parent)
  else if 255 < (Utf8.encode name).length then .error .nameTooLong
  else .ok (t.entry here name)

/-- The directory that a component of a path leads to. -/
def enter (t : FileTree) (here : Location) (name : String) : Except FileFault Location := do
  match (← t.step here name) with
  | .directory location => return location
  | .file _ => throw .notDirectory
  | .nothing => throw .missing

/-- Walks along a path up to its last component. -/
def resolve (t : FileTree) (path : String) : Except FileFault Target := do
  if path.toList.contains '\x00' then throw .nulInName
  if path.isEmpty then throw .missing
  if 4096 ≤ (Utf8.encode path).length then throw .nameTooLong
  let names := components path
  let start := if path.startsWith "/" then Location.system [] else .inside []
  let directory ← names.dropLast.foldlM t.enter start
  -- A path without components is the root, which is the last component of nothing.
  return ⟨directory, names.getLast?.getD ".", path.endsWith "/"⟩

/-- Opens a file to read it. A directory can be opened, but reading it fails. -/
def open? (t : FileTree) (path : String) : Except FileFault ByteStream := do
  let target ← t.resolve path
  match (← t.step target.directory target.name) with
  | .nothing => throw .missing
  | .directory _ => return ⟨[], some FileFault.isDirectory.failure⟩
  | .file data => if target.slash then throw .notDirectory else return .ofBytes data

/-- The files with one more, or with one replaced. -/
def store (names : List String) (data : Bytes) :
    List (List String × Bytes) → List (List String × Bytes)
  | [] => [(names, data)]
  | file :: rest =>
      if file.1 = names then (names, data) :: rest else file :: store names data rest

/-- The tree with a file put into a directory. -/
def put (t : FileTree) (here : Location) (name : String) (data : Bytes) : FileTree :=
  match here with
  | .inside names => ⟨store (names ++ [name]) data t.files⟩
  | _ => t

/-- Writes a file, which need not exist before. -/
def write? (t : FileTree) (path : String) (data : Bytes) : Except FileFault FileTree := do
  let target ← t.resolve path
  -- Nothing but a directory can have a slash after its name, not even a file that is to be created.
  if target.slash then throw .isDirectory
  match (← t.step target.directory target.name) with
  | .directory _ => throw .isDirectory
  | _ => return t.put target.directory target.name data

/-- Opens a file to read it, with the fault as a failure to read. -/
def openFile (t : FileTree) (path : String) : Except ReadFailure ByteStream :=
  (t.open? path).mapError FileFault.failure

/-- Writes a file, with the fault as a failure to write. -/
def writeFile (t : FileTree) (path : String) (data : Bytes) : Except ReadFailure FileTree :=
  (t.write? path data).mapError FileFault.failure

/-- The path of a file. -/
def pathOf (names : List String) : String := "/".intercalate names

/-- The files of `t` that were not there before, or not with the same content. -/
def changes (t before : FileTree) : List (String × Bytes) :=
  (t.files.filter fun file => !before.files.contains file).map fun (names, data) =>
    (pathOf names, data)

end FileTree

end MessageCatalog
