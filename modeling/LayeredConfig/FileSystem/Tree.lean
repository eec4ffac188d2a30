import LayeredConfig.FileSystem.Basic
import LayeredConfig.FileSystem.Path

/-!
# Trees of directories

A directory tree as a file system. A path is followed one name at a time, from the root or from
the working directory; everything that is not the last name has to be a directory. There are no
links, so that `..` undoes the name before it.
-/

namespace LayeredConfig

/-- A file, or a directory with named entries. -/
inductive FileNode
  | file (content : ByteArray)
  | directory (entries : OrderedMap FileNode)

namespace FileNode

/-- The directory without entries. -/
def emptyDirectory : FileNode :=
  .directory ∅

/-- The node under a name, if this is a directory that has it. -/
def child? : FileNode → String → Option FileNode
  | .file _, _ => none
  | .directory entries, name => entries.get? name

/-- The node that some names lead to, one below the other. -/
def nodeAt? (root : FileNode) (names : List String) : Option FileNode :=
  names.foldlM child? root

/-- Whether the node is a directory. -/
def isDirectory : FileNode → Bool
  | .file _ => false
  | .directory _ => true

/-- Puts a node where some names lead to, and the missing directories above it. -/
def insert (root : FileNode) (names : List String) (node : FileNode) : FileNode :=
  match names with
  | [] => node
  | name :: names =>
    match root with
    | .file _ => .directory (.insert ∅ name (emptyDirectory.insert names node))
    | .directory entries =>
      let old := (entries.get? name).getD emptyDirectory
      .directory (entries.insert name (old.insert names node))

/-- What reading the node as a text gives. -/
def text : FileNode → Except FileError String
  | .directory _ => .error .isDirectory
  | .file content =>
    match String.fromUTF8? content with
    | some text => .ok text
    | none => .error .notUtf8

/-- The canonical path of the node that some names lead to from the root. -/
def pathOf (names : List String) : String :=
  "/" ++ "/".intercalate names

/-- One step along a path, taken from the node at `here`. -/
def step (root : FileNode) (here : List String) (name : String) :
    Except FileError (List String) :=
  match root.nodeAt? here with
  | some (.directory entries) =>
    if name = "" ∨ name = "." then .ok here
    else if name = ".." then .ok here.dropLast
    else if name.utf8ByteSize > 255 then .error .nameTooLong
    else if entries.contains name then .ok (here ++ [name])
    else .error .notFound
  | _ => .error .notDirectory

/-- Follows a path from the root, or from the directory `here` if it is relative. -/
def follow (root : FileNode) (here : List String) (path : String) :
    Except FileError (List String) :=
  if path.toList.contains '\x00' then .error .nulInName
  else if path.isEmpty then .error .notFound
  else
    let names := (Text.splitOn '/' path.toList).map String.ofList
    names.foldlM (step root) (if Path.isAbsolute path then [] else here)

mutual

/-- The canonical paths of all nodes below one, and their texts. -/
def texts (names : List String) : FileNode → List (String × Except FileError String)
  | .file content => [(pathOf names, text (.file content))]
  | .directory ⟨entries⟩ => (pathOf names, .error .isDirectory) :: textsOfEntries names entries

/-- The canonical paths of some entries of a directory and of the nodes below them. -/
def textsOfEntries (names : List String) :
    List (String × FileNode) → List (String × Except FileError String)
  | [] => []
  | (name, node) :: entries => texts (names ++ [name]) node ++ textsOfEntries names entries

end

/-- The file system of a directory tree, with `here` as the working directory. -/
def toFileSystem (root : FileNode) (here : List String) : FileSystem :=
  { canonicalize := fun path => (root.follow here path).map pathOf
    contents := .ofList (root.texts []) }

end FileNode

end LayeredConfig
