/-!
# Files and folders

* `FileTree`: a file with its content, or a folder with named entries.
* `FileTree.at?`: what stands at a path.
* `FileTree.content`: the content of the file at a path, or why there is none.
* `FileTree.put`: a tree with something put at a path.
-/

namespace RunAudit.Artifacts

/-- A file or a folder. -/
inductive FileTree where
  | file (content : List UInt8)
  | folder (entries : List (String × FileTree))

/-- A path: the names that lead to a place. -/
abbrev Path := List String

namespace FileTree

/-- The folder without entries. -/
def empty : FileTree := .folder []

/-- The entry of a folder with a name; a file has none. -/
def entry? (name : String) : FileTree → Option FileTree
  | file _ => none
  | folder entries => (entries.find? (·.1 == name)).map (·.2)

/-- What stands at a path. -/
def at? : FileTree → Path → Option FileTree
  | t, [] => some t
  | t, name :: path => (t.entry? name).bind (·.at? path)

/-- Whether a file stands at a path. -/
def isFile (t : FileTree) (path : Path) : Bool :=
  match t.at? path with
  | some (file _) => true
  | _ => false

/-- Whether a folder stands at a path. -/
def isFolder (t : FileTree) (path : Path) : Bool :=
  match t.at? path with
  | some (folder _) => true
  | _ => false

/-- Why there is no content at a path. -/
inductive Absence where
  | notFound
  /-- A folder stands there. -/
  | folder
  /-- The path leads through a file. -/
  | notAFolder
  deriving DecidableEq, Repr

/-- The content of the file at a path. -/
def content : FileTree → Path → Except Absence (List UInt8)
  | file bytes, [] => .ok bytes
  | folder _, [] => .error .folder
  | file _, _ :: _ => .error .notAFolder
  | folder entries, name :: path =>
    match entries.find? (·.1 == name) with
    | some (_, t) => t.content path
    | none => .error .notFound

/-- The tree that leads along a path to another. -/
def along (leaf : FileTree) : Path → FileTree
  | [] => leaf
  | name :: path => folder [(name, along leaf path)]

/-- A tree with another put at a path; folders on the way are made. What stands there already is
replaced by a file and kept by a folder. -/
def put (leaf : FileTree) : Path → FileTree → FileTree
  | [], t =>
    match leaf with
    | file _ => leaf
    | folder _ => t
  | name :: path, file _ => along leaf (name :: path)
  | name :: path, folder entries =>
    match entries.find? (·.1 == name) with
    | some (_, t) =>
      folder (entries.map fun (n, old) => if n == name then (n, put leaf path t) else (n, old))
    | none => folder (entries ++ [(name, along leaf path)])

end FileTree

end RunAudit.Artifacts
