import RunAudit.Artifacts.Tree
import RunAudit.Decimal.Digits
import RunAudit.Experiment.Source

/-!
# Artifacts in a directory

The artifacts of node `n` stand in a folder `node` with the number in three digits or more. Nodes
are numbered from zero without gaps. Any file may be missing; what is missing stays empty.

* `Directory.nodeFolder`: the name of the folder of a node.
* `Directory.discover`: a directory with as many nodes as it has folders without a gap.
* `Directory.source`: the artifacts of the nodes.
-/

namespace RunAudit.Artifacts

open Snapshot EventStream

/-- A directory with the artifacts of some nodes. -/
structure Directory where
  tree : FileTree
  root : Path
  nodeCount : Nat

namespace Directory

/-- The name of the folder of a node. -/
def nodeFolder (node : Nat) : String := "node" ++ Decimal.padded 3 node

/-- The path of the folder of a node. -/
def nodePath (d : Directory) (node : Nat) : Path := d.root ++ [nodeFolder node]

/-- A path as text. -/
def renderPath (path : Path) : String := String.intercalate "/" path

/-- The number of folders for nodes, from some number on, up to the first that is missing. A tree
has no more of them than the folder has entries. -/
def countFrom (tree : FileTree) (root : Path) (node : Nat) : (bound : Nat) → Nat
  | 0 => 0
  | bound + 1 =>
    if tree.isFolder (root ++ [nodeFolder node]) then countFrom tree root (node + 1) bound + 1
    else 0

/-- The number of entries of a folder. -/
def entryCount (tree : FileTree) (root : Path) : Nat :=
  match tree.at? root with
  | some (.folder entries) => entries.length
  | _ => 0

/-- The directory at a path, with the nodes that it has folders for; none if it is no directory. -/
def discover (tree : FileTree) (root : Path) : Option Directory :=
  if tree.isFolder root then
    some ⟨tree, root, countFrom tree root 0 (entryCount tree root)⟩
  else none

/-- The wording for a path that is no directory. -/
def discoverMessage (root : String) : String := root ++ " is not a directory"

/-- The content of a file that may be missing. -/
def optional (d : Directory) (path : Path) : Except Failure (Option (List UInt8)) :=
  match d.tree.content path with
  | .ok bytes => .ok (some bytes)
  | .error .notFound => .ok none
  | .error .folder => .error (.unreadable .folder)
  | .error .notAFolder => .error (.unreadable .notAFolder)

/-- The text of a file that may be missing. -/
def optionalText (d : Directory) (path : Path) : Except Failure (Option String) := do
  match ← d.optional path with
  | none => return none
  | some bytes =>
    match String.fromUTF8? ⟨bytes.toArray⟩ with
    | some text => return some text
    | none => throw (.unreadable .undecodable)

/-- The content of what is a file; anything else counts as missing. -/
def fileContent (d : Directory) (path : Path) : Option (List UInt8) :=
  (d.tree.content path).toOption

/-- The logs and metrics of a node. -/
def node (d : Directory) (wording : Wording) (node : Nat) : Except Failure Node :=
  let contents := fun name => d.fileContent (d.nodePath node ++ [name])
  Node.ofBytes wording (contents "swirlds.log") (contents "stats.csv") (contents "output.log")
    (contents "hapi-client.log")

/-- The event stream of a node; none if it has no folder for it. -/
def stream (d : Directory) (node : Nat) : Except Failure (Option StreamData) :=
  let folder := d.nodePath node ++ ["event-hash"]
  if d.tree.isFolder folder then do
    let finalHash ← d.optionalText (folder ++ ["final-hash.txt"])
    let fileHashes ← d.optionalText (folder ++ ["file-hashes.txt"])
    let sigFiles ← d.optionalText (folder ++ ["sig-files.txt"])
    let recovered ← d.optionalText (folder ++ ["recovered-match.txt"])
    return some (.ofTexts (finalHash.getD "") (fileHashes.getD "") (sigFiles.getD "") recovered)
  else .ok none

/-- The snapshots of all nodes, decoded after all have been read. -/
def maps (d : Directory) : Except Failure (List (Option ExpectedMap)) := do
  let snapshots ← (List.range d.nodeCount).mapM fun node =>
    d.optional (d.nodePath node ++ ["expected-map.borsh"])
  readSnapshots snapshots

/-- The artifacts of the nodes. -/
def source (d : Directory) (wording : Wording) : Source where
  nodeCount := d.nodeCount
  nodes := (List.range d.nodeCount).mapM (d.node wording)
  streams := (List.range d.nodeCount).mapM d.stream
  maps := d.maps
  wording

end Directory

end RunAudit.Artifacts
