import RunAudit.Node
import RunAudit.EventStream.Data
import RunAudit.Snapshot.Wire

/-!
# Artifacts of an experiment

* `Source`: what the nodes of an experiment left behind, one item for each node. Each part is read
  on its own, and may fail on its own.
* `Source.ofContents`: a source from the contents of files.
-/

namespace RunAudit

open Snapshot EventStream

/-- What the nodes of an experiment left behind, in the order of the nodes. -/
structure Source where
  nodeCount : Nat
  nodes : Except Failure (List Node)
  streams : Except Failure (List (Option StreamData))
  maps : Except Failure (List (Option ExpectedMap))
  /-- How the errors of others are worded where these artifacts are checked. -/
  wording : Wording

/-- The contents of the files that make up a node. -/
structure NodeContents where
  log : Option (List UInt8) := none
  metrics : Option (List UInt8) := none
  stdout : Option (List UInt8) := none
  client : Option (List UInt8) := none

/-- The node of some contents. -/
def NodeContents.read (wording : Wording) (c : NodeContents) : Except Failure Node :=
  Node.ofBytes wording c.log c.metrics c.stdout c.client

/-- The expected maps of some snapshots. -/
def readSnapshots (snapshots : List (Option (List UInt8))) :
    Except Failure (List (Option ExpectedMap)) :=
  (decodeAll snapshots).mapError fun (node, reason) => .snapshot node { text := reason.message }

/-- The source of some contents. The number of nodes is that of the node contents. -/
def Source.ofContents (wording : Wording) (nodes : List NodeContents)
    (streams : List (Option StreamData)) (snapshots : List (Option (List UInt8))) : Source where
  nodeCount := nodes.length
  nodes := nodes.mapM (NodeContents.read wording)
  streams := .ok streams
  maps := readSnapshots snapshots
  wording

end RunAudit
