import RunAudit.Snapshot.Entity

/-!
# Snapshots of expected maps

A snapshot is a count of entries in four bytes and then each entry, key before value. Whole
numbers have their least significant byte first. An enumeration is one byte, its tag; a flag is
one byte, 0 or 1; an optional part is a flag and then the part, if it is there. Entries may come in
any order and repeat a key; the last one of a key wins.

* `encode?`: the snapshot of a map; none if its entries cannot be counted in four bytes.
* `decode`: the map of a snapshot.
* `entries`: the entries of a snapshot in the order it lists them.
* `decodeAll`: the maps of several nodes, some of which may have no snapshot.
-/

namespace RunAudit.Snapshot

/-- Why bytes are no snapshot. -/
inductive WireError where
  /-- The bytes end too early. -/
  | truncated
  /-- Bytes are left over. -/
  | trailing
  | unknownTag (tag : UInt8)
  | notAFlag (byte : UInt8)
  | notAnOption (byte : UInt8)
  deriving DecidableEq, Repr

/-- The wording of an error. -/
def WireError.message : WireError → String
  | truncated => "Unexpected length of input"
  | trailing => "Not all bytes read"
  | unknownTag tag => "Unexpected variant index: " ++ toString tag
  | notAFlag byte => "Invalid bool representation: " ++ toString byte
  | notAnOption byte =>
    "Invalid Option representation: " ++ toString byte ++ ". The first byte must be 0 or 1"

/-- The bytes of a number, the least significant first. -/
def encodeNat : (width : Nat) → Nat → List UInt8
  | 0, _ => []
  | width + 1, n => .ofNat n :: encodeNat width (n / 256)

/-- The number of some bytes, the least significant first. -/
def decodeNat : List UInt8 → Nat
  | [] => 0
  | b :: rest => b.toNat + 256 * decodeNat rest

/-- Reads a part of a snapshot: the part and the bytes behind it. -/
abbrev Read (α : Type) := List UInt8 → Except WireError (α × List UInt8)

/-- The next bytes. -/
def readBytes (count : Nat) : Read (List UInt8) := fun bytes =>
  if bytes.length < count then .error .truncated
  else .ok (bytes.take count, bytes.drop count)

/-- The next byte. -/
def readByte : Read UInt8
  | [] => .error .truncated
  | b :: rest => .ok (b, rest)

/-- A whole number of eight bytes. -/
def readWord : Read UInt64 := fun bytes => do
  let (word, rest) ← readBytes 8 bytes
  return (.ofNat (decodeNat word), rest)

/-- A member of an enumeration, by its place. -/
def readTag {α : Type} (all : List α) : Read α := fun bytes => do
  let (tag, rest) ← readByte bytes
  match all[tag.toNat]? with
  | some a => return (a, rest)
  | none => throw (.unknownTag tag)

/-- A flag. -/
def readFlag : Read Bool := fun bytes => do
  let (byte, rest) ← readByte bytes
  if byte = 0 then return (false, rest)
  else if byte = 1 then return (true, rest)
  else throw (.notAFlag byte)

/-- A part that may be missing. -/
def readOption {α : Type} (read : Read α) : Read (Option α) := fun bytes => do
  let (byte, rest) ← readByte bytes
  if byte = 0 then return (none, rest)
  else if byte = 1 then
    let (a, rest) ← read rest
    return (some a, rest)
  else throw (.notAnOption byte)

/-- The key of an entry. -/
def readKey : Read EntityKey := fun bytes => do
  let (shard, bytes) ← readWord bytes
  let (realm, bytes) ← readWord bytes
  let (num, bytes) ← readWord bytes
  return (⟨shard, realm, num⟩, bytes)

/-- A status: the tag of its state and the tag of its type. -/
def readStatus : Read Status := fun bytes => do
  let (state, bytes) ← readTag TransactionState.all bytes
  let (type, bytes) ← readTag TransactionType.all bytes
  return (⟨state, type⟩, bytes)

/-- The thirty-two bytes of a digest. -/
def readHash : Read ContentHash := fun bytes =>
  if h : bytes.length < 32 then .error .truncated
  else .ok (⟨bytes.take 32, by simp; omega⟩, bytes.drop 32)

/-- The value of an entry. -/
def readValue : Read ExpectedValue := fun bytes => do
  let (entityType, bytes) ← readTag EntityType.all bytes
  let (isErrored, bytes) ← readFlag bytes
  let (hash, bytes) ← readOption readHash bytes
  let (submitted, bytes) ← readOption readStatus bytes
  let (handled, bytes) ← readOption readStatus bytes
  let (history, bytes) ← readOption readStatus bytes
  return ({ entityType, isErrored, hash, submitted, handled, history }, bytes)

/-- A number of entries. -/
def readEntries : Nat → Read (List (EntityKey × ExpectedValue))
  | 0, bytes => .ok ([], bytes)
  | count + 1, bytes => do
    let (key, bytes) ← readKey bytes
    let (value, bytes) ← readValue bytes
    let (later, bytes) ← readEntries count bytes
    return ((key, value) :: later, bytes)

/-- The entries that a snapshot lists, in its order. -/
def entries (bytes : List UInt8) : Except WireError (List (EntityKey × ExpectedValue)) := do
  let (count, bytes) ← readBytes 4 bytes
  let (listed, rest) ← readEntries (decodeNat count) bytes
  match rest with
  | [] => return listed
  | _ :: _ => throw .trailing

/-- The map of a snapshot. -/
def decode (bytes : List UInt8) : Except WireError ExpectedMap := Keyed.ofList <$> entries bytes

/-- The tag of a member of an enumeration, its place. -/
def tagOf {α : Type} [DecidableEq α] (all : List α) (a : α) : UInt8 := .ofNat (all.idxOf a)

/-- A part that may be missing. -/
def encodeOption {α : Type} (encode : α → List UInt8) : Option α → List UInt8
  | none => [0]
  | some a => 1 :: encode a

/-- The key of an entry. -/
def encodeKey (k : EntityKey) : List UInt8 :=
  encodeNat 8 k.shard.toNat ++ encodeNat 8 k.realm.toNat ++ encodeNat 8 k.num.toNat

/-- A status: the tag of its state and the tag of its type. -/
def encodeStatus (s : Status) : List UInt8 :=
  [tagOf TransactionState.all s.state, tagOf TransactionType.all s.type]

/-- The value of an entry. -/
def encodeValue (v : ExpectedValue) : List UInt8 :=
  tagOf EntityType.all v.entityType :: (if v.isErrored then 1 else 0)
    :: encodeOption ContentHash.bytes v.hash
    ++ encodeOption encodeStatus v.submitted
    ++ encodeOption encodeStatus v.handled
    ++ encodeOption encodeStatus v.history

/-- The snapshot of some entries. -/
def encodeEntries (listed : List (EntityKey × ExpectedValue)) : List UInt8 :=
  encodeNat 4 listed.length
    ++ listed.flatMap fun (key, value) => encodeKey key ++ encodeValue value

/-- The snapshot of a map, its entries in the order of their keys. -/
def encode? (m : ExpectedMap) : Option (List UInt8) :=
  if m.entries.length < UInt32.size then some (encodeEntries m.entries) else none

/-- The maps of all nodes, given the snapshots of those that have one. The first snapshot that does
not decode is the failure, with the node it belongs to. -/
def decodeAll (snapshots : List (Option (List UInt8))) :
    Except (Nat × WireError) (List (Option ExpectedMap)) :=
  go 0 snapshots
where
  /-- The maps of the nodes from one on. -/
  go (node : Nat) :
      List (Option (List UInt8)) → Except (Nat × WireError) (List (Option ExpectedMap))
    | [] => .ok []
    | none :: later => do return none :: (← go (node + 1) later)
    | some bytes :: later =>
      match decode bytes with
      | .error e => .error (node, e)
      | .ok m => do return some m :: (← go (node + 1) later)

end RunAudit.Snapshot
