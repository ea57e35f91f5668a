import RunAudit.Keyed
import RunAudit.Snapshot.Digest
import RunAudit.Text.Base64

/-!
# Entities of the test application

During a run the test application keeps a map on every node: for each entity that it created, the
last transaction it submitted and the last one it saw handled. Under a correct protocol the maps
of all nodes are equal, up to entities that were removed.

* `EntityKey`, `ExpectedValue`, `ExpectedMap`: the map and what is in it.
* `ExpectedValue.lastTransaction`: the type of the latest transaction known to be handled.
* `ExpectedValue.diagnosis`: why an errored entity is errored.
* `render`, `describe`: a value as reports name it, short and in full.
-/

namespace RunAudit.Snapshot

/-- The identifier of an entity. -/
structure EntityKey where
  shard : UInt64
  realm : UInt64
  num : UInt64
  deriving DecidableEq

namespace EntityKey

/-- The place of a key among all keys: by shard, then realm, then number. -/
def rank (k : EntityKey) : Nat :=
  (k.shard.toNat * UInt64.size + k.realm.toNat) * UInt64.size + k.num.toNat

/-- The place of a key tells it apart from all others. -/
theorem rank_injective {a b : EntityKey} (h : a.rank = b.rank) : a = b := by
  obtain ⟨sa, ra, na⟩ := a
  obtain ⟨sb, rb, nb⟩ := b
  have := ra.toNat_lt
  have := rb.toNat_lt
  have := na.toNat_lt
  have := nb.toNat_lt
  simp only [rank, UInt64.size] at h
  simp only [mk.injEq, ← UInt64.toNat_inj]
  omega

instance : KeyOrder EntityKey where
  lt a b := a.rank < b.rank
  decidableLT a b := inferInstanceAs (Decidable (a.rank < b.rank))
  lt_irrefl a := Nat.lt_irrefl a.rank
  lt_trans := Nat.lt_trans
  lt_total h h' := rank_injective (Nat.le_antisymm (Nat.not_lt.1 h') (Nat.not_lt.1 h))

/-- A key as reports write it. -/
def render (k : EntityKey) : String :=
  toString k.shard ++ "." ++ toString k.realm ++ "." ++ toString k.num

end EntityKey

/-- What kind of thing an entity is. -/
inductive EntityType where
  | crypto
  | file
  | blob
  | nft
  deriving DecidableEq, Repr

/-- How far a transaction got on its way from submission over consensus to being handled. -/
inductive TransactionState where
  | initialized
  | submitted
  | submissionFailed
  | handled
  | handleFailed
  | handleRejected
  | invalidSig
  | handleEntityTypeMismatch
  | reconnectOrigin
  deriving DecidableEq, Repr

/-- What a transaction does to its entity. -/
inductive TransactionType where
  | create
  | update
  | transfer
  | append
  | delete
  | expire
  deriving DecidableEq, Repr

/-- Every type of entity, in the order of their tags. -/
def EntityType.all : List EntityType := [.crypto, .file, .blob, .nft]

/-- Every state of a transaction, in the order of their tags. -/
def TransactionState.all : List TransactionState :=
  [.initialized, .submitted, .submissionFailed, .handled, .handleFailed, .handleRejected,
   .invalidSig, .handleEntityTypeMismatch, .reconnectOrigin]

/-- Every type of transaction, in the order of their tags. -/
def TransactionType.all : List TransactionType :=
  [.create, .update, .transfer, .append, .delete, .expire]

/-- The name of a type of entity. -/
def EntityType.name : EntityType → String
  | crypto => "Crypto"
  | file => "File"
  | blob => "Blob"
  | nft => "Nft"

/-- The name of a state. -/
def TransactionState.name : TransactionState → String
  | initialized => "Initialized"
  | submitted => "Submitted"
  | submissionFailed => "SubmissionFailed"
  | handled => "Handled"
  | handleFailed => "HandleFailed"
  | handleRejected => "HandleRejected"
  | invalidSig => "InvalidSig"
  | handleEntityTypeMismatch => "HandleEntityTypeMismatch"
  | reconnectOrigin => "ReconnectOrigin"

/-- The name of a type of transaction. -/
def TransactionType.name : TransactionType → String
  | create => "Create"
  | update => "Update"
  | transfer => "Transfer"
  | append => "Append"
  | delete => "Delete"
  | expire => "Expire"

/-- Whether a transaction takes its entity out of the map. -/
def TransactionType.removesEntity : TransactionType → Bool
  | delete | expire => true
  | _ => false

/-- A transaction of an entity and how far it got. -/
structure Status where
  state : TransactionState
  type : TransactionType
  deriving DecidableEq

/-- A status as reports write it. -/
def Status.render (s : Status) : String := s.state.name ++ "/" ++ s.type.name

/-- A status with its fields named. -/
def Status.describe (s : Status) : String :=
  "Status \x7b transaction_state: " ++ s.state.name ++ ", transaction_type: " ++ s.type.name
    ++ " \x7d"

/-- The digest of an entity's content. -/
structure ContentHash where
  bytes : List UInt8
  length_eq : bytes.length = 32
  deriving DecidableEq

namespace ContentHash

/-- The digest of a content. -/
def ofContent (content : List UInt8) : ContentHash :=
  ⟨Digest.sha256 content, Digest.length_sha256 content⟩

/-- The digest with the given bytes, if there are thirty-two. -/
def ofBytes? (bytes : List UInt8) : Option ContentHash :=
  if h : bytes.length = 32 then some ⟨bytes, h⟩ else none

/-- A digest as reports write it: the first seven characters in base 64. -/
def render (h : ContentHash) : String := .ofList ((Text.base64 h.bytes).take 7)

end ContentHash

/-- What a node expects an entity to look like. -/
structure ExpectedValue where
  entityType : EntityType
  isErrored : Bool := false
  hash : Option ContentHash := none
  /-- The last transaction that was submitted. -/
  submitted : Option Status := none
  /-- The last transaction that was handled. -/
  handled : Option Status := none
  /-- The one handled before it. -/
  history : Option Status := none
  deriving DecidableEq

/-- What a node expects of all entities. -/
abbrev ExpectedMap := Keyed EntityKey ExpectedValue

/-- An optional part of a value with its parts named. -/
def describeOption {α : Type} (describe : α → String) : Option α → String
  | none => "None"
  | some a => "Some(" ++ describe a ++ ")"

namespace ExpectedValue

/-- The type of the latest transaction known to be handled. -/
def lastTransaction (v : ExpectedValue) : Option TransactionType :=
  (v.handled.or v.history).map Status.type

/-- A value with its fields named. -/
def describe (v : ExpectedValue) : String :=
  "ExpectedValue \x7b entity_type: " ++ v.entityType.name
    ++ ", is_errored: " ++ toString v.isErrored
    ++ ", hash: " ++ describeOption ContentHash.render v.hash
    ++ ", latest_submit_status: " ++ describeOption Status.describe v.submitted
    ++ ", latest_handled_status: " ++ describeOption Status.describe v.handled
    ++ ", history_handled_status: " ++ describeOption Status.describe v.history ++ " \x7d"

/-- Why an errored entity is errored. What happened when its transaction was handled explains more
than what happened when it was submitted. -/
def diagnosis (v : ExpectedValue) : String :=
  match v.handled.map Status.state, v.submitted.map Status.state with
  | some .invalidSig, _ => "transaction had an invalid signature"
  | some .handleFailed, _ => "handling the transaction failed"
  | some .handleRejected, _ => "transaction was rejected but the entity was not deleted"
  | some .handleEntityTypeMismatch, _ => "transaction targeted an entity of another type"
  | _, some .submissionFailed => "transaction could not be submitted"
  | _, _ => "unknown cause"

end ExpectedValue

end RunAudit.Snapshot
