import SupraL1.Rest.Archive

/-!
# The ledger

What the archive is an archive of: blocks that have been executed, with their transactions in order
and what each of them came to. A transaction whose execution was put off has been executed in no block
yet. `Represents` says that the tables of an archive are those of a ledger.
-/

namespace Rest.Archive

open Consensus (Hash)
open Move (TxExecutionStatus)

variable (T : Types)

/-- What a finalized transaction came to. -/
structure Outcome where
  output : SerializedOutput T
  status : TxExecutionStatus
  notPending : status ≠ .pending
  notDeferred : status ≠ .pendingAfterExecution

structure ExecutedBlock where
  header : BlockHeaderInfo T
  metadata : Option (Hash × Outcome T)
  users : List (Hash × SmrTransaction T × Outcome T)
  automated : List (AutomatedTransactionMeta × AutomationTask T × Outcome T)

structure Ledger where
  blocks : List (ExecutedBlock T)
  /-- transactions whose execution was put off -/
  deferred : List (Hash × SmrTransaction T)

variable {T}

namespace ExecutedBlock

variable (b : ExecutedBlock T)

/-- The hashes of the block's transactions of a type. -/
def hashesOf : TransactionType → List Hash
  | .metadata => (b.metadata.map Prod.fst).toList
  | .user => b.users.map Prod.fst
  | .auto => b.automated.map (·.1.hash)

/-- Those of them that a query asks for. -/
def askedOf (txnType : Option TransactionType) (type : TransactionType) : List Hash :=
  if asks txnType type then b.hashesOf type else []

/-- The hashes that a query asks for. -/
def hashes (txnType : Option TransactionType) : List Hash :=
  b.askedOf txnType .metadata ++ b.askedOf txnType .user ++ b.askedOf txnType .auto

/-- Every transaction of the block with its outcome. -/
def outcomes : List (Hash × Outcome T) :=
  b.metadata.toList ++ b.users.map (fun u => (u.1, u.2.2)) ++
    b.automated.map fun a => (a.1.hash, a.2.2)

end ExecutedBlock

/-- The tables of the archive are those of the ledger. -/
structure Represents (A : ArchiveReader T) (L : Ledger T) : Prop where
  headerByHeight : ∀ b ∈ L.blocks, A.getBlockHeaderInfoByHeight b.header.height = .ok (some b.header)
  noHeaderByHeight : ∀ h, (∀ b ∈ L.blocks, b.header.height ≠ h) →
    A.getBlockHeaderInfoByHeight h = .ok none
  header : ∀ b ∈ L.blocks, A.getBlockHeaderInfo b.header.hash = .ok (some b.header)
  txs : ∀ b ∈ L.blocks, A.getTxsByBlockHeight b.header.height = .ok (b.hashesOf .user)
  automatedTxs : ∀ b ∈ L.blocks, A.getAutomatedTxsByBlockHeight b.header.height = .ok (b.hashesOf .auto)
  metadataHash : ∀ b ∈ L.blocks,
    A.getBlockMetadataHashByBlockHeight b.header.height = .ok (b.metadata.map Prod.fst)
  status : ∀ b ∈ L.blocks, ∀ o ∈ b.outcomes, A.getTransactionStatus o.1 = .ok (some o.2.status)
  output : ∀ b ∈ L.blocks, ∀ o ∈ b.outcomes, A.getTxnOutput o.1 = .ok (some o.2.output)
  blockHash : ∀ b ∈ L.blocks, ∀ o ∈ b.outcomes, A.getBlockHashByTxnHash o.1 = .ok (some b.header.hash)
  user : ∀ b ∈ L.blocks, ∀ u ∈ b.users, A.getTransaction u.1 = .ok (some u.2.1)
  automated : ∀ b ∈ L.blocks, ∀ a ∈ b.automated,
    A.getAutomatedTransactionData a.1.hash = .ok (some (a.1, a.2.1))
  metadata : ∀ b ∈ L.blocks, ∀ h ∈ b.hashesOf .metadata, A.isBlockMetadataHash h = .ok true
  deferred : ∀ d ∈ L.deferred, A.getTransaction d.1 = .ok (some d.2) ∧
    A.getTransactionStatus d.1 = .ok (some .pendingAfterExecution)
  onlyUsers : ∀ h, (∀ b ∈ L.blocks, h ∉ b.hashesOf .user) → h ∉ L.deferred.map Prod.fst →
    A.getTransaction h = .ok none
  onlyAutomated : ∀ h, (∀ b ∈ L.blocks, h ∉ b.hashesOf .auto) →
    A.getAutomatedTransactionData h = .ok none
  onlyMetadata : ∀ h, (∀ b ∈ L.blocks, h ∉ b.hashesOf .metadata) → A.isBlockMetadataHash h = .ok false

/-- The converter can convert what is in the ledger. -/
structure Convertible (E : Env T) (L : Ledger T) : Prop where
  user : ∀ b ∈ L.blocks, ∀ u ∈ b.users, ∃ info, createTransactionInfo E u.1 u.2.1 (some u.2.2.output)
    u.2.2.status none = .ok info
  automated : ∀ b ∈ L.blocks, ∀ a ∈ b.automated, ∃ info, createAutomatedTransactionInfo E a.1 a.2.1
    (some a.2.2.output) a.2.2.status none = .ok info
  metadata : ∀ b ∈ L.blocks, ∀ m ∈ b.metadata, ∃ output, apiMoveTransactionOutput E (some m.2.output) =
    .ok (some output)

end Rest.Archive
