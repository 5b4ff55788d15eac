import SupraL1.Lib.Pool
import SupraL1.MoveCore

/-!
# The storage of transactions (`rpc_storage.rs`) and the lookup of one (`rest/api_server_state.rs`)

A submitted transaction is in the backlog, in memory, until a block with it has been executed; then
it is in the archive. The two stores are read and written on their own: `insert_executed_block`
takes the write lock of the backlog twice and then writes to the archive, and a lookup reads the
backlog and then the archive, first for the transaction and then for its status. Each of these is an
atomic step of a process.

The backlog (`mempool`) and the archive are crates below; `Env` has what is used of them.
-/

namespace Rest.Storage

open Consensus (Hash)
open Move (TxExecutionStatus)

/-- `ExecutedBlock`, with what the storage reads of it. -/
structure ExecutedBlock (T : Type) where
  timestamp : Nat
  /-- `transactions_and_outputs_iter`, without the outputs -/
  transactions : List T
  deriving DecidableEq, Repr

/-- The variants of `ApiServerError` that a lookup can give. -/
inductive ApiServerError where
  /-- "Cannot find transaction {0}" -/
  | transactionNotFound (hash : Hash)
  /-- "Missing the execution status for transaction {0}" -/
  | missingTransactionStatus (hash : Hash)
  | archiveError (message : String)
  | other (message : String)
  deriving DecidableEq, Repr

/-- The crates below: transactions `T`, states `B` of the backlog and `A` of the archive, outputs
`O`, block headers `N`, and the answers `I` of the API. -/
structure Env (T B A O N I : Type) where
  digest : T → Hash
  expirationTimestamp : T → Nat
  /-- `Backlog::get_by_index` with the hash index -/
  getByHash : B → Hash → Option T
  /-- `Backlog::insert` -/
  insert : B → T → Except String B
  /-- `Backlog::finalize` -/
  finalize : B → T → B
  /-- `Backlog::expire` -/
  expire : B → Nat → B
  /-- `ArchiveReader::get_transaction` -/
  getTransaction : A → Hash → Option T
  /-- `ArchiveReader::get_transaction_status` -/
  getTransactionStatus : A → Hash → Option TxExecutionStatus
  /-- `ArchiveReader::get_txn_output` -/
  getTxnOutput : A → Hash → Option O
  /-- `ArchiveReader::get_block_hash_by_txn_hash` -/
  getBlockHashByTxnHash : A → Hash → Option Hash
  /-- `ArchiveReader::get_block_header_info` -/
  getBlockHeaderInfo : A → Hash → Option N
  /-- `ArchiveDb::insert_executed_block` -/
  insertExecutedBlock : A → ExecutedBlock T → A
  /-- `create_transaction_info` -/
  createTransactionInfo : Hash → T → Option O → TxExecutionStatus → Option N → Except String I

/-- `RpcStorage`. -/
structure RpcStorage (B A : Type) where
  backlog : B
  archive : A

inductive Request (T : Type) where
  /-- `get_transient_transaction_by_hash_internal`, with block data -/
  | lookup (hash : Hash)
  | consume (txn : T)
  | insertExecutedBlock (block : ExecutedBlock T)

/-- A call, by what it does next. -/
inductive Process (T O I : Type) where
  /-- `get_transaction_by_hash` reads the backlog. -/
  | lookup (hash : Hash)
  /-- `get_transaction_by_hash` reads the archive. -/
  | lookupArchived (hash : Hash)
  /-- `get_transaction_status` reads the backlog. -/
  | status (hash : Hash) (txn : T)
  /-- `get_transaction_status` reads the archive. -/
  | statusArchived (hash : Hash) (txn : T)
  /-- `get_finalized_transaction_output_and_block_info` reads the output. -/
  | output (hash : Hash) (txn : T) (status : TxExecutionStatus)
  /-- It reads the hash of the block. -/
  | blockHash (hash : Hash) (txn : T) (status : TxExecutionStatus) (output : Option O)
  /-- It reads the header of the block. -/
  | blockInfo (hash : Hash) (txn : T) (status : TxExecutionStatus) (output : Option O)
      (blockHash : Hash)
  | lookedUp (hash : Hash) (result : Except ApiServerError I)
  | consume (txn : T)
  | consumed (txn : T) (result : Except String Unit)
  /-- `insert_executed_block` expires old transactions. -/
  | expire (block : ExecutedBlock T)
  /-- It removes the block's transactions from the backlog. -/
  | finalize (block : ExecutedBlock T)
  /-- It writes the block to the archive. -/
  | archive (block : ExecutedBlock T)
  | inserted (block : ExecutedBlock T)

section
variable {T B A O N I : Type} (E : Env T B A O N I)

/-- A read of the archive, with `?`. -/
def readArchive (hash : Hash) (archiveError : Option String) (next : Process T O I) :
    Process T O I :=
  match archiveError with
  | some e => .lookedUp hash (.error (.archiveError e))
  | none => next

/-- The end of a lookup. -/
def finish (hash : Hash) (txn : T) (output : Option O) (status : TxExecutionStatus)
    (blockInfo : Option N) : Process T O I :=
  match E.createTransactionInfo hash txn output status blockInfo with
  | .ok info => .lookedUp hash (.ok info)
  | .error e => .lookedUp hash (.error (.other e))

/-- A lookup with its transaction and status. -/
def withStatus (hash : Hash) (txn : T) (status : TxExecutionStatus) : Process T O I :=
  if status = .pending ∨ status = .pendingAfterExecution then finish E hash txn none status none
  else .output hash txn status

/-- The next step of a call; a read of the archive may find an error. -/
def step (archiveError : Option String) (s : RpcStorage B A) :
    Process T O I → Option (RpcStorage B A × Process T O I × List (Process T O I))
  | .lookup hash =>
    match E.getByHash s.backlog hash with
    | some txn => some (s, .status hash txn, [])
    | none => some (s, .lookupArchived hash, [])
  | .lookupArchived hash =>
    some (s, readArchive hash archiveError <|
      match E.getTransaction s.archive hash with
      | some txn => .status hash txn
      | none => .lookedUp hash (.error (.transactionNotFound hash)), [])
  | .status hash txn =>
    match E.getByHash s.backlog hash with
    | some _ => some (s, withStatus E hash txn .pending, [])
    | none => some (s, .statusArchived hash txn, [])
  | .statusArchived hash txn =>
    some (s, readArchive hash archiveError <|
      match E.getTransactionStatus s.archive hash with
      | some status => withStatus E hash txn status
      | none => .lookedUp hash (.error (.missingTransactionStatus hash)), [])
  | .output hash txn status =>
    some (s, readArchive hash archiveError <|
      .blockHash hash txn status (E.getTxnOutput s.archive hash), [])
  | .blockHash hash txn status output =>
    some (s, readArchive hash archiveError <|
      match E.getBlockHashByTxnHash s.archive hash with
      | some blockHash => .blockInfo hash txn status output blockHash
      | none => .lookedUp hash (.error (.transactionNotFound hash)), [])
  | .blockInfo hash txn status output blockHash =>
    some (s, readArchive hash archiveError <|
      finish E hash txn output status (E.getBlockHeaderInfo s.archive blockHash), [])
  | .consume txn =>
    match E.insert s.backlog txn with
    | .ok backlog => some ({ s with backlog }, .consumed txn (.ok ()), [])
    | .error e => some (s, .consumed txn (.error e), [])
  | .expire block =>
    some ({ s with backlog := E.expire s.backlog block.timestamp }, .finalize block, [])
  | .finalize block =>
    some ({ s with backlog := block.transactions.foldl E.finalize s.backlog }, .archive block, [])
  | .archive block =>
    some ({ s with archive := E.insertExecutedBlock s.archive block }, .inserted block, [])
  | .lookedUp .. | .consumed .. | .inserted .. => none

def rpcStorage : Pool.Machine (Request T) (Option String) (RpcStorage B A) (Process T O I) where
  init
    | .lookup hash => .lookup hash
    | .consume txn => .consume txn
    | .insertExecutedBlock block => .expire block
  step := step E

end

end Rest.Storage
