import SupraL1.MoveCore

/-!
# Reading the archive (`rest/api_server_state.rs`, `rest/controller`)

The API assembles a transaction from tables of the archive that are read one after the other: the
transaction, its status, its output, the hash of its block and the header of that block. Automated
transactions have a table of their own, and the metadata transaction of a block has none. A block is
assembled from its header and the hashes of its transactions.

The archive and the converter of Move data are crates below: `ArchiveReader` has the methods that are
called, each of which may fail, and `Env` the conversions. Types of these crates that are only passed
on are `Types`.
-/

namespace Rest.Archive

open Consensus (Bytes Hash)
open Move (TxExecutionStatus)

/-! ## Data -/

structure Types where
  /-- `SmrMoveTransaction` -/
  MoveTransaction : Type
  MoveAuthenticator : Type
  /-- `MoveTransactionPayload`, as it is stored -/
  MovePayload : Type
  ApiMovePayload : Type
  MoveOutput : Type
  ApiMoveOutput : Type
  SignerData : Type
  DkgPayload : Type
  OraclePayload : Type
  /-- the fields of a `BlockHeaderInfo` besides hash and height -/
  BlockDetails : Type

variable (T : Types)

/-- `SmrTransactionHeader`. -/
structure SmrTransactionHeader where
  sender : Move.AccountAddress
  sequenceNumber : Nat
  gasUnitPrice : Nat
  maxGasAmount : Nat
  expirationTimestamp : Nat
  chainId : Nat
  deriving DecidableEq, Repr

inductive SmrTransactionPayload where
  | dkg (payload : T.DkgPayload)
  | oracle (payload : T.OraclePayload)

inductive SmrTransaction where
  | move (inner : T.MoveTransaction)
  | supra (signerData : T.SignerData) (header : SmrTransactionHeader)
      (payload : SmrTransactionPayload T)

/-- `SerializedOutput`: that of a Move transaction, or its status. -/
inductive SerializedOutput where
  | move (output : T.MoveOutput)
  | other (status : TxExecutionStatus)

/-- `AutomatedTransactionMeta`. -/
structure AutomatedTransactionMeta where
  taskIndex : Nat
  sender : Move.AccountAddress
  gasUnitPrice : Nat
  blockHeight : Nat
  hash : Hash
  deriving DecidableEq, Repr

structure AutomationTask where
  maxGasAmount : Nat
  expiryTime : Nat
  payload : T.MovePayload
  txHash : Hash

structure BlockHeaderInfo where
  hash : Hash
  height : Nat
  details : T.BlockDetails

inductive TransactionAuthenticator where
  | move (authenticator : T.MoveAuthenticator)
  | dkg (signerData : T.SignerData)
  | oracle (signerData : T.SignerData)
  | automation (txHash : Hash)

inductive TransactionPayload where
  | move (payload : T.ApiMovePayload)
  | dkg (payload : T.DkgPayload)
  | oracle (payload : T.OraclePayload)

inductive TransactionOutput where
  | move (output : T.ApiMoveOutput)
  | dkg (status : TxExecutionStatus)
  | oracle (status : TxExecutionStatus)

structure TransactionInfoV2 where
  authenticator : TransactionAuthenticator T
  blockHeader : Option (BlockHeaderInfo T)
  hash : Hash
  header : SmrTransactionHeader
  payload : TransactionPayload T
  output : Option (TransactionOutput T)
  status : TxExecutionStatus

structure BlockMetadataInfo where
  hash : Hash
  blockHeader : Option (BlockHeaderInfo T)
  output : TransactionOutput T
  status : TxExecutionStatus

/-- `v3::Transaction`. -/
inductive Transaction where
  | move (info : TransactionInfoV2 T)
  | blockMetadata (info : BlockMetadataInfo T)

structure Block where
  header : BlockHeaderInfo T
  transactions : Option (List (TransactionInfoV2 T))

inductive TransactionType where
  | auto
  | user
  /-- `Meta` -/
  | metadata
  deriving DecidableEq, Repr

/-- Whether a query asks for transactions of a type: it asks for one type, or for all. -/
def asks (txnType : Option TransactionType) (type : TransactionType) : Bool :=
  txnType = none ∨ txnType = some type

/-- A read for the transactions of a type, or the default if they are not asked for. -/
def ifAsked {ε α : Type} (txnType : Option TransactionType) (type : TransactionType)
    (read : Except ε α) (default : α) : Except ε α :=
  if asks txnType type then read else .ok default

/-- The variants of `ApiServerError` that reading the archive can give. -/
inductive ApiServerError where
  | inconsistentArchiveState (message : String)
  | missingAccountTransaction (hash : Hash) (account : Move.AccountAddress)
  | missingAccountAutomatedTransaction (hash : Hash) (account : Move.AccountAddress)
  | missingBlockTransaction (hash block : Hash)
  | missingBlockTransactionOutput (hash block : Hash)
  | missingBlockAutomatedTransaction (hash block : Hash)
  | missingAutomatedTransactionOutput (hash : Hash)
  | missingBlockMetadataOutput (hash : Hash)
  | missingTransactionStatus (hash : Hash)
  | transactionNotFound (hash : Hash)
  | archiveError (message : String)
  | other (message : String)
  deriving DecidableEq, Repr

/-- `crate::error::Error`, as far as the controllers give it. -/
inductive Error where
  | publicApiServerError (e : ApiServerError)
  | archiveError (message : String)
  | informationNotAvailable (message : String)
  deriving DecidableEq, Repr

/-- `TaggedTransactionHash`. -/
inductive TaggedTransactionHash where
  | blockMetadata (hash : Hash)
  | user (hash : Hash)
  | automated (hash : Hash)
  deriving DecidableEq, Repr

/-- The methods of the `ArchiveReader` that are called. -/
structure ArchiveReader where
  getBlockHeaderInfoByHeight : Nat → Except String (Option (BlockHeaderInfo T))
  getBlockHeaderInfo : Hash → Except String (Option (BlockHeaderInfo T))
  getTxsByBlockHeight : Nat → Except String (List Hash)
  getAutomatedTxsByBlockHeight : Nat → Except String (List Hash)
  getBlockMetadataHashByBlockHeight : Nat → Except String (Option Hash)
  getTransaction : Hash → Except String (Option (SmrTransaction T))
  getAutomatedTransactionData : Hash →
    Except String (Option (AutomatedTransactionMeta × AutomationTask T))
  isBlockMetadataHash : Hash → Except String Bool
  getTransactionStatus : Hash → Except String (Option TxExecutionStatus)
  getTxnOutput : Hash → Except String (Option (SerializedOutput T))
  getBlockHashByTxnHash : Hash → Except String (Option Hash)
  getTransactionHashesByAccount : Move.AccountAddress → (startSequenceNumber : Option Nat) →
    (max : Nat) → Except String (List Hash)
  getAutomatedTransactionHashesByAccount : Move.AccountAddress → (startBlockHeight : Option Nat) →
    (cursor : Option Bytes) → (ascending : Bool) → (max : Nat) →
    Except String (List Hash × Option Bytes)
  getCoinTransactionHashesByAccount : Move.AccountAddress → (start : Option Nat) → (max : Nat) →
    Except String (List TaggedTransactionHash × Nat)

/-- `RpcStorage`: the backlog, by hash, and the archive. -/
structure RpcStorage where
  backlog : Hash → Option (SmrTransaction T)
  archive : ArchiveReader T

/-- The conversions of stored data, the chain's id and the sizes of pages, and how hashes and accounts
are displayed. -/
structure Env where
  chainId : Nat
  /-- `DEFAULT_SIZE_OF_PAGE` -/
  defaultSizeOfPage : Nat
  /-- `MAX_NUM_OF_TRANSACTIONS_TO_RETURN` -/
  maxNumOfTransactionsToReturn : Nat
  authenticator : T.MoveTransaction → T.MoveAuthenticator
  /-- `SmrTransactionHeader::from` -/
  header : T.MoveTransaction → SmrTransactionHeader
  payload : T.MoveTransaction → T.MovePayload
  tryIntoTransactionPayload : T.MovePayload → Except String T.ApiMovePayload
  convertToApiMoveTransactionOutput : T.MoveOutput → Except String T.ApiMoveOutput
  /-- `SerializedOutput::execution_status` of a Move output -/
  executionStatus : T.MoveOutput → TxExecutionStatus
  display : Hash → String
  displayAccount : Move.AccountAddress → String

variable {T}

def SerializedOutput.executionStatus (E : Env T) : SerializedOutput T → TxExecutionStatus
  | .move output => E.executionStatus output
  | .other status => status

def TransactionPayload.isMove : TransactionPayload T → Bool
  | .move _ => true
  | .dkg _ | .oracle _ => false

def Transaction.hash : Transaction T → Hash
  | .move info => info.hash
  | .blockMetadata info => info.hash

def Transaction.blockHeader : Transaction T → Option (BlockHeaderInfo T)
  | .move info => info.blockHeader
  | .blockMetadata info => info.blockHeader

/-- A read of the archive, with `?`. -/
def read {α : Type} (r : Except String α) : Except ApiServerError α := r.mapError .archiveError

/-- A conversion, with `?`. -/
def convert {α : Type} (r : Except String α) : Except ApiServerError α := r.mapError .other

variable (E : Env T) (S : RpcStorage T)

/-! ## The storage -/

namespace RpcStorage

/-- `get_transaction_by_hash`: the backlog first. -/
def getTransactionByHash (hash : Hash) : Except String (Option (SmrTransaction T)) :=
  match S.backlog hash with
  | some transaction => .ok (some transaction)
  | none => S.archive.getTransaction hash

/-- `get_transaction_status`. -/
def getTransactionStatus (hash : Hash) : Except String (Option TxExecutionStatus) :=
  match S.backlog hash with
  | some _ => .ok (some .pending)
  | none => S.archive.getTransactionStatus hash

end RpcStorage

/-! ## Assembling a transaction -/

/-- `api_move_transaction_output`. -/
def apiMoveTransactionOutput :
    Option (SerializedOutput T) → Except ApiServerError (Option (TransactionOutput T))
  | none => .ok none
  | some (.move output) => do
    return some (.move (← convert (E.convertToApiMoveTransactionOutput output)))
  | some (.other _) => .error (.inconsistentArchiveState "Move transaction has non-move output.")

/-- `move_transaction_info`. -/
def moveTransactionInfo (hash : Hash) (transaction : T.MoveTransaction)
    (blockData : Option (BlockHeaderInfo T)) (output : Option (SerializedOutput T))
    (status : TxExecutionStatus) : Except ApiServerError (TransactionInfoV2 T) := do
  let payload ← convert (E.tryIntoTransactionPayload (E.payload transaction))
  let output ← apiMoveTransactionOutput E output
  return ⟨.move (E.authenticator transaction), blockData, hash, E.header transaction, .move payload,
    output, status⟩

/-- `create_transaction_info`. -/
def createTransactionInfo (hash : Hash) (transaction : SmrTransaction T)
    (output : Option (SerializedOutput T)) (status : TxExecutionStatus)
    (blockData : Option (BlockHeaderInfo T)) : Except ApiServerError (TransactionInfoV2 T) :=
  match transaction with
  | .move t => moveTransactionInfo E hash t blockData output status
  | .supra signerData header (.dkg payload) =>
    .ok ⟨.dkg signerData, blockData, hash, header, .dkg payload,
      output.map fun o => .dkg (o.executionStatus E), status⟩
  | .supra signerData header (.oracle payload) =>
    .ok ⟨.oracle signerData, blockData, hash, header, .oracle payload,
      output.map fun o => .oracle (o.executionStatus E), status⟩

/-- `create_automated_transaction_info`: the hash is that of the meta data. -/
def createAutomatedTransactionInfo (txnMeta : AutomatedTransactionMeta) (refTask : AutomationTask T)
    (output : Option (SerializedOutput T)) (status : TxExecutionStatus)
    (blockData : Option (BlockHeaderInfo T)) : Except ApiServerError (TransactionInfoV2 T) := do
  let header : SmrTransactionHeader := ⟨txnMeta.sender, txnMeta.taskIndex, txnMeta.gasUnitPrice,
    refTask.maxGasAmount, refTask.expiryTime, E.chainId⟩
  let payload ← convert (E.tryIntoTransactionPayload refTask.payload)
  let output ← apiMoveTransactionOutput E output
  return ⟨.automation refTask.txHash, blockData, txnMeta.hash, header, .move payload, output, status⟩

/-- `get_finalized_transaction_output_and_block_info`. The header is read in any case. -/
def getFinalizedTransactionOutputAndBlockInfo (hash : Hash) (withBlockData : Bool) :
    Except ApiServerError (Option (SerializedOutput T) × Option (BlockHeaderInfo T)) := do
  let output ← read (S.archive.getTxnOutput hash)
  match ← read (S.archive.getBlockHashByTxnHash hash) with
  | none => .error (.transactionNotFound hash)
  | some blockHash =>
    let blockInfo ← read (S.archive.getBlockHeaderInfo blockHash)
    return (output, if withBlockData then blockInfo else none)

/-- `get_transient_transaction_by_hash_internal`. -/
def getTransientTransactionByHash (hash : Hash) (withBlockData : Bool) :
    Except ApiServerError (Option (TransactionInfoV2 T)) := do
  match ← read (S.getTransactionByHash hash) with
  | none => .error (.transactionNotFound hash)
  | some transaction =>
    match ← read (S.getTransactionStatus hash) with
    | none => .error (.missingTransactionStatus hash)
    | some status =>
      let (output, blockInfo) ←
        if status = .pending ∨ status = .pendingAfterExecution then pure (none, none)
        else getFinalizedTransactionOutputAndBlockInfo S hash withBlockData
      return some (← createTransactionInfo E hash transaction output status blockInfo)

/-- `get_executed_transaction_by_hash_internal`: the archive only. -/
def getExecutedTransactionByHash (hash : Hash) (withBlockData : Bool) :
    Except ApiServerError (Option (TransactionInfoV2 T)) := do
  match ← read (S.archive.getTransaction hash) with
  | none => .error (.transactionNotFound hash)
  | some transaction =>
    match ← read (S.archive.getTransactionStatus hash) with
    | none => .error (.missingTransactionStatus hash)
    | some status =>
      let (output, blockInfo) ← getFinalizedTransactionOutputAndBlockInfo S hash withBlockData
      return some (← createTransactionInfo E hash transaction output status blockInfo)

/-- `get_automated_transaction_by_hash_internal`. -/
def getAutomatedTransactionByHash (hash : Hash) (withBlockData : Bool) :
    Except ApiServerError (Option (TransactionInfoV2 T)) := do
  match ← read (S.archive.getAutomatedTransactionData hash) with
  | none => .error (.transactionNotFound hash)
  | some (txnMeta, refTask) =>
    match ← read (S.archive.getTransactionStatus hash) with
    | none => .error (.missingTransactionStatus hash)
    | some status =>
      let (output, blockInfo) ← getFinalizedTransactionOutputAndBlockInfo S hash withBlockData
      if output.isNone then .error (.missingAutomatedTransactionOutput hash)
      else return some (← createAutomatedTransactionInfo E txnMeta refTask output status blockInfo)

/-- `get_user_transaction_by_hash_internal`. -/
def getUserTransactionByHash (hash : Hash) (ongoing : Bool) :
    Except ApiServerError (Option (TransactionInfoV2 T)) :=
  if ongoing then getTransientTransactionByHash E S hash true
  else getExecutedTransactionByHash E S hash true

/-- `get_transaction_by_hash_internal`: a user transaction, or else an automated one. -/
def getTransactionByHashInternal (hash : Hash) (ongoing : Bool) :
    Except ApiServerError (Option (TransactionInfoV2 T)) :=
  match getUserTransactionByHash E S hash ongoing with
  | .ok (some txn) => .ok (some txn)
  | .ok none => .error (.other "Invalid internal state")
  | .error (.transactionNotFound _) => getAutomatedTransactionByHash E S hash ongoing
  | .error err => .error err

/-! ## The metadata transaction of a block -/

/-- `get_block_metadata_by_hash_internal`. -/
def getBlockMetadataByHashInternal (hash : Hash) (withBlockInfo : Bool) :
    Except ApiServerError (Option (BlockMetadataInfo T)) := do
  match ← read (S.archive.getTransactionStatus hash) with
  | none => .error (.missingTransactionStatus hash)
  | some status =>
    let (output, blockInfo) ← getFinalizedTransactionOutputAndBlockInfo S hash withBlockInfo
    match ← apiMoveTransactionOutput E output with
    | some apiOutput => return some ⟨hash, blockInfo, apiOutput, status⟩
    | none => .error (.missingBlockMetadataOutput hash)

/-- `get_block_metadata_by_hash`. -/
def getBlockMetadataByHash (hash : Hash) : Except ApiServerError (Option (BlockMetadataInfo T)) := do
  if ← read (S.archive.isBlockMetadataHash hash) then getBlockMetadataByHashInternal E S hash true
  else .error (.transactionNotFound hash)

/-- `get_block_metadata_by_block_height`. -/
def getBlockMetadataByBlockHeight (height : Nat) :
    Except ApiServerError (Option (BlockMetadataInfo T)) := do
  match ← read (S.archive.getBlockMetadataHashByBlockHeight height) with
  | none => return none
  | some hash => getBlockMetadataByHashInternal E S hash false

/-! ## Blocks -/

/-- `check_move_payload_type`. -/
def checkMovePayloadType (info : TransactionInfoV2 T) (errorMsg : String) :
    Except ApiServerError Unit :=
  if info.payload.isMove then .ok () else .error (.inconsistentArchiveState errorMsg)

/-- The loop of `get_block_transactions_by_hashes`. -/
def getBlockTransaction (block hash : Hash) : Except ApiServerError (TransactionInfoV2 T) := do
  match ← getExecutedTransactionByHash E S hash false with
  | none => .error (.missingBlockTransaction hash block)
  | some info =>
    if info.output.isNone then .error (.missingBlockTransactionOutput hash block) else return info

/-- The loop of `get_block_automated_transactions_by_hashes`. -/
def getBlockAutomatedTransaction (block hash : Hash) :
    Except ApiServerError (TransactionInfoV2 T) := do
  match ← getAutomatedTransactionByHash E S hash false with
  | none => .error (.missingBlockAutomatedTransaction hash block)
  | some info =>
    checkMovePayloadType info ("A Move transaction hash " ++ E.display hash ++ " of block " ++
      E.display block ++ " has a non-Move transaction associated with it.")
    return info

/-- `get_block_by_height_internal`. -/
def getBlockByHeight (height : Nat) (withFinalizedTransactions : Bool)
    (txnType : Option TransactionType) : Except ApiServerError (Option (Block T)) := do
  match ← read (S.archive.getBlockHeaderInfoByHeight height) with
  | none => return none
  | some header =>
    if !withFinalizedTransactions then return some ⟨header, none⟩
    else
      let transactionHashes ← ifAsked txnType .user (read (S.archive.getTxsByBlockHeight height)) []
      let automatedTxnHashes ←
        ifAsked txnType .auto (read (S.archive.getAutomatedTxsByBlockHeight height)) []
      let transactions ← transactionHashes.mapM (getBlockTransaction E S header.hash)
      let automatedTxns ← automatedTxnHashes.mapM (getBlockAutomatedTransaction E S header.hash)
      return some ⟨header, some (transactions ++ automatedTxns)⟩

/-! ## Accounts -/

/-- The message of `check_move_payload_type` for an account. -/
def nonMoveAccountTransaction (account : Move.AccountAddress) (hash : Hash) : String :=
  "A Move account address " ++ E.displayAccount account ++ " has a non-Move transaction with " ++
    E.display hash ++ " hash associated with it."

/-- `get_account_executed_transaction_by_hash_internal`. -/
def getAccountExecutedTransactionByHash (account : Move.AccountAddress) (hash : Hash) :
    Except ApiServerError (TransactionInfoV2 T) := do
  match ← getExecutedTransactionByHash E S hash true with
  | none => .error (.missingAccountTransaction hash account)
  | some info =>
    checkMovePayloadType info (nonMoveAccountTransaction E account hash)
    return info

/-- `get_account_automated_transaction_by_hash`. -/
def getAccountAutomatedTransactionByHash (account : Move.AccountAddress) (hash : Hash) :
    Except ApiServerError (TransactionInfoV2 T) := do
  match ← getAutomatedTransactionByHash E S hash true with
  | none => .error (.missingAccountAutomatedTransaction hash account)
  | some info =>
    checkMovePayloadType info (nonMoveAccountTransaction E account hash)
    return info

/-- `get_account_user_transactions`. -/
def getAccountUserTransactions (account : Move.AccountAddress) (startSequenceNumber : Option Nat)
    (max : Nat) : Except ApiServerError (List (TransactionInfoV2 T)) := do
  let hashes ← read (S.archive.getTransactionHashesByAccount account startSequenceNumber max)
  hashes.mapM (getAccountExecutedTransactionByHash E S account)

/-- `get_account_automated_transactions`. -/
def getAccountAutomatedTransactions (account : Move.AccountAddress) (startBlockHeight : Option Nat)
    (cursor : Option Bytes) (ascending : Bool) (max : Nat) :
    Except ApiServerError (List (TransactionInfoV2 T) × Option Bytes) := do
  let (hashes, cursor) ← read (S.archive.getAutomatedTransactionHashesByAccount account
    startBlockHeight cursor ascending max)
  return (← hashes.mapM (getAccountAutomatedTransactionByHash E S account), cursor)

/-- `controller::accounts::statement_controller`. -/
def statementController (account : Move.AccountAddress) (start count : Option Nat) :
    Except ApiServerError (List (TransactionInfoV2 T)) :=
  getAccountUserTransactions E S account start <|
    count.elim E.defaultSizeOfPage fun c => min c E.maxNumOfTransactionsToReturn

/-- A read of the archive by a controller. -/
def readArchive {α : Type} (r : Except String α) : Except Error α := r.mapError .archiveError

/-- `controller::block::get_block_height_by_hash`. -/
def getBlockHeightByHash (blockHash : Hash) : Except Error Nat := do
  match ← readArchive (S.archive.getBlockHeaderInfo blockHash) with
  | none =>
    .error (.informationNotAvailable ("Block header for hash " ++ E.display blockHash ++ " not found"))
  | some info => return info.height

/-- `controller::block::get_txns_by_block_hash_and_type`. -/
def getTxnsByBlockHashAndType (blockHash : Hash) (txnType : Option TransactionType) :
    Except Error (List Hash) := do
  let blockHeight ← getBlockHeightByHash E S blockHash
  let userTransactions ←
    ifAsked txnType .user (readArchive (S.archive.getTxsByBlockHeight blockHeight)) []
  let autoTransactions ←
    ifAsked txnType .auto (readArchive (S.archive.getAutomatedTxsByBlockHeight blockHeight)) []
  let metadataTxnHash ←
    ifAsked txnType .metadata (readArchive (S.archive.getBlockMetadataHashByBlockHeight blockHeight)) none
  return metadataTxnHash.toList ++ userTransactions ++ autoTransactions

/-- `controller::block::get_block_metadata_info_by_height`. -/
def getBlockMetadataInfoByHeight (height : Nat) (txnType : Option TransactionType) :
    Except ApiServerError (Option (BlockMetadataInfo T)) :=
  ifAsked txnType .metadata (getBlockMetadataByBlockHeight E S height) none

/-- `controller::transaction::get_transaction_by_hash`: of the type that is asked for, or else a user
transaction, an automated one or a metadata one, in this order. -/
def getTransactionByHash (hash : Hash) :
    Option TransactionType → Except ApiServerError (Option (Transaction T))
  | none =>
    match getTransactionByHashInternal E S hash true with
    | .ok transaction => .ok (transaction.map .move)
    | .error (.transactionNotFound _) => do
      return (← getBlockMetadataByHash E S hash).map .blockMetadata
    | .error err => .error err
  | some .auto => do return (← getAutomatedTransactionByHash E S hash true).map .move
  | some .user => do return (← getUserTransactionByHash E S hash true).map .move
  | some .metadata => do return (← getBlockMetadataByHash E S hash).map .blockMetadata

end Rest.Archive
