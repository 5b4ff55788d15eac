import Mathlib.Logic.Function.Basic

/-!
# Blocks, epochs and messages of the chain state assembler

The data `rpc_node/src/consensus` works on. Most of it is declared in crates outside the
repository (`committees`, `lifecycle_types`, `rpc`, `types`); a type keeps the fields that the
assembler, its store and its verifier read, and what is only compared or passed on is kept as its
encoding. A `Height` is a `u64` in the source and a natural number here, so the model speaks
about runs in which neither `height + 1` nor `last committed height + bucket size` overflows (the
build keeps overflow checks on, such an addition would panic).
-/

namespace Consensus

/-- `socrypto::Hash`. -/
abbrev Hash := BitVec 256

abbrev Bytes := List UInt8

/-! ## Blocks -/

/-- `lifecycle::View`. -/
structure View where
  epoch : Nat
  round : Nat
  deriving DecidableEq, Repr

structure BlockHeader where
  height : Nat
  view : View
  parent : Hash
  deriving DecidableEq, Repr

/-- One item of a block's payload: the certificate of a batch, stored under `storeKey`. -/
structure PayloadItem where
  storeKey : Hash
  deriving DecidableEq, Repr

/-- A block with its digest. The digest is a field of its own: nothing here assumes that two
blocks with one digest are the same block. -/
structure SmrBlock where
  header : BlockHeader
  hash : Hash
  payload : List PayloadItem
  deriving DecidableEq, Repr

structure SmrQC where
  encoded : Bytes
  deriving DecidableEq, Repr

structure CertifiedBlock where
  block : SmrBlock
  qc : SmrQC
  deriving DecidableEq, Repr

namespace CertifiedBlock

def height (b : CertifiedBlock) : Nat := b.block.header.height
def parent (b : CertifiedBlock) : Hash := b.block.header.parent
def hash (b : CertifiedBlock) : Hash := b.block.hash
def epoch (b : CertifiedBlock) : Nat := b.block.header.view.epoch

end CertifiedBlock

/-- The header and digest of a block. -/
structure BlockInfo where
  header : BlockHeader
  hash : Hash
  deriving DecidableEq, Repr

namespace BlockInfo

def height (i : BlockInfo) : Nat := i.header.height
def epoch (i : BlockInfo) : Nat := i.header.view.epoch

/-- `BlockInfo::from(block)`. -/
def ofBlock (b : SmrBlock) : BlockInfo := ⟨b.header, b.hash⟩

end BlockInfo

/-- `BlockInfo::from` of a certified block's block. -/
def CertifiedBlock.info (b : CertifiedBlock) : BlockInfo := BlockInfo.ofBlock b.block

@[simp] theorem CertifiedBlock.info_height (b : CertifiedBlock) : b.info.height = b.height := rfl
@[simp] theorem CertifiedBlock.info_hash (b : CertifiedBlock) : b.info.hash = b.hash := rfl
@[simp] theorem CertifiedBlock.info_epoch (b : CertifiedBlock) : b.info.epoch = b.epoch := rfl

/-- The certified block of `types::ExecutedBlock`; its outputs are not read here. -/
structure ExecutedBlock where
  certifiedBlock : CertifiedBlock
  deriving DecidableEq, Repr

structure PackedSmrBatch where
  key : Hash
  batch : Bytes
  deriving DecidableEq, Repr

/-- `rpc::FullBlock`: a certified block with the packed batches of its payload. -/
structure FullBlock where
  base : CertifiedBlock
  batches : List PackedSmrBatch
  deriving DecidableEq, Repr

/-- `rpc::messages::RpcBlockData`. -/
inductive RpcBlockData where
  | newBlock (b : FullBlock)
  | syncBlock (b : FullBlock)
  deriving DecidableEq, Repr

/-- `msg.into()`. -/
def RpcBlockData.fullBlock : RpcBlockData → FullBlock
  | .newBlock b => b
  | .syncBlock b => b

/-! ## Epochs -/

structure ValidatorCommittee where
  epoch : Nat
  encoded : Bytes
  deriving DecidableEq, Repr

structure EpochState where
  committee : ValidatorCommittee
  startHeight : Nat
  isEpochOver : Bool
  deriving DecidableEq, Repr

def EpochState.epoch (e : EpochState) : Nat := e.committee.epoch

/-- `lifecycle_types::EpochStates` with `EPOCHS_TO_RETAIN = 1`: the current epoch's state. -/
structure EpochStates where
  current : EpochState
  deriving DecidableEq, Repr

namespace EpochStates

/-- `insert(new_epoch_state)`: the inserted state is the current one. -/
def insert (_ : EpochStates) (e : EpochState) : EpochStates := ⟨e⟩

/-- `current_mut().end_epoch()`. -/
def endCurrentEpoch (v : EpochStates) : EpochStates := ⟨{ v.current with isEpochOver := true }⟩

end EpochStates

/-- `epoch_manager::Notification`. -/
inductive Notification where
  | endEpoch
  | newEpoch (e : EpochState)
  deriving DecidableEq, Repr

/-! ## Errors of the crates below -/

structure StoreError where
  message : String
  deriving DecidableEq, Repr

structure RpcClientError where
  message : String
  deriving DecidableEq, Repr

structure ExecutionError where
  message : String
  deriving DecidableEq, Repr

end Consensus
