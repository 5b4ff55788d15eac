import SupraL1.Consensus.BlockStore
import SupraL1.Consensus.BlockVerifier

/-!
# State, errors and environment of the chain state assembler

`ChainStateAssembler` is the source's struct without its input channels, whose messages are the
triggers of `doStep`, and with `readyToExecute`, the feedback channel that `run` creates for it.
`Env` is what the assembler uses of other crates: the verifier, the executor, the epoch data and
the sync API.
-/

namespace Consensus

open EState

/-! ## Errors (`consensus/errors.rs`) -/

inductive RegressionCause where
  /-- Tried to process a block with less or equal height than the last executed block. -/
  | notAboveExecuted (height executed : Nat)
  /-- Trying to execute a block when the epoch is marked over. -/
  | epochOver (b : CertifiedBlock)
  /-- Scheduled cached block which does not follow the chain. -/
  | doesNotFollowChain (executed height : Nat)
  deriving DecidableEq, Repr

mutual

/-- `consistency_warranter::StateConsistencyWarranterError`. -/
inductive StateConsistencyWarranterError where
  | executionError (e : ExecutionError)
  | failedToRestoreConsistency (e : AssemblerError)
  | noCommittedBlock (e : Option BlockStoreError)
  | noExecutedBlock (e : Option BlockStoreError)

/-- What the message of `AssemblerError::Fatal` says. -/
inductive FatalCause where
  /-- A persistent store, storage writer or fatal error of the block store. -/
  | blockStore (e : BlockStoreError)
  | warranter (e : StateConsistencyWarranterError)
  /-- Regression: the current epoch end should have been identified internally. -/
  | epochEndNotIdentified
  /-- Regression: the new epoch has ended or does not extend the current epoch. -/
  | invalidEpochState (new current : EpochState)
  | invalidBlock (e : ByzantineReport)
  /-- The block does not continue the chain as it does not follow the parent chain. -/
  | parentMismatch (expected : BlockInfo) (b : CertifiedBlock)
  /-- Failed to send a pending block for execution through the feedback channel. -/
  | feedbackChannel (b : CertifiedBlock)
  /-- There is an ongoing sync request for another height. -/
  | ongoingSyncRequest (ongoing height : Nat)

inductive AssemblerError where
  | rpcInternalError (e : RpcClientError)
  | fatal (c : FatalCause)
  /-- `none`: the storage is not properly initialized, missing the executed block's info. -/
  | invalidBlockStoreState (e : Option BlockStoreError)
  | invalidBlockStoreOperation (e : BlockStoreError)
  | regression (c : RegressionCause)
  | executionFailed (e : ExecutionError)

end

/-- `impl From<BlockStoreError> for AssemblerError`. -/
def AssemblerError.ofBlockStore (e : BlockStoreError) : AssemblerError :=
  match e with
  | .cacheNotAboveCommitted .. | .cacheScheduled .. => .invalidBlockStoreOperation e
  | .emptyEntry .. | .memoWithoutBlock .. => .invalidBlockStoreState (some e)
  | .persistentStore .. | .storageWriter .. => .fatal (.blockStore e)
  | .genesisNotFinalized | .doesNotExtend .. | .inconsistent .. => .fatal (.blockStore e)

/-! ## The environment -/

/-- What a call of the executor does: its result, with the epoch change flag, and the executed
block it writes to the store's last state, if any. -/
structure ExecOutcome where
  result : Except ExecutionError Bool
  record : Option ExecutedBlock

structure Env extends StoreEnv where
  /-- `TBlockVerifier::verify`, on the verifier's epoch states. -/
  verify : EpochStates → FullBlock → VerificationResult
  /-- `TBlockExecutor::execute_block`, after the events of a log. -/
  executeBlock : List Event → CertifiedBlock → ValidatorCommittee → ExecOutcome
  /-- `new.extends(current)`. -/
  epochExtends : EpochState → EpochState → Bool
  /-- Whether sending a sync request fails at this point of the log. -/
  sendFails : Nat → List Event → Option RpcClientError
  /-- Whether an execution error reports a duplicate execution to the warranter. -/
  reportsDuplicate : ExecutionError → Bool

/-- Neither the store nor the sync API fails. -/
structure Env.NoFailure (E : Env) : Prop where
  store : E.toStoreEnv.Reliable
  send : ∀ h log, E.sendFails h log = none

/-! ## The assembler -/

structure SynchronizationContext where
  /-- Recent sync request which is not yet resolved. -/
  pendingSyncRequest : Option Nat
  deriving DecidableEq, Repr

structure ChainStateAssembler where
  /-- The header and digest of the most recently executed block. -/
  lastExecutedBlockInfo : BlockInfo
  /-- The latest highest observed block from the provider. -/
  lastObservedHighestBlock : Option BlockInfo
  synchronizer : SynchronizationContext
  store : BlockStore
  blockVerifier : EpochStates
  /-- The internal feedback channel, oldest block first. -/
  readyToExecute : List CertifiedBlock

/-- `INTERNAL_FEEDBACK_CHANNEL_SIZE`. -/
def internalFeedbackChannelSize : Nat := 1

abbrev AssemblerM := EStateM AssemblerError ChainStateAssembler

namespace ChainStateAssembler

/-- The events so far. -/
def log (s : ChainStateAssembler) : List Event := s.store.store.log

/-- The persistent store. -/
def chain (s : ChainStateAssembler) : ChainStore := s.store.store.chain

def emit (s : ChainStateAssembler) (e : Event) : ChainStateAssembler :=
  { s with store := { s.store with store := s.store.store.emit e } }

def write (s : ChainStateAssembler) (w : Write) : ChainStateAssembler :=
  { s with store := { s.store with store := s.store.store.write w } }

/-- `next_block_height`. -/
def nextBlockHeight (s : ChainStateAssembler) : Nat := s.lastExecutedBlockInfo.height + 1

/-- `current_epoch_state`. -/
def currentEpochState (s : ChainStateAssembler) : EpochState := s.blockVerifier.current

/-- `is_current_epoch_over`. -/
def isCurrentEpochOver (s : ChainStateAssembler) : Bool := s.currentEpochState.isEpochOver

end ChainStateAssembler

/-- A method of the block store, called by the assembler with `?`. -/
def onStore {α : Type} (m : StoreM α) : AssemblerM α :=
  onPart (·.store) (fun st s => { s with store := st }) .ofBlockStore m

theorem onStore_bind {α β : Type} (m : StoreM α) (k : α → StoreM β) :
    onStore (m >>= k) = onStore m >>= fun a => onStore (k a) := by
  unfold onStore
  exact onPart_bind _ (by intros; rfl) (by intros; rfl) m k

theorem onStore_modify (f : BlockStore → BlockStore) (s : ChainStateAssembler) :
    onStore (modify f) s = .ok () { s with store := f s.store } := rfl

theorem onStore_write (E : StoreEnv) (err : StoreError → BlockStoreError) (w : Write)
    (s : ChainStateAssembler) :
    onStore (BlockStore.write E err w) s = match E.fails (.write w) s.log with
      | some e => .error (.ofBlockStore (err e)) (s.emit (.writeFault w e))
      | none => .ok () (s.write w) := by
  unfold onStore onPart BlockStore.write ChainStateAssembler.log
  cases E.fails (.write w) s.store.store.log <;> rfl

end Consensus
