import SupraL1.Consensus.Synchronizer

/-!
# The chain state assembler (`consensus/chain_state_assembler.rs`)

The functions of the source in its order, bottom up. One call of `doStep` is one iteration of the
main loop, with the branch of the `select!` that was ready as its trigger; the order of triggers
is not restricted (the source's bias towards epoch notifications is one such order).
-/

namespace Consensus

open EState BlockStore SynchronizationContext

namespace ChainStateAssembler

/-! ## Execution of a block -/

/-- The call of `TBlockExecutor::execute_block`: the block is handed over with the current
committee, the executor may write its record of the block and then returns. -/
def callExecutor (E : Env) (b : CertifiedBlock) : AssemblerM Bool := fun s =>
  let committee := s.blockVerifier.current.committee
  let out := E.executeBlock s.log b committee
  let handed := s.emit (.execute b committee)
  let written := match out.record with
    | some r => handed.write (.executedBlock r)
    | none => handed
  match out.result with
  | .ok epochChanged => .ok epochChanged (written.emit (.executed b epochChanged))
  | .error e => .error (.executionFailed e) written

/-- `handle_epoch_change`. -/
def handleEpochChange (epochChanged : Bool) : AssemblerM Unit :=
  if epochChanged then
    modify fun s => { s with blockVerifier := s.blockVerifier.endCurrentEpoch }
  else pure ()

/-- `execute_block`. -/
def executeBlock (E : Env) (b : CertifiedBlock) : AssemblerM Unit := do
  onStore (updateLastCommittedBlockInfo E.toStoreEnv b)
  let epochChanged ← callExecutor E b
  handleEpochChange epochChanged
  modify fun s => { s with lastExecutedBlockInfo := b.info }
  onStore (retain b.height)

/-! ## The chain -/

/-- `try_to_sync_skipped_blocks`. -/
def tryToSyncSkippedBlocks (E : Env) : AssemblerM Unit := do
  let s ← get
  match s.lastObservedHighestBlock with
  | some lastObservedBlock =>
    if s.nextBlockHeight ≤ lastObservedBlock.height ∧ s.store.hasEntry s.nextBlockHeight = false then
      tryPostSyncRequest E s.nextBlockHeight
    else pure ()
  | none => pure ()

/-- `ready_to_execute_tx.try_send`. -/
def trySend (b : CertifiedBlock) : AssemblerM Unit := do
  let s ← get
  if s.readyToExecute.length < internalFeedbackChannelSize then
    modify fun s => { s with readyToExecute := s.readyToExecute ++ [b] }
  else throw (.fatal (.feedbackChannel b))

/-- `try_execute_block_chain`. -/
def tryExecuteBlockChain (E : Env) (b : CertifiedBlock) : AssemblerM Unit := do
  executeBlock E b
  let s ← get
  if s.isCurrentEpochOver then
    onStore (updateEpochBoundaryBlockInfo E.toStoreEnv b)
  else
    let maybeNextBlock ← onStore (takeNextReadyBlockByHeight E.toStoreEnv s.nextBlockHeight)
    match maybeNextBlock with
    | some nextReadyBlock => trySend nextReadyBlock
    | none => tryToSyncSkippedBlocks E

/-- `does_follow_chain`. -/
def doesFollowChain (b : CertifiedBlock) : AssemblerM Bool := do
  let s ← get
  if b.height = s.nextBlockHeight then
    if b.parent = s.lastExecutedBlockInfo.hash then pure true
    else throw (.fatal (.parentMismatch s.lastExecutedBlockInfo b))
  else pure false

/-- `handle_scheduled_block`. -/
def handleScheduledBlock (E : Env) (b : CertifiedBlock) : AssemblerM Unit := do
  clear b.height
  let s ← get
  if s.isCurrentEpochOver then throw (.regression (.epochOver b))
  else
    let follows ← doesFollowChain b
    if follows then tryExecuteBlockChain E b
    else
      onStore (retain b.height)
      throw (.regression (.doesNotFollowChain s.lastExecutedBlockInfo.height b.height))

/-- `handle_full_block`. -/
def handleFullBlock (E : Env) (newBlock : FullBlock) : AssemblerM Unit := do
  let s ← get
  if newBlock.base.height ≤ s.lastExecutedBlockInfo.height then
    throw (.regression (.notAboveExecuted newBlock.base.height s.lastExecutedBlockInfo.height))
  else
    let block := newBlock.base
    onStore (persist E.toStoreEnv newBlock)
    let follows ← doesFollowChain block
    clear block.height
    if follows then tryExecuteBlockChain E block
    else
      onStore (cache block)
      tryToSyncSkippedBlocks E

/-! ## Incoming blocks -/

/-- `should_be_skipped`. -/
def shouldBeSkipped (s : ChainStateAssembler) (b : CertifiedBlock) : Bool :=
  s.isCurrentEpochOver || b.height ≤ s.lastExecutedBlockInfo.height || s.store.hasEntry b.height

/-- `observe_block`; `Height::MIN` stands for no observed block. -/
def observeBlock (b : CertifiedBlock) (s : ChainStateAssembler) : ChainStateAssembler :=
  if (s.lastObservedHighestBlock.map (·.height)).getD 0 < b.height then
    { s with lastObservedHighestBlock := some b.info }
  else s

/-- `handle_incoming_block`. -/
def handleIncomingBlock (E : Env) (msg : RpcBlockData) : AssemblerM Unit := do
  let fullBlock := msg.fullBlock
  modify (observeBlock fullBlock.base)
  let s ← get
  if s.shouldBeSkipped fullBlock.base then pure ()
  else
    match E.verify s.blockVerifier fullBlock with
    | .success => handleFullBlock E fullBlock
    | .oldEpochBlock => pure ()
    | .futureEpochBlock => tryToSyncSkippedBlocks E
    | .invalidBlock e => throw (.fatal (.invalidBlock e))

/-! ## Epoch notifications -/

/-- The part of `handle_epoch_manager_notification` between its checks and the acknowledgement:
nothing for `EndEpoch`, the state updates and the sync attempt for `NewEpoch`. -/
def applyNotification (E : Env) : Notification → AssemblerM Unit
  | .endEpoch => pure ()
  | .newEpoch e => do
    onStore (retain e.startHeight)
    modify fun s => { s with blockVerifier := s.blockVerifier.insert e }
    tryToSyncSkippedBlocks E

/-- `handle_epoch_manager_notification`. The epoch manager waits for its acknowledgement, so
sending it succeeds. -/
def handleEpochManagerNotification (E : Env) (n : Notification) : AssemblerM Unit := do
  let s ← get
  if s.isCurrentEpochOver = false then throw (.fatal .epochEndNotIdentified)
  else
    let invalid := match n with
      | .endEpoch => none
      | .newEpoch e =>
        if e.isEpochOver || !E.epochExtends e s.currentEpochState then some e else none
    match invalid with
    | some e => throw (.fatal (.invalidEpochState e s.currentEpochState))
    | none =>
      let result ← attempt (applyNotification E n)
      modify (·.emit .ack)
      ofExcept result

/-! ## The main loop -/

/-- The branches of the `select!` of `do_step`. -/
inductive Trigger where
  | epochNotification (n : Notification)
  | epochManagerGone
  | shutdown
  | incomingBlock (msg : RpcBlockData)
  | blocksChannelClosed
  /-- The feedback channel; ready only when it holds a block. -/
  | readyToExecute
  | syncTimer
  deriving DecidableEq, Repr

/-- The first block of the feedback channel is handled; an empty channel is not ready. -/
def receiveScheduled (E : Env) : AssemblerM Unit := do
  let s ← get
  match s.readyToExecute with
  | b :: rest =>
    modify fun s => { s with readyToExecute := rest }
    handleScheduledBlock E b
  | [] => pure ()

/-- `do_step`: whether the next steps can be continued. -/
def doStep (E : Env) : Trigger → AssemblerM Bool
  | .epochNotification n => do handleEpochManagerNotification E n; pure true
  | .epochManagerGone => pure false
  | .shutdown => pure false
  | .incomingBlock msg => do handleIncomingBlock E msg; pure true
  | .blocksChannelClosed => pure false
  | .readyToExecute => do receiveScheduled E; pure true
  | .syncTimer => do retry E; pure true

/-- Whether the main loop goes on after a step with this result: it returns on fatal and
execution errors, and reports the others. -/
def canDoAStep : Except AssemblerError Bool → Bool
  | .ok canProceed => canProceed
  | .error (.fatal _) => false
  | .error (.executionFailed _) => false
  | .error _ => true

/-- `run`: the main loop over a sequence of triggers, with the result it returns. -/
def run (E : Env) : List Trigger → AssemblerM Unit
  | [] => pure ()
  | t :: ts => do
    let result ← attempt (doStep E t)
    if canDoAStep result then run E ts
    else
      match result with
      | .ok _ => pure ()
      | .error e => throw e

/-! ## Creation -/

/-- `TStateConsistencyWarranter::execute`. -/
def execute (E : Env) (b : CertifiedBlock) :
    EStateM StateConsistencyWarranterError ChainStateAssembler Unit := fun s =>
  match executeBlock E b s with
  | .ok _ s' => .ok () s'
  | .error (.executionFailed e) s' => .error (.executionError e) s'
  | .error e s' => .error (.failedToRestoreConsistency e) s'

/-- What `ensure_blockchain_and_move_stores_are_consistent` may do from `s`. It is provided by
another crate and reaches the assembler through the methods of its trait: it reads the last
committed and executed blocks, executes the committed one when they differ, and takes an
execution error that reports a duplicate execution for a success. -/
inductive Warranted (E : Env) (s : ChainStateAssembler) :
    EStateM.Result StateConsistencyWarranterError ChainStateAssembler Unit → Prop where
  | unread (e : StateConsistencyWarranterError)
      (h : E.fails .readCommittedBlock s.log ≠ none ∨ E.fails .readExecutedBlock s.log ≠ none ∨
        s.chain.committedBlock = none ∨ s.chain.executedBlock = none) :
      Warranted E s (.error e s)
  | consistent {c : CertifiedBlock} {x : ExecutedBlock} (hc : s.chain.committedBlock = some c)
      (hx : s.chain.executedBlock = some x) (he : c = x.certifiedBlock) : Warranted E s (.ok () s)
  | restored {c : CertifiedBlock} {x : ExecutedBlock} {s' : ChainStateAssembler}
      (hc : s.chain.committedBlock = some c) (hx : s.chain.executedBlock = some x)
      (hne : c ≠ x.certifiedBlock) (h : execute E c s = .ok () s') : Warranted E s (.ok () s')
  | duplicate {c : CertifiedBlock} {x : ExecutedBlock} {s' : ChainStateAssembler}
      {e : ExecutionError} (hc : s.chain.committedBlock = some c)
      (hx : s.chain.executedBlock = some x) (hne : c ≠ x.certifiedBlock)
      (h : execute E c s = .error (.executionError e) s') (hd : E.reportsDuplicate e = true) :
      Warranted E s (.ok () s')
  | failed {c : CertifiedBlock} {x : ExecutedBlock} {s' : ChainStateAssembler}
      {e : StateConsistencyWarranterError} (hc : s.chain.committedBlock = some c)
      (hx : s.chain.executedBlock = some x) (hne : c ≠ x.certifiedBlock)
      (h : execute E c s = .error e s')
      (hd : ∀ x, e = .executionError x → E.reportsDuplicate x = false) : Warranted E s (.error e s')

/-- The warranter of an environment. -/
structure Warranter (E : Env) where
  ensureConsistent : EStateM StateConsistencyWarranterError ChainStateAssembler Unit
  warranted : ∀ s, Warranted E s (ensureConsistent s)

/-- `ChainStateAssembler::new`, with the world it leaves behind. -/
def new (E : Env) (W : Warranter E) (store : BlockStore) (blockVerifier : EpochStates) :
    Except AssemblerError ChainStateAssembler × World :=
  match lastExecutedBlock E.toStoreEnv store with
  | .error e st => (.error (.ofBlockStore e), st.store)
  | .ok none st => (.error (.invalidBlockStoreState none), st.store)
  | .ok (some lastExecutedBlock) st =>
    let assembler : ChainStateAssembler :=
      { lastExecutedBlockInfo := lastExecutedBlock.certifiedBlock.info
        lastObservedHighestBlock := none
        synchronizer := ⟨none⟩
        store := st
        blockVerifier
        readyToExecute := [] }
    match W.ensureConsistent assembler with
    | .ok _ s => (.ok s, s.store.store)
    | .error e s => (.error (.fatal (.warranter e)), s.store.store)

end ChainStateAssembler

end Consensus
