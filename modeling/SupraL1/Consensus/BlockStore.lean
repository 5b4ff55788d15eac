import SupraL1.Consensus.ChainStore
import SupraL1.Lib.EState

/-!
# The block store (`consensus/block_store.rs`)

`BlockStore` keeps the verified blocks: on disk (`store`) and, for those that wait for execution,
in the cache `pendingExecution`. A cached block is held in full (`block`), as its header and
digest (`memo`), or is already sent for execution (`scheduled`). The inner option of an entry is
the source's: `take_next_ready_block_by_height` empties it while it works on the entry.
-/

namespace Consensus

open EState

/-! ## Errors -/

/-- `BlockStoreError`; a constructor carries what its message prints. -/
inductive BlockStoreError where
  | persistentStore (e : StoreError)
  | storageWriter (e : StoreError)
  /-- `InvalidOperation`: trying to cache a block not above the last committed block. -/
  | cacheNotAboveCommitted (height committed : Nat)
  /-- `InvalidOperation`: trying to cache a block which is already scheduled. -/
  | cacheScheduled (height : Nat)
  /-- `InvalidState`: there is an entry, but no actual data is available. -/
  | emptyEntry (height : Nat)
  /-- `InvalidState`: there is a memo for a block, but no block data is available. -/
  | memoWithoutBlock (height : Nat)
  /-- `Fatal`: failed to finalize the genesis executed block. -/
  | genesisNotFinalized
  /-- `Fatal`: the last committed block does not correctly extend the executed block. -/
  | doesNotExtend (committed executed : CertifiedBlock)
  /-- `Fatal`: only one of the last committed and executed blocks is there. -/
  | inconsistent (committed : Option CertifiedBlock) (executed : Option ExecutedBlock)
  deriving DecidableEq, Repr

/-! ## The cache -/

inductive BlockReference where
  /-- The full block in pending execution. -/
  | block (b : CertifiedBlock)
  /-- The info of a block pending execution. -/
  | memo (i : BlockInfo)
  /-- The info of a block already scheduled to be executed. -/
  | scheduled (i : BlockInfo)
  deriving DecidableEq, Repr

/-- `TBlockHeader::header` of a reference. -/
def BlockReference.header : BlockReference → BlockHeader
  | .block b => b.block.header
  | .memo i => i.header
  | .scheduled i => i.header

def BlockReference.epoch (r : BlockReference) : Nat := r.header.view.epoch

/-- `BTreeMap<Height, Option<BlockReference>>`. -/
abbrev Cache := Nat → Option (Option BlockReference)

namespace Cache

def empty : Cache := fun _ => none

def insert (m : Cache) (h : Nat) (r : Option BlockReference) : Cache :=
  Function.update m h (some r)

def remove (m : Cache) (h : Nat) : Cache := Function.update m h none

/-- `retain(|block_height, _| block_height > lower_bound)`. -/
def retain (m : Cache) (lowerBound : Nat) : Cache := fun h => if lowerBound < h then m h else none

theorem insert_apply (m : Cache) (h h' : Nat) (r : Option BlockReference) :
    m.insert h r h' = if h' = h then some r else m h' := by
  simp [insert, Function.update_apply]

@[simp] theorem insert_self (m : Cache) (h : Nat) (r : Option BlockReference) :
    m.insert h r h = some r := by simp [insert_apply]

theorem insert_of_ne (m : Cache) {h h' : Nat} (r : Option BlockReference) (hne : h' ≠ h) :
    m.insert h r h' = m h' := by simp [insert_apply, hne]

@[simp] theorem insert_insert (m : Cache) (h : Nat) (r r' : Option BlockReference) :
    (m.insert h r).insert h r' = m.insert h r' := Function.update_idem ..

@[simp] theorem remove_insert (m : Cache) (h : Nat) (r : Option BlockReference) :
    (m.insert h r).remove h = m.remove h := Function.update_idem ..

theorem retain_apply (m : Cache) (n h : Nat) : m.retain n h = if n < h then m h else none := rfl

theorem retain_some {m : Cache} {n h : Nat} {r : Option BlockReference} :
    m.retain n h = some r ↔ n < h ∧ m h = some r := by
  rw [retain_apply]
  split
  · simp_all
  · simp only [reduceCtorEq, false_iff, not_and]
    intro hlt
    exact absurd hlt ‹_›

theorem retain_empty (n : Nat) : empty.retain n = empty := by
  funext h; simp [retain_apply, empty]

end Cache

structure BlockStore where
  store : World
  pendingExecution : Cache
  certifiedBlockCacheBucketSize : Nat
  lastCommittedBlockHeight : Nat

abbrev StoreM := EStateM BlockStoreError BlockStore

namespace BlockStore

/-- `BlockStore::new`. -/
def new (store : World) (bucketSize : Nat) : BlockStore :=
  { store, pendingExecution := Cache.empty, certifiedBlockCacheBucketSize := bucketSize
    lastCommittedBlockHeight := 0 }

/-! ## Access to the persistent store -/

/-- A read of the persistent store. -/
def read {α : Type} (E : StoreEnv) (op : StoreOp) (f : ChainStore → α) : StoreM α := fun s =>
  match E.fails op s.store.log with
  | some e => .error (.persistentStore e) s
  | none => .ok (f s.store.chain) s

/-- A write to the persistent store; `err` is the variant its error is converted to. -/
def write (E : StoreEnv) (err : StoreError → BlockStoreError) (w : Write) : StoreM Unit := fun s =>
  match E.fails (.write w) s.store.log with
  | some e => .error (err e) { s with store := s.store.emit (.writeFault w e) }
  | none => .ok () { s with store := s.store.write w }

/-- `last_executed_block`. -/
def lastExecutedBlock (E : StoreEnv) : StoreM (Option ExecutedBlock) :=
  read E .readExecutedBlock (·.executedBlock)

/-- `last_committed_block`. -/
def lastCommittedBlock (E : StoreEnv) : StoreM (Option CertifiedBlock) :=
  read E .readCommittedBlock (·.committedBlock)

/-- `update_last_committed_block_info`: the height in memory is moved before the write. -/
def updateLastCommittedBlockInfo (E : StoreEnv) (b : CertifiedBlock) : StoreM Unit := do
  modify fun s => { s with lastCommittedBlockHeight := b.height }
  write E .persistentStore (.committedBlock b)

/-- `update_epoch_boundary_block_info`. -/
def updateEpochBoundaryBlockInfo (E : StoreEnv) (b : CertifiedBlock) : StoreM Unit :=
  write E .persistentStore (.epochBoundaryBlockQC b.qc)

/-! ## Initialization -/

/-- `initialize`; `genesis` is `genesis_state_provider.certified_block()`. -/
def initializeStore (E : StoreEnv) (genesis : CertifiedBlock) : StoreM Unit := do
  let maybeLastCommittedBlock ← lastCommittedBlock E
  let maybeLastExecutedBlock ← lastExecutedBlock E
  match maybeLastCommittedBlock, maybeLastExecutedBlock with
  | none, none =>
    updateLastCommittedBlockInfo E genesis
    let genesisExecutedBlock : ExecutedBlock := ⟨genesis⟩
    if E.finalizes genesisExecutedBlock then
      write E .persistentStore (.executedBlock genesisExecutedBlock)
    else
      throw .genesisNotFinalized
  | some committed, some executed =>
    if committed ≠ executed.certifiedBlock ∧
        E.correctlyExtends committed.block executed.certifiedBlock.qc = false then
      throw (.doesNotExtend committed executed.certifiedBlock)
    else
      modify fun s => { s with lastCommittedBlockHeight := committed.height }
  | committed, executed => throw (.inconsistent committed executed)

/-! ## Blocks -/

/-- The loop of `persist` over the packed batches. -/
def persistBatches (E : StoreEnv) : List PackedSmrBatch → StoreM Unit
  | [] => pure ()
  | p :: ps => do
    write E .persistentStore (.batch p.key p.batch)
    persistBatches E ps

/-- `persist`: the batches, then the certified block. -/
def persist (E : StoreEnv) (fullBlock : FullBlock) : StoreM Unit := do
  persistBatches E fullBlock.batches
  write E .storageWriter (.certifiedBlock fullBlock.base)

/-- `ensure_can_be_cached`. -/
def ensureCanBeCached (height : Nat) : StoreM Unit := do
  let s ← get
  if height ≤ s.lastCommittedBlockHeight then
    throw (.cacheNotAboveCommitted height s.lastCommittedBlockHeight)
  else
    match s.pendingExecution height with
    | some (some (.scheduled _)) => throw (.cacheScheduled height)
    | _ => pure ()

/-- The reference `cache` keeps of a block: all of it inside the bucket, a memo outside. -/
def reference (s : BlockStore) (b : CertifiedBlock) : BlockReference :=
  if b.height ≤ s.lastCommittedBlockHeight + s.certifiedBlockCacheBucketSize then .block b
  else .memo b.info

/-- `cache`. -/
def cache (b : CertifiedBlock) : StoreM Unit := do
  ensureCanBeCached b.height
  modify fun s =>
    { s with pendingExecution := s.pendingExecution.insert b.height (some (s.reference b)) }

/-- `*entry = new_entry`, on an entry that is there. -/
def setEntry (height : Nat) (r : Option BlockReference) : StoreM Unit :=
  modify fun s => { s with pendingExecution := s.pendingExecution.insert height r }

/-- `self.pending_execution.remove(&height)`. -/
def removeEntry (height : Nat) : StoreM Unit :=
  modify fun s => { s with pendingExecution := s.pendingExecution.remove height }

/-- `take_next_ready_block_by_height`. The entry is emptied first: a failing read or hydration
of a memo's block returns with it empty. -/
def takeNextReadyBlockByHeight (E : StoreEnv) (height : Nat) :
    StoreM (Option CertifiedBlock) := do
  let s ← get
  match s.pendingExecution height with
  | none => pure none
  | some blockRef =>
    setEntry height none
    match blockRef with
    | none =>
      removeEntry height
      throw (.emptyEntry height)
    | some (.block b) =>
      setEntry height (some (.scheduled b.info))
      pure (some b)
    | some (.memo memo) =>
      let maybeBlock ← read E (.readCertifiedBlock memo.height) (·.certifiedBlock memo.height)
      match maybeBlock with
      | none =>
        removeEntry height
        throw (.memoWithoutBlock height)
      | some block =>
        let b ← read E (.hydrate block) fun _ => block
        setEntry height (some (.scheduled memo))
        pure (some b)
    | some (.scheduled memo) =>
      setEntry height (some (.scheduled memo))
      pure none

/-- The next ready block by the entry at its height. -/
theorem takeNextReadyBlockByHeight_eq (E : StoreEnv) (h : Nat) (s : BlockStore) :
    takeNextReadyBlockByHeight E h s = match s.pendingExecution h with
      | none => .ok none s
      | some none =>
        .error (.emptyEntry h) { s with pendingExecution := s.pendingExecution.remove h }
      | some (some (.block b)) => .ok (some b)
          { s with pendingExecution := s.pendingExecution.insert h (some (.scheduled b.info)) }
      | some (some (.memo i)) =>
        match E.fails (.readCertifiedBlock i.height) s.store.log with
        | some e => .error (.persistentStore e)
            { s with pendingExecution := s.pendingExecution.insert h none }
        | none =>
          match s.store.chain.certifiedBlock i.height with
          | none =>
            .error (.memoWithoutBlock h) { s with pendingExecution := s.pendingExecution.remove h }
          | some b =>
            match E.fails (.hydrate b) s.store.log with
            | some e => .error (.persistentStore e)
                { s with pendingExecution := s.pendingExecution.insert h none }
            | none => .ok (some b)
                { s with pendingExecution := s.pendingExecution.insert h (some (.scheduled i)) }
      | some (some (.scheduled i)) => .ok none
          { s with pendingExecution := s.pendingExecution.insert h (some (.scheduled i)) } := by
  unfold takeNextReadyBlockByHeight
  rw [get_bind]
  cases s.pendingExecution h with
  | none => rfl
  | some r =>
    rcases r with _ | (b | i | i)
    · simp only [setEntry, removeEntry, modify_bind, throw_apply, Cache.remove_insert]
    · simp only [setEntry, modify_bind, pure_apply, Cache.insert_insert]
    · simp only [setEntry, removeEntry, bind_apply, modify_apply, read]
      cases E.fails (.readCertifiedBlock i.height) s.store.log with
      | some e => rfl
      | none =>
        dsimp only
        cases s.store.chain.certifiedBlock i.height with
        | none => simp only [modify_bind, throw_apply, Cache.remove_insert]
        | some b =>
          simp only [bind_apply, read]
          cases E.fails (.hydrate b) s.store.log with
          | some e => rfl
          | none => simp only [modify_apply, pure_apply, Cache.insert_insert]
    · simp only [setEntry, modify_bind, pure_apply, Cache.insert_insert]

/-- `retain`. -/
def retain (lowerBound : Nat) : StoreM Unit :=
  modify fun s => { s with pendingExecution := s.pendingExecution.retain lowerBound }

/-- `has_entry`. -/
def hasEntry (s : BlockStore) (height : Nat) : Bool :=
  height ≤ s.lastCommittedBlockHeight || (s.pendingExecution height).isSome

theorem hasEntry_false {s : BlockStore} {h : Nat} :
    s.hasEntry h = false ↔ s.lastCommittedBlockHeight < h ∧ s.pendingExecution h = none := by
  simp [hasEntry]

end BlockStore

end Consensus
