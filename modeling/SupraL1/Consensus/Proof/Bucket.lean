import SupraL1.Lib.Relate
import SupraL1.Consensus.Proof.Creation

/-!
# The bucket size of the cache cannot be observed

The bucket size decides whether the cache keeps a block in full or as a memo, and a memo's block
is read from the store when its turn comes. `Alike s t`: the two assemblers differ in the bucket
size and in entries of the cache where one has the block and the other its memo, and the store
has that block. A height with an entry is not written again, so every function returns the same
on the two and keeps them alike.
-/

namespace Consensus.Proof

open EState ChainStateAssembler SynchronizationContext Relation

variable {E : Env} {st : BlockStore} {v : EpochStates} {s t : ChainStateAssembler} {w : World}

/-! ## Alike assemblers -/

/-- Entries at height `h` that stand for the same block. -/
inductive SameEntry (stored : Nat → Option CertifiedBlock) (h : Nat) :
    Option (Option BlockReference) → Option (Option BlockReference) → Prop
  | same (r : Option (Option BlockReference)) : SameEntry stored h r r
  | blockMemo {b : CertifiedBlock} (hh : b.height = h) (hs : stored h = some b) :
      SameEntry stored h (some (some (.block b))) (some (some (.memo b.info)))
  | memoBlock {b : CertifiedBlock} (hh : b.height = h) (hs : stored h = some b) :
      SameEntry stored h (some (some (.memo b.info))) (some (some (.block b)))

def withCache (p : Cache) (n : Nat) (s : ChainStateAssembler) : ChainStateAssembler :=
  { s with store := { s.store with pendingExecution := p, certifiedBlockCacheBucketSize := n } }

def Alike (s t : ChainStateAssembler) : Prop :=
  ∃ p n, t = withCache p n s ∧ ∀ h, SameEntry (stored s) h (pending s h) (p h)

theorem Alike.map {f : ChainStateAssembler → ChainStateAssembler}
    (hf : ∀ p n s, f (withCache p n s) = withCache p n (f s))
    (hp : ∀ s, pending (f s) = pending s) (hs : ∀ s, stored (f s) = stored s) (h : Alike s t) :
    Alike (f s) (f t) := by
  obtain ⟨p, n, rfl, he⟩ := h
  exact ⟨p, n, hf p n s, fun k => by rw [hp, hs]; exact he k⟩

theorem Alike.emit (h : Alike s t) (e : Event) : Alike (s.emit e) (t.emit e) :=
  h.map (f := (·.emit e)) (fun _ _ _ => rfl) (fun _ => rfl) fun _ => rfl

theorem Alike.write (h : Alike s t) {w : Write} (hw : ∀ b, w ≠ .certifiedBlock b) :
    Alike (s.write w) (t.write w) :=
  h.map (f := (·.write w)) (fun _ _ _ => rfl) (fun _ => rfl) fun _ => stored_write hw

theorem Alike.writeBlock (h : Alike s t) {b : CertifiedBlock} (hb : pending s b.height = none) :
    Alike (s.write (.certifiedBlock b)) (t.write (.certifiedBlock b)) := by
  obtain ⟨p, n, rfl, he⟩ := h
  refine ⟨p, n, rfl, fun k => ?_⟩
  have hk := he k
  show SameEntry (stored (s.write (.certifiedBlock b))) k (pending s k) (p k)
  -- the heights of other entries keep their block
  have hkeep : pending s k ≠ none → stored (s.write (.certifiedBlock b)) k = stored s k := by
    intro hne
    rw [stored_write_block, if_neg]
    rintro rfl
    exact hne hb
  generalize pending s k = r at hk hkeep ⊢
  generalize p k = r' at hk ⊢
  cases hk with
  | same => exact .same _
  | blockMemo hh hs => exact .blockMemo hh ((hkeep nofun).trans hs)
  | memoBlock hh hs => exact .memoBlock hh ((hkeep nofun).trans hs)

theorem Alike.insert (h : Alike s t) (k : Nat) (r : Option BlockReference) :
    Alike (withPending ((pending s).insert k r) s) (withPending ((pending t).insert k r) t) := by
  obtain ⟨p, n, rfl, he⟩ := h
  refine ⟨p.insert k r, n, rfl, fun j => ?_⟩
  show SameEntry (stored s) j ((pending s).insert k r j) (p.insert k r j)
  rw [Cache.insert_apply, Cache.insert_apply]
  split
  · exact .same _
  · exact he j

theorem Alike.remove (h : Alike s t) (k : Nat) :
    Alike (withPending ((pending s).remove k) s) (withPending ((pending t).remove k) t) := by
  obtain ⟨p, n, rfl, he⟩ := h
  refine ⟨p.remove k, n, rfl, fun j => ?_⟩
  show SameEntry (stored s) j ((pending s).remove k j) (p.remove k j)
  unfold Cache.remove
  rw [Function.update_apply, Function.update_apply]
  split
  · exact .same _
  · exact he j

theorem Alike.retain (h : Alike s t) (k : Nat) :
    Alike (withPending ((pending s).retain k) s) (withPending ((pending t).retain k) t) := by
  obtain ⟨p, n, rfl, he⟩ := h
  refine ⟨p.retain k, n, rfl, fun j => ?_⟩
  show SameEntry (stored s) j ((pending s).retain k j) (p.retain k j)
  rw [Cache.retain_apply, Cache.retain_apply]
  split
  · exact he j
  · exact .same _

theorem SameEntry.isSome {stored : Nat → Option CertifiedBlock} {h : Nat}
    {r r' : Option (Option BlockReference)} (hr : SameEntry stored h r r') :
    r.isSome = r'.isSome := by
  cases hr <;> rfl

theorem Alike.hasEntry (h : Alike s t) (k : Nat) : t.store.hasEntry k = s.store.hasEntry k := by
  obtain ⟨p, n, rfl, he⟩ := h
  show (_ || (p k).isSome) = (_ || (pending s k).isSome)
  rw [(he k).isSome]
  rfl

theorem Alike.pending_none (h : Alike s t) {k : Nat} (hk : pending s k = none) :
    pending t k = none := by
  obtain ⟨p, n, rfl, he⟩ := h
  have hs := (he k).isSome
  rw [hk] at hs
  exact Option.not_isSome_iff_eq_none.1 (by show ¬ (p k).isSome = true; rw [← hs]; nofun)

/-! ## The functions -/

/-- `m` returns the same on alike assemblers and keeps them alike. -/
abbrev KeepsAlike {α : Type} (m : AssemblerM α) : Prop := Tracks Alike Alike Alike m

section
variable (h : Alike s t)
include h

theorem Alike.log : t.log = s.log := by obtain ⟨p, n, rfl, -⟩ := h; rfl
theorem Alike.chain : t.chain = s.chain := by obtain ⟨p, n, rfl, -⟩ := h; rfl
theorem Alike.executed : t.lastExecutedBlockInfo = s.lastExecutedBlockInfo := by
  obtain ⟨p, n, rfl, -⟩ := h; rfl
theorem Alike.next : t.nextBlockHeight = s.nextBlockHeight := by obtain ⟨p, n, rfl, -⟩ := h; rfl
theorem Alike.verifier : t.blockVerifier = s.blockVerifier := by obtain ⟨p, n, rfl, -⟩ := h; rfl
theorem Alike.ended : t.isCurrentEpochOver = s.isCurrentEpochOver := by
  obtain ⟨p, n, rfl, -⟩ := h; rfl
theorem Alike.ready : t.readyToExecute = s.readyToExecute := by obtain ⟨p, n, rfl, -⟩ := h; rfl
theorem Alike.requested : requested t = requested s := by obtain ⟨p, n, rfl, -⟩ := h; rfl

theorem Alike.skipped : Skipped t ↔ Skipped s := by
  have hentry := h.hasEntry s.nextBlockHeight
  obtain ⟨p, n, rfl, -⟩ := h
  unfold Skipped
  rw [show (withCache p n s).nextBlockHeight = s.nextBlockHeight from rfl, hentry]
  rfl

end

theorem postSyncRequest_alike (n : Nat) : KeepsAlike (postSyncRequest E n) := by
  intro s t h
  unfold postSyncRequest
  rw [h.log]
  cases E.sendFails n s.log with
  | some e => exact ⟨rfl, h.emit _⟩
  | none => exact ⟨rfl, h.emit _⟩

theorem Alike.setPending (h : Alike s t) (r : Option Nat) :
    Alike (setPending r s) (setPending r t) :=
  h.map (f := SynchronizationContext.setPending r) (fun _ _ _ => rfl) (fun _ => rfl) fun _ => rfl

theorem retry_alike : KeepsAlike (retry E) := by
  intro s t h
  unfold retry
  rw [get_bind, get_bind, show t.synchronizer.pendingSyncRequest =
    s.synchronizer.pendingSyncRequest from h.requested]
  cases s.synchronizer.pendingSyncRequest with
  | some n => exact postSyncRequest_alike n s t h
  | none => exact ⟨rfl, h⟩

theorem tryToSyncSkippedBlocks_alike : KeepsAlike (tryToSyncSkippedBlocks E) := by
  intro s t h
  by_cases hs : Skipped s
  · rw [tryToSyncSkippedBlocks_pos hs, tryToSyncSkippedBlocks_pos (h.skipped.2 hs), h.next]
    cases hr : requested s with
    | none =>
      rw [tryPostSyncRequest_none hr, tryPostSyncRequest_none (h.requested.trans hr), h.log]
      cases E.sendFails s.nextBlockHeight s.log with
      | some e => exact ⟨rfl, (h.setPending _).emit _⟩
      | none => exact ⟨rfl, (h.setPending _).emit _⟩
    | some n =>
      rw [tryPostSyncRequest_some hr, tryPostSyncRequest_some (h.requested.trans hr)]
      split
      · exact ⟨rfl, h⟩
      · exact ⟨rfl, h⟩
  · rw [tryToSyncSkippedBlocks_neg hs, tryToSyncSkippedBlocks_neg fun ht => hs (h.skipped.1 ht)]
    exact ⟨rfl, h⟩

theorem Alike.clear (h : Alike s t) (n : Nat) {f : ChainStateAssembler → ChainStateAssembler}
    (hf : f = fun s => if s.synchronizer.pendingSyncRequest = some n then
      SynchronizationContext.setPending none s else s) : Alike (f s) (f t) := by
  subst hf
  dsimp only
  rw [show t.synchronizer.pendingSyncRequest = _ from h.requested]
  split
  · exact h.setPending none
  · exact h

theorem write_alike {err : StoreError → BlockStoreError} {w : Write}
    (hw : ∀ b, w ≠ .certifiedBlock b) :
    KeepsAlike (onStore (BlockStore.write E.toStoreEnv err w)) := by
  intro s t h
  rw [onStore_write, onStore_write, h.log]
  cases E.fails (.write w) s.log with
  | some e => exact ⟨rfl, h.emit _⟩
  | none => exact ⟨rfl, h.write hw⟩

theorem doesFollowChain_alike {P : ChainStateAssembler → ChainStateAssembler → Prop}
    (hP : ∀ s t, P s t → Alike s t) (b : CertifiedBlock) :
    Tracks P P Alike (doesFollowChain b) := by
  intro s t h
  unfold doesFollowChain
  rw [get_bind, get_bind, (hP s t h).next, (hP s t h).executed]
  split
  · split
    · exact ⟨rfl, h⟩
    · exact ⟨rfl, hP s t h⟩
  · exact ⟨rfl, h⟩

theorem trySend_alike (b : CertifiedBlock) : KeepsAlike (trySend b) := by
  intro s t h
  unfold trySend
  rw [get_bind, get_bind, h.ready]
  split
  · refine ⟨rfl, ?_⟩
    exact h.map (f := fun s => { s with readyToExecute := s.readyToExecute ++ [b] })
      (fun _ _ _ => rfl) (fun _ => rfl) fun _ => rfl
  · exact ⟨rfl, h⟩

/-! ## Execution -/

theorem Alike.returned (h : Alike s t) (b : CertifiedBlock) :
    answer E b t = answer E b s ∧ Alike (returned E b s) (returned E b t) := by
  have hans : answer E b t = answer E b s := by obtain ⟨p, n, rfl, -⟩ := h; rfl
  have hcommit : Alike (commitTo b s) (commitTo b t) :=
    Alike.write (h.map (f := withCommitted b.height) (fun _ _ _ => rfl) (fun _ => rfl)
      fun _ => rfl) nofun
  refine ⟨hans, ?_⟩
  unfold Proof.returned
  rw [hans, h.verifier]
  cases (answer E b s).record with
  | none => exact hcommit.emit _
  | some r => exact (hcommit.emit _).write nofun

theorem Alike.advance (h : Alike s t) (b : CertifiedBlock) (flag : Bool) :
    Alike (advance b flag s) (advance b flag t) := by
  have hv := h.map (f := fun s => { s with
    lastExecutedBlockInfo := b.info
    blockVerifier := if flag then s.blockVerifier.endCurrentEpoch else s.blockVerifier })
    (fun _ _ _ => rfl) (fun _ => rfl) fun _ => rfl
  exact hv.retain b.height

theorem executeBlock_alike (b : CertifiedBlock) : KeepsAlike (executeBlock E b) := by
  intro s t h
  obtain ⟨hans, hret⟩ := h.returned (E := E) b
  rw [executeBlock_eq, executeBlock_eq, h.log, hans]
  cases E.fails (.write (.committedBlock b)) s.log with
  | some e =>
    refine ⟨rfl, Alike.emit ?_ _⟩
    exact h.map (f := withCommitted b.height) (fun _ _ _ => rfl) (fun _ => rfl) fun _ => rfl
  | none =>
    cases (answer E b s).result with
    | error e => exact ⟨rfl, hret⟩
    | ok flag => exact ⟨rfl, (hret.emit _).advance b flag⟩

/-- The block that is taken is the cached one in one run and the stored one in the other. -/
theorem takeNext_alike (hrel : E.toStoreEnv.Reliable) (k : Nat) :
    KeepsAlike (onStore (BlockStore.takeNextReadyBlockByHeight E.toStoreEnv k)) := by
  intro s t h
  have hchain : t.store.store.chain = s.store.store.chain := h.chain
  obtain ⟨r, r', hps, hpt, hr⟩ : ∃ r r', s.store.pendingExecution k = r ∧
      t.store.pendingExecution k = r' ∧ SameEntry (stored s) k r r' := by
    obtain ⟨p, n, rfl, he⟩ := h
    exact ⟨_, _, rfl, rfl, he k⟩
  unfold onStore onPart
  rw [BlockStore.takeNextReadyBlockByHeight_eq, BlockStore.takeNextReadyBlockByHeight_eq, hps, hpt,
    hchain]
  simp only [hrel _ _]
  cases hr with
  | same =>
    rcases r with _ | _ | (b | i | i)
    · exact ⟨rfl, h⟩
    · exact ⟨rfl, h.remove k⟩
    · exact ⟨rfl, h.insert k _⟩
    · dsimp only
      cases s.store.store.chain.certifiedBlock i.height with
      | none => exact ⟨rfl, h.remove k⟩
      | some b => exact ⟨rfl, h.insert k _⟩
    · exact ⟨rfl, h.insert k _⟩
  | @blockMemo b hh hs =>
    dsimp only
    rw [show s.store.store.chain.certifiedBlock b.info.height = some b from
      (congrArg s.store.store.chain.certifiedBlock hh).trans hs]
    exact ⟨rfl, h.insert k _⟩
  | @memoBlock b hh hs =>
    dsimp only
    rw [show s.store.store.chain.certifiedBlock b.info.height = some b from
      (congrArg s.store.store.chain.certifiedBlock hh).trans hs]
    exact ⟨rfl, h.insert k _⟩

theorem tryExecuteBlockChain_alike (hrel : E.toStoreEnv.Reliable) (b : CertifiedBlock) :
    KeepsAlike (tryExecuteBlockChain E b) := by
  refine .bind (executeBlock_alike b) fun _ s t h => ?_
  rw [get_bind, get_bind, h.ended, h.next]
  split
  · exact write_alike (w := .epochBoundaryBlockQC b.qc) nofun s t h
  · refine Tracks.bind (takeNext_alike hrel _) (fun r => ?_) s t h
    cases r with
    | some b' => exact trySend_alike b'
    | none => exact tryToSyncSkippedBlocks_alike

/-! ## Blocks from the channels -/

theorem clear_alike (n : Nat) : KeepsAlike (clear n) := .act fun _ _ h => h.clear n rfl

theorem handleScheduledBlock_alike (hrel : E.toStoreEnv.Reliable) (b : CertifiedBlock) :
    KeepsAlike (handleScheduledBlock E b) := by
  refine .bind (clear_alike _) fun _ s t h => ?_
  rw [get_bind, get_bind, h.ended, h.executed]
  split
  · exact ⟨rfl, h⟩
  · refine Tracks.bind (doesFollowChain_alike (fun _ _ h => h) b) (fun follows => ?_) s t h
    cases follows with
    | true => exact tryExecuteBlockChain_alike hrel b
    | false =>
      exact .bind (.act fun _ _ h => h.retain b.height) fun _ => .fail fun _ _ h => h

theorem receiveScheduled_alike (hrel : E.toStoreEnv.Reliable) :
    KeepsAlike (receiveScheduled E) := by
  intro s t h
  unfold receiveScheduled
  rw [get_bind, get_bind, h.ready]
  cases s.readyToExecute with
  | nil => exact ⟨rfl, h⟩
  | cons b rest =>
    have hpop := h.map (f := withReady rest) (fun _ _ _ => rfl) (fun _ => rfl) fun _ => rfl
    exact handleScheduledBlock_alike hrel b _ _ hpop

/-- Alike, with nothing cached at the height of `b`. -/
def AlikeFree (b : CertifiedBlock) (s t : ChainStateAssembler) : Prop :=
  Alike s t ∧ pending s b.height = none

/-- Alike, with `b` in the store and nothing cached at its height. -/
def AlikeStored (b : CertifiedBlock) (s t : ChainStateAssembler) : Prop :=
  AlikeFree b s t ∧ stored s b.height = some b

theorem persistBatches_alike (b : CertifiedBlock) (ps : List PackedSmrBatch) :
    Tracks (AlikeFree b) (AlikeFree b) Alike
      (onStore (BlockStore.persistBatches E.toStoreEnv ps)) := by
  induction ps with
  | nil => exact .ret fun _ _ h => h
  | cons p ps ih =>
    unfold BlockStore.persistBatches
    rw [onStore_bind]
    refine .bind (Q := AlikeFree b) (fun s t h => ?_) fun _ => ih
    rw [onStore_write, onStore_write, h.1.log]
    cases E.fails (.write (.batch p.key p.batch)) s.log with
    | some e => exact ⟨rfl, h.1.emit _⟩
    | none => exact ⟨rfl, h.1.write (by simp), h.2⟩

theorem persist_alike (fb : FullBlock) :
    Tracks (AlikeFree fb.base) (AlikeStored fb.base) Alike
      (onStore (BlockStore.persist E.toStoreEnv fb)) := by
  unfold BlockStore.persist
  rw [onStore_bind]
  refine .bind (persistBatches_alike fb.base fb.batches) fun _ s t h => ?_
  rw [onStore_write, onStore_write, h.1.log]
  cases E.fails (.write (.certifiedBlock fb.base)) s.log with
  | some e => exact ⟨rfl, h.1.emit _⟩
  | none => exact ⟨rfl, ⟨h.1.writeBlock h.2, h.2⟩, by rw [stored_write_block, if_pos rfl]⟩

theorem Alike.cache {b : CertifiedBlock} (h : AlikeStored b s t) :
    Alike (withPending ((pending s).insert b.height (some (s.store.reference b))) s)
      (withPending ((pending t).insert b.height (some (t.store.reference b))) t) := by
  obtain ⟨⟨⟨p, n, rfl, he⟩, -⟩, hs⟩ := h
  refine ⟨p.insert b.height (some ((withCache p n s).store.reference b)), n, rfl, fun j => ?_⟩
  show SameEntry (stored s) j ((pending s).insert b.height _ j) (p.insert b.height _ j)
  rw [Cache.insert_apply, Cache.insert_apply]
  split
  · subst j
    unfold BlockStore.reference
    split <;> split
    · exact .same _
    · exact .blockMemo rfl hs
    · exact .memoBlock rfl hs
    · exact .same _
  · exact he j

theorem cache_alike (b : CertifiedBlock) :
    Tracks (AlikeStored b) Alike Alike (onStore (BlockStore.cache b)) := by
  unfold BlockStore.cache
  rw [onStore_bind]
  refine .bind (Q := AlikeStored b) (fun s t h => ?_) fun _ => .act fun _ _ h => Alike.cache h
  have hcommitted : t.store.lastCommittedBlockHeight = s.store.lastCommittedBlockHeight := by
    obtain ⟨⟨⟨p, n, rfl, -⟩, -⟩, -⟩ := h; rfl
  have hfree : t.store.pendingExecution b.height = none := h.1.1.pending_none h.1.2
  unfold onStore onPart BlockStore.ensureCanBeCached
  rw [get_bind, get_bind, show s.store.pendingExecution b.height = none from h.1.2, hfree,
    hcommitted]
  by_cases hc : b.height ≤ s.store.lastCommittedBlockHeight
  · simp only [if_pos hc]
    exact ⟨rfl, h.1.1⟩
  · simp only [if_neg hc]
    exact ⟨rfl, h⟩

theorem AlikeStored.clear {b : CertifiedBlock} (h : AlikeStored b s t) (n : Nat) :
    AlikeStored b (after (clear n) s) (after (clear n) t) := by
  have hkeep : pending (after (SynchronizationContext.clear n) s) = pending s ∧
      stored (after (SynchronizationContext.clear n) s) = stored s := by
    show pending (if _ then _ else _) = _ ∧ stored (if _ then _ else _) = _
    split
    · exact ⟨rfl, rfl⟩
    · exact ⟨rfl, rfl⟩
  exact ⟨⟨h.1.1.clear n rfl, by rw [hkeep.1]; exact h.1.2⟩, by rw [hkeep.2]; exact h.2⟩

theorem handleFullBlock_alike (hrel : E.toStoreEnv.Reliable) (fb : FullBlock) :
    Tracks (AlikeFree fb.base) Alike Alike (handleFullBlock E fb) := by
  intro s t h
  unfold handleFullBlock
  rw [get_bind, get_bind, h.1.executed]
  split
  · exact ⟨rfl, h.1⟩
  · refine Tracks.bind (persist_alike fb) (fun _ => ?_) s t h
    refine .bind (doesFollowChain_alike (fun _ _ h => h.1.1) fb.base) fun follows => ?_
    refine .bind (Q := AlikeStored fb.base) (.act fun _ _ h => h.clear fb.base.height) fun _ => ?_
    cases follows with
    | true =>
      exact fun s t h => tryExecuteBlockChain_alike hrel fb.base s t h.1.1
    | false => exact .bind (cache_alike fb.base) fun _ => tryToSyncSkippedBlocks_alike

theorem Alike.observe (h : Alike s t) (b : CertifiedBlock) :
    Alike (observeBlock b s) (observeBlock b t) := by
  have hobs : t.lastObservedHighestBlock = s.lastObservedHighestBlock := by
    obtain ⟨p, n, rfl, -⟩ := h; rfl
  unfold observeBlock
  rw [hobs]
  split
  · exact h.map (f := fun s => { s with lastObservedHighestBlock := some b.info })
      (fun _ _ _ => rfl) (fun _ => rfl) fun _ => rfl
  · exact h

theorem handleIncomingBlock_alike (hrel : E.toStoreEnv.Reliable) (msg : RpcBlockData) :
    KeepsAlike (handleIncomingBlock E msg) := by
  refine .bind (.act fun _ _ h => h.observe msg.fullBlock.base) fun _ s t h => ?_
  have hskip : t.shouldBeSkipped msg.fullBlock.base = s.shouldBeSkipped msg.fullBlock.base := by
    unfold shouldBeSkipped
    rw [h.ended, h.executed, h.hasEntry]
  rw [get_bind, get_bind, hskip, h.verifier]
  split
  · exact ⟨rfl, h⟩
  · rename_i hs
    cases E.verify s.blockVerifier msg.fullBlock with
    | success =>
      refine handleFullBlock_alike hrel msg.fullBlock s t ⟨h, ?_⟩
      -- a block with an entry at its height is skipped
      have hentry : s.store.hasEntry msg.fullBlock.base.height = false := by
        unfold shouldBeSkipped at hs
        exact (Bool.or_eq_false_iff.1 (Bool.not_eq_true _ ▸ hs)).2
      exact (BlockStore.hasEntry_false.1 hentry).2
    | oldEpochBlock => exact ⟨rfl, h⟩
    | futureEpochBlock => exact tryToSyncSkippedBlocks_alike s t h
    | invalidBlock e => exact ⟨rfl, h⟩

/-! ## Notifications, steps and runs -/

theorem applyNotification_alike (n : Notification) : KeepsAlike (applyNotification E n) := by
  cases n with
  | endEpoch => exact .ret fun _ _ h => h
  | newEpoch e =>
    refine .bind (.act fun _ _ h => h.retain e.startHeight) fun _ => ?_
    refine .bind (Q := Alike) (.act fun s t h => ?_) fun _ => tryToSyncSkippedBlocks_alike
    exact h.map (f := fun s => { s with blockVerifier := s.blockVerifier.insert e })
      (fun _ _ _ => rfl) (fun _ => rfl) fun _ => rfl

theorem handleEpochManagerNotification_alike (n : Notification) :
    KeepsAlike (handleEpochManagerNotification E n) := by
  have hgo : KeepsAlike (do
      let result ← attempt (applyNotification E n)
      modify (·.emit .ack)
      ofExcept result) := by
    refine .bind (applyNotification_alike n).attempt fun r => ?_
    refine .bind (Q := Alike) (.act fun _ _ h => h.emit .ack) fun _ => ?_
    cases r with
    | ok a => exact .ret fun _ _ h => h
    | error e => exact .fail fun _ _ h => h
  intro s t h
  have hcur : t.currentEpochState = s.currentEpochState := congrArg EpochStates.current h.verifier
  unfold handleEpochManagerNotification
  rw [get_bind, get_bind, h.ended, hcur]
  split
  · exact ⟨rfl, h⟩
  · cases n with
    | endEpoch => exact hgo s t h
    | newEpoch e =>
      dsimp only
      split
      · exact ⟨rfl, h⟩
      · exact hgo s t h

/-- **A step returns the same on alike assemblers and keeps them alike.** -/
theorem doStep_alike (hrel : E.toStoreEnv.Reliable) (tr : Trigger) : KeepsAlike (doStep E tr) := by
  cases tr with
  | epochNotification n =>
    exact .bind (handleEpochManagerNotification_alike n) fun _ => .ret fun _ _ h => h
  | epochManagerGone => exact .ret fun _ _ h => h
  | shutdown => exact .ret fun _ _ h => h
  | incomingBlock msg =>
    exact .bind (handleIncomingBlock_alike hrel msg) fun _ => .ret fun _ _ h => h
  | blocksChannelClosed => exact .ret fun _ _ h => h
  | readyToExecute => exact .bind (receiveScheduled_alike hrel) fun _ => .ret fun _ _ h => h
  | syncTimer => exact .bind retry_alike fun _ => .ret fun _ _ h => h

/-! ## Creation -/

theorem execute_alike (b : CertifiedBlock) : Tracks Alike Alike Alike (execute E b) := by
  intro s t h
  have hx := executeBlock_alike (E := E) b s t h
  unfold execute
  cases hs : executeBlock E b s with
  | ok a s' =>
    cases ht : executeBlock E b t with
    | ok a' t' => rw [hs, ht] at hx; exact ⟨rfl, hx.2⟩
    | error e t' => rw [hs, ht] at hx; exact hx.elim
  | error e s' =>
    cases ht : executeBlock E b t with
    | ok a t' => rw [hs, ht] at hx; exact hx.elim
    | error e' t' =>
      rw [hs, ht] at hx
      obtain ⟨rfl, hx⟩ := hx
      cases e <;> exact ⟨rfl, hx⟩

/-- The warranter succeeds on both of two alike assemblers or on neither: with a reliable store
what it does is decided by the persisted blocks and the execution. -/
theorem warranted_alike (hrel : E.toStoreEnv.Reliable) (h : Alike s t) {s' : ChainStateAssembler}
    {r : EStateM.Result StateConsistencyWarranterError ChainStateAssembler Unit}
    (hs : Warranted E s (.ok () s')) (ht : Warranted E t r) :
    ∃ t', r = .ok () t' ∧ Alike s' t' := by
  -- the last committed and executed blocks are the same, and so is the execution's end
  have hrec : ∀ {c x c' x'}, s.chain.committedBlock = some c → s.chain.executedBlock = some x →
      t.chain.committedBlock = some c' → t.chain.executedBlock = some x' → c' = c ∧ x' = x := by
    intro c x c' x' hc hx hc' hx'
    rw [h.chain] at hc' hx'
    exact ⟨Option.some.inj (hc'.symm.trans hc), Option.some.inj (hx'.symm.trans hx)⟩
  have hread : ∀ {c x} {α : Prop}, s.chain.committedBlock = some c →
      s.chain.executedBlock = some x → (E.fails .readCommittedBlock t.log ≠ none ∨
        E.fails .readExecutedBlock t.log ≠ none ∨ t.chain.committedBlock = none ∨
        t.chain.executedBlock = none) → α := by
    intro c x α hc hx hbad
    rw [h.chain, hc, hx, hrel, hrel] at hbad
    simp at hbad
  cases hs with
  | consistent hc hx he =>
    cases ht with
    | unread e hbad => exact hread hc hx hbad
    | consistent _ _ _ => exact ⟨t, rfl, h⟩
    | restored hc' hx' hne _ | duplicate hc' hx' hne _ _ | failed hc' hx' hne _ _ =>
      obtain ⟨rfl, rfl⟩ := hrec hc hx hc' hx'
      exact absurd he hne
  | @restored c x _ hc hx hne hok =>
    have hex := execute_alike (E := E) c s t h
    rw [hok] at hex
    cases ht with
    | unread e hbad => exact hread hc hx hbad
    | consistent hc' hx' he =>
      obtain ⟨rfl, rfl⟩ := hrec hc hx hc' hx'
      exact absurd he hne
    | restored hc' hx' _ hok' =>
      obtain ⟨rfl, rfl⟩ := hrec hc hx hc' hx'
      rw [hok'] at hex
      exact ⟨_, rfl, hex.2⟩
    | duplicate hc' hx' _ herr _ | failed hc' hx' _ herr _ =>
      obtain ⟨rfl, rfl⟩ := hrec hc hx hc' hx'
      rw [herr] at hex
      exact hex.elim
  | @duplicate c x _ e hc hx hne herr hd =>
    have hex := execute_alike (E := E) c s t h
    rw [herr] at hex
    cases ht with
    | unread e hbad => exact hread hc hx hbad
    | consistent hc' hx' he =>
      obtain ⟨rfl, rfl⟩ := hrec hc hx hc' hx'
      exact absurd he hne
    | restored hc' hx' _ hok =>
      obtain ⟨rfl, rfl⟩ := hrec hc hx hc' hx'
      rw [hok] at hex
      exact hex.elim
    | duplicate hc' hx' _ herr' _ =>
      obtain ⟨rfl, rfl⟩ := hrec hc hx hc' hx'
      rw [herr'] at hex
      exact ⟨_, rfl, hex.2⟩
    | failed hc' hx' _ herr' hd' =>
      obtain ⟨rfl, rfl⟩ := hrec hc hx hc' hx'
      rw [herr'] at hex
      rw [hd' e hex.1.symm] at hd
      cases hd

theorem new_alike {W : Warranter E} (hrel : E.toStoreEnv.Reliable) (n : Nat)
    (hnew : new E W st v = (.ok s, w)) :
    ∃ t, new E W { st with certifiedBlockCacheBucketSize := n } v = (.ok t, w) ∧ Alike s t := by
  rw [new_eq, hrel] at hnew
  dsimp only at hnew
  cases hx : st.store.chain.executedBlock with
  | none => rw [hx] at hnew; cases hnew
  | some x =>
    rw [hx] at hnew
    dsimp only at hnew
    have hcreated : Alike (created x st v) (withCache st.pendingExecution n (created x st v)) :=
      ⟨st.pendingExecution, n, rfl, fun _ => .same _⟩
    have hws := W.warranted (created x st v)
    have hwt := W.warranted (withCache st.pendingExecution n (created x st v))
    cases hs : W.ensureConsistent (created x st v) with
    | error e s' => rw [hs] at hnew; cases hnew
    | ok a s' =>
      rw [hs] at hnew hws
      cases hnew
      obtain ⟨t, ht, halike⟩ := warranted_alike hrel hcreated hws hwt
      refine ⟨t, ?_, halike⟩
      rw [new_eq, hrel]
      dsimp only
      rw [hx]
      dsimp only
      rw [show created x { st with certifiedBlockCacheBucketSize := n } v =
        withCache st.pendingExecution n (created x st v) from rfl, ht]
      obtain ⟨p, m, rfl, -⟩ := halike
      rfl

/-- **The bucket size cannot be observed.** With another bucket size `new` succeeds as well, and
the two assemblers return the same from every step of any run and have the same events, among
them the blocks handed to the executor, the sync requests and the writes to the store. -/
theorem bucket_size_unobservable {W : Warranter E} (hrel : E.toStoreEnv.Reliable)
    (hnew : new E W st v = (.ok s, w)) (n : Nat) :
    ∃ t, new E W { st with certifiedBlockCacheBucketSize := n } v = (.ok t, w) ∧
      ∀ ts, results (doStep E) t ts = results (doStep E) s ts ∧
        (steps (doStep E) t ts).log = (steps (doStep E) s ts).log ∧
        (steps (doStep E) t ts).chain = (steps (doStep E) s ts).chain := by
  obtain ⟨t, ht, halike⟩ := new_alike hrel n hnew
  refine ⟨t, ht, fun ts => ?_⟩
  have hend := tracks_steps (doStep_alike hrel) halike ts
  exact ⟨(tracks_results (doStep_alike hrel) halike ts).symm, hend.log, hend.chain⟩

/-- Block 2 waits as a memo without a bucket, and in full with a bucket of two. -/
theorem bucket_size_unobservable_small :
    (steps (doStep (Small.env fun _ => .ok false)) (Small.assembler 0)
        [.incomingBlock (.newBlock (Small.fullBlock 1 2))]).store.pendingExecution 2 =
          some (some (.memo (Small.block 1 2).info)) ∧
      (steps (doStep (Small.env fun _ => .ok false)) (Small.assembler 2)
        [.incomingBlock (.newBlock (Small.fullBlock 1 2))]).store.pendingExecution 2 =
          some (some (.block (Small.block 1 2))) ∧
      ∃ t, new (Small.env fun _ => .ok false) (Warranter.standard _)
          { Small.store (Small.block 1 0) (Small.block 1 0) 0 with
            certifiedBlockCacheBucketSize := 2 } ⟨Small.epochState 1 0⟩ =
          (.ok t, (Small.assembler 0).store.store) ∧
        ∀ ts, results (doStep (Small.env fun _ => .ok false)) t ts =
          results (doStep (Small.env fun _ => .ok false)) (Small.assembler 0) ts := by
  refine ⟨by decide, by decide, ?_⟩
  obtain ⟨t, ht, hts⟩ := bucket_size_unobservable (fun _ _ => rfl)
    (Small.new_assembler (fun _ => .ok false) 0) 2
  exact ⟨t, ht, fun ts => (hts ts).1⟩

end Consensus.Proof
