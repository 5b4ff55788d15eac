import SupraL1.Consensus.Proof.Epoch
import SupraL1.Consensus.Proof.Restart

/-!
# The epoch boundary record

When the execution of a block ends the epoch, `try_execute_block_chain` persists the block's QC
as the epoch boundary record. Blocks are executed on a second path as well, by the warranter when
the assembler is created, and this one has no such write. The record is right in every state
reached exactly when the restoring execution has not ended the epoch with another record in the
store (`boundary_record_right_iff`).
-/

namespace Consensus.Proof

open EState ChainStateAssembler SynchronizationContext Relation

variable {E : Env} {A : CertifiedBlock → Prop} {o : Origin} {g : CertifiedBlock} {size : Nat}
  {st : BlockStore} {v : EpochStates} {s s' : ChainStateAssembler} {w : World}

/-! ## Executions in the log -/

/-- The block the executor returned from last, with its epoch change flag. -/
def lastExecution (log : List Event) : Option (CertifiedBlock × Bool) :=
  (log.filterMap fun
    | .executed b flag => some (b, flag)
    | _ => none).getLast?

theorem lastExecution_executed (l : List Event) (b : CertifiedBlock) (flag : Bool) :
    lastExecution (l ++ [Event.executed b flag]) = some (b, flag) := by
  simp [lastExecution]

theorem lastExecution_other {l : List Event} {e : Event} (h : ∀ b flag, e ≠ .executed b flag) :
    lastExecution (l ++ [e]) = lastExecution l := by
  unfold lastExecution
  rw [List.filterMap_append]
  cases e with
  | executed b flag => exact absurd rfl (h b flag)
  | _ => exact congrArg List.getLast? (List.append_nil _)

theorem lastExecution_acks (l : List Event) (k : Nat) :
    lastExecution (l ++ List.replicate k Event.ack) = lastExecution l := by
  induction k with
  | zero => simp
  | succ k ih => rw [List.replicate_succ', ← List.append_assoc,
    lastExecution_other (e := .ack) nofun, ih]

theorem lastExecution_writes {l : List Event} (h : ∀ e ∈ l, ∃ w, e = .write w) :
    lastExecution l = none := by
  unfold lastExecution
  rw [List.filterMap_eq_nil_iff.2 fun e he => by obtain ⟨w, rfl⟩ := h e he; rfl]
  rfl

/-- When the epoch is over and its last execution has ended it, the persisted record is the QC of
the last executed block. -/
def BoundaryRecorded (s : ChainStateAssembler) : Prop :=
  s.isCurrentEpochOver = true → ∀ b, lastExecution s.log = some (b, true) →
    executed s = b.info ∧ s.chain.epochBoundaryBlockQC = some b.qc

/-! ## What changes the verifier -/

theorem keeps_onStore {α : Type} (m : StoreM α) :
    Keeps ChainStateAssembler.blockVerifier (onStore m) := by
  intro s
  unfold after onStore onPart
  cases m s.store <;> rfl

theorem keeps_doesFollowChain (b : CertifiedBlock) :
    Keeps ChainStateAssembler.blockVerifier (doesFollowChain b) :=
  .read fun _ => .ite (.ite (.ret true) (.fail _)) (.ret false)

theorem keeps_trySend (b : CertifiedBlock) :
    Keeps ChainStateAssembler.blockVerifier (trySend b) :=
  .read fun _ => .ite (.act fun _ => rfl) (.fail _)

/-! ## Steps of a live assembler -/

def Live (s : ChainStateAssembler) : Prop := s.isCurrentEpochOver = false

theorem Live.recorded (h : Live s) : BoundaryRecorded s := fun ho => by rw [h] at ho; cases ho

/-- From a live state, `m` ends with the record right. -/
def Records {α : Type} (m : AssemblerM α) : Prop :=
  Does (fun _ _ => True) Live m (fun _ => BoundaryRecorded) fun _ => BoundaryRecorded

theorem Records.of_keeps {α : Type} {m : AssemblerM α}
    (h : Keeps ChainStateAssembler.blockVerifier m) : Records m :=
  (h.does (P := fun v : EpochStates => v.current.isEpochOver = false) fun _ => trivial).conseq
    (fun _ h => h) (fun _ _ h => Live.recorded h) fun _ _ h => Live.recorded h

theorem Records.bind {α β : Type} {m : AssemblerM α} {k : α → AssemblerM β}
    (h : Keeps ChainStateAssembler.blockVerifier m) (hk : ∀ a, Records (k a)) : Records (m >>= k) :=
  Does.bind ((h.does (P := fun v : EpochStates => v.current.isEpochOver = false) fun _ => trivial).conseq
    (fun _ h => h) (fun _ _ h => h) fun _ _ h => Live.recorded h) hk

theorem Records.after {α : Type} {m : AssemblerM α} (h : Records m) (hs : Live s) :
    BoundaryRecorded (after m s) := by
  have h1 := h s hs
  cases hm : m s with
  | ok a s' => rw [hm] at h1; rw [after_ok hm]; exact h1.2
  | error e s' => rw [hm] at h1; rw [after_error hm]; exact h1.2

theorem tryExecuteBlockChain_records (hrel : E.toStoreEnv.Reliable) (b : CertifiedBlock) :
    Records (tryExecuteBlockChain E b) := by
  intro s hl
  have hexec := executeBlock_eq E b s
  rw [hrel] at hexec
  have hret : Live (returned E b s) := by
    exact (congrArg ChainStateAssembler.isCurrentEpochOver (returned_core E b s)).trans hl
  unfold tryExecuteBlockChain
  cases hres : (answer E b s).result with
  | error e =>
    rw [hres] at hexec
    rw [bind_error hexec]
    exact ⟨.single trivial, hret.recorded⟩
  | ok flag =>
    rw [hres] at hexec
    rw [bind_ok hexec, get_bind, advance_over]
    cases flag with
    | true =>
      rw [Bool.true_or, if_pos rfl]
      unfold BlockStore.updateEpochBoundaryBlockInfo
      rw [onStore_write, hrel]
      refine ⟨.single trivial, fun _ b' hlast => ?_⟩
      have hlog : lastExecution ((returned E b s).log ++ [Event.executed b true] ++
          [Event.write (.epochBoundaryBlockQC b.qc)]) = some (b, true) := by
        rw [lastExecution_other (e := .write _) nofun, lastExecution_executed]
      cases hlog.symm.trans hlast
      exact ⟨rfl, rfl⟩
    | false =>
      rw [Bool.false_or, show ((returned E b s).emit (.executed b false)).isCurrentEpochOver = false
        from hret, if_neg Bool.false_ne_true]
      have hlive : Live (advance b false ((returned E b s).emit (.executed b false))) := hret
      refine (Records.bind (keeps_onStore _) (fun r => ?_) _ hlive).head trivial
      cases r with
      | some b' => exact .of_keeps (keeps_trySend b')
      | none => exact .of_keeps (keeps_verifier keeps_tryToSyncSkippedBlocks)

theorem handleScheduledBlock_records (hrel : E.toStoreEnv.Reliable) (b : CertifiedBlock) :
    Records (handleScheduledBlock E b) := by
  refine .bind (keeps_verifier (keeps_clear _)) fun _ => .read fun s hs => ?_
  rw [if_neg (by rw [show s.isCurrentEpochOver = false from hs]; exact Bool.false_ne_true)]
  refine Records.bind (keeps_doesFollowChain b) (fun follows => ?_) s hs
  cases follows with
  | true => exact tryExecuteBlockChain_records hrel b
  | false => exact .of_keeps (.bind (keeps_onStore _) fun _ => .fail _)

theorem receiveScheduled_records (hrel : E.toStoreEnv.Reliable) : Records (receiveScheduled E) := by
  refine .read fun s hs => ?_
  cases s.readyToExecute with
  | nil => exact Records.of_keeps (.ret ()) s hs
  | cons b rest =>
    have hpop : Keeps ChainStateAssembler.blockVerifier
        (modify (withReady rest) : AssemblerM Unit) := .act fun _ => rfl
    exact Records.bind hpop (fun _ => handleScheduledBlock_records hrel b) s hs

theorem handleFullBlock_records (hrel : E.toStoreEnv.Reliable) (fb : FullBlock) :
    Records (handleFullBlock E fb) := by
  refine .read fun s hs => ?_
  refine Does.ite (fun _ => ?_) (fun _ => ?_) s hs
  · exact Records.of_keeps (.fail _)
  · refine Records.bind (keeps_onStore _) fun _ => .bind (keeps_doesFollowChain _) fun follows =>
      .bind (keeps_verifier (keeps_clear _)) fun _ => ?_
    cases follows with
    | true => exact tryExecuteBlockChain_records hrel fb.base
    | false => exact .of_keeps (.bind (keeps_onStore _) fun _ =>
      keeps_verifier keeps_tryToSyncSkippedBlocks)

theorem handleIncomingBlock_records (hrel : E.toStoreEnv.Reliable) (msg : RpcBlockData) :
    Records (handleIncomingBlock E msg) := by
  have hobserve : ∀ s, (observeBlock msg.fullBlock.base s).blockVerifier = s.blockVerifier := by
    intro s
    unfold observeBlock
    split <;> rfl
  refine .bind (.act hobserve) fun _ => .read fun s hs => ?_
  refine Does.ite (fun _ => ?_) (fun _ => ?_) s hs
  · exact Records.of_keeps (.ret ())
  · cases E.verify s.blockVerifier msg.fullBlock with
    | success => exact handleFullBlock_records hrel _
    | oldEpochBlock => exact Records.of_keeps (.ret ())
    | futureEpochBlock => exact Records.of_keeps (keeps_verifier keeps_tryToSyncSkippedBlocks)
    | invalidBlock e => exact Records.of_keeps (.fail _)

theorem Records.result {m : AssemblerM Unit} (h : Records m) :
    Records (m >>= fun _ => pure true : AssemblerM Bool) :=
  Does.bind h fun _ => .ret fun _ h => h

theorem doStep_records (hrel : E.toStoreEnv.Reliable) (t : Trigger) (hs : Live s) :
    BoundaryRecorded (after (doStep E t) s) := by
  cases t with
  | epochNotification n =>
    have hrej : ¬ Accepts E n s := fun h => Bool.false_ne_true (Eq.trans (Eq.symm hs) h.1)
    rw [after_reject hrej]
    exact hs.recorded
  | epochManagerGone => exact hs.recorded
  | shutdown => exact hs.recorded
  | incomingBlock msg => exact (handleIncomingBlock_records hrel msg).result.after hs
  | blocksChannelClosed => exact hs.recorded
  | readyToExecute => exact (receiveScheduled_records hrel).result.after hs
  | syncTimer => exact (Records.of_keeps (keeps_verifier keeps_retry)).result.after hs

/-! ## Runs -/

theorem Silent.recorded (h : Silent s s') (hb : BoundaryRecorded s) : BoundaryRecorded s' := by
  obtain ⟨i, k, rfl⟩ := h
  intro ho b hlast
  refine hb ho b ?_
  rw [← lastExecution_acks s.log k]
  exact hlast

/-- **A step keeps the record right.** -/
theorem step_recorded (hrel : E.toStoreEnv.Reliable) (hI : Inv A o s) (hb : BoundaryRecorded s)
    (t : Trigger) : BoundaryRecorded (after (doStep E t) s) := by
  by_cases ho : s.isCurrentEpochOver = true
  · by_cases hn : ∃ e, t = .epochNotification (.newEpoch e) ∧ Accepts E (.newEpoch e) s
    · -- the new epoch is not over
      obtain ⟨e, rfl, ha⟩ := hn
      refine Live.recorded ?_
      rw [after_newEpoch ha]
      show (after (tryToSyncSkippedBlocks E) (enterEpoch e s)).blockVerifier.current.isEpochOver =
        false
      rw [keeps_verifier keeps_tryToSyncSkippedBlocks]
      exact (ha.2 e rfl).1
    · refine Silent.recorded ((hI.toHalted ho).step (.refl s) fun e ht ha => ?_) hb
      exact hn ⟨e, ht, ha⟩
  · exact doStep_records hrel t (eq_false_of_ne_true ho)

theorem returned_lastExecution (c : CertifiedBlock) (s : ChainStateAssembler) :
    lastExecution (returned E c s).log = lastExecution s.log := by
  have hlog : lastExecution (s.log ++ [Event.write (.committedBlock c)] ++
      [Event.execute c s.blockVerifier.current.committee]) = lastExecution s.log := by
    rw [lastExecution_other (e := .execute _ _) nofun, lastExecution_other (e := .write _) nofun]
  unfold returned
  cases (answer E c s).record with
  | none => exact hlog
  | some r => exact (lastExecution_other (e := .write _) nofun).trans hlog

theorem returned_boundary (c : CertifiedBlock) (s : ChainStateAssembler) :
    (returned E c s).chain.epochBoundaryBlockQC = s.chain.epochBoundaryBlockQC := by
  unfold returned
  cases (answer E c s).record <;> rfl

/-- The record is right at the start unless the restoring execution has ended the epoch. -/
theorem Starts.boundaryRecorded_iff (h : Starts E st v s) (hnone : lastExecution st.store.log = none)
    (hpair : Restartable E.toStoreEnv st.store.chain) :
    BoundaryRecorded s ↔
      ∀ c x, st.store.chain.committedBlock = some c → st.store.chain.executedBlock = some x →
        c ≠ x.certifiedBlock → (answer E c (created x st v)).result = .ok true →
        st.store.chain.epochBoundaryBlockQC = some c.qc := by
  constructor
  · intro hright c x hc hx hne hres
    rcases h.of_pair hc hx with ⟨heq, -⟩ | ⟨-, flag, hok, rfl⟩ | ⟨-, e, herr, -⟩
    · exact absurd heq hne
    · cases hres.symm.trans hok
      have hover : (Proof.restored E c true (created x st v)).isCurrentEpochOver = true := rfl
      exact (returned_boundary c (created x st v)).symm.trans
        (hright hover c (lastExecution_executed _ c true)).2
    · cases hres.symm.trans herr
  · intro hcond _ b hlast
    obtain ⟨c, x, hc, hx, -⟩ := hpair
    rcases h.of_pair hc hx with ⟨-, rfl⟩ | ⟨hne, flag, hok, rfl⟩ | ⟨-, e, -, rfl⟩
    · cases hnone.symm.trans hlast
    · cases (lastExecution_executed _ c flag).symm.trans hlast
      exact ⟨rfl, (returned_boundary b (created x st v)).trans (hcond b x hc hx hne hok)⟩
    · rw [returned_lastExecution] at hlast
      cases hnone.symm.trans hlast

/-- **When the epoch boundary record is always right.** With a store that does not fail, the
record is right in every state of every run, the state after `new` included, exactly when the
restoring execution has not ended the epoch, or the store already had the record of its block. -/
theorem boundary_record_right_iff {W : Warranter E} {chain : ChainStore}
    (hrel : E.toStoreEnv.Reliable)
    (hinit : BlockStore.initializeStore E.toStoreEnv g (BlockStore.new ⟨chain, []⟩ size) = .ok () st)
    (hnew : new E W st v = (.ok s, w)) :
    (∀ ts, BoundaryRecorded (steps (doStep E) s ts)) ↔
      ∀ c x, st.store.chain.committedBlock = some c → st.store.chain.executedBlock = some x →
        c ≠ x.certifiedBlock → (answer E c (created x st v)).result = .ok true →
        st.store.chain.epochBoundaryBlockQC = some c.qc := by
  have hI := initializeStore_ok hinit
  have hnone : lastExecution st.store.log = none := by
    obtain ⟨l, hl, -, hw⟩ := hI.log
    rw [hl]
    exact lastExecution_writes hw
  have hstart := (new_starts hnew).1.boundaryRecorded_iff hnone hI.restartable
  rw [← hstart]
  refine ⟨fun h => h [], fun hs ts => ?_⟩
  refine steps_inv (I := fun _ => BoundaryRecorded) hs fun pre t _ _ hb => ?_
  have hIs : Inv (Accepted E s pre) (Origin.of s) (steps (doStep E) s pre) :=
    new_run_inv hI.cache hnew fun _ hb => hb
  exact step_recorded hrel hIs hb t

/-- The restoring execution of block 1 does not end the epoch; block 2 is then executed by a step
and ends it. -/
theorem boundary_record_right_small :
    let E := Small.env fun b => .ok (b.height == 2)
    let st := Small.store (Small.block 1 1) (Small.block 1 0) 1
    ∃ s w, BlockStore.initializeStore E.toStoreEnv (Small.block 1 0)
        (BlockStore.new ⟨Small.chain (Small.block 1 1) (Small.block 1 0), []⟩ 1) = .ok () st ∧
      new E (Warranter.standard E) st ⟨Small.epochState 1 0⟩ = (.ok s, w) ∧
      lastExecution s.log = some (Small.block 1 1, false) ∧
      let s' := steps (doStep E) s [.incomingBlock (.newBlock (Small.fullBlock 1 2))]
      s'.isCurrentEpochOver = true ∧ s'.chain.epochBoundaryBlockQC = some (Small.block 1 2).qc := by
  intro E st
  have hinit : BlockStore.initializeStore E.toStoreEnv (Small.block 1 0)
      (BlockStore.new ⟨Small.chain (Small.block 1 1) (Small.block 1 0), []⟩ 1) = .ok () st := rfl
  have hnew : new E (Warranter.standard E) st ⟨Small.epochState 1 0⟩ =
      (.ok (Small.restarted (fun b => .ok (b.height == 2)) 1),
        (Small.restarted (fun b => .ok (b.height == 2)) 1).store.store) := rfl
  refine ⟨_, _, hinit, hnew, rfl, rfl, ((boundary_record_right_iff (fun _ _ => rfl) hinit hnew).2
    (fun c x hc hx _ hres => ?_) _ rfl (Small.block 1 2) rfl).2⟩
  cases hc
  cases hx
  cases hres

/-- Block 1 is committed and block 0 executed. The restoring execution of block 1 ends the epoch,
and no boundary record is written. -/
theorem boundary_record_missing_after_restart :
    let E := Small.env fun b => .ok (b.height == 1)
    ∃ st s w, BlockStore.initializeStore E.toStoreEnv (Small.block 1 0)
        (BlockStore.new ⟨Small.chain (Small.block 1 1) (Small.block 1 0), []⟩ 1) = .ok () st ∧
      new E (Warranter.standard E) st ⟨Small.epochState 1 0⟩ = (.ok s, w) ∧
      s.isCurrentEpochOver = true ∧ executed s = (Small.block 1 1).info ∧
      lastExecution s.log = some (Small.block 1 1, true) ∧
      s.chain.epochBoundaryBlockQC = none :=
  ⟨_, _, _, rfl, rfl, rfl, rfl, rfl, rfl⟩

end Consensus.Proof
