import SupraL1.Consensus.Proof.Refine

/-!
# The assembler that `new` builds

`Starts E st v s`: the three ways in which `new` succeeds on a store `st`. The persisted blocks
agree; or they differ and the warranter has executed the committed one; or this execution has
failed with an error that reports a duplicate, which the warranter takes for a success. In each
case nothing is cached, scheduled or requested, so the invariant holds with the start as origin.
-/

namespace Consensus.Proof

open EState ChainStateAssembler SynchronizationContext Relation

variable {E : Env} {st st' : BlockStore} {v : EpochStates} {s : ChainStateAssembler} {w : World}

/-! ## A warranter -/

/-- `ensure_blockchain_and_move_stores_are_consistent`, by the methods of its trait. -/
def ensureConsistent (E : Env) :
    EStateM StateConsistencyWarranterError ChainStateAssembler Unit := fun s =>
  match E.fails .readCommittedBlock s.log with
  | some e => .error (.noCommittedBlock (some (.persistentStore e))) s
  | none => match E.fails .readExecutedBlock s.log with
    | some e => .error (.noExecutedBlock (some (.persistentStore e))) s
    | none => match s.chain.committedBlock with
      | none => .error (.noCommittedBlock none) s
      | some c => match s.chain.executedBlock with
        | none => .error (.noExecutedBlock none) s
        | some x =>
          if c = x.certifiedBlock then .ok () s
          else match execute E c s with
            | .ok _ s' => .ok () s'
            | .error (.executionError e) s' =>
              if E.reportsDuplicate e then .ok () s' else .error (.executionError e) s'
            | .error e s' => .error e s'

theorem ensureConsistent_warranted (E : Env) (s : ChainStateAssembler) :
    Warranted E s (ensureConsistent E s) := by
  unfold ensureConsistent
  cases h1 : E.fails .readCommittedBlock s.log with
  | some e => exact .unread _ (.inl (by simp [h1]))
  | none =>
    dsimp only
    cases h2 : E.fails .readExecutedBlock s.log with
    | some e => exact .unread _ (.inr (.inl (by simp [h2])))
    | none =>
      dsimp only
      cases hc : s.chain.committedBlock with
      | none => exact .unread _ (.inr (.inr (.inl hc)))
      | some c =>
        dsimp only
        cases hx : s.chain.executedBlock with
        | none => exact .unread _ (.inr (.inr (.inr hx)))
        | some x =>
          dsimp only
          by_cases hne : c = x.certifiedBlock
          · rw [if_pos hne]
            exact .consistent hc hx hne
          · rw [if_neg hne]
            cases he : execute E c s with
            | ok a s' => exact .restored hc hx hne he
            | error e s' =>
              cases e with
              | executionError e =>
                dsimp only
                cases hd : E.reportsDuplicate e with
                | true => exact .duplicate hc hx hne he hd
                | false => exact .failed hc hx hne he (by simp_all)
              | _ => exact .failed hc hx hne he nofun

/-- The warranter that does what its trait's methods allow. -/
def Warranter.standard (E : Env) : Warranter E := ⟨ensureConsistent E, ensureConsistent_warranted E⟩

/-! ## A small instance

An environment in which nothing fails, the verifier accepts the current epoch's blocks, and `exec`
is the executor's answer on a block. A certificate names the height of its block, and the hash of a
block is its height. -/

namespace Small

def env (exec : CertifiedBlock → Except ExecutionError Bool) : Env where
  fails _ _ := none
  correctlyExtends b qc := qc.encoded.any fun height =>
    b.header.height == height.toNat + 1 && b.header.parent == BitVec.ofNat 256 height.toNat
  finalizes _ := true
  verify v fb :=
    match compare fb.base.epoch v.current.committee.epoch with
    | .lt => .oldEpochBlock
    | .gt => .futureEpochBlock
    | .eq => .success
  executeBlock _ b _ :=
    match exec b with
    | .ok flag => ⟨.ok flag, some ⟨b⟩⟩
    | .error e => ⟨.error e, none⟩
  epochExtends new cur := new.epoch == cur.epoch + 1
  sendFails _ _ := none
  reportsDuplicate e := e.message == "duplicate"

theorem verify_epoch {exec : CertifiedBlock → Except ExecutionError Bool} {v : EpochStates}
    {fb : FullBlock} (h : (env exec).verify v fb = .success) : fb.base.epoch = v.current.epoch := by
  change (match compare fb.base.epoch v.current.committee.epoch with
    | .lt => VerificationResult.oldEpochBlock
    | .gt => .futureEpochBlock
    | .eq => .success) = .success at h
  split at h
  · cases h
  · cases h
  · exact Nat.compare_eq_eq.1 ‹_›

theorem extends_epoch {exec : CertifiedBlock → Except ExecutionError Bool} {e cur : EpochState}
    (h : (env exec).epochExtends e cur = true) : cur.epoch < e.epoch := by
  have heq : e.epoch = cur.epoch + 1 := by simpa [env] using h
  omega

theorem record_ok {exec : CertifiedBlock → Except ExecutionError Bool} {log : List Event}
    {b : CertifiedBlock} {c : ValidatorCommittee} {flag : Bool}
    (h : ((env exec).executeBlock log b c).result = .ok flag) :
    ((env exec).executeBlock log b c).record = some ⟨b⟩ := by
  unfold env at h ⊢
  dsimp only at h ⊢
  cases hb : exec b with
  | ok flag => rfl
  | error e => rw [hb] at h; cases h

theorem record_error {exec : CertifiedBlock → Except ExecutionError Bool} {log : List Event}
    {b : CertifiedBlock} {c : ValidatorCommittee} {e : ExecutionError}
    (h : ((env exec).executeBlock log b c).result = .error e) :
    ((env exec).executeBlock log b c).record = none := by
  unfold env at h ⊢
  dsimp only at h ⊢
  cases hb : exec b with
  | ok flag => rw [hb] at h; cases h
  | error e => rfl

/-- The block of an epoch at a height, with the block below as its parent. -/
def block (epoch height : Nat) : CertifiedBlock :=
  { block :=
      { header := { height, view := ⟨epoch, height⟩, parent := BitVec.ofNat 256 (height - 1) }
        hash := BitVec.ofNat 256 height
        payload := [] }
    qc := ⟨[UInt8.ofNat height]⟩ }

def fullBlock (epoch height : Nat) : FullBlock := ⟨block epoch height, []⟩

def epochState (epoch startHeight : Nat) : EpochState := ⟨⟨epoch, []⟩, startHeight, false⟩

/-- A persistent store with these last committed and executed blocks. -/
def chain (committed executed : CertifiedBlock) : ChainStore :=
  { ChainStore.empty with committedBlock := some committed, executedBlock := some ⟨executed⟩ }

def store (committed executed : CertifiedBlock) (bucketSize : Nat) : BlockStore :=
  { BlockStore.new ⟨chain committed executed, []⟩ bucketSize with
    lastCommittedBlockHeight := committed.height }

theorem store_initialized (exec : CertifiedBlock → Except ExecutionError Bool)
    (g b : CertifiedBlock) (bucketSize : Nat) :
    BlockStore.initializeStore (env exec).toStoreEnv g
      (BlockStore.new ⟨chain b b, []⟩ bucketSize) = .ok () (store b b bucketSize) := by
  show (if b ≠ b ∧ (env exec).correctlyExtends b.block b.qc = false
    then throw _ else modify _ : StoreM Unit) _ = _
  rw [if_neg fun h => h.1 rfl]
  rfl

def assembler (bucketSize : Nat) : ChainStateAssembler :=
  { lastExecutedBlockInfo := (block 1 0).info
    lastObservedHighestBlock := none
    synchronizer := ⟨none⟩
    store := store (block 1 0) (block 1 0) bucketSize
    blockVerifier := ⟨epochState 1 0⟩
    readyToExecute := [] }

theorem new_assembler (exec : CertifiedBlock → Except ExecutionError Bool) (bucketSize : Nat) :
    new (env exec) (Warranter.standard (env exec)) (store (block 1 0) (block 1 0) bucketSize)
      ⟨epochState 1 0⟩ = (.ok (assembler bucketSize), (assembler bucketSize).store.store) := rfl

end Small

/-! ## Successful creations -/

/-- The assembler before the warranter. -/
def created (x : ExecutedBlock) (st : BlockStore) (v : EpochStates) : ChainStateAssembler :=
  { lastExecutedBlockInfo := x.certifiedBlock.info
    lastObservedHighestBlock := none
    synchronizer := ⟨none⟩
    store := st
    blockVerifier := v
    readyToExecute := [] }

/-- The assembler after the restoring execution of `c`. -/
def restored (E : Env) (c : CertifiedBlock) (flag : Bool) (s : ChainStateAssembler) :
    ChainStateAssembler := advance c flag ((returned E c s).emit (.executed c flag))

/-- The assembler that is created with block 1 committed and block 0 executed, where the restoring
execution does not end the epoch. -/
def Small.restarted (exec : CertifiedBlock → Except ExecutionError Bool) (bucketSize : Nat) :
    ChainStateAssembler :=
  restored (Small.env exec) (Small.block 1 1) false (created ⟨Small.block 1 0⟩
    (Small.store (Small.block 1 1) (Small.block 1 0) bucketSize) ⟨Small.epochState 1 0⟩)

inductive Starts (E : Env) (st : BlockStore) (v : EpochStates) : ChainStateAssembler → Prop
  | consistent {x : ExecutedBlock} (hc : st.store.chain.committedBlock = some x.certifiedBlock)
      (hx : st.store.chain.executedBlock = some x) : Starts E st v (created x st v)
  | restored {c : CertifiedBlock} {x : ExecutedBlock} {flag : Bool}
      (hc : st.store.chain.committedBlock = some c) (hx : st.store.chain.executedBlock = some x)
      (hne : c ≠ x.certifiedBlock) (hok : (answer E c (created x st v)).result = .ok flag) :
      Starts E st v (restored E c flag (created x st v))
  | duplicate {c : CertifiedBlock} {x : ExecutedBlock} {e : ExecutionError}
      (hc : st.store.chain.committedBlock = some c) (hx : st.store.chain.executedBlock = some x)
      (hne : c ≠ x.certifiedBlock) (herr : (answer E c (created x st v)).result = .error e)
      (hd : E.reportsDuplicate e = true) : Starts E st v (returned E c (created x st v))

theorem execute_eq (E : Env) (b : CertifiedBlock) (s : ChainStateAssembler) :
    execute E b s = match E.fails (.write (.committedBlock b)) s.log with
      | some e => .error (.failedToRestoreConsistency (.fatal (.blockStore (.persistentStore e))))
          ((withCommitted b.height s).emit (.writeFault (.committedBlock b) e))
      | none => match (answer E b s).result with
        | .error e => .error (.executionError e) (returned E b s)
        | .ok flag => .ok () (restored E b flag s) := by
  unfold execute
  rw [executeBlock_eq]
  cases E.fails (.write (.committedBlock b)) s.log with
  | some e => rfl
  | none => cases (answer E b s).result <;> rfl

theorem new_eq (W : Warranter E) (st : BlockStore) (v : EpochStates) :
    new E W st v = match E.fails .readExecutedBlock st.store.log with
      | some e => (.error (.ofBlockStore (.persistentStore e)), st.store)
      | none => match st.store.chain.executedBlock with
        | none => (.error (.invalidBlockStoreState none), st.store)
        | some x => match W.ensureConsistent (created x st v) with
          | .ok _ s => (.ok s, s.store.store)
          | .error e s => (.error (.fatal (.warranter e)), s.store.store) := by
  unfold new BlockStore.lastExecutedBlock BlockStore.read
  cases E.fails .readExecutedBlock st.store.log with
  | some e => rfl
  | none =>
    dsimp only
    cases st.store.chain.executedBlock <;> rfl

theorem new_starts {W : Warranter E} (h : new E W st v = (.ok s, w)) :
    Starts E st v s ∧ w = s.store.store := by
  rw [new_eq] at h
  cases hf : E.fails .readExecutedBlock st.store.log with
  | some e => rw [hf] at h; cases h
  | none =>
    rw [hf] at h
    dsimp only at h
    cases hx : st.store.chain.executedBlock with
    | none => rw [hx] at h; cases h
    | some x =>
      rw [hx] at h
      dsimp only at h
      have hw := W.warranted (created x st v)
      generalize W.ensureConsistent (created x st v) = r at h hw
      cases hw with
      | unread e _ => cases h
      | failed _ _ _ _ _ => cases h
      | consistent hc hx' he =>
        cases h
        cases hx.symm.trans hx'
        exact ⟨.consistent (he ▸ hc) hx, rfl⟩
      | @restored c _ s' hc hx' hne hr =>
        cases h
        cases hx.symm.trans hx'
        rw [execute_eq] at hr
        split at hr
        · cases hr
        · split at hr
          · cases hr
          · cases hr; exact ⟨.restored hc hx hne ‹_›, rfl⟩
      | @duplicate c _ s' e hc hx' hne hr hd =>
        cases h
        cases hx.symm.trans hx'
        rw [execute_eq] at hr
        split at hr
        · cases hr
        · split at hr
          · cases hr; exact ⟨.duplicate hc hx hne ‹_› hd, rfl⟩
          · cases hr

/-! ## The start of a run -/

structure Clean (s : ChainStateAssembler) : Prop where
  cache : pending s = Cache.empty
  quiet : s.readyToExecute = []
  idle : requested s = none

theorem inv_of_empty (hcache : pending s = Cache.empty) (hquiet : s.readyToExecute = [])
    (hreq : ∀ h, requested s = some h → h = s.nextBlockHeight ∧ pending s h = none ∧
      committed s < h ∧ s.isCurrentEpochOver = false) (A : CertifiedBlock → Prop) :
    Inv A (Origin.of s) s := by
  have hnone : ∀ n r, pending s n ≠ some r := by
    intro n r hr
    rw [hcache] at hr; cases hr
  have hsince : (Origin.of s).since s = [] := List.drop_length
  exact {
    mark := Nat.le_refl _
    single := by rw [hquiet]; exact Nat.zero_le 1
    channel := fun _ hb => quiet_elim hquiet hb
    halted := fun _ => hquiet
    above := fun n r hr => absurd hr (hnone n r)
    hole := fun n hr => absurd hr (hnone n _)
    scheduled := fun n i hr => absurd hr (hnone n _)
    block := fun n b hr => absurd hr (hnone n _)
    memo := fun n i hr => absurd hr (hnone n _)
    request := hreq
    linked := by rw [hsince]; trivial
    settled := fun _ => by unfold Origin.tip; rw [hsince]; rfl }

theorem Clean.inv (h : Clean s) (A : CertifiedBlock → Prop) : Inv A (Origin.of s) s :=
  inv_of_empty h.cache h.quiet (fun _ hn => idle_elim h.idle hn) A

/-- A run may be taken up anew from a state with an empty cache. -/
theorem Inv.anew {A₀ : CertifiedBlock → Prop} {o : Origin} (hI : Inv A₀ o s)
    (hcache : pending s = Cache.empty) (A : CertifiedBlock → Prop) : Inv A (Origin.of s) s := by
  refine inv_of_empty hcache ?_ hI.request A
  cases hq : s.readyToExecute with
  | nil => rfl
  | cons b rest =>
    obtain ⟨-, -, -, -, hp⟩ := hI.channel b (by rw [hq]; exact List.mem_cons_self)
    rw [hcache] at hp; cases hp

/-- A store as `BlockStore::new` makes it and `initialize` leaves it: nothing is cached. -/
def Fresh (st : BlockStore) : Prop := st.pendingExecution = Cache.empty

theorem Small.fresh (c x : CertifiedBlock) (n : Nat) : Fresh (Small.store c x n) := rfl

theorem Starts.clean (h : Starts E st v s) (hf : Fresh st) : Clean s := by
  have hret : ∀ c x, Clean (returned E c (created x st v)) := fun c x =>
    ⟨(congrArg pending (returned_core E c (created x st v))).trans hf,
      congrArg ChainStateAssembler.readyToExecute (returned_core E c (created x st v)),
      congrArg SynchronizationContext.pendingSyncRequest (returned_requested E c (created x st v))⟩
  cases h with
  | consistent _ _ => exact ⟨hf, rfl, rfl⟩
  | @restored c x flag _ _ _ _ =>
    refine ⟨?_, (hret c x).quiet, (hret c x).idle⟩
    show (pending (returned E c (created x st v))).retain c.height = Cache.empty
    rw [(hret c x).cache, Cache.retain_empty]
  | @duplicate c x e _ _ _ _ _ => exact hret c x

theorem Starts.of_pair (h : Starts E st v s) {c : CertifiedBlock} {x : ExecutedBlock}
    (hc : st.store.chain.committedBlock = some c) (hx : st.store.chain.executedBlock = some x) :
    (c = x.certifiedBlock ∧ s = created x st v) ∨
      (c ≠ x.certifiedBlock ∧ ∃ flag, (answer E c (created x st v)).result = .ok flag ∧
        s = Proof.restored E c flag (created x st v)) ∨
      (c ≠ x.certifiedBlock ∧ ∃ e, (answer E c (created x st v)).result = .error e ∧
        s = returned E c (created x st v)) := by
  cases h with
  | consistent hc' hx' =>
    cases hx.symm.trans hx'
    exact .inl ⟨Option.some.inj (hc.symm.trans hc'), rfl⟩
  | restored hc' hx' hne hok =>
    cases hx.symm.trans hx'
    cases hc.symm.trans hc'
    exact .inr (.inl ⟨hne, _, hok, rfl⟩)
  | duplicate hc' hx' hne herr hd =>
    cases hx.symm.trans hx'
    cases hc.symm.trans hc'
    exact .inr (.inr ⟨hne, _, herr, rfl⟩)

/-- **The invariant holds where `new` succeeds**, and then in every run. -/
theorem new_inv {W : Warranter E} (hf : Fresh st) (h : new E W st v = (.ok s, w))
    (A : CertifiedBlock → Prop) : Inv A (Origin.of s) s :=
  ((new_starts h).1.clean hf).inv A

theorem new_run_inv {W : Warranter E} (hf : Fresh st) (h : new E W st v = (.ok s, w))
    {A : CertifiedBlock → Prop} {ts : List Trigger} (hA : ∀ b, Accepted E s ts b → A b) :
    Inv A (Origin.of s) (steps (doStep E) s ts) :=
  (new_inv hf h A).star (run_acts (new_inv hf h A) hA)

end Consensus.Proof
