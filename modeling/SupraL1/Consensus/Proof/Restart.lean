import SupraL1.Lib.Journal
import SupraL1.Consensus.Proof.Creation

/-!
# Restarting the assembler

`initialize` accepts a store whose last committed block is the last executed one or correctly
extends it (`Restartable`). Two questions are answered here: whether the store that a crash
leaves behind is always accepted again, and whether the assembler that is then created can make
progress.
-/

namespace Consensus.Proof

open EState ChainStateAssembler SynchronizationContext Relation Journal

variable {E : Env} {A : CertifiedBlock → Prop} {o : Origin} {g : CertifiedBlock} {size : Nat}
  {st st₀ : BlockStore} {v : EpochStates} {s s' : ChainStateAssembler} {w world : World}

/-! ## Initialization -/

/-- The last committed block is the last executed one, or correctly extends it. -/
def Consistent (E : StoreEnv) (c : CertifiedBlock) (x : ExecutedBlock) : Prop :=
  c = x.certifiedBlock ∨ E.correctlyExtends c.block x.certifiedBlock.qc = true

/-- The store has a pair of blocks that `initialize` accepts. -/
def Restartable (E : StoreEnv) (c : ChainStore) : Prop :=
  ∃ b x, c.committedBlock = some b ∧ c.executedBlock = some x ∧ Consistent E b x

/-- On the certificate of `x`, `correctly_extends` decides whether a block is a child of `x`. -/
def DecidesChild (E : StoreEnv) (x : CertifiedBlock) : Prop :=
  ∀ b : CertifiedBlock,
    E.correctlyExtends b.block x.qc = true ↔ b.height = x.height + 1 ∧ b.parent = x.hash

theorem Small.decidesChild (exec : CertifiedBlock → Except ExecutionError Bool) (epoch : Nat)
    {height : Nat} (h : height < 256) :
    DecidesChild (Small.env exec).toStoreEnv (Small.block epoch height) := by
  intro b
  have hbyte : (UInt8.ofNat height).toNat = height := UInt8.toNat_ofNat_of_lt' h
  simp [Small.env, Small.block, hbyte, CertifiedBlock.height, CertifiedBlock.parent,
    CertifiedBlock.hash]

/-- The block store after the genesis branch of `initialize`. -/
def genesisStore (g : CertifiedBlock) (st : BlockStore) : BlockStore :=
  { st with
    lastCommittedBlockHeight := g.height
    store := (st.store.write (.committedBlock g)).write (.executedBlock ⟨g⟩) }

theorem initializeGenesis_ok {E : StoreEnv}
    (h : (BlockStore.updateLastCommittedBlockInfo E g >>= fun _ =>
      if E.finalizes ⟨g⟩ then BlockStore.write E .persistentStore (.executedBlock ⟨g⟩)
      else throw .genesisNotFinalized) st₀ = .ok () st) : st = genesisStore g st₀ := by
  simp only [BlockStore.updateLastCommittedBlockInfo, bind_apply, modify_apply,
    BlockStore.write] at h
  split at h
  · rename_i hcommit
    split at hcommit
    · cases hcommit
    · cases hcommit
      split at h
      · rw [BlockStore.write] at h
        split at h
        · cases h
        · cases h; rfl
      · cases h
  · cases h

/-- **How `initialize` succeeds**: on a store with neither record, or on an accepted pair. -/
theorem initializeStore_cases {E : StoreEnv} (h : BlockStore.initializeStore E g st₀ = .ok () st) :
    (st₀.store.chain.committedBlock = none ∧ st₀.store.chain.executedBlock = none ∧
      st = genesisStore g st₀) ∨
    ∃ c x, st₀.store.chain.committedBlock = some c ∧ st₀.store.chain.executedBlock = some x ∧
      Consistent E c x ∧ st = { st₀ with lastCommittedBlockHeight := c.height } := by
  unfold BlockStore.initializeStore BlockStore.lastCommittedBlock BlockStore.lastExecutedBlock at h
  rw [bind_apply, BlockStore.read] at h
  cases h1 : E.fails .readCommittedBlock st₀.store.log with
  | some e => rw [h1] at h; cases h
  | none =>
    rw [h1] at h
    dsimp only at h
    rw [bind_apply, BlockStore.read] at h
    cases h2 : E.fails .readExecutedBlock st₀.store.log with
    | some e => rw [h2] at h; cases h
    | none =>
      rw [h2] at h
      dsimp only at h
      cases hc : st₀.store.chain.committedBlock with
      | none =>
        cases hx : st₀.store.chain.executedBlock with
        | some x => rw [hc, hx] at h; cases h
        | none => rw [hc, hx] at h; exact .inl ⟨rfl, rfl, initializeGenesis_ok h⟩
      | some c =>
        cases hx : st₀.store.chain.executedBlock with
        | none => rw [hc, hx] at h; cases h
        | some x =>
          rw [hc, hx] at h
          dsimp only at h
          split at h
          · cases h
          · rename_i hok
            cases h
            refine .inr ⟨c, x, rfl, rfl, ?_, rfl⟩
            by_cases heq : c = x.certifiedBlock
            · exact .inl heq
            · exact .inr (by simpa [heq] using hok)

/-- What `initialize` leaves when it succeeds. -/
structure Initialized (E : StoreEnv) (st₀ st : BlockStore) : Prop where
  restartable : Restartable E st.store.chain
  height : ∀ c, st.store.chain.committedBlock = some c → st.lastCommittedBlockHeight = c.height
  cache : st.pendingExecution = st₀.pendingExecution
  log : ∃ l, st.store.log = st₀.store.log ++ l ∧ st.store.chain = st₀.store.chain.replay l ∧
    ∀ e ∈ l, ∃ w, e = .write w

theorem initializeStore_ok {E : StoreEnv} (h : BlockStore.initializeStore E g st₀ = .ok () st) :
    Initialized E st₀ st := by
  rcases initializeStore_cases h with ⟨-, -, rfl⟩ | ⟨c, x, hc, hx, hcons, rfl⟩
  · exact {
      restartable := ⟨g, ⟨g⟩, rfl, rfl, .inl rfl⟩
      height := fun c hc => by cases hc; rfl
      cache := rfl
      log := ⟨[.write (.committedBlock g), .write (.executedBlock ⟨g⟩)], by simp [genesisStore],
        rfl, by simp⟩ }
  · exact {
      restartable := ⟨c, x, hc, hx, hcons⟩
      height := fun c' hc' => by cases hc.symm.trans hc'; rfl
      cache := rfl
      log := ⟨[], (List.append_nil _).symm, rfl, nofun⟩ }

theorem initializeStore_reliable {E : StoreEnv} {c : ChainStore} (h : Restartable E c) :
    ∃ st, BlockStore.initializeStore E.reliable g (BlockStore.new ⟨c, []⟩ size) = .ok () st := by
  obtain ⟨b, x, hc, hx, hcons⟩ := h
  have hno : ¬ (b ≠ x.certifiedBlock ∧
      E.reliable.correctlyExtends b.block x.certifiedBlock.qc = false) := by
    rintro ⟨hne, hext⟩
    rcases hcons with heq | hext'
    · exact hne heq
    · exact Bool.false_ne_true (hext.symm.trans hext')
  refine ⟨{ BlockStore.new ⟨c, []⟩ size with lastCommittedBlockHeight := b.height }, ?_⟩
  unfold BlockStore.initializeStore BlockStore.lastCommittedBlock BlockStore.lastExecutedBlock
  simp only [bind_apply, BlockStore.read, StoreEnv.reliable_fails, BlockStore.new, hc, hx]
  rw [if_neg hno]
  rfl

/-! ## Progress after a restart -/

/-- In a clean state nothing is known at the next height unless it has been committed. -/
theorem Clean.progress_iff (h : Clean s) :
    ((executed s).height = committed s ∧ s.store.hasEntry s.nextBlockHeight = false) ↔
      (executed s).height = committed s := by
  refine and_iff_left_of_imp fun heq => BlockStore.hasEntry_false.2 ⟨?_, congrFun h.cache _⟩
  show committed s < (executed s).height + 1
  omega

/-- **When the assembler is not stuck after a restart.** For a persisted pair that `initialize`
accepts and a successful `new`: the height of the last executed block is that of the last
committed one, and the next block is not skipped, exactly when the persisted blocks have one
height or the executor does not fail on the committed block. An error that `new` tolerates here
is the one that reports a duplicate execution. -/
theorem not_stuck_after_restart_iff {W : Warranter E}
    (hinit : BlockStore.initializeStore E.toStoreEnv g (BlockStore.new world size) = .ok () st)
    (hnew : new E W st v = (.ok s, w)) :
    ((executed s).height = committed s ∧ s.store.hasEntry s.nextBlockHeight = false) ↔
      ∀ c x e, st.store.chain.committedBlock = some c → st.store.chain.executedBlock = some x →
        c.height ≠ x.certifiedBlock.height → (answer E c (created x st v)).result ≠ .error e := by
  have hI := initializeStore_ok hinit
  have hstarts := (new_starts hnew).1
  obtain ⟨c, x, hc, hx, -⟩ := hI.restartable
  have hpair : (∀ c x e, st.store.chain.committedBlock = some c →
      st.store.chain.executedBlock = some x → c.height ≠ x.certifiedBlock.height →
      (answer E c (created x st v)).result ≠ .error e) ↔
      (c.height ≠ x.certifiedBlock.height →
        ∀ e, (answer E c (created x st v)).result ≠ .error e) := by
    refine ⟨fun h hne e => h c x e hc hx hne, fun h c' x' e hc' hx' hne => ?_⟩
    cases hc.symm.trans hc'
    cases hx.symm.trans hx'
    exact h hne e
  rw [(hstarts.clean hI.cache).progress_iff, hpair]
  rcases hstarts.of_pair hc hx with ⟨rfl, rfl⟩ | ⟨-, flag, hok, rfl⟩ | ⟨-, e, herr, rfl⟩
  · exact ⟨fun _ hne => absurd rfl hne, fun _ => (hI.height _ hc).symm⟩
  · have hcommitted := congrArg committed (returned_core E c (created x st v))
    refine ⟨fun _ _ e herr => ?_, fun _ => hcommitted.symm⟩
    rw [hok] at herr; cases herr
  · -- the committed height has moved to `c`, the last executed block is still `x`
    have hcommitted : committed (returned E c (created x st v)) = c.height :=
      congrArg committed (returned_core E c (created x st v))
    have hexecuted : executed (returned E c (created x st v)) = x.certifiedBlock.info :=
      congrArg executed (returned_core E c (created x st v))
    rw [hcommitted, hexecuted]
    constructor
    · exact fun heq hne => absurd heq.symm hne
    · intro hcond
      by_contra hne
      exact hcond (Ne.symm hne) e herr

/-- Block 1 is committed, block 0 executed, and the restoring execution of block 1 succeeds. -/
theorem not_stuck_after_restart_small :
    let E := Small.env fun _ => .ok false
    ∃ st s w, BlockStore.initializeStore E.toStoreEnv (Small.block 1 0)
        (BlockStore.new ⟨Small.chain (Small.block 1 1) (Small.block 1 0), []⟩ 1) = .ok () st ∧
      new E (Warranter.standard E) st ⟨Small.epochState 1 0⟩ = (.ok s, w) ∧
      handed s.log = [Small.block 1 1] ∧
      (executed s).height = committed s ∧ s.store.hasEntry s.nextBlockHeight = false := by
  intro E
  have hinit : BlockStore.initializeStore E.toStoreEnv (Small.block 1 0)
      (BlockStore.new ⟨Small.chain (Small.block 1 1) (Small.block 1 0), []⟩ 1) =
        .ok () (Small.store (Small.block 1 1) (Small.block 1 0) 1) := rfl
  have hnew : new E (Warranter.standard E) (Small.store (Small.block 1 1) (Small.block 1 0) 1)
      ⟨Small.epochState 1 0⟩ = (.ok (Small.restarted (fun _ => .ok false) 1),
        (Small.restarted (fun _ => .ok false) 1).store.store) := rfl
  refine ⟨_, _, _, hinit, hnew, rfl, (not_stuck_after_restart_iff hinit hnew).2 ?_⟩
  intro c x e hc hx hne herr
  cases hc
  cases hx
  cases herr

/-- Block 1 is committed, block 0 executed, and the executor reports a duplicate execution of
block 1. The assembler is created with block 0 as the last executed block, and skips block 1. -/
theorem stuck_after_duplicate_execution :
    let E := Small.env fun _ => .error ⟨"duplicate"⟩
    ∃ st s w, BlockStore.initializeStore E.toStoreEnv (Small.block 1 0)
        (BlockStore.new ⟨Small.chain (Small.block 1 1) (Small.block 1 0), []⟩ 1) = .ok () st ∧
      new E (Warranter.standard E) st ⟨Small.epochState 1 0⟩ = (.ok s, w) ∧
      (executed s).height = 0 ∧ committed s = 1 ∧
      E.verify s.blockVerifier (Small.fullBlock 1 1) = .success ∧
      s.store.hasEntry s.nextBlockHeight = true ∧
      s.shouldBeSkipped (Small.block 1 1) = true :=
  ⟨_, _, _, rfl, rfl, rfl, rfl, rfl, rfl, rfl⟩

/-! ## Crash points -/

/-- The store is what the events of the log make of `c₀`, and `P` holds of the log at every point
from `base` on. -/
structure Journaled (c₀ : ChainStore) (base : List Event) (P : List Event → Prop) (w : World) :
    Prop where
  chain : w.chain = c₀.replay w.log
  always : Always P base w.log

section
variable {c₀ : ChainStore} {base : List Event} {P : List Event → Prop} {R : ChainStore → Prop}

theorem Journaled.emit (h : Journaled c₀ base (fun p => R (c₀.replay p)) w) {e : Event}
    (he : ∀ x, e ≠ .write x) (hR : R w.chain) :
    Journaled c₀ base (fun p => R (c₀.replay p)) (w.emit e) where
  chain := h.chain.trans (ChainStore.replay_other c₀ w.log he).symm
  always := h.always.snoc (by rwa [ChainStore.replay_other c₀ w.log he, ← h.chain])

theorem Journaled.write (h : Journaled c₀ base (fun p => R (c₀.replay p)) w) {x : Write}
    (hR : R (w.chain.apply x)) : Journaled c₀ base (fun p => R (c₀.replay p)) (w.write x) where
  chain := by rw [World.write_log, ChainStore.replay_write, ← h.chain]; rfl
  always := h.always.snoc (by rwa [ChainStore.replay_write, ← h.chain])

theorem Act.replay (ha : Act E A o s s') (h : s.chain = c₀.replay s.log) :
    s'.chain = c₀.replay s'.log := by
  rcases ha.event with ⟨hlog, hchain⟩ | ⟨e, hlog, hchain, -⟩
  · rw [hlog, hchain, h]
  · rw [hlog, hchain, h, ChainStore.replay_append]

theorem Act.journaled (ha : Act E A o s s') (h : Journaled c₀ base P s.store.store)
    (hP : P s'.log) : Journaled c₀ base P s'.store.store := by
  refine ⟨ha.replay h.chain, ?_⟩
  show Always P base s'.log
  rcases ha.event with ⟨hlog, -⟩ | ⟨e, hlog, -⟩
  · rw [hlog]; exact h.always
  · rw [hlog] at hP ⊢; exact h.always.snoc hP

end

/-- The persisted blocks can be resumed from, and unless the next block has been committed the
executed record is that of the last executed block. -/
structure Recorded (E : Env) (s : ChainStateAssembler) : Prop where
  restartable : Restartable E.toStoreEnv s.chain
  settled : committed s < s.nextBlockHeight →
    ∃ x, s.chain.executedBlock = some x ∧ x.certifiedBlock.info = executed s

section
variable
  (hok : ∀ log b c flag, (E.executeBlock log b c).result = .ok flag →
    (E.executeBlock log b c).record = some ⟨b⟩)
  (herr : ∀ log b c e, (E.executeBlock log b c).result = .error e →
    (E.executeBlock log b c).record = none ∨ (E.executeBlock log b c).record = some ⟨b⟩)
include hok herr

theorem record_eq {log : List Event} {b : CertifiedBlock} {c : ValidatorCommittee}
    {r : ExecutedBlock} (h : (E.executeBlock log b c).record = some r) : r = ⟨b⟩ := by
  cases hres : (E.executeBlock log b c).result with
  | ok flag => exact Option.some.inj (h.symm.trans (hok _ _ _ _ hres))
  | error e =>
    rcases herr _ _ _ _ hres with hnone | hsome
    · rw [hnone] at h; cases h
    · exact Option.some.inj (h.symm.trans hsome)

theorem Act.recorded (ha : Act E A o s s')
    (hext : ∀ x, s.chain.executedBlock = some x → DecidesChild E.toStoreEnv x.certifiedBlock)
    (h : Recorded E s) : Recorded E s' := by
  cases ha with
  | commitFault e hr hc =>
    refine ⟨h.restartable, fun hlt => ?_⟩
    exact absurd hr.follows.1 (Nat.ne_of_lt hlt)
  | @commit b hr hc =>
    refine ⟨?_, fun hlt => absurd hr.follows.1 (Nat.ne_of_lt hlt)⟩
    -- the chain check has been made against the block that is recorded as executed
    obtain ⟨x, hx, hinfo⟩ := h.settled (Nat.lt_of_lt_of_eq hc hr.follows.1)
    obtain ⟨hh, hp⟩ := hr.follows
    rw [← hinfo] at hh hp
    exact ⟨b, x, rfl, hx, .inr ((hext x hx b).2 ⟨hh, hp⟩)⟩
  | @record b log c r hh hrec =>
    cases record_eq hok herr hrec
    refine ⟨⟨b, ⟨b⟩, hh.recorded, rfl, .inl rfl⟩, fun hlt => ?_⟩
    have h1 := hh.atHeight
    have h2 : b.height = s.nextBlockHeight := hh.follows.1
    exact absurd hlt (by show ¬ committed s < s.nextBlockHeight; omega)
  | @advance b log c flag hh hres hw =>
    have hx := hw _ (hok _ _ _ _ hres)
    exact ⟨h.restartable, fun _ => ⟨⟨b⟩, hx, rfl⟩⟩
  | _ => exact ⟨h.restartable, h.settled⟩

theorem acts_journaled {c₀ : ChainStore} {base : List Event} (hacts : ReflTransGen (Act E A o) s s')
    (hbase : base <+: s.log)
    (hext : Always (fun p => ∀ x, (c₀.replay p).executedBlock = some x →
      DecidesChild E.toStoreEnv x.certifiedBlock) base s'.log)
    (h : Recorded E s)
    (hj : Journaled c₀ base (fun p => Restartable E.toStoreEnv (c₀.replay p)) s.store.store) :
    Recorded E s' ∧
      Journaled c₀ base (fun p => Restartable E.toStoreEnv (c₀.replay p)) s'.store.store := by
  induction hacts with
  | refl => exact ⟨h, hj⟩
  | @tail m _ hm ha ih =>
    obtain ⟨hrecm, hjm⟩ := ih (hext.of_prefix ha.log_prefix)
    have hextm : ∀ x, m.chain.executedBlock = some x →
        DecidesChild E.toStoreEnv x.certifiedBlock := by
      rw [show m.chain = c₀.replay m.log from hjm.chain]
      exact hext m.log (hbase.trans (log_prefix_of_acts hm)) ha.log_prefix
    have hrec := ha.recorded hok herr hextm hrecm
    refine ⟨hrec, ha.journaled hjm ?_⟩
    rw [← ha.replay hjm.chain]
    exact hrec.restartable

section
variable {c₀ : ChainStore} {base : List Event} {c : CertifiedBlock} {x : ExecutedBlock}
  (hx : s.chain.executedBlock = some x) (hcons : Consistent E.toStoreEnv c x)
  (hj : Journaled c₀ base (fun p => Restartable E.toStoreEnv (c₀.replay p)) s.store.store)
include hx hcons hj

theorem returned_journaled :
    Journaled c₀ base (fun p => Restartable E.toStoreEnv (c₀.replay p))
        (returned E c s).store.store ∧
      Restartable E.toStoreEnv (returned E c s).chain := by
  have hcommit : Restartable E.toStoreEnv (commitTo c s).chain := ⟨c, x, rfl, hx, hcons⟩
  have h1 := hj.write (x := .committedBlock c) hcommit
  have h2 := h1.emit (e := .execute c s.blockVerifier.current.committee) nofun hcommit
  unfold returned
  cases hrec : (answer E c s).record with
  | none => exact ⟨h2, hcommit⟩
  | some r =>
    cases record_eq hok herr hrec
    have hr : Restartable E.toStoreEnv
        (((commitTo c s).emit (.execute c s.blockVerifier.current.committee)).write
          (.executedBlock ⟨c⟩)).chain := ⟨c, ⟨c⟩, rfl, rfl, .inl rfl⟩
    exact ⟨h2.write hr, hr⟩

theorem execute_journaled (hr : Restartable E.toStoreEnv s.chain) :
    Journaled c₀ base (fun p => Restartable E.toStoreEnv (c₀.replay p))
      (after (execute E c) s).store.store := by
  obtain ⟨hret, hrest⟩ := returned_journaled hok herr hx hcons hj
  have heq := execute_eq E c s
  cases hf : E.fails (.write (.committedBlock c)) s.log with
  | some e =>
    rw [hf] at heq
    rw [after_error heq]
    exact hj.emit nofun hr
  | none =>
    rw [hf] at heq
    cases hres : (answer E c s).result with
    | error e => rw [hres] at heq; rw [after_error heq]; exact hret
    | ok flag => rw [hres] at heq; rw [after_ok heq]; exact hret.emit nofun hrest

end

end

theorem Starts.log_prefix (h : Starts E st v s) : st.store.log <+: s.log := by
  have hret : ∀ c x, st.store.log <+: (returned E c (created x st v)).log := by
    intro c x
    have hcall : st.store.log <+:
        ((commitTo c (created x st v)).emit (.execute c v.current.committee)).log :=
      (List.prefix_append _ _).trans (List.prefix_append _ _)
    unfold returned
    cases (answer E c (created x st v)).record with
    | none => exact hcall
    | some r => exact hcall.trans (List.prefix_append _ _)
  cases h with
  | consistent _ _ => exact List.prefix_rfl
  | restored _ _ _ _ => exact (hret _ _).trans (List.prefix_append _ _)
  | duplicate _ _ _ _ _ => exact hret _ _

/-- The world that `new` leaves, whichever way it ends: only the warranter's execution of the
committed block changes it. -/
theorem new_world (W : Warranter E) (v : EpochStates) {c : CertifiedBlock} {x : ExecutedBlock}
    (hc : st.store.chain.committedBlock = some c) (hx : st.store.chain.executedBlock = some x) :
    (new E W st v).2 = st.store ∨
      (new E W st v).2 = (after (execute E c) (created x st v)).store.store := by
  rw [new_eq]
  cases E.fails .readExecutedBlock st.store.log with
  | some e => exact .inl rfl
  | none =>
    rw [hx]
    dsimp only
    have hw := W.warranted (created x st v)
    generalize W.ensureConsistent (created x st v) = r at hw ⊢
    cases hw with
    | unread e _ => exact .inl rfl
    | consistent _ _ _ => exact .inl rfl
    | restored hc' _ _ hr =>
      cases hc.symm.trans hc'
      exact .inr (by rw [after_ok hr])
    | duplicate hc' _ _ hr _ | failed hc' _ _ hr _ =>
      cases hc.symm.trans hc'
      exact .inr (by rw [after_error hr])

section
variable
  (hok : ∀ log b c flag, (E.executeBlock log b c).result = .ok flag →
    (E.executeBlock log b c).record = some ⟨b⟩)
  (herr : ∀ log b c e, (E.executeBlock log b c).result = .error e →
    (E.executeBlock log b c).record = none ∨ (E.executeBlock log b c).record = some ⟨b⟩)
include hok herr

theorem Starts.recorded (h : Starts E st v s) (hI : Initialized E.toStoreEnv st₀ st)
    (hext : ∀ x, st.store.chain.executedBlock = some x →
      DecidesChild E.toStoreEnv x.certifiedBlock) : Recorded E s := by
  obtain ⟨c, x, hc, hx, hcons⟩ := hI.restartable
  rcases h.of_pair hc hx with ⟨rfl, rfl⟩ | ⟨-, flag, hres, rfl⟩ | ⟨hne, e, hres, rfl⟩
  · exact ⟨hI.restartable, fun _ => ⟨x, hx, rfl⟩⟩
  · have hrec : (answer E c (created x st v)).record = some ⟨c⟩ := hok _ _ _ _ hres
    have hret : (returned E c (created x st v)).chain.committedBlock = some c ∧
        (returned E c (created x st v)).chain.executedBlock = some ⟨c⟩ := by
      unfold returned
      rw [hrec]
      exact ⟨rfl, rfl⟩
    exact ⟨⟨c, ⟨c⟩, hret.1, hret.2, .inl rfl⟩, fun _ => ⟨⟨c⟩, hret.2, rfl⟩⟩
  · refine ⟨?_, fun hlt => ?_⟩
    · unfold returned
      cases hrec : (answer E c (created x st v)).record with
      | none => exact ⟨c, x, rfl, hx, hcons⟩
      | some r =>
        cases record_eq hok herr hrec
        exact ⟨c, ⟨c⟩, rfl, rfl, .inl rfl⟩
    · -- the committed block is above the last executed one, so nothing more is committed
      have hhigh : c.height = x.certifiedBlock.height + 1 :=
        ((hext x hx c).1 (hcons.resolve_left hne)).1
      have hcommitted : committed (returned E c (created x st v)) = c.height :=
        congrArg committed (returned_core E c (created x st v))
      have hnext : (returned E c (created x st v)).nextBlockHeight = x.certifiedBlock.height + 1 :=
        congrArg ChainStateAssembler.nextBlockHeight (returned_core E c (created x st v))
      rw [hcommitted, hnext, hhigh] at hlt
      exact absurd hlt (Nat.lt_irrefl _)

/-- **The assembler can always be restarted.** After a successful `initialize`, wherever the
process stops from then on, during the creation of the assembler or in any run of it, `initialize`
succeeds on the store that is left. Of `correctly_extends` it is asked what it decides on the
blocks that are recorded as executed in the course of the run. -/
theorem restartable_at_every_crash_point {W : Warranter E} {chain : ChainStore}
    (hinit : BlockStore.initializeStore E.toStoreEnv g (BlockStore.new ⟨chain, []⟩ size) =
      .ok () st) :
    (∀ p, st.store.log <+: p → p <+: (new E W st v).2.log → ∃ st',
      BlockStore.initializeStore E.reliable g (BlockStore.new ⟨chain.replay p, []⟩ size) =
        .ok () st') ∧
    ∀ s w ts, new E W st v = (.ok s, w) →
      Always (fun p => ∀ x, (chain.replay p).executedBlock = some x →
        DecidesChild E.toStoreEnv x.certifiedBlock) st.store.log (steps (doStep E) s ts).log →
      ∀ p, st.store.log <+: p → p <+: (steps (doStep E) s ts).log → ∃ st',
      BlockStore.initializeStore E.reliable g (BlockStore.new ⟨chain.replay p, []⟩ size) =
        .ok () st' := by
  have hI := initializeStore_ok hinit
  have hchain : st.store.chain = chain.replay st.store.log := by
    obtain ⟨l, hl, hc, -⟩ := hI.log
    rw [hl, hc]
    rfl
  have hstart : Journaled chain st.store.log (fun p => Restartable E.toStoreEnv (chain.replay p))
      st.store := ⟨hchain, always_start (hchain ▸ hI.restartable)⟩
  have hworld : Journaled chain st.store.log (fun p => Restartable E.toStoreEnv (chain.replay p))
      (new E W st v).2 := by
    obtain ⟨c, x, hc, hx, hcons⟩ := hI.restartable
    rcases new_world W v hc hx with h | h
    · rw [h]; exact hstart
    · rw [h]
      exact execute_journaled hok herr (s := created x st v) hx hcons hstart hI.restartable
  refine ⟨fun p h1 h2 => initializeStore_reliable (hworld.always p h1 h2), ?_⟩
  intro s w ts hnew hext p h1 h2
  obtain ⟨hstarts, hw⟩ := new_starts hnew
  have hj : Journaled chain st.store.log (fun p => Restartable E.toStoreEnv (chain.replay p))
      s.store.store := by
    rw [hnew, hw] at hworld
    exact hworld
  have hacts := run_acts ((hstarts.clean hI.cache).inv (Accepted E s ts)) fun _ hb => hb
  have hbase := hstarts.log_prefix
  have hrec := hstarts.recorded hok herr hI <| by
    rw [hchain]
    exact hext _ List.prefix_rfl (hbase.trans (log_prefix_of_acts hacts))
  exact initializeStore_reliable
    ((acts_journaled hok herr hacts hbase hext hrec hj).2.always p h1 h2)

end

/-- A crash between the write of the last committed block and its execution. -/
theorem restartable_at_every_crash_point_small :
    let E := Small.env fun _ => .ok false
    let p := (steps (doStep E) (Small.assembler 1)
      [.incomingBlock (.newBlock (Small.fullBlock 1 2)),
        .incomingBlock (.newBlock (Small.fullBlock 1 1)), .readyToExecute]).log.take 4
    p.getLast? = some (.write (.committedBlock (Small.block 1 1))) ∧
      ∃ st', BlockStore.initializeStore E.reliable (Small.block 1 0) (BlockStore.new
        ⟨(Small.chain (Small.block 1 0) (Small.block 1 0)).replay p, []⟩ 1) = .ok () st' := by
  intro E p
  refine ⟨by decide, (restartable_at_every_crash_point (fun _ _ _ _ => Small.record_ok)
    (fun _ _ _ _ h => .inl (Small.record_error h))
    (Small.store_initialized _ (Small.block 1 0) _ 1)).2 _ _ _
    (Small.new_assembler (fun _ => .ok false) 1) (fun q _ hq x hx => ?_) p List.nil_prefix
    (List.take_prefix _ _)⟩
  -- the blocks 0, 1 and 2 are recorded in turn
  have hrecords : ∀ q ∈ (steps (doStep E) (Small.assembler 1)
      [.incomingBlock (.newBlock (Small.fullBlock 1 2)),
        .incomingBlock (.newBlock (Small.fullBlock 1 1)), .readyToExecute]).log.inits,
      ((Small.chain (Small.block 1 0) (Small.block 1 0)).replay q).executedBlock ∈
        [some ⟨Small.block 1 0⟩, some ⟨Small.block 1 1⟩, some ⟨Small.block 1 2⟩] := by decide
  have hmem := hrecords q ((List.mem_inits _ _).2 hq)
  rw [hx] at hmem
  simp only [List.mem_cons, Option.some.injEq, List.not_mem_nil, or_false] at hmem
  rcases hmem with rfl | rfl | rfl <;> exact Small.decidesChild _ _ (by decide)

end Consensus.Proof
