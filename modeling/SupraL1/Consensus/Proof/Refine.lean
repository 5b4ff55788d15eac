import SupraL1.Lib.Run
import SupraL1.Consensus.Proof.Acts

/-!
# Every step of the assembler is a sequence of actions

`Sound P m Q`: from a state with the invariant and `P`, the computation `m` is a sequence of
actions (`Act`) that ends with the invariant and `Q`, or with an error that is not one of the
`Defensive` ones, those the source reports for states it takes for impossible. There is one
lemma for each function of the source, bottom up; `doStep_sound` puts them together.
-/

namespace Consensus.Proof

open EState ChainStateAssembler SynchronizationContext Relation

/-- The errors of the branches that guard against regressions. -/
inductive Defensive : AssemblerError → Prop
  | feedbackChannel (b : CertifiedBlock) : Defensive (.fatal (.feedbackChannel b))
  | ongoingSyncRequest (n h : Nat) : Defensive (.fatal (.ongoingSyncRequest n h))
  | regression (c : RegressionCause) : Defensive (.regression c)
  | invalidOperation (e : BlockStoreError) : Defensive (.invalidBlockStoreOperation e)
  | invalidState (e : Option BlockStoreError) : Defensive (.invalidBlockStoreState e)

section
variable (E : Env) (A : CertifiedBlock → Prop) (o : Origin)

def Sound {α : Type} (P : ChainStateAssembler → Prop) (m : AssemblerM α)
    (Q : α → ChainStateAssembler → Prop) : Prop :=
  Does (Act E A o) (fun s => Inv A o s ∧ P s) m (fun a s => Inv A o s ∧ Q a s)
    (fun e s => Inv A o s ∧ ¬ Defensive e)

end

variable {E : Env} {A : CertifiedBlock → Prop} {o : Origin} {α β : Type}
  {P P' : ChainStateAssembler → Prop} {m : AssemblerM α} {Q Q' : α → ChainStateAssembler → Prop}

namespace Sound

theorem intro (h : ∀ s, Inv A o s → P s → Ends (Act E A o) s Q (fun e _ => ¬ Defensive e) (m s)) :
    Sound E A o P m Q :=
  Does.keep (fun _ _ => Act.inv) fun s hs => h s hs.1 hs.2

theorem apply (h : Sound E A o P m Q) {s : ChainStateAssembler} (hI : Inv A o s) (hP : P s) :
    Ends (Act E A o) s Q (fun e _ => ¬ Defensive e) (m s) := by
  have h1 := h s ⟨hI, hP⟩
  cases hm : m s with
  | ok a s' => rw [hm] at h1; exact ⟨h1.1, h1.2.2⟩
  | error e s' => rw [hm] at h1; exact ⟨h1.1, h1.2.2⟩

theorem bind {k : α → AssemblerM β} {Q' : β → ChainStateAssembler → Prop}
    (hm : Sound E A o P m Q) (hk : ∀ a, Sound E A o (Q a) (k a) Q') :
    Sound E A o P (m >>= k) Q' := Does.bind hm hk

theorem conseq (h : Sound E A o P m Q) (hP : ∀ s, Inv A o s → P' s → P s)
    (hQ : ∀ a s, Q a s → Q' a s) : Sound E A o P' m Q' :=
  Does.conseq h (fun s hs => ⟨hs.1, hP s hs.1 hs.2⟩) (fun a s hs => ⟨hs.1, hQ a s hs.2⟩)
    fun _ _ h => h

/-- The state the next computation starts in may be named. -/
theorem fix {k : ChainStateAssembler → AssemblerM β} {Q' : β → ChainStateAssembler → Prop}
    (h : ∀ s, P s → Sound E A o (fun s' => s' = s) (k s) Q') : Sound E A o P (get >>= k) Q' :=
  intro fun s hI hP => (h s hP).apply hI rfl

theorem ite {c : Prop} [Decidable c] {m' : AssemblerM α} (h1 : c → Sound E A o P m Q)
    (h2 : ¬ c → Sound E A o P m' Q) : Sound E A o P (if c then m else m') Q := Does.ite h1 h2

theorem ret {a : α} (h : ∀ s, P s → Q a s) : Sound E A o P (pure a) Q :=
  intro fun s _ hP => ⟨.refl, h s hP⟩

theorem fail {e : AssemblerError} (h : ¬ Defensive e) : Sound E A o P (throw e : AssemblerM α) Q :=
  intro fun _ _ _ => ⟨.refl, h⟩

theorem act {f : ChainStateAssembler → ChainStateAssembler} {Q : Unit → ChainStateAssembler → Prop}
    (hact : ∀ s, Inv A o s → P s → Act E A o s (f s)) (hQ : ∀ s, Inv A o s → P s → Q () (f s)) :
    Sound E A o P (modify f) Q :=
  intro fun s hI hP => ⟨.single (hact s hI hP), hQ s hI hP⟩

theorem write {w : Write} {err : StoreError → BlockStoreError} {Q : Unit → ChainStateAssembler → Prop}
    (herr : ∀ e, ¬ Defensive (.ofBlockStore (err e)))
    (hact : ∀ s, Inv A o s → P s → Act E A o s (s.write w))
    (hQ : ∀ s, Inv A o s → P s → Q () (s.write w)) :
    Sound E A o P (onStore (BlockStore.write E.toStoreEnv err w)) Q := by
  refine intro fun s hI hP => ?_
  rw [onStore_write]
  cases E.fails (.write w) s.log with
  | some e => exact ⟨.single (.emit (.writeFault w e)), herr e⟩
  | none => exact ⟨.single (hact s hI hP), hQ s hI hP⟩

end Sound

theorem not_defensive_blockStore (e : StoreError) :
    ¬ Defensive (.ofBlockStore (.persistentStore e)) := nofun

/-! ## The synchronizer -/

theorem postSyncRequest_sound {n : Nat} (hP : ∀ s, P s → requested s = some n) :
    Sound E A o P (postSyncRequest E n) fun _ _ => True := by
  refine .intro fun s hI h => ?_
  unfold postSyncRequest
  cases E.sendFails n s.log with
  | some e => exact ⟨.single (.emit (.requestFault n e)), nofun⟩
  | none => exact ⟨.single (.post (hP s h)), trivial⟩

theorem retry_sound : Sound E A o (fun _ => True) (retry E) fun _ _ => True := by
  refine .fix fun s _ => ?_
  cases hr : s.synchronizer.pendingSyncRequest with
  | some n => exact postSyncRequest_sound fun s' h => h ▸ hr
  | none => exact .ret fun _ _ => trivial

/-- Blocks are missing between the last executed and the highest observed block. -/
def Skipped (s : ChainStateAssembler) : Prop :=
  ∃ i, s.lastObservedHighestBlock = some i ∧ s.nextBlockHeight ≤ i.height ∧
    s.store.hasEntry s.nextBlockHeight = false

theorem tryToSyncSkippedBlocks_pos {s : ChainStateAssembler} (h : Skipped s) :
    tryToSyncSkippedBlocks E s = tryPostSyncRequest E s.nextBlockHeight s := by
  obtain ⟨i, hi, hle, hn⟩ := h
  unfold tryToSyncSkippedBlocks
  rw [get_bind, hi]
  dsimp only
  rw [if_pos ⟨hle, hn⟩]

theorem tryToSyncSkippedBlocks_neg {s : ChainStateAssembler} (h : ¬ Skipped s) :
    tryToSyncSkippedBlocks E s = .ok () s := by
  unfold tryToSyncSkippedBlocks
  rw [get_bind]
  cases hi : s.lastObservedHighestBlock with
  | none => rfl
  | some i =>
    dsimp only
    rw [if_neg fun hc => h ⟨i, hi, hc⟩]
    rfl

theorem tryPostSyncRequest_none {s : ChainStateAssembler} {n : Nat} (h : requested s = none) :
    tryPostSyncRequest E n s = match E.sendFails n s.log with
      | some e => .error (.rpcInternalError e) ((setPending (some n) s).emit (.requestFault n e))
      | none => .ok () ((setPending (some n) s).emit (.request n)) := by
  unfold tryPostSyncRequest
  rw [get_bind, show s.synchronizer.pendingSyncRequest = none from h]
  rfl

theorem tryPostSyncRequest_some {s : ChainStateAssembler} {n m : Nat} (h : requested s = some m) :
    tryPostSyncRequest E n s =
      if m = n then .ok () s else .error (.fatal (.ongoingSyncRequest m n)) s := by
  unfold tryPostSyncRequest
  rw [get_bind, show s.synchronizer.pendingSyncRequest = some m from h]
  dsimp only
  split <;> rfl

theorem tryToSyncSkippedBlocks_sound :
    Sound E A o (fun s => s.isCurrentEpochOver = false) (tryToSyncSkippedBlocks E)
      fun _ _ => True := by
  refine .intro fun s hI hl => ?_
  by_cases hs : Skipped s
  · rw [tryToSyncSkippedBlocks_pos hs]
    obtain ⟨i, hi, hle, hn⟩ := hs
    cases hr : requested s with
    | none =>
      have hask : Act E A o s (setPending (some s.nextBlockHeight) s) := .ask hi hle hn hl hr
      rw [tryPostSyncRequest_none hr]
      cases E.sendFails s.nextBlockHeight s.log with
      | some e => exact ⟨(ReflTransGen.single hask).tail (.emit (.requestFault _ e)), nofun⟩
      | none => exact ⟨(ReflTransGen.single hask).tail (.post rfl), trivial⟩
    | some n =>
      -- a request that is pending is for this height
      rw [tryPostSyncRequest_some hr, if_pos (hI.request n hr).1]
      exact ⟨.refl, trivial⟩
  · rw [tryToSyncSkippedBlocks_neg hs]
    exact ⟨.refl, trivial⟩

theorem clear_acts (n : Nat) (s : ChainStateAssembler) :
    ∃ p, p ≠ some n ∧ clear n s = .ok () (setPending p s) ∧
      ReflTransGen (Act E A o) s (setPending p s) := by
  by_cases h : requested s = some n
  · refine ⟨none, nofun, ?_, .single .forget⟩
    unfold clear
    rw [modify_apply, if_pos h]
  · refine ⟨requested s, h, ?_, .refl⟩
    unfold clear
    rw [modify_apply, if_neg h]
    rfl

theorem clear_sound {n : Nat} {Q : Unit → ChainStateAssembler → Prop}
    (hQ : ∀ s p, Inv A o (setPending p s) → P s → p ≠ some n → Q () (setPending p s)) :
    Sound E A o P (clear n) Q := by
  refine .intro fun s hI hP => ?_
  obtain ⟨p, hp, hclear, hacts⟩ := clear_acts (E := E) (A := A) (o := o) n s
  rw [hclear]
  exact ⟨hacts, hQ s p (hI.star hacts) hP hp⟩

theorem Inv.idle {s : ChainStateAssembler} (hI : Inv A o s)
    (h : requested s ≠ some s.nextBlockHeight) : requested s = none := by
  refine Option.eq_none_iff_forall_ne_some.2 fun n hn => h ?_
  rw [hn, (hI.request n hn).1]

/-! ## The block store -/

/-- The batches of an admitted block are in the store, up to those still to be written. -/
structure Persisting (E : Env) (fb : FullBlock) (rest : List PackedSmrBatch)
    (s : ChainStateAssembler) : Prop extends Admits E s fb where
  batches : ∀ p ∈ fb.batches, p ∈ rest ∨ (s.chain.batch p.key).isSome

theorem persistBatches_sound {fb : FullBlock} {ps : List PackedSmrBatch}
    (hsub : ∀ p ∈ ps, p ∈ fb.batches) :
    Sound E A o (Persisting E fb ps) (onStore (BlockStore.persistBatches E.toStoreEnv ps))
      fun _ => Persisting E fb [] := by
  induction ps with
  | nil => exact .ret fun s h => h
  | cons p ps ih =>
    unfold BlockStore.persistBatches
    rw [onStore_bind]
    refine .bind (.write (Q := fun _ => Persisting E fb ps) not_defensive_blockStore
      (fun s _ h => .batch h.toAdmits (hsub p List.mem_cons_self)) fun s _ h => ?_)
      fun _ => ih fun q hq => hsub q (List.mem_cons_of_mem p hq)
    refine ⟨{ h.toAdmits with }, fun q hq => ?_⟩
    rw [batch_write_batch]
    by_cases hk : q.key = p.key
    · exact .inr (by simp [hk])
    · rcases h.batches q hq with hmem | hsome
      · rcases List.mem_cons.1 hmem with rfl | hmem
        · exact absurd rfl hk
        · exact .inl hmem
      · exact .inr (by simpa [hk] using hsome)

/-- A block that has been admitted and persisted. -/
structure Persisted (E : Env) (A : CertifiedBlock → Prop) (fb : FullBlock)
    (s : ChainStateAssembler) : Prop extends Admits E s fb where
  accepted : A fb.base
  stored : stored s fb.base.height = some fb.base

theorem persist_sound {fb : FullBlock} (hA : A fb.base) :
    Sound E A o (fun s => Admits E s fb) (onStore (BlockStore.persist E.toStoreEnv fb))
      fun _ => Persisted E A fb := by
  unfold BlockStore.persist
  rw [onStore_bind]
  refine .bind ((persistBatches_sound fun _ h => h).conseq
    (fun s _ h => ⟨h, fun p hp => .inl hp⟩) fun _ _ h => h) fun _ => ?_
  refine .write nofun (fun s _ h => .certified h.toAdmits hA fun p hp => ?_) fun s _ h => ?_
  · exact (h.batches p hp).resolve_left (by simp)
  · exact { h.toAdmits with
      accepted := hA
      stored := by rw [stored_write_block, if_pos rfl] }

theorem cache_ok {s : ChainStateAssembler} {b : CertifiedBlock} (hc : committed s < b.height)
    (hp : pending s b.height = none) : onStore (BlockStore.cache b) s =
      .ok () (withPending ((pending s).insert b.height (some (s.store.reference b))) s) := by
  have hcan : onStore (BlockStore.ensureCanBeCached b.height) s = .ok () s := by
    unfold BlockStore.ensureCanBeCached onStore onPart
    rw [get_bind, if_neg (Nat.not_le.2 hc),
      show s.store.pendingExecution b.height = none from hp]
    rfl
  unfold BlockStore.cache
  rw [onStore_bind, bind_ok hcan]
  rfl

theorem cache_sound {fb : FullBlock} :
    Sound E A o (fun s => Persisted E A fb s ∧ fb.base.height ≠ s.nextBlockHeight)
      (onStore (BlockStore.cache fb.base)) fun _ s => s.isCurrentEpochOver = false := by
  refine .intro fun s _ ⟨h, hne⟩ => ?_
  rw [cache_ok h.uncommitted h.free]
  exact ⟨.single (.cache h.toAdmits h.accepted h.stored hne), h.live⟩

/-! ## Execution -/

/-- After the execution of `b`: nothing is on its way, and the cache has neither a scheduled nor
an emptied entry. -/
structure Executed (b : CertifiedBlock) (s : ChainStateAssembler) : Prop where
  info : executed s = b.info
  atHeight : committed s = b.height
  quiet : s.readyToExecute = []
  idle : requested s = none
  noHole : ∀ h, pending s h ≠ some none
  noneScheduled : ∀ h i, pending s h ≠ some (some (.scheduled i))

theorem Executed.of_advance {s : ChainStateAssembler} {b : CertifiedBlock} (hI : Inv A o s)
    (hh : Handed E A o s b) (flag : Bool) :
    Executed b (advance b flag (s.emit (.executed b flag))) where
  info := rfl
  atHeight := hh.atHeight
  quiet := hh.quiet
  idle := hh.idle
  noHole h hp := by
    obtain ⟨hlt, hp⟩ := Cache.retain_some.1 hp
    exact absurd (hI.hole h hp).1 (by rw [hh.follows.1] at hlt; exact Nat.ne_of_gt hlt)
  noneScheduled h i hp := by
    obtain ⟨hlt, hp⟩ := Cache.retain_some.1 hp
    exact absurd (hI.scheduled h i hp).1 (by rw [hh.follows.1] at hlt; exact Nat.ne_of_gt hlt)

theorem returned_acts {s : ChainStateAssembler} {b : CertifiedBlock} (hI : Inv A o s)
    (hr : Ready E A s b) (hc : committed s < b.height) :
    ReflTransGen (Act E A o) s (returned E b s) ∧ Handed E A o (returned E b s) b ∧
      ∀ r, (answer E b s).record = some r → (returned E b s).chain.executedBlock = some r := by
  have hcommit : Act E A o s (commitTo b s) := .commit hr hc
  have hI1 : Inv A o (commitTo b s) := hcommit.inv hI
  have htip : o.tip s = executed s := hI.settled (by rw [hr.follows.1] at hc; exact hc)
  have hcommitted : Committed E A o (commitTo b s) b :=
    { hr with
      atHeight := rfl
      recorded := rfl
      atTip := (Origin.tip_write (s := withCommitted b.height s) hI.mark _).trans htip }
  have hhand := Act.handOver hcommitted
  have hI2 := hhand.inv hI1
  have hhanded : Handed E A o
      ((commitTo b s).emit (.execute b s.blockVerifier.current.committee)) b :=
    { hr with
      atHeight := rfl
      recorded := rfl
      atTip := Origin.tip_execute hI1.mark _ _ }
  have hstar := (ReflTransGen.single hcommit).tail hhand
  unfold returned
  cases hrec : (answer E b s).record with
  | none => exact ⟨hstar, hhanded, nofun⟩
  | some r =>
    refine ⟨hstar.tail (.record hhanded hrec), ?_, fun r' h => by cases h; rfl⟩
    exact { hhanded with atTip := (Origin.tip_write hI2.mark _).trans hhanded.atTip }

theorem executeBlock_sound {b : CertifiedBlock} :
    Sound E A o (fun s => Ready E A s b ∧ committed s < b.height) (executeBlock E b)
      fun _ => Executed b := by
  refine .intro fun s hI ⟨hr, hc⟩ => ?_
  rw [executeBlock_eq]
  cases E.fails (.write (.committedBlock b)) s.log with
  | some e => exact ⟨.single (.commitFault e hr hc), nofun⟩
  | none =>
    obtain ⟨hstar, hh, hw⟩ := returned_acts hI hr hc
    cases hres : (answer E b s).result with
    | error e => exact ⟨hstar, nofun⟩
    | ok flag =>
      have hI' : Inv A o (returned E b s) := hI.star hstar
      exact ⟨hstar.tail (.advance hh hres hw), .of_advance hI' hh flag⟩

/-- `b` has been taken from the cache and is the next block. -/
structure Scheduled (A : CertifiedBlock → Prop) (b : CertifiedBlock) (s : ChainStateAssembler) :
    Prop where
  live : s.isCurrentEpochOver = false
  accepted : A b
  next : b.height = s.nextBlockHeight
  stored : stored s b.height = some b
  entry : pending s b.height = some (some (.scheduled b.info))
  uncommitted : committed s < b.height
  quiet : s.readyToExecute = []

theorem trySend_ok {s : ChainStateAssembler} (hq : s.readyToExecute = []) (b : CertifiedBlock) :
    trySend b s = .ok () (withReady [b] s) := by
  unfold trySend
  rw [get_bind, hq, if_pos (by decide), modify_apply, hq]
  rfl

theorem trySend_sound {b : CertifiedBlock} :
    Sound E A o (Scheduled A b) (trySend b) fun _ _ => True := by
  refine .intro fun s _ h => ?_
  rw [trySend_ok h.quiet]
  exact ⟨.single (.push h.live h.accepted h.next h.stored h.entry h.uncommitted h.quiet), trivial⟩

theorem schedule_acts {s : ChainStateAssembler} {b b' : CertifiedBlock} (hx : Executed b s)
    (hl : s.isCurrentEpochOver = false) (hA : A b') (hh : b'.height = s.nextBlockHeight)
    (hs : stored s b'.height = some b')
    (hp : pending s b'.height = some (some (.block b')) ∨
      pending s b'.height = some (some (.memo b'.info))) :
    Act E A o s (withPending ((pending s).insert s.nextBlockHeight (some (.scheduled b'.info))) s) ∧
      Scheduled A b'
        (withPending ((pending s).insert s.nextBlockHeight (some (.scheduled b'.info))) s) := by
  have hnext : s.nextBlockHeight = b.height + 1 := by
    unfold ChainStateAssembler.nextBlockHeight
    rw [show s.lastExecutedBlockInfo = b.info from hx.info]; rfl
  rw [← hh]
  refine ⟨.schedule hl hA hh hs hp hx.quiet, hl, hA, hh, hs, Cache.insert_self .., ?_, hx.quiet⟩
  show committed s < b'.height
  rw [hx.atHeight, hh, hnext]
  exact Nat.lt_succ_self _

theorem takeNext_sound {b : CertifiedBlock} {n : Nat} :
    Sound E A o (fun s => Executed b s ∧ s.isCurrentEpochOver = false ∧ s.nextBlockHeight = n)
      (onStore (BlockStore.takeNextReadyBlockByHeight E.toStoreEnv n)) fun r s =>
        s.isCurrentEpochOver = false ∧ ∀ b', r = some b' → Scheduled A b' s := by
  refine .intro fun s hI ⟨hx, hl, hn⟩ => ?_
  subst hn
  unfold onStore onPart
  rw [BlockStore.takeNextReadyBlockByHeight_eq]
  cases hp : s.store.pendingExecution s.nextBlockHeight with
  | none => exact ⟨.refl, hl, nofun⟩
  | some r =>
    rcases r with _ | (b' | i | i)
    · exact absurd hp (hx.noHole _)
    · obtain ⟨hh, hA, hs⟩ := hI.block _ _ hp
      obtain ⟨hact, hsch⟩ := schedule_acts (E := E) (o := o) hx hl hA hh (hh ▸ hs) (.inl (hh ▸ hp))
      exact ⟨.single hact, hl, fun _ h => by cases h; exact hsch⟩
    · obtain ⟨b', rfl, hh, hA, hs⟩ := hI.memo _ _ hp
      have hole : Act E A o s _ := .hole hl hp hx.quiet
      dsimp only
      rw [show s.store.store.chain.certifiedBlock b'.info.height = some b' from by
        rw [CertifiedBlock.info_height, hh]; exact hs]
      cases E.fails (.readCertifiedBlock b'.info.height) s.store.store.log with
      | some e => exact ⟨.single hole, nofun⟩
      | none =>
        dsimp only
        cases E.fails (.hydrate b') s.store.store.log with
        | some e => exact ⟨.single hole, nofun⟩
        | none =>
          obtain ⟨hact, hsch⟩ :=
            schedule_acts (E := E) (o := o) hx hl hA hh (hh ▸ hs) (.inr (hh ▸ hp))
          exact ⟨.single hact, hl, fun _ h => by cases h; exact hsch⟩
    · exact absurd hp (hx.noneScheduled _ _)

theorem tryExecuteBlockChain_sound {b : CertifiedBlock} :
    Sound E A o (fun s => Ready E A s b ∧ committed s < b.height) (tryExecuteBlockChain E b)
      fun _ _ => True := by
  refine .bind executeBlock_sound fun _ => .fix fun s hx => ?_
  cases hl : s.isCurrentEpochOver with
  | true =>
    refine .write not_defensive_blockStore (fun s' _ hs => ?_) fun _ _ _ => trivial
    exact .boundary (hs ▸ hl) (hs ▸ hx.info)
  | false =>
    refine .bind ((takeNext_sound (b := b)).conseq (fun s' _ hs => ?_) fun _ _ h => h) ?_
    · subst hs; exact ⟨hx, hl, rfl⟩
    intro r
    cases r with
    | some b' => exact trySend_sound.conseq (fun s' _ h => h.2 b' rfl) fun _ _ h => h
    | none => exact tryToSyncSkippedBlocks_sound.conseq (fun s' _ h => h.1) fun _ _ h => h

theorem doesFollowChain_sound {b : CertifiedBlock} :
    Sound E A o P (doesFollowChain b) fun follows s =>
      P s ∧ if follows then Extends (executed s) b else b.height ≠ s.nextBlockHeight := by
  refine .fix fun s hP => .ite (fun hn => .ite (fun hp => ?_) fun _ => .fail nofun) fun hn => ?_
  · exact .ret fun s' hs => by subst hs; exact ⟨hP, hn, hp⟩
  · exact .ret fun s' hs => by subst hs; exact ⟨hP, hn⟩

/-! ## Blocks from the channels -/

theorem Ready.of_persisted {s : ChainStateAssembler} {fb : FullBlock} (hI : Inv A o s)
    (h : Persisted E A fb s) (hx : Extends (executed s) fb.base) (hr : requested s = none) :
    Ready E A s fb.base where
  accepted := h.accepted
  live := h.live
  follows := hx
  stored := h.stored
  quiet := by
    cases hq : s.readyToExecute with
    | nil => rfl
    | cons b l =>
      -- a scheduled block would have an entry at this height
      obtain ⟨-, hn, -, -, hp⟩ := hI.channel b (by rw [hq]; exact List.mem_cons_self)
      rw [hn, show s.nextBlockHeight = fb.base.height from hx.1.symm, h.free] at hp
      cases hp
  idle := hr
  source := .inl ⟨fb, rfl, h.verified⟩

theorem handleFullBlock_sound {fb : FullBlock} (hA : A fb.base) :
    Sound E A o (fun s => Admits E s fb) (handleFullBlock E fb) fun _ _ => True := by
  refine .fix fun s ha => ?_
  rw [if_neg (Nat.not_le.2 ha.above)]
  refine .bind ((persist_sound hA).conseq (fun s' _ hs => hs ▸ ha) fun _ _ h => h) fun _ => ?_
  refine .bind doesFollowChain_sound fun follows => ?_
  cases follows with
  | true =>
    refine .bind (clear_sound (Q := fun _ s => Ready E A s fb.base ∧ committed s < fb.base.height)
      fun s p hI ⟨h, hx⟩ hne => ?_) fun _ => tryExecuteBlockChain_sound
    have hidle : requested (setPending p s) = none := hI.idle fun hp => hne (hp.trans ?_)
    · exact ⟨.of_persisted hI { h with } hx hidle, h.uncommitted⟩
    · exact congrArg some hx.1.symm
  | false =>
    refine .bind (clear_sound (Q := fun _ s => Persisted E A fb s ∧
      fb.base.height ≠ s.nextBlockHeight) fun s p _ ⟨h, hne⟩ _ => ⟨{ h with }, hne⟩) fun _ => ?_
    exact .bind cache_sound fun _ => tryToSyncSkippedBlocks_sound

theorem Scheduled.ready {s : ChainStateAssembler} {b : CertifiedBlock} (h : Scheduled A b s)
    (hx : Extends (executed s) b) (hidle : requested s = none) : Ready E A s b :=
  ⟨h.accepted, h.live, hx, h.stored, h.quiet, hidle, .inr h.entry⟩

theorem handleScheduledBlock_sound {b : CertifiedBlock} :
    Sound E A o (Scheduled A b) (handleScheduledBlock E b) fun _ _ => True := by
  refine .bind (clear_sound (Q := fun _ s => Scheduled A b s ∧ requested s = none)
    fun s p hI h hne => ⟨{ h with }, hI.idle fun hp => hne (hp.trans ?_)⟩)
    fun _ => .fix fun s hs => ?_
  · exact congrArg some h.next.symm
  · rw [if_neg (by rw [hs.1.live]; exact Bool.false_ne_true)]
    refine .bind doesFollowChain_sound fun follows => ?_
    cases follows with
    | true =>
      refine tryExecuteBlockChain_sound.conseq (fun s' _ h => ?_) fun _ _ h => h
      obtain ⟨rfl, hx⟩ := h
      exact ⟨hs.1.ready hx hs.2, hs.1.uncommitted⟩
    | false =>
      -- the scheduled block has the next height
      refine .intro fun s' _ h => absurd ?_ h.2
      rw [h.1]; exact hs.1.next

theorem Inv.received {s : ChainStateAssembler} {b : CertifiedBlock} {rest : List CertifiedBlock}
    (hI : Inv A o s) (hq : s.readyToExecute = b :: rest) :
    Act E A o s (withReady rest s) ∧ Scheduled A b (withReady rest s) := by
  obtain ⟨hA, hn, hc, hs, hp⟩ := hI.channel b (by rw [hq]; exact List.mem_cons_self)
  have hrest : rest = [] := by
    have h1 := hI.single
    rw [hq, List.length_cons] at h1
    exact List.eq_nil_of_length_eq_zero (by omega)
  have hl : s.isCurrentEpochOver = false := by
    cases ho : s.isCurrentEpochOver with
    | false => rfl
    | true => rw [hI.halted ho] at hq; cases hq
  have hpop := Act.pop (E := E) (A := A) (o := o) (s := s)
  rw [hq] at hpop
  exact ⟨hpop, hl, hA, hn, hs, hp, hc, hrest⟩

theorem receiveScheduled_sound :
    Sound E A o (fun _ => True) (receiveScheduled E) fun _ _ => True := by
  refine .intro fun s hI _ => ?_
  unfold receiveScheduled
  rw [get_bind]
  cases hq : s.readyToExecute with
  | nil => exact ⟨.refl, trivial⟩
  | cons b rest =>
    obtain ⟨hpop, hsch⟩ := hI.received (E := E) hq
    have hend := (handleScheduledBlock_sound (E := E)).apply (hpop.inv hI) hsch
    dsimp only
    rw [modify_bind]
    exact hend.head hpop

theorem handleIncomingBlock_sound {msg : RpcBlockData} {v : EpochStates}
    (hA : E.verify v msg.fullBlock = .success → A msg.fullBlock.base) :
    Sound E A o (fun s => s.blockVerifier = v) (handleIncomingBlock E msg) fun _ _ => True := by
  refine .bind (Q := fun _ s => s.blockVerifier = v) (.intro fun s _ hs => ?_)
    fun _ => .fix fun s hs => ?_
  · rw [modify_apply]
    unfold observeBlock
    split
    · exact ⟨.single (.observe _), hs⟩
    · exact ⟨.refl, hs⟩
  · refine .ite (fun _ => .ret fun _ _ => trivial) fun hskip => ?_
    simp only [shouldBeSkipped, Bool.or_eq_true, not_or, Bool.not_eq_true, decide_eq_true_eq,
      Nat.not_le] at hskip
    obtain ⟨⟨hl, habove⟩, hentry⟩ := hskip
    obtain ⟨hc, hp⟩ := BlockStore.hasEntry_false.1 hentry
    cases hv : E.verify s.blockVerifier msg.fullBlock with
    | success =>
      refine (handleFullBlock_sound (hA (hs ▸ hv))).conseq (fun s' _ h => ?_) fun _ _ h => h
      subst h
      exact ⟨hv, hl, habove, hc, hp⟩
    | oldEpochBlock => exact .ret fun _ _ => trivial
    | futureEpochBlock =>
      exact tryToSyncSkippedBlocks_sound.conseq (fun s' _ hs => hs ▸ hl) fun _ _ h => h
    | invalidBlock e => exact .fail nofun

/-! ## Epoch notifications -/

/-- The notification passes the checks of `handle_epoch_manager_notification`. -/
def Accepts (E : Env) (n : Notification) (s : ChainStateAssembler) : Prop :=
  s.isCurrentEpochOver = true ∧ ∀ e, n = .newEpoch e → e.isEpochOver = false ∧
    E.epochExtends e s.currentEpochState = true

theorem applyNotification_sound {n : Notification} {s : ChainStateAssembler} (h : Accepts E n s) :
    Sound E A o (fun s' => s' = s) (applyNotification E n) fun _ _ => True := by
  obtain ⟨ho, hn⟩ := h
  cases n with
  | endEpoch => exact .ret fun _ _ => trivial
  | newEpoch e =>
    obtain ⟨he, hx⟩ := hn e rfl
    refine .bind (.intro (Q := fun _ s' => s' = withPending ((pending s).retain e.startHeight) s)
      fun s' _ hs => ?_) fun _ => ?_
    · subst hs
      exact ⟨.single (.retain _ ho), rfl⟩
    · refine .bind (.act (Q := fun _ s' => s'.isCurrentEpochOver = false) ?_ ?_) fun _ =>
        tryToSyncSkippedBlocks_sound
      · rintro s' - rfl
        exact .newEpoch (s := withPending ((pending s).retain e.startHeight) s) ho he hx
      · rintro s' - rfl
        exact he

/-- An accepted notification is applied and acknowledged, whatever the result. -/
theorem handleEpochManagerNotification_accept {n : Notification} {s : ChainStateAssembler}
    (h : Accepts E n s) :
    handleEpochManagerNotification E n s = match applyNotification E n s with
      | .ok _ s' => .ok () (s'.emit .ack)
      | .error e s' => .error e (s'.emit .ack) := by
  obtain ⟨ho, hn⟩ := h
  unfold handleEpochManagerNotification
  rw [get_bind, if_neg (by simp [ho])]
  have hgo : (attempt (applyNotification E n) >>= fun r => modify (·.emit .ack) >>= fun _ =>
      ofExcept r : AssemblerM Unit) s = match applyNotification E n s with
      | .ok _ s' => .ok () (s'.emit .ack)
      | .error e s' => .error e (s'.emit .ack) := by
    simp only [bind_apply, attempt]
    cases applyNotification E n s <;> rfl
  cases n with
  | endEpoch => exact hgo
  | newEpoch e =>
    obtain ⟨he, hx⟩ := hn e rfl
    dsimp only
    rw [if_neg (by simp [he, hx])]
    exact hgo

theorem handleEpochManagerNotification_reject {n : Notification} {s : ChainStateAssembler}
    (h : ¬ Accepts E n s) : ∃ c, handleEpochManagerNotification E n s = .error (.fatal c) s ∧
      ¬ Defensive (.fatal c) := by
  unfold handleEpochManagerNotification
  rw [get_bind]
  by_cases ho : s.isCurrentEpochOver = false
  · rw [if_pos ho]
    exact ⟨_, rfl, nofun⟩
  · rw [if_neg ho]
    have ho : s.isCurrentEpochOver = true := by simpa using ho
    cases n with
    | endEpoch => exact absurd ⟨ho, nofun⟩ h
    | newEpoch e =>
      have hbad : (e.isEpochOver || !E.epochExtends e s.currentEpochState) = true := by
        by_contra hgood
        simp only [Bool.or_eq_true, not_or, Bool.not_eq_true, Bool.not_eq_false'] at hgood
        exact h ⟨ho, fun e' he => by cases he; exact hgood⟩
      dsimp only
      rw [if_pos hbad]
      exact ⟨_, rfl, nofun⟩

theorem handleEpochManagerNotification_sound {n : Notification} :
    Sound E A o (fun _ => True) (handleEpochManagerNotification E n) fun _ _ => True := by
  refine .intro fun s hI _ => ?_
  by_cases h : Accepts E n s
  · have hend := (applyNotification_sound (A := A) (o := o) h).apply hI rfl
    rw [handleEpochManagerNotification_accept h]
    cases ha : applyNotification E n s with
    | ok a s' => rw [ha] at hend; exact ⟨hend.1.tail (.emit .ack), trivial⟩
    | error e s' => rw [ha] at hend; exact ⟨hend.1.tail (.emit .ack), hend.2⟩
  · obtain ⟨c, hc, hd⟩ := handleEpochManagerNotification_reject h
    rw [hc]
    exact ⟨.refl, hd⟩

/-! ## Frames -/

/-- The events of a sync request. -/
inductive Requests : Event → Prop
  | sent (n : Nat) : Requests (.request n)
  | fault (n : Nat) (e : RpcClientError) : Requests (.requestFault n e)

theorem after_tryToSyncSkippedBlocks (s : ChainStateAssembler) :
    after (tryToSyncSkippedBlocks E) s = s ∨ ∃ e, Requests e ∧
      after (tryToSyncSkippedBlocks E) s = (setPending (some s.nextBlockHeight) s).emit e := by
  by_cases hs : Skipped s
  · have hpos := tryToSyncSkippedBlocks_pos (E := E) hs
    cases hr : requested s with
    | none =>
      rw [tryPostSyncRequest_none hr] at hpos
      right
      cases hf : E.sendFails s.nextBlockHeight s.log with
      | some e => rw [hf] at hpos; exact ⟨.requestFault _ e, .fault _ e, after_error hpos⟩
      | none => rw [hf] at hpos; exact ⟨.request _, .sent _, after_ok hpos⟩
    | some n =>
      rw [tryPostSyncRequest_some hr] at hpos
      left
      split at hpos
      · exact after_ok hpos
      · exact after_error hpos
  · exact .inl (after_ok (tryToSyncSkippedBlocks_neg hs))

theorem keeps_verifier {m : AssemblerM α} (h : Keeps core m) :
    Keeps ChainStateAssembler.blockVerifier m := h.comp ChainStateAssembler.blockVerifier

theorem keeps_postSyncRequest (n : Nat) : Keeps core (postSyncRequest E n) := by
  intro s
  unfold after postSyncRequest
  cases E.sendFails n s.log <;> rfl

theorem keeps_retry : Keeps core (retry E) := by
  refine .read fun s => ?_
  cases s.synchronizer.pendingSyncRequest with
  | some n => exact keeps_postSyncRequest n
  | none => exact .ret ()

theorem keeps_tryToSyncSkippedBlocks : Keeps core (tryToSyncSkippedBlocks E) := by
  intro s
  rcases after_tryToSyncSkippedBlocks (E := E) s with h | ⟨e, -, h⟩
  · rw [h]
  · rw [h]; rfl

theorem keeps_clear (n : Nat) : Keeps core (clear n) := by
  refine .act fun s => ?_
  split <;> rfl

theorem keeps_write (err : StoreError → BlockStoreError) (w : Write) :
    Keeps core (onStore (BlockStore.write E.toStoreEnv err w)) := by
  intro s
  unfold after
  rw [onStore_write]
  cases E.fails (.write w) s.log <;> rfl

theorem keeps_persist (fb : FullBlock) :
    Keeps core (onStore (BlockStore.persist E.toStoreEnv fb)) := by
  have hbatches : ∀ ps, Keeps core (onStore (BlockStore.persistBatches E.toStoreEnv ps)) := by
    intro ps
    induction ps with
    | nil => exact .ret ()
    | cons p ps ih =>
      unfold BlockStore.persistBatches
      rw [onStore_bind]
      exact .bind (keeps_write _ _) fun _ => ih
  unfold BlockStore.persist
  rw [onStore_bind]
  exact .bind (hbatches _) fun _ => keeps_write _ _

/-! ## Steps and runs -/

/-- The message of the trigger, if there is one, is verified in the epoch states `v`. -/
def Delivers (E : Env) (v : EpochStates) (t : Trigger) (b : CertifiedBlock) : Prop :=
  ∃ msg, t = .incomingBlock msg ∧ msg.fullBlock.base = b ∧ E.verify v msg.fullBlock = .success

/-- **Every step is a sequence of actions.** -/
theorem doStep_sound {t : Trigger} {v : EpochStates} (hA : ∀ b, Delivers E v t b → A b) :
    Sound E A o (fun s => s.blockVerifier = v) (doStep E t) fun _ _ => True := by
  cases t with
  | epochNotification n =>
    exact .bind (handleEpochManagerNotification_sound.conseq (fun _ _ _ => trivial) fun _ _ h => h)
      fun _ => .ret fun _ h => h
  | epochManagerGone => exact .ret fun _ _ => trivial
  | shutdown => exact .ret fun _ _ => trivial
  | incomingBlock msg =>
    exact .bind (handleIncomingBlock_sound fun hv => hA _ ⟨msg, rfl, rfl, hv⟩)
      fun _ => .ret fun _ h => h
  | blocksChannelClosed => exact .ret fun _ _ => trivial
  | readyToExecute =>
    exact .bind (receiveScheduled_sound.conseq (fun _ _ _ => trivial) fun _ _ h => h)
      fun _ => .ret fun _ h => h
  | syncTimer =>
    exact .bind (retry_sound.conseq (fun _ _ _ => trivial) fun _ _ h => h) fun _ => .ret fun _ h => h

/-- The blocks accepted by the steps of a run: each arrived in a message that was verified. -/
def Accepted (E : Env) (s : ChainStateAssembler) (ts : List Trigger) (b : CertifiedBlock) : Prop :=
  ∃ pre t post, ts = pre ++ t :: post ∧ Delivers E (steps (doStep E) s pre).blockVerifier t b

theorem Accepted.mono {s : ChainStateAssembler} {ts us : List Trigger} {b : CertifiedBlock}
    (h : Accepted E s ts b) : Accepted E s (ts ++ us) b := by
  obtain ⟨pre, t, post, rfl, hd⟩ := h
  exact ⟨pre, t, post ++ us, by simp, hd⟩

theorem doStep_ends {t : Trigger} {s : ChainStateAssembler} (hI : Inv A o s)
    (hA : ∀ b, Delivers E s.blockVerifier t b → A b) :
    Ends (Act E A o) s (fun _ _ => True) (fun e _ => ¬ Defensive e) (doStep E t s) :=
  (doStep_sound hA).apply hI rfl

/-- **A run is a sequence of actions**, on any set of blocks that has the accepted ones. -/
theorem run_acts {s : ChainStateAssembler} {ts : List Trigger} (hI : Inv A o s)
    (hA : ∀ b, Accepted E s ts b → A b) :
    ReflTransGen (Act E A o) s (steps (doStep E) s ts) := by
  refine steps_inv (I := fun _ s' => ReflTransGen (Act E A o) s s') .refl ?_
  intro pre t post hts hstar
  exact hstar.trans (doStep_ends (hI.star hstar) fun b hb => hA b ⟨pre, t, post, hts, hb⟩).after

end Consensus.Proof
