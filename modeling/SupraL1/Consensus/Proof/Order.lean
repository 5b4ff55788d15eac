import SupraL1.Consensus.Proof.Chain

/-!
# Delivery order does not matter

The blocks of a chain are delivered in any order, any number of times and interleaved with the
feedback channel and the timer. `Flowing`: a delivered block above the last executed one has an
entry in the cache, and when the next block has one, it is in the feedback channel. So once the
channel is empty the next block has not been delivered, and what has been executed is the longest
run of delivered blocks (`executed_is_longest_delivered_run`).
-/

namespace Consensus.Proof

open EState ChainStateAssembler SynchronizationContext Relation

variable {E : Env} {o : Origin} {st : BlockStore} {v : EpochStates} {s s' : ChainStateAssembler}
  {w : World} {c D : List CertifiedBlock}

/-! ## Deliveries -/

def delivered (ts : List Trigger) : List CertifiedBlock :=
  ts.filterMap fun
    | .incomingBlock msg => some msg.fullBlock.base
    | _ => none

/-- Triggers that deliver blocks of the chain `c`, serve the feedback channel or are a tick. -/
def Feeds (E : Env) (v : EpochStates) (c : List CertifiedBlock) : Trigger → Prop
  | .incomingBlock msg => msg.fullBlock.base ∈ c ∧ E.verify v msg.fullBlock = .success
  | .readyToExecute => True
  | .syncTimer => True
  | _ => False

/-- Nothing fails, and the execution of the blocks of `c` does not end the epoch. -/
structure Undisturbed (E : Env) (c : List CertifiedBlock) : Prop extends E.NoFailure where
  executes : ∀ b ∈ c, ∀ log committee, (E.executeBlock log b committee).result = .ok false

/-- The delivered blocks `D` are executed, cached or on their way. -/
structure Flowing (v : EpochStates) (D : List CertifiedBlock) (s : ChainStateAssembler) : Prop where
  verifier : s.blockVerifier = v
  level : committed s = (executed s).height
  /-- No block is lost. -/
  kept : ∀ b ∈ D, (executed s).height < b.height → pending s b.height ≠ none
  /-- A successor is not forgotten. -/
  moving : pending s s.nextBlockHeight ≠ none → s.readyToExecute ≠ []

theorem Flowing.of_core (h : Flowing v D s) (hc : core s' = core s) : Flowing v D s' := by
  have h' : Flowing v D (core s) := ⟨h.verifier, h.level, h.kept, h.moving⟩
  rw [← hc] at h'
  exact ⟨h'.verifier, h'.level, h'.kept, h'.moving⟩

/-! ## Execution -/

theorem takeNext_cases {A : CertifiedBlock → Prop} {b : CertifiedBlock}
    (hrel : E.toStoreEnv.Reliable) (hI : Inv A o s) (hx : Executed b s) :
    (pending s s.nextBlockHeight = none ∧
      onStore (BlockStore.takeNextReadyBlockByHeight E.toStoreEnv s.nextBlockHeight) s =
        .ok none s) ∨
    ∃ b', onStore (BlockStore.takeNextReadyBlockByHeight E.toStoreEnv s.nextBlockHeight) s =
      .ok (some b')
        (withPending ((pending s).insert s.nextBlockHeight (some (.scheduled b'.info))) s) := by
  have htake := BlockStore.takeNextReadyBlockByHeight_eq E.toStoreEnv s.nextBlockHeight s.store
  cases hp : s.store.pendingExecution s.nextBlockHeight with
  | none =>
    rw [hp] at htake
    exact .inl ⟨hp, onPart_ok htake⟩
  | some r =>
    rw [hp] at htake
    rcases r with _ | (b' | i | i)
    · exact absurd hp (hx.noHole _)
    · exact .inr ⟨b', onPart_ok htake⟩
    · obtain ⟨b', rfl, hh, -, hs⟩ := hI.memo _ _ hp
      have hread : s.store.store.chain.certifiedBlock b'.info.height = some b' :=
        (congrArg (stored s) hh).trans hs
      simp only [hrel _ _, hread] at htake
      exact .inr ⟨b', onPart_ok htake⟩
    · exact absurd hp (hx.noneScheduled _ _)

theorem tryExecuteBlockChain_flowing (hE : Undisturbed E c) {b : CertifiedBlock}
    (hI : Inv (· ∈ c) o s) (hr : Ready E (· ∈ c) s b) (hc : committed s < b.height)
    (hkept : ∀ d ∈ D, b.height < d.height → pending s d.height ≠ none) :
    Flowing s.blockVerifier D (after (tryExecuteBlockChain E b) s) := by
  have hexec := executeBlock_eq E b s
  rw [hE.store, show (answer E b s).result = .ok false from hE.executes b hr.accepted _ _] at hexec
  dsimp only at hexec
  have hend := (executeBlock_sound (E := E)).apply hI ⟨hr, hc⟩
  have hverifier : (advance b false ((returned E b s).emit (.executed b false))).blockVerifier =
      s.blockVerifier := by
    show (core (returned E b s)).blockVerifier = _
    rw [returned_core]
    rfl
  have hpending : pending (advance b false ((returned E b s).emit (.executed b false))) =
      (pending s).retain b.height := by
    show (pending (core (returned E b s))).retain b.height = _
    rw [returned_core]
    rfl
  rw [hexec] at hend
  rw [tryExecuteBlockChain, after_bind_ok hexec]
  generalize advance b false ((returned E b s).emit (.executed b false)) = s₁ at *
  obtain ⟨hstar, hx⟩ := hend
  have hlive : s₁.isCurrentEpochOver = false := by
    have h1 := hr.live
    unfold ChainStateAssembler.isCurrentEpochOver ChainStateAssembler.currentEpochState at h1 ⊢
    rw [hverifier]; exact h1
  have hlevel : committed s₁ = (executed s₁).height := by rw [hx.atHeight, hx.info]; rfl
  -- the entries above `b` are still there
  have hkept₁ : ∀ d ∈ D, (executed s₁).height < d.height → pending s₁ d.height ≠ none := by
    intro d hd hlt
    have hlt : b.height < d.height := by rw [hx.info] at hlt; exact hlt
    rw [hpending, Cache.retain_apply, if_pos hlt]
    exact hkept d hd hlt
  rw [after_get_bind, if_neg (by rw [hlive]; exact Bool.false_ne_true)]
  rcases takeNext_cases hE.store (hI.star hstar) hx with ⟨hnone, htake⟩ | ⟨b', htake⟩
  · have hflow : Flowing s.blockVerifier D s₁ :=
      ⟨hverifier, hlevel, hkept₁, fun h => absurd hnone h⟩
    rw [after_bind_ok htake]
    exact hflow.of_core (keeps_tryToSyncSkippedBlocks _)
  · rw [after_bind_ok htake]
    show Flowing _ D (after (trySend b') _)
    rw [after_ok (trySend_ok (by exact hx.quiet) b')]
    refine ⟨hverifier, hlevel, fun d hd hlt => ?_, fun _ => nofun⟩
    show (pending s₁).insert _ _ d.height ≠ none
    rw [Cache.insert_apply]
    split
    · nofun
    · exact hkept₁ d hd hlt

/-! ## Blocks from the channels -/

/-- The block of the chain at the next height extends the last executed one. -/
def NextExtends (c : List CertifiedBlock) (s : ChainStateAssembler) : Prop :=
  ∀ b ∈ c, b.height = s.nextBlockHeight → Extends (executed s) b

theorem doesFollowChain_ok (hnext : NextExtends c s) {b : CertifiedBlock} (hb : b ∈ c) :
    doesFollowChain b s = .ok (decide (b.height = s.nextBlockHeight)) s := by
  unfold doesFollowChain
  rw [get_bind]
  by_cases hh : b.height = s.nextBlockHeight
  · rw [if_pos hh, if_pos (hnext b hb hh).2, decide_eq_true hh]
    rfl
  · rw [if_neg hh, decide_eq_false hh]
    rfl

theorem persist_ok (hrel : E.toStoreEnv.Reliable) (fb : FullBlock) (s : ChainStateAssembler) :
    ∃ s', onStore (BlockStore.persist E.toStoreEnv fb) s = .ok () s' := by
  have hbatches : ∀ ps s, ∃ s',
      onStore (BlockStore.persistBatches E.toStoreEnv ps) s = .ok () s' := by
    intro ps
    induction ps with
    | nil => exact fun s => ⟨s, rfl⟩
    | cons p ps ih =>
      intro s
      have hwrite := onStore_write E.toStoreEnv .persistentStore (.batch p.key p.batch) s
      rw [hrel] at hwrite
      unfold BlockStore.persistBatches
      rw [onStore_bind, bind_ok hwrite]
      exact ih _
  obtain ⟨s₁, h₁⟩ := hbatches fb.batches s
  have hwrite := onStore_write E.toStoreEnv .storageWriter (.certifiedBlock fb.base) s₁
  rw [hrel] at hwrite
  unfold BlockStore.persist
  rw [onStore_bind, bind_ok h₁]
  exact ⟨_, hwrite⟩

theorem handleFullBlock_flowing (hE : Undisturbed E c) {fb : FullBlock} (hb : fb.base ∈ c)
    (hI : Inv (· ∈ c) o s) (ha : Admits E s fb) (hnext : NextExtends c s) (hf : Flowing v D s) :
    Flowing v (fb.base :: D) (after (handleFullBlock E fb) s) := by
  obtain ⟨s₁, hpersist⟩ := persist_ok hE.store fb s
  have hend := (persist_sound (E := E) hb).apply hI ha
  have hcore : core s₁ = core s := by rw [← after_ok hpersist]; exact keeps_persist fb s
  rw [hpersist] at hend
  obtain ⟨hacts₁, hp⟩ := hend
  have hf₁ := hf.of_core hcore
  have hnext₁ : NextExtends c s₁ := by
    have h : NextExtends c (core s) := hnext
    rw [← hcore] at h
    exact h
  obtain ⟨p, hne, hclear, hacts₂⟩ :=
    clear_acts (E := E) (A := (· ∈ c)) (o := o) fb.base.height s₁
  have hI₂ := (hI.star hacts₁).star hacts₂
  have hrest : after (handleFullBlock E fb) s = after (if decide (fb.base.height =
      s₁.nextBlockHeight) then tryExecuteBlockChain E fb.base else do
        onStore (BlockStore.cache fb.base)
        tryToSyncSkippedBlocks E) (setPending p s₁) := by
    unfold handleFullBlock
    rw [after_get_bind, if_neg (Nat.not_le.2 ha.above), after_bind_ok hpersist,
      after_bind_ok (doesFollowChain_ok hnext₁ hb), after_bind_ok hclear]
  rw [hrest]
  by_cases hh : fb.base.height = s₁.nextBlockHeight
  · rw [if_pos (decide_eq_true hh)]
    have hx := hnext₁ fb.base hb hh
    have hidle : requested (setPending p s₁) = none :=
      hI₂.idle fun h => hne (h.trans (congrArg some hh.symm))
    have hready : Ready E (· ∈ c) (setPending p s₁) fb.base :=
      .of_persisted hI₂ { hp with } hx hidle
    have hgo := tryExecuteBlockChain_flowing (D := fb.base :: D) hE hI₂ hready hp.uncommitted
      fun d hd hlt => ?_
    · exact hf₁.verifier ▸ hgo
    · rcases List.mem_cons.1 hd with rfl | hd
      · exact absurd hlt (Nat.lt_irrefl _)
      · exact hf₁.kept d hd (Nat.lt_trans hp.above hlt)
  · rw [if_neg (by rw [decide_eq_false hh]; exact Bool.false_ne_true),
      after_bind_ok (cache_ok (s := setPending p s₁) hp.uncommitted hp.free)]
    refine Flowing.of_core ?_ (keeps_tryToSyncSkippedBlocks _)
    refine ⟨hf₁.verifier, hf₁.level, fun d hd hlt => ?_, fun h => hf₁.moving ?_⟩
    · show (pending s₁).insert _ _ d.height ≠ none
      rw [Cache.insert_apply]
      split
      · nofun
      · rcases List.mem_cons.1 hd with rfl | hd
        · exact absurd rfl ‹_›
        · exact hf₁.kept d hd hlt
    · rwa [show pending _ _ = (pending s₁).insert fb.base.height _ s₁.nextBlockHeight from rfl,
        Cache.insert_of_ne _ _ (Ne.symm hh)] at h

theorem handleScheduledBlock_flowing (hE : Undisturbed E c) {b : CertifiedBlock}
    (hI : Inv (· ∈ c) o s) (hs : Scheduled (· ∈ c) b s) (hnext : NextExtends c s)
    (hkept : ∀ d ∈ D, b.height < d.height → pending s d.height ≠ none) :
    Flowing s.blockVerifier D (after (handleScheduledBlock E b) s) := by
  obtain ⟨p, hne, hclear, hacts⟩ := clear_acts (E := E) (A := (· ∈ c)) (o := o) b.height s
  have hI₁ := hI.star hacts
  have hidle : requested (setPending p s) = none :=
    hI₁.idle fun h => hne (h.trans (congrArg some hs.next.symm))
  have hs₁ : Scheduled (· ∈ c) b (setPending p s) := { hs with }
  have hfollow := doesFollowChain_ok (s := setPending p s) hnext hs.accepted
  rw [decide_eq_true (show b.height = (setPending p s).nextBlockHeight from hs.next)] at hfollow
  unfold handleScheduledBlock
  rw [after_bind_ok hclear, after_get_bind,
    if_neg (by rw [hs₁.live]; exact Bool.false_ne_true), after_bind_ok hfollow]
  exact tryExecuteBlockChain_flowing hE hI₁ (hs₁.ready (hnext b hs.accepted hs.next) hidle)
    hs.uncommitted hkept

theorem receiveScheduled_flowing (hE : Undisturbed E c) (hI : Inv (· ∈ c) o s)
    (hnext : NextExtends c s) (hf : Flowing v D s) :
    Flowing v D (after (receiveScheduled E) s) := by
  unfold receiveScheduled
  rw [after_get_bind]
  cases hq : s.readyToExecute with
  | nil => exact hf
  | cons b rest =>
    obtain ⟨hpop, hsch⟩ := hI.received (E := E) hq
    have hgo := handleScheduledBlock_flowing (D := D) hE (hpop.inv hI) hsch hnext
      fun d hd hlt => hf.kept d hd (Nat.lt_trans ?_ hlt)
    · exact hf.verifier ▸ hgo
    · rw [hsch.next]; exact Nat.lt_succ_self _

theorem Flowing.mono {D' : List CertifiedBlock} (h : Flowing v D s) (hD : ∀ b ∈ D', b ∈ D) :
    Flowing v D' s := { h with kept := fun b hb => h.kept b (hD b hb) }

/-- A block is skipped only if it is executed or has an entry. -/
theorem handleIncomingBlock_flowing (hE : Undisturbed E c) (hlive : v.current.isEpochOver = false)
    {msg : RpcBlockData} (hb : msg.fullBlock.base ∈ c) (hv : E.verify v msg.fullBlock = .success)
    (hI : Inv (· ∈ c) o s) (hnext : NextExtends c s) (hf : Flowing v D s) :
    Flowing v (msg.fullBlock.base :: D) (after (handleIncomingBlock E msg) s) := by
  have hobs : Act E (· ∈ c) o s (observeBlock msg.fullBlock.base s) ∧
      core (observeBlock msg.fullBlock.base s) = core s := by
    unfold observeBlock
    split
    · exact ⟨.observe _, rfl⟩
    · exact ⟨.observe s.lastObservedHighestBlock, rfl⟩
  have hnext₁ : NextExtends c (observeBlock msg.fullBlock.base s) := by
    have h : NextExtends c (core s) := hnext
    rw [← hobs.2] at h
    exact h
  have hf₁ := hf.of_core hobs.2
  have hI₁ := hobs.1.inv hI
  show Flowing v _ (after (if _ then _ else _) (observeBlock msg.fullBlock.base s))
  generalize observeBlock msg.fullBlock.base s = s₁ at *
  have hlive₁ : s₁.isCurrentEpochOver = false := by
    unfold ChainStateAssembler.isCurrentEpochOver ChainStateAssembler.currentEpochState
    rw [hf₁.verifier]; exact hlive
  by_cases hskip : s₁.shouldBeSkipped msg.fullBlock.base = true
  · rw [if_pos hskip]
    refine { hf₁ with kept := fun d hd hlt => ?_ }
    rcases List.mem_cons.1 hd with rfl | hd
    · simp only [shouldBeSkipped, hlive₁, BlockStore.hasEntry, Bool.false_or, Bool.or_eq_true,
        decide_eq_true_eq] at hskip
      rcases hskip with hle | hle | hsome
      · exact absurd hlt (Nat.not_lt.2 hle)
      · exact absurd hlt (Nat.not_lt.2 (hf₁.level ▸ hle))
      · exact Option.isSome_iff_ne_none.1 hsome
    · exact hf₁.kept d hd hlt
  · rw [if_neg hskip]
    simp only [shouldBeSkipped, Bool.or_eq_true, not_or, Bool.not_eq_true, decide_eq_true_eq,
      Nat.not_le] at hskip
    obtain ⟨⟨-, habove⟩, hentry⟩ := hskip
    obtain ⟨hc, hp⟩ := BlockStore.hasEntry_false.1 hentry
    have hver : E.verify s₁.blockVerifier msg.fullBlock = .success := by rw [hf₁.verifier]; exact hv
    rw [hver]
    exact handleFullBlock_flowing hE hb hI₁ ⟨hver, hlive₁, habove, hc, hp⟩ hnext₁ hf₁

/-! ## Steps and runs -/

theorem doStep_flowing (hE : Undisturbed E c) (hlive : v.current.isEpochOver = false)
    (hI : Inv (· ∈ c) o s) (hnext : NextExtends c s) (hf : Flowing v D s) {t : Trigger}
    (ht : Feeds E v c t) : Flowing v (D ++ delivered [t]) (after (doStep E t) s) := by
  cases t with
  | incomingBlock msg =>
    unfold doStep
    rw [after_bind_pure]
    refine (handleIncomingBlock_flowing hE hlive ht.1 ht.2 hI hnext hf).mono fun b hb => ?_
    rw [List.mem_append] at hb
    exact List.mem_cons.2 (hb.symm.imp_left List.mem_singleton.1)
  | readyToExecute =>
    unfold doStep
    rw [after_bind_pure, show delivered [.readyToExecute] = [] from rfl, List.append_nil]
    exact receiveScheduled_flowing hE hI hnext hf
  | syncTimer =>
    unfold doStep
    rw [after_bind_pure, show delivered [.syncTimer] = [] from rfl, List.append_nil]
    exact hf.of_core (keeps_retry _)
  | epochNotification _ | epochManagerGone | shutdown | blocksChannelClosed => exact ht.elim

/-- What has been handed over is the first part of the chain, and the rest goes on from the last
executed block. -/
theorem chain_split {A : CertifiedBlock → Prop}
    (hchain : Linked.From Extends CertifiedBlock.info o.info c) (hI : Inv A o s)
    (hin : ∀ b ∈ handed (o.since s), b ∈ c) (hlevel : committed s = (executed s).height) :
    ∃ rest, c = handed (o.since s) ++ rest ∧
      Linked.From Extends CertifiedBlock.info (executed s) rest := by
  obtain ⟨rest, hrest⟩ := Linked.isPrefix_of_subset Extends.rank hI.linked hchain hin
  have htip : o.tip s = executed s := hI.settled (by rw [hlevel]; exact Nat.lt_succ_self _)
  rw [← hrest, Linked.from_append] at hchain
  exact ⟨rest, hrest.symm, htip ▸ hchain.2⟩

theorem nextExtends_of_chain {A : CertifiedBlock → Prop}
    (hchain : Linked.From Extends CertifiedBlock.info o.info c) (hI : Inv A o s)
    (hin : ∀ b ∈ handed (o.since s), b ∈ c) (hlevel : committed s = (executed s).height) :
    NextExtends c s := by
  obtain ⟨rest, rfl, hrest⟩ := chain_split hchain hI hin hlevel
  have htip : o.tip s = executed s := hI.settled (by rw [hlevel]; exact Nat.lt_succ_self _)
  intro b hb hh
  rcases List.mem_append.1 hb with hb | hb
  · -- a block handed over is not above the last executed one
    have hle : b.height ≤ (o.tip s).height := Linked.rank_le_tip Extends.rank hI.linked hb
    rw [htip, hh] at hle
    exact absurd hle (Nat.not_succ_le_self _)
  · obtain ⟨rest', rfl⟩ := Linked.head_of_rank Extends.rank hrest hb hh
    exact hrest.1

theorem Accepted.of_feeds {ts : List Trigger} (hts : ∀ t ∈ ts, Feeds E v c t) {b : CertifiedBlock}
    (hb : Accepted E s ts b) : b ∈ c ∧ b ∈ delivered ts := by
  obtain ⟨pre, t, post, rfl, msg, rfl, rfl, -⟩ := hb
  refine ⟨(hts (.incomingBlock msg) (by simp)).1, ?_⟩
  exact List.mem_filterMap.2 ⟨.incomingBlock msg, by simp, rfl⟩

section
variable (hI : ∀ A, Inv A (Origin.of s) s)
include hI

/-- **Runs fed from the chain keep flowing.** -/
theorem steps_flowing (hE : Undisturbed E c) (hlive : v.current.isEpochOver = false)
    (hchain : Linked.From Extends CertifiedBlock.info s.lastExecutedBlockInfo c)
    (h0 : Flowing v [] s) {ts : List Trigger} (hts : ∀ t ∈ ts, Feeds E v c t) :
    Flowing v (delivered ts) (steps (doStep E) s ts) := by
  refine steps_inv (I := fun pre s' => Flowing v (delivered pre) s') h0 fun pre t post heq hf => ?_
  have hpre : ∀ t ∈ pre, Feeds E v c t := fun t ht => hts t (heq ▸ List.mem_append_left _ ht)
  have hacts : ReflTransGen (Act E (· ∈ c) (Origin.of s)) s (steps (doStep E) s pre) :=
    run_acts (hI _) fun b hb => (Accepted.of_feeds hpre hb).1
  obtain ⟨events, -, hsince, hin⟩ := acts_events hacts (hI _)
  have hIs := (hI _).star hacts
  have hnext := nextExtends_of_chain hchain hIs (hsince ▸ hin) hf.level
  rw [show delivered (pre ++ [t]) = delivered pre ++ delivered [t] from List.filterMap_append]
  exact doStep_flowing hE hlive hIs hnext hf (hts t (by rw [heq]; simp))

end

/-- **Delivery order does not matter.** From a state with an empty cache and no committed block
that is not executed, any blocks of a chain that extends the last executed block are delivered in
any order with any repetitions, between them steps of the feedback channel and ticks. Once the
channel is empty, the blocks executed are the longest run of delivered blocks at the chain's
start, each once and in the order of their heights. -/
theorem executed_is_longest_delivered_run {W : Warranter E} {s₀ : ChainStateAssembler}
    (hf : Fresh st) (hnew : new E W st v = (.ok s₀, w)) (us : List Trigger)
    (hs : s = steps (doStep E) s₀ us) (hcache : s.store.pendingExecution = Cache.empty)
    (hlevel : s.store.lastCommittedBlockHeight = s.lastExecutedBlockInfo.height)
    (hlive : s.isCurrentEpochOver = false) (hE : Undisturbed E c)
    (hchain : Linked.From Extends CertifiedBlock.info s.lastExecutedBlockInfo c)
    (ts : List Trigger) (hts : ∀ t ∈ ts, Feeds E s.blockVerifier c t)
    (hq : (steps (doStep E) s ts).readyToExecute = []) :
    ∃ events, (steps (doStep E) s ts).log = s.log ++ events ∧
      handed events = c.takeWhile (· ∈ delivered ts) ∧
      (handed events).map CertifiedBlock.height =
        List.range' (s.lastExecutedBlockInfo.height + 1) (handed events).length ∧
      (steps (doStep E) s ts).lastExecutedBlockInfo =
        Linked.tip CertifiedBlock.info s.lastExecutedBlockInfo (handed events) := by
  have hI : ∀ A, Inv A (Origin.of s) s := fun A =>
    Inv.anew (hs ▸ new_run_inv hf hnew fun _ hb => hb) hcache A
  have h0 : Flowing s.blockVerifier [] s :=
    ⟨rfl, hlevel, nofun, fun h => absurd (congrFun hcache _) h⟩
  have hflow := steps_flowing hI hE hlive hchain h0 hts
  have hacts : ReflTransGen (Act E (fun b => b ∈ c ∧ b ∈ delivered ts) (Origin.of s)) s
      (steps (doStep E) s ts) := run_acts (hI _) fun b hb => Accepted.of_feeds hts hb
  have hIs := (hI _).star hacts
  obtain ⟨events, hlog, hsince, hhanded⟩ := acts_events hacts (hI _)
  have hlinked := hIs.linked
  have htip := hIs.settled (by rw [hflow.level]; exact Nat.lt_succ_self _)
  obtain ⟨rest, hc, hrest⟩ := chain_split hchain hIs
    (fun b hb => (hhanded b (hsince ▸ hb)).1) hflow.level
  unfold Origin.tip at htip
  rw [hsince] at hc hlinked htip
  refine ⟨events, hlog, ?_, Linked.ranks Extends.rank hlinked, htip.symm⟩
  -- the first block that is not handed over has not been delivered
  have hstop : rest.takeWhile (· ∈ delivered ts) = [] := by
    cases rest with
    | nil => rfl
    | cons b rest =>
      rw [List.takeWhile_cons_of_neg]
      simp only [decide_eq_true_eq]
      intro hb
      have hh : b.height = (steps (doStep E) s ts).nextBlockHeight := hrest.1.1
      have hlt : (executed (steps (doStep E) s ts)).height < b.height := by
        rw [hh]; exact Nat.lt_succ_self _
      exact hflow.moving (hh ▸ hflow.kept b hb hlt) hq
  rw [hc, List.takeWhile_append_of_pos fun b hb => decide_eq_true (hhanded b hb).2, hstop,
    List.append_nil]

/-- Of the chain of blocks 1 to 4 block 3 is missing; 2 comes first, 4 twice. -/
theorem executed_is_longest_delivered_run_small :
    ∃ events, (steps (doStep (Small.env fun _ => .ok false)) (Small.assembler 1)
        [.incomingBlock (.newBlock (Small.fullBlock 1 2)),
          .incomingBlock (.newBlock (Small.fullBlock 1 4)), .syncTimer,
          .incomingBlock (.syncBlock (Small.fullBlock 1 1)),
          .incomingBlock (.newBlock (Small.fullBlock 1 4)), .readyToExecute]).log =
        (Small.assembler 1).log ++ events ∧
      handed events = [Small.block 1 1, Small.block 1 2] := by
  obtain ⟨events, hlog, hhanded, -⟩ := executed_is_longest_delivered_run
    (c := [Small.block 1 1, Small.block 1 2, Small.block 1 3, Small.block 1 4])
    (Small.fresh _ _ 1) (Small.new_assembler (fun _ => .ok false) 1) [] rfl rfl rfl rfl
    ⟨⟨fun _ _ => rfl, fun _ _ => rfl⟩, fun _ _ _ _ => rfl⟩
    ⟨by decide, by decide, by decide, by decide, trivial⟩
    [.incomingBlock (.newBlock (Small.fullBlock 1 2)),
      .incomingBlock (.newBlock (Small.fullBlock 1 4)), .syncTimer,
      .incomingBlock (.syncBlock (Small.fullBlock 1 1)),
      .incomingBlock (.newBlock (Small.fullBlock 1 4)), .readyToExecute]
    (by
      simp only [List.forall_mem_cons, Feeds, List.not_mem_nil, false_imp_iff, implies_true,
        and_true, true_and]
      exact ⟨⟨by decide, rfl⟩, ⟨by decide, rfl⟩, ⟨by decide, rfl⟩, ⟨by decide, rfl⟩⟩)
    rfl
  exact ⟨events, hlog, hhanded⟩

end Consensus.Proof
