import SupraL1.Consensus.Peer
import SupraL1.Consensus.Proof.Order
import SupraL1.Consensus.Proof.Sync
import SupraL1.Consensus.Proof.Peers

/-!
# A node catches up with its peer

`Chasing`: while a block above the last executed one has been observed, the next block is in the
cache or has been asked for. A step that could break this ends with `try_to_sync_skipped_blocks`,
which restores it. In a run fed from a chain the next block then is in the feedback channel or
pending with the peer, so every round executes at least one more block (`round_progress`), and a
node that has seen a block of its peer's chain executes all blocks up to it
(`node_catches_up_with_peer`).
-/

namespace Consensus.Proof

open EState ChainStateAssembler SynchronizationContext Relation

variable {E : Env} {A : CertifiedBlock → Prop} {o : Origin} {st : BlockStore} {v : EpochStates}
  {s s' : ChainStateAssembler} {w : World} {c D : List CertifiedBlock}

/-! ## The next block is on its way -/

def Seen (s : ChainStateAssembler) : Prop :=
  ∀ h, pending s h ≠ none → ∃ i, s.lastObservedHighestBlock = some i ∧ h ≤ i.height

structure Chasing (s : ChainStateAssembler) : Prop where
  seen : Seen s
  asking : ∀ i, s.lastObservedHighestBlock = some i → s.nextBlockHeight ≤ i.height →
    pending s s.nextBlockHeight ≠ none ∨ requested s = some s.nextBlockHeight

theorem tryToSyncSkippedBlocks_chasing (hE : E.NoFailure) (hI : Inv A o s)
    (hlevel : committed s = (executed s).height) (hseen : Seen s) :
    Chasing (after (tryToSyncSkippedBlocks E) s) := by
  by_cases hs : Skipped s
  · have hpos := tryToSyncSkippedBlocks_pos (E := E) hs
    cases hr : requested s with
    | none =>
      rw [tryPostSyncRequest_none hr, hE.send] at hpos
      rw [after_ok hpos]
      exact ⟨hseen, fun _ _ _ => .inr rfl⟩
    | some n =>
      have hn := (hI.request n hr).1
      rw [tryPostSyncRequest_some hr, if_pos hn] at hpos
      rw [after_ok hpos]
      exact ⟨hseen, fun _ _ _ => .inr (hn ▸ hr)⟩
  · rw [after_ok (tryToSyncSkippedBlocks_neg hs)]
    refine ⟨hseen, fun i hi hle => .inl fun hp => hs ⟨i, hi, hle, ?_⟩⟩
    exact BlockStore.hasEntry_false.2
      ⟨Nat.lt_of_le_of_lt (Nat.le_of_eq hlevel) (Nat.lt_succ_self _), hp⟩

theorem takeNext_cached {n : Nat} {b : CertifiedBlock}
    (h : onStore (BlockStore.takeNextReadyBlockByHeight E.toStoreEnv n) s = .ok (some b) s') :
    pending s n ≠ none := by
  intro hp
  have htake := BlockStore.takeNextReadyBlockByHeight_eq E.toStoreEnv n s.store
  rw [show s.store.pendingExecution n = none from hp] at htake
  cases (onPart_ok htake).symm.trans h

/-- After the execution of `b` the next block is in the channel or has been asked for. -/
theorem tryExecuteBlockChain_chasing (hE : Undisturbed E c) {b : CertifiedBlock}
    (hI : Inv (· ∈ c) o s) (hr : Ready E (· ∈ c) s b) (hc : committed s < b.height)
    (hseen : Seen s) :
    Chasing (after (tryExecuteBlockChain E b) s) ∧
      executed (after (tryExecuteBlockChain E b) s) = b.info := by
  have hexec := executeBlock_eq E b s
  rw [hE.store, show (answer E b s).result = .ok false from hE.executes b hr.accepted _ _] at hexec
  dsimp only at hexec
  have hend := (executeBlock_sound (E := E)).apply hI ⟨hr, hc⟩
  have hover : (advance b false ((returned E b s).emit (.executed b false))).isCurrentEpochOver =
      s.isCurrentEpochOver := by
    show (core (returned E b s)).isCurrentEpochOver = _
    rw [returned_core]
    rfl
  have hpending : pending (advance b false ((returned E b s).emit (.executed b false))) =
      (pending s).retain b.height := by
    show (pending (core (returned E b s))).retain b.height = _
    rw [returned_core]
    rfl
  have hobserved : (advance b false ((returned E b s).emit (.executed b false))).lastObservedHighestBlock =
      s.lastObservedHighestBlock := by
    unfold returned
    cases (answer E b s).record <;> rfl
  rw [hexec] at hend
  rw [tryExecuteBlockChain, after_bind_ok hexec]
  generalize advance b false ((returned E b s).emit (.executed b false)) = s₁ at *
  obtain ⟨hstar, hx⟩ := hend
  have hseen₁ : Seen s₁ := by
    intro h hp
    rw [hpending, Cache.retain_apply] at hp
    rw [hobserved]
    split at hp
    · exact hseen h hp
    · exact absurd rfl hp
  have hlevel : committed s₁ = (executed s₁).height := by rw [hx.atHeight, hx.info]; rfl
  rw [after_get_bind, if_neg (by rw [hover, hr.live]; exact Bool.false_ne_true)]
  rcases takeNext_cases hE.store (hI.star hstar) hx with ⟨hnone, htake⟩ | ⟨b', htake⟩
  · rw [after_bind_ok htake]
    refine ⟨tryToSyncSkippedBlocks_chasing hE.toNoFailure (hI.star hstar) hlevel hseen₁, ?_⟩
    exact (congrArg executed (keeps_tryToSyncSkippedBlocks s₁)).trans hx.info
  · have hnext := takeNext_cached htake
    rw [after_bind_ok htake]
    show Chasing (after (trySend b') _) ∧ executed (after (trySend b') _) = b.info
    rw [after_ok (trySend_ok (by exact hx.quiet) b')]
    refine ⟨⟨fun h hp => ?_, fun _ _ _ => .inl ?_⟩, hx.info⟩
    · change (pending s₁).insert s₁.nextBlockHeight _ h ≠ none at hp
      by_cases hh : h = s₁.nextBlockHeight
      · rw [hh]
        exact hseen₁ _ hnext
      · rw [Cache.insert_of_ne _ _ hh] at hp
        exact hseen₁ h hp
    · show (pending s₁).insert s₁.nextBlockHeight _ s₁.nextBlockHeight ≠ none
      rw [Cache.insert_self]
      exact Option.some_ne_none _

/-! ## Blocks from the channels -/

theorem handleFullBlock_chasing (hE : Undisturbed E c) {fb : FullBlock} (hb : fb.base ∈ c)
    (hI : Inv (· ∈ c) o s) (ha : Admits E s fb) (hnext : NextExtends c s)
    (hlevel : committed s = (executed s).height) (hseen : Seen s)
    (hobs : ∃ i, s.lastObservedHighestBlock = some i ∧ fb.base.height ≤ i.height) :
    Chasing (after (handleFullBlock E fb) s) ∧ (fb.base.height = s.nextBlockHeight →
      executed (after (handleFullBlock E fb) s) = fb.base.info) := by
  obtain ⟨s₁, hpersist⟩ := persist_ok hE.store fb s
  have hend := (persist_sound (E := E) hb).apply hI ha
  have hcore : core s₁ = core s := by rw [← after_ok hpersist]; exact keeps_persist fb s
  have hquiet := persist_hushes (E := E) fb s
  rw [after_ok hpersist] at hquiet
  rw [hpersist] at hend
  obtain ⟨hacts₁, hp⟩ := hend
  have hpending : pending (core s₁) = pending (core s) := congrArg pending hcore
  have hheight : (core s₁).nextBlockHeight = (core s).nextBlockHeight :=
    congrArg nextBlockHeight hcore
  change pending s₁ = pending s at hpending
  change s₁.nextBlockHeight = s.nextBlockHeight at hheight
  have hlevel₁ : committed s₁ = (executed s₁).height := by
    have h : committed (core s) = (executed (core s)).height := hlevel
    rw [← hcore] at h
    exact h
  have hseen₁ : Seen s₁ := by
    intro h
    rw [hpending, hquiet.observed]
    exact hseen h
  have hnext₁ : NextExtends c s₁ := by
    have h : NextExtends c (core s) := hnext
    rw [← hcore] at h
    exact h
  obtain ⟨p, hne, hclear, hacts₂⟩ :=
    clear_acts (E := E) (A := (· ∈ c)) (o := o) fb.base.height s₁
  have hI₂ := (hI.star hacts₁).star hacts₂
  have hrest : after (handleFullBlock E fb) s = after (if decide (fb.base.height =
      s₁.nextBlockHeight) then tryExecuteBlockChain E fb.base else do
        onStore (BlockStore.cache fb.base)
        tryToSyncSkippedBlocks E) (setPending p s₁) := by
    unfold handleFullBlock
    rw [after_get_bind, if_neg (Nat.not_le.2 ha.above), after_bind_ok hpersist,
      after_bind_ok (doesFollowChain_ok hnext₁ hb), after_bind_ok hclear]
  rw [hrest, ← hheight]
  by_cases hh : fb.base.height = s₁.nextBlockHeight
  · rw [if_pos (decide_eq_true hh)]
    have hidle : requested (setPending p s₁) = none :=
      hI₂.idle fun h => hne (h.trans (congrArg some hh.symm))
    have hready : Ready E (· ∈ c) (setPending p s₁) fb.base :=
      .of_persisted hI₂ { hp with } (hnext₁ fb.base hb hh) hidle
    obtain ⟨h1, h2⟩ := tryExecuteBlockChain_chasing hE hI₂ hready hp.uncommitted hseen₁
    exact ⟨h1, fun _ => h2⟩
  · rw [if_neg (by rw [decide_eq_false hh]; exact Bool.false_ne_true)]
    have hcache := cache_ok (s := setPending p s₁) hp.uncommitted hp.free
    have hadmits : Admits E (setPending p s₁) fb := { hp with }
    have hact : Act E (· ∈ c) o (setPending p s₁) _ := .cache hadmits hb hp.stored hh
    rw [after_bind_ok hcache]
    refine ⟨tryToSyncSkippedBlocks_chasing hE.toNoFailure (hact.inv hI₂) hlevel₁ fun h hpn => ?_,
      fun heq => absurd heq hh⟩
    change (pending s₁).insert fb.base.height _ h ≠ none at hpn
    by_cases hhb : h = fb.base.height
    · rw [hhb]
      show ∃ i, s₁.lastObservedHighestBlock = some i ∧ _
      rw [hquiet.observed]
      exact hobs
    · rw [Cache.insert_of_ne _ _ hhb] at hpn
      exact hseen₁ h hpn

theorem handleScheduledBlock_chasing (hE : Undisturbed E c) {b : CertifiedBlock}
    (hI : Inv (· ∈ c) o s) (hs : Scheduled (· ∈ c) b s) (hnext : NextExtends c s) (hseen : Seen s) :
    Chasing (after (handleScheduledBlock E b) s) ∧
      executed (after (handleScheduledBlock E b) s) = b.info := by
  obtain ⟨p, hne, hclear, hacts⟩ := clear_acts (E := E) (A := (· ∈ c)) (o := o) b.height s
  have hI₁ := hI.star hacts
  have hidle : requested (setPending p s) = none :=
    hI₁.idle fun h => hne (h.trans (congrArg some hs.next.symm))
  have hs₁ : Scheduled (· ∈ c) b (setPending p s) := { hs with }
  have hfollow := doesFollowChain_ok (s := setPending p s) hnext hs.accepted
  rw [decide_eq_true (show b.height = (setPending p s).nextBlockHeight from hs.next)] at hfollow
  unfold handleScheduledBlock
  rw [after_bind_ok hclear, after_get_bind,
    if_neg (by rw [hs₁.live]; exact Bool.false_ne_true), after_bind_ok hfollow]
  exact tryExecuteBlockChain_chasing hE hI₁ (hs₁.ready (hnext b hs.accepted hs.next) hidle)
    hs.uncommitted hseen

theorem receiveScheduled_chasing (hE : Undisturbed E c) (hI : Inv (· ∈ c) o s)
    (hnext : NextExtends c s) (h : Chasing s) :
    Chasing (after (receiveScheduled E) s) ∧ (s.readyToExecute ≠ [] →
      (executed (after (receiveScheduled E) s)).height = s.nextBlockHeight) := by
  unfold receiveScheduled
  rw [after_get_bind]
  cases hq : s.readyToExecute with
  | nil => exact ⟨h, fun hne => absurd rfl hne⟩
  | cons b rest =>
    obtain ⟨hpop, hsch⟩ := hI.received (E := E) hq
    obtain ⟨h1, h2⟩ := handleScheduledBlock_chasing hE (hpop.inv hI) hsch hnext h.seen
    refine ⟨h1, fun _ => ?_⟩
    exact (congrArg BlockInfo.height h2).trans hsch.next

/-- The block of at least this height has been observed. -/
def Observed (n : Nat) (s : ChainStateAssembler) : Prop :=
  ∃ i, s.lastObservedHighestBlock = some i ∧ n ≤ i.height

theorem Observed.observe {n : Nat} (h : Observed n s) (b : CertifiedBlock) :
    Observed n (observeBlock b s) := by
  obtain ⟨i, hi, hle⟩ := h
  unfold observeBlock
  split
  · rename_i hlt
    rw [hi] at hlt
    exact ⟨b.info, rfl, Nat.le_trans hle (Nat.le_of_lt hlt)⟩
  · exact ⟨i, hi, hle⟩

theorem observeBlock_observed (b : CertifiedBlock) (hb : 0 < b.height) (s : ChainStateAssembler) :
    Observed b.height (observeBlock b s) := by
  unfold observeBlock
  split
  · exact ⟨b.info, rfl, Nat.le_refl _⟩
  · rename_i hlt
    cases hi : s.lastObservedHighestBlock with
    | none => rw [hi] at hlt; exact absurd hb hlt
    | some i =>
      rw [hi] at hlt
      exact ⟨i, hi, Nat.not_lt.1 hlt⟩

/-- A skipped block changes nothing: it is executed, or it is cached and has been observed. -/
theorem observeBlock_chasing {b : CertifiedBlock} (h : Chasing s)
    (hlevel : committed s = (executed s).height) (hlive : s.isCurrentEpochOver = false)
    (hskip : (observeBlock b s).shouldBeSkipped b = true) : Chasing (observeBlock b s) := by
  unfold observeBlock at hskip ⊢
  split at hskip
  · rename_i hlt
    rw [if_pos hlt]
    have hhigher : ∀ i, s.lastObservedHighestBlock = some i → i.height < b.height := by
      intro i hi
      rw [hi] at hlt
      exact hlt
    refine ⟨fun n hn => ?_, fun i hi hle => ?_⟩
    · obtain ⟨i, hi, hle⟩ := h.seen n hn
      exact ⟨b.info, rfl, Nat.le_trans hle (Nat.le_of_lt (hhigher i hi))⟩
    · cases hi
      have hle : (executed s).height + 1 ≤ b.height := hle
      have hskip : (s.isCurrentEpochOver || decide (b.height ≤ (executed s).height) ||
          (decide (b.height ≤ committed s) || (pending s b.height).isSome)) = true := hskip
      rw [hlive, hlevel, Bool.false_or, decide_eq_false (by omega), Bool.false_or, Bool.false_or] at hskip
      obtain ⟨i, hi, hlei⟩ := h.seen b.height (Option.isSome_iff_ne_none.1 hskip)
      exact absurd (hhigher i hi) (Nat.not_lt.2 hlei)
  · rename_i hlt
    rw [if_neg hlt]
    exact h

theorem handleIncomingBlock_chasing (hE : Undisturbed E c) (hlive : v.current.isEpochOver = false)
    {msg : RpcBlockData} (hb : msg.fullBlock.base ∈ c) (hv : E.verify v msg.fullBlock = .success)
    (hI : Inv (· ∈ c) o s) (hnext : NextExtends c s) (hf : Flowing v D s) (h : Chasing s) :
    Chasing (after (handleIncomingBlock E msg) s) ∧
      (msg.fullBlock.base.height = s.nextBlockHeight → pending s s.nextBlockHeight = none →
        (executed (after (handleIncomingBlock E msg) s)).height = s.nextBlockHeight) := by
  have hlive₀ : s.isCurrentEpochOver = false := by
    unfold ChainStateAssembler.isCurrentEpochOver ChainStateAssembler.currentEpochState
    rw [hf.verifier]; exact hlive
  have hskipped := observeBlock_chasing (b := msg.fullBlock.base) h hf.level hlive₀
  have hobs : Act E (· ∈ c) o s (observeBlock msg.fullBlock.base s) ∧
      core (observeBlock msg.fullBlock.base s) = core s := by
    unfold observeBlock
    split
    · exact ⟨.observe _, rfl⟩
    · exact ⟨.observe s.lastObservedHighestBlock, rfl⟩
  have hseen₁ : Seen (observeBlock msg.fullBlock.base s) := by
    intro n hn
    have hpending : pending (core (observeBlock msg.fullBlock.base s)) n = pending (core s) n := by
      rw [hobs.2]
    exact Observed.observe (h.seen n (fun hnone => hn (hpending.trans hnone))) _
  have hseenBlock := fun hb => observeBlock_observed msg.fullBlock.base hb s
  have hnext₁ : NextExtends c (observeBlock msg.fullBlock.base s) := by
    have h : NextExtends c (core s) := hnext
    rw [← hobs.2] at h
    exact h
  have hheight : (core (observeBlock msg.fullBlock.base s)).nextBlockHeight =
      (core s).nextBlockHeight := by rw [hobs.2]
  have hcache : pending (core (observeBlock msg.fullBlock.base s)) = pending (core s) := by rw [hobs.2]
  change (observeBlock msg.fullBlock.base s).nextBlockHeight = s.nextBlockHeight at hheight
  change pending (observeBlock msg.fullBlock.base s) = pending s at hcache
  have hf₁ := hf.of_core hobs.2
  have hI₁ := hobs.1.inv hI
  rw [← hheight, ← hcache]
  show Chasing (after (if _ then _ else _) (observeBlock msg.fullBlock.base s)) ∧
    (_ → _ → (executed (after (if _ then _ else _) (observeBlock msg.fullBlock.base s))).height = _)
  generalize observeBlock msg.fullBlock.base s = s₁ at *
  have hlive₁ : s₁.isCurrentEpochOver = false := by
    unfold ChainStateAssembler.isCurrentEpochOver ChainStateAssembler.currentEpochState
    rw [hf₁.verifier]; exact hlive
  by_cases hskip : s₁.shouldBeSkipped msg.fullBlock.base = true
  · rw [if_pos hskip]
    refine ⟨hskipped hskip, fun hn hp => ?_⟩
    -- the next block is skipped only if it is cached
    have hlevel := hf₁.level
    simp only [shouldBeSkipped, hlive₁, BlockStore.hasEntry, Bool.false_or, Bool.or_eq_true,
      decide_eq_true_eq] at hskip
    rw [hn] at hskip
    rcases hskip with hle | hle | hsome
    · exact absurd hle (Nat.not_succ_le_self _)
    · exact absurd (Nat.le_trans hle (Nat.le_of_eq hlevel)) (Nat.not_succ_le_self _)
    · exact absurd hp (Option.isSome_iff_ne_none.1 hsome)
  · rw [if_neg hskip]
    simp only [shouldBeSkipped, Bool.or_eq_true, not_or, Bool.not_eq_true, decide_eq_true_eq,
      Nat.not_le] at hskip
    obtain ⟨⟨-, habove⟩, hentry⟩ := hskip
    obtain ⟨hc, hp⟩ := BlockStore.hasEntry_false.1 hentry
    have hver : E.verify s₁.blockVerifier msg.fullBlock = .success := by rw [hf₁.verifier]; exact hv
    rw [hver]
    obtain ⟨h1, h2⟩ := handleFullBlock_chasing hE hb hI₁ ⟨hver, hlive₁, habove, hc, hp⟩ hnext₁
      hf₁.level hseen₁ (hseenBlock (Nat.lt_of_le_of_lt (Nat.zero_le _) habove))
    exact ⟨h1, fun hn _ => (congrArg BlockInfo.height (h2 hn)).trans hn⟩

/-! ## Steps -/

/-- A state of a run fed from the chain `c`. -/
structure Fed (c : List CertifiedBlock) (v : EpochStates) (o : Origin) (s : ChainStateAssembler) :
    Prop where
  inv : Inv (· ∈ c) o s
  flowing : Flowing v [] s
  chasing : Chasing s
  within : ∀ b ∈ handed (o.since s), b ∈ c

theorem acts_within (hI : Inv A o s) (hacts : ReflTransGen (Act E A o) s s')
    (h : ∀ b ∈ handed (o.since s), A b) : ∀ b ∈ handed (o.since s'), A b := by
  induction hacts with
  | refl => exact h
  | tail hstar ha ih => exact ha.handed_accepted (hI.star hstar).mark ih

theorem acts_heights (hacts : ReflTransGen (Act E A o) s s') :
    (executed s).height ≤ (executed s').height := by
  induction hacts with
  | refl => exact Nat.le_refl _
  | tail _ ha ih => exact Nat.le_trans ih ha.heights.1

section
variable (hE : Undisturbed E c) (hlive : v.current.isEpochOver = false)
  (hchain : Linked.From Extends CertifiedBlock.info o.info c)
include hE hlive hchain

/-- **A step of the feed keeps the state fed**, and the last executed height does not go down. -/
theorem Fed.step (h : Fed c v o s) {t : Trigger} (ht : Feeds E v c t) :
    Fed c v o (after (doStep E t) s) ∧
      (executed s).height ≤ (executed (after (doStep E t) s)).height := by
  have hnext := nextExtends_of_chain hchain h.inv h.within h.flowing.level
  have hA : ∀ b, Delivers E s.blockVerifier t b → b ∈ c := by
    rintro b ⟨msg, rfl, rfl, -⟩
    exact ht.1
  have hacts := (doStep_ends h.inv hA).after
  have hflow : Flowing v [] (after (doStep E t) s) :=
    (doStep_flowing hE hlive h.inv hnext h.flowing ht).mono nofun
  refine ⟨⟨h.inv.star hacts, hflow, ?_, acts_within h.inv hacts h.within⟩, acts_heights hacts⟩
  cases t with
  | incomingBlock msg =>
    unfold doStep
    rw [after_bind_pure]
    exact (handleIncomingBlock_chasing hE hlive ht.1 ht.2 h.inv hnext h.flowing h.chasing).1
  | readyToExecute =>
    unfold doStep
    rw [after_bind_pure]
    exact (receiveScheduled_chasing hE h.inv hnext h.chasing).1
  | syncTimer =>
    rcases after_syncTimer (E := E) s with ⟨-, heq⟩ | ⟨n, -, heq | ⟨e, heq⟩⟩
    · rw [heq]; exact h.chasing
    · rw [heq]; exact ⟨h.chasing.seen, h.chasing.asking⟩
    · rw [heq]; exact ⟨h.chasing.seen, h.chasing.asking⟩
  | epochNotification _ | epochManagerGone | shutdown | blocksChannelClosed => exact ht.elim

theorem Fed.steps (h : Fed c v o s) {ts : List Trigger} (hts : ∀ t ∈ ts, Feeds E v c t) :
    Fed c v o (steps (doStep E) s ts) ∧
      (executed s).height ≤ (executed (EState.steps (doStep E) s ts)).height := by
  induction ts generalizing s with
  | nil => exact ⟨h, Nat.le_refl _⟩
  | cons t ts ih =>
    obtain ⟨h1, h2⟩ := h.step hE hlive hchain (hts t List.mem_cons_self)
    obtain ⟨h3, h4⟩ := ih h1 fun t' ht' => hts t' (List.mem_cons_of_mem t ht')
    exact ⟨h3, Nat.le_trans h2 h4⟩

end

theorem Observed.step {n : Nat} {t : Trigger} (hI : Inv A o s)
    (hA : ∀ b, Delivers E s.blockVerifier t b → A b) (h : Observed n (noted t s)) :
    Observed n (after (doStep E t) s) := by
  by_cases ht : t = .syncTimer
  · subst ht
    rcases after_syncTimer (E := E) s with ⟨-, heq⟩ | ⟨n, -, heq | ⟨e, heq⟩⟩ <;> rw [heq] <;> exact h
  · obtain ⟨m, f, hq, hclose, heq⟩ := doStep_closes ht hI hA
    have hm : Observed n m := by
      obtain ⟨i, hi, hle⟩ := h
      exact ⟨i, hq.observed.trans hi, hle⟩
    have hf : Observed n f := by cases hclose <;> exact hm
    rcases heq with heq | heq <;> rw [heq] <;> exact hf

theorem Observed.noted {n : Nat} (h : Observed n s) (t : Trigger) : Observed n (noted t s) := by
  cases t with
  | incomingBlock msg => exact h.observe _
  | _ => exact h

section
variable (hE : Undisturbed E c) (hlive : v.current.isEpochOver = false)
  (hchain : Linked.From Extends CertifiedBlock.info o.info c)
include hE hlive hchain

theorem Fed.observed (h : Fed c v o s) {ts : List Trigger} (hts : ∀ t ∈ ts, Feeds E v c t) {n : Nat}
    (hobs : Observed n s ∨ ∃ msg, .incomingBlock msg ∈ ts ∧ msg.fullBlock.base.height = n ∧ 0 < n) :
    Observed n (EState.steps (doStep E) s ts) := by
  induction ts generalizing s with
  | nil =>
    rcases hobs with hobs | ⟨_, hmem, -⟩
    · exact hobs
    · cases hmem
  | cons t ts ih =>
    have ht := hts t List.mem_cons_self
    have hA : ∀ b, Delivers E s.blockVerifier t b → b ∈ c := by
      rintro b ⟨msg, rfl, rfl, -⟩
      exact ht.1
    refine ih (h.step hE hlive hchain ht).1 (fun t' ht' => hts t' (List.mem_cons_of_mem t ht')) ?_
    rcases hobs with hobs | ⟨msg, hmem, hheight, hpos⟩
    · exact .inl ((hobs.noted t).step h.inv hA)
    · rcases List.mem_cons.1 hmem with rfl | hmem
      · exact .inl (.step h.inv hA (hheight ▸ observeBlock_observed _ (hheight ▸ hpos) s))
      · exact .inr ⟨msg, hmem, hheight, hpos⟩

end

/-! ## Rounds -/

/-- A peer that has executed the blocks of the chain `c` up to the height `n`. Above the height `low`
its store has blocks of the chain only. -/
structure Supplies (V : VerifierEnv) (g : CertifiedBlock) (c : List CertifiedBlock) (low n : Nat)
    (lives : List Life) : Prop where
  records : ∀ L ∈ lives, RecordsGiven L.env
  verifies : ∀ L ∈ lives, ∃ skip, L.env.verify = BlockVerifier.verify V skip
  stored : ∀ h b, low < h → (storeAfter g lives).certifiedBlock h = some b → b ∈ c
  executed : ∀ b ∈ c, b.height ≤ n → b ∈ handed (history g ChainStore.empty lives).flatten

def withBatches (batchOf : Hash → Bytes) (b : CertifiedBlock) : FullBlock :=
  ⟨b, b.block.payload.map fun item => ⟨item.storeKey, batchOf item.storeKey⟩⟩

section
variable {V : VerifierEnv} {batchOf : Hash → Bytes} {P : StoreEnv} {g : CertifiedBlock} {n low : Nat}
  (hcheck : ∀ fb, V.checkConsistency fb = .ok () →
    (∀ item ∈ fb.base.block.payload, ∃ p ∈ fb.batches, p.key = item.storeKey) ∧
      ∀ p ∈ fb.batches, p.batch = batchOf p.key)
  (hP : P.Reliable)
include hcheck hP

theorem Supplies.answers {lives : List Life} (h : Supplies V g c low n lives) (m : Nat) :
    ((storeAfter g lives).certifiedBlock m = none ∧
      syncBlock P ⟨storeAfter g lives, []⟩ m = none) ∨
    ∃ b, (storeAfter g lives).certifiedBlock m = some b ∧
      syncBlock P ⟨storeAfter g lives, []⟩ m = some (.syncBlock (withBatches batchOf b)) := by
  obtain ⟨hcomplete, -⟩ := lives_served (g := g) hcheck h.records h.verifies
  cases hb : (storeAfter g lives).certifiedBlock m with
  | none =>
    refine .inl ⟨rfl, ?_⟩
    unfold syncBlock Rest.getCertifiedBlock
    rw [Rest.read_reliable hP, hb]
    rfl
  | some b =>
    refine .inr ⟨b, rfl, ?_⟩
    unfold syncBlock
    rw [Rest.getCertifiedBlock_reliable hP hb (hcomplete.blocks m b hb)]
    rfl

variable (hE : Undisturbed E c) (hlive : v.current.isEpochOver = false)
  (hchain : Linked.From Extends CertifiedBlock.info o.info c)
  (hver : ∀ b ∈ c, E.verify v (withBatches batchOf b) = .success)
include hE hlive hchain hver

omit hE hlive hchain in
theorem Fed.closing_feeds (h : Fed c v o s) {r : Round} (hr : Supplies V g c o.info.height n r.peer) :
    ∀ t ∈ r.closing P g s, Feeds E v c t := by
  intro t ht
  rcases List.mem_append.1 ht with ht | ht
  · obtain ⟨msg, hmsg, rfl⟩ := List.mem_map.1 ht
    rw [Option.mem_toList] at hmsg
    obtain ⟨m, hm, hsync⟩ := Option.bind_eq_some_iff.1 hmsg
    -- the request is for the next block, above the start
    have hnext : m = s.nextBlockHeight := (h.inv.request m hm).1
    have htip : o.tip s = executed s :=
      h.inv.settled (by rw [h.flowing.level]; exact Nat.lt_succ_self _)
    have hlow : o.info.height ≤ (executed s).height := by
      rw [← htip]
      exact (Linked.rank_tip Extends.rank h.inv.linked) ▸ Nat.le_add_right _ _
    rcases hr.answers hcheck hP m with ⟨-, hnone⟩ | ⟨b, hb, hsome⟩
    · rw [hnone] at hsync; cases hsync
    · rw [hsome] at hsync
      cases hsync
      have hmem := hr.stored m b (by rw [hnext]; exact Nat.lt_succ_of_le hlow) hb
      exact ⟨hmem, hver b hmem⟩
  · cases List.mem_singleton.1 ht
    trivial

/-- **A round executes the next block**, as long as a block above the last executed one has been
observed and the peer has it. -/
theorem round_progress (h : Fed c v o s) {r : Round} (hr : Supplies V g c o.info.height n r.peer)
    {b : CertifiedBlock} (hb : b ∈ c) (hn : b.height = n) (hobs : Observed n s)
    (hlt : (executed s).height < n) :
    (executed s).height + 1 ≤ (executed (EState.steps (doStep E) s (r.closing P g s))).height := by
  have hnext := nextExtends_of_chain hchain h.inv h.within h.flowing.level
  have hfeeds := h.closing_feeds hcheck hP hver hr
  obtain ⟨i, hi, hle⟩ := hobs
  have hwant : s.nextBlockHeight ≤ i.height := Nat.le_trans hlt hle
  rcases h.chasing.asking i hi hwant with hcached | hasked
  · -- the next block waits in the channel, and nothing is requested
    have hidle : requested s = none := h.inv.idle fun hreq => hcached (h.inv.request _ hreq).2.1
    have hclosing : r.closing P g s = [.readyToExecute] := by
      unfold Round.closing
      rw [show s.synchronizer.pendingSyncRequest = none from hidle]
      rfl
    rw [hclosing, steps_cons, steps_nil]
    unfold doStep
    rw [after_bind_pure]
    exact Nat.le_of_eq ((receiveScheduled_chasing hE h.inv hnext h.chasing).2
      (h.flowing.moving hcached)).symm
  · -- the peer answers with the next block, which is executed when it arrives
    have htip : o.tip s = executed s :=
      h.inv.settled (by rw [h.flowing.level]; exact Nat.lt_succ_self _)
    obtain ⟨rest, hc, hrest⟩ := chain_split hchain h.inv h.within h.flowing.level
    have hbrest : b ∈ rest := by
      rw [hc] at hb
      refine (List.mem_append.1 hb).resolve_left fun hbh => ?_
      have hle : b.height ≤ (o.tip s).height := Linked.rank_le_tip Extends.rank h.inv.linked hbh
      rw [htip] at hle
      omega
    obtain ⟨d, rest', rfl⟩ : ∃ d rest', rest = d :: rest' := by
      cases rest with
      | nil => cases hbrest
      | cons d rest' => exact ⟨d, rest', rfl⟩
    have hd : d ∈ c := by rw [hc]; exact List.mem_append_right _ List.mem_cons_self
    have hdh : d.height = s.nextBlockHeight := hrest.1.1
    have hserved := (lives_served (g := g) hcheck hr.records hr.verifies).2 d
      (hr.executed d hd (by rw [hdh]; exact hlt))
    have hanswer : syncBlock P ⟨storeAfter g r.peer, []⟩ s.nextBlockHeight =
        some (.syncBlock (withBatches batchOf d)) := by
      rcases hr.answers hcheck hP s.nextBlockHeight with ⟨hnone, -⟩ | ⟨b', hb', hsome⟩
      · rw [← hdh, hserved] at hnone; cases hnone
      · rw [← hdh, hserved] at hb'
        cases hb'
        exact hsome
    have hclosing : r.closing P g s =
        [.incomingBlock (.syncBlock (withBatches batchOf d)), .readyToExecute] := by
      unfold Round.closing
      rw [show s.synchronizer.pendingSyncRequest = some s.nextBlockHeight from hasked,
        Option.bind_some, hanswer]
      rfl
    have hfirst : (executed (after (doStep E (.incomingBlock (.syncBlock (withBatches batchOf d)))) s)).height =
        s.nextBlockHeight := by
      unfold doStep
      rw [after_bind_pure]
      have hmsg : (RpcBlockData.syncBlock (withBatches batchOf d)).fullBlock.base ∈ c := hd
      exact (handleIncomingBlock_chasing hE hlive hmsg (hver d hd) h.inv hnext h.flowing h.chasing).2
        hdh (h.inv.request _ hasked).2.1
    rw [hclosing] at hfeeds ⊢
    have hfed := (h.step hE hlive hchain (hfeeds _ List.mem_cons_self)).1
    have hmono := (hfed.step hE hlive hchain (hfeeds _ (List.mem_cons_of_mem _ List.mem_cons_self))).2
    rw [hfirst] at hmono
    exact hmono

theorem Fed.rounds (h : Fed c v o s) {rs : List Round}
    (hrs : ∀ r ∈ rs, (∀ t ∈ r.others, Feeds E v c t) ∧ Supplies V g c o.info.height n r.peer)
    {b : CertifiedBlock} (hb : b ∈ c) (hn : b.height = n) (hobs : Observed n s) :
    Fed c v o (rs.foldl (Round.play E P g) s) ∧
      min n ((executed s).height + rs.length) ≤ (executed (rs.foldl (Round.play E P g) s)).height := by
  induction rs generalizing s with
  | nil => exact ⟨h, Nat.min_le_right _ _⟩
  | cons r rs ih =>
    obtain ⟨hothers, hr⟩ := hrs r List.mem_cons_self
    obtain ⟨h1, hle1⟩ := h.steps hE hlive hchain hothers
    have hobs1 := h.observed hE hlive hchain hothers (.inl hobs)
    have hfeeds := h1.closing_feeds hcheck hP hver hr
    obtain ⟨h2, hle2⟩ := h1.steps hE hlive hchain hfeeds
    have hobs2 := h1.observed hE hlive hchain hfeeds (.inl hobs1)
    obtain ⟨h3, hle3⟩ := ih (s := r.play E P g s) h2
      (fun r' hr' => hrs r' (List.mem_cons_of_mem r hr')) hobs2
    refine ⟨h3, ?_⟩
    -- one round is one block, until the target is reached
    have hround : min n ((executed s).height + 1) ≤ (executed (r.play E P g s)).height := by
      by_cases hlt : (executed (EState.steps (doStep E) s r.others)).height < n
      · have := round_progress hcheck hP hE hlive hchain hver h1 hr hb hn hobs1 hlt
        show _ ≤ (executed (EState.steps (doStep E) _ (r.closing P g _))).height
        omega
      · show _ ≤ (executed (EState.steps (doStep E) _ (r.closing P g _))).height
        omega
    rw [List.length_cons, List.foldl_cons]
    omega

end

/-- **A node catches up with its peer.** A node is created with nothing left to restore and hears of
a block of the certified chain `c`, at height `n`. From then on it goes through rounds, in each of
which any blocks of the chain may arrive in any order and any number of times, and at the end of
which a peer answers the pending request; the peer has itself been through any number of crashes and
restarts, and has executed the chain up to `n`. Then each round executes at least one more block:
after `n - h` rounds a node that started at height `h` has executed the whole chain up to `n`, in
order and each block once. -/
theorem node_catches_up_with_peer {W : Warranter E} {V : VerifierEnv} {batchOf : Hash → Bytes}
    {P : StoreEnv} {g b : CertifiedBlock} {n : Nat}
    (hcheck : ∀ fb, V.checkConsistency fb = .ok () →
      (∀ item ∈ fb.base.block.payload, ∃ p ∈ fb.batches, p.key = item.storeKey) ∧
        ∀ p ∈ fb.batches, p.batch = batchOf p.key)
    (hP : P.Reliable) (hf : Fresh st) (hnew : new E W st v = (.ok s, w))
    (hlevel : s.store.lastCommittedBlockHeight = s.lastExecutedBlockInfo.height)
    (hlive : s.isCurrentEpochOver = false) (hE : Undisturbed E c)
    (hchain : Linked.From Extends CertifiedBlock.info s.lastExecutedBlockInfo c)
    (hver : ∀ b ∈ c, E.verify s.blockVerifier (withBatches batchOf b) = .success)
    (ts : List Trigger) (hts : ∀ t ∈ ts, Feeds E s.blockVerifier c t)
    (hb : b ∈ c) (hn : b.height = n)
    (hheard : ∃ msg, .incomingBlock msg ∈ ts ∧ msg.fullBlock.base.height = n) (rs : List Round)
    (hrs : ∀ r ∈ rs, (∀ t ∈ r.others, Feeds E s.blockVerifier c t) ∧
      Supplies V g c s.lastExecutedBlockInfo.height n r.peer) :
    handed ((rs.foldl (Round.play E P g) (EState.steps (doStep E) s ts)).log.drop s.log.length) <+: c ∧
      min n (s.lastExecutedBlockInfo.height + rs.length) ≤
        (rs.foldl (Round.play E P g) (EState.steps (doStep E) s ts)).lastExecutedBlockInfo.height := by
  have hstarts := (new_starts hnew).1
  have hclean := hstarts.clean hf
  have hunseen : s.lastObservedHighestBlock = none := by
    cases hstarts with
    | consistent _ _ => rfl
    | @restored d x flag _ _ _ _ =>
      unfold restored returned
      cases (answer E d (created x st v)).record <;> rfl
    | @duplicate d x e _ _ _ _ _ =>
      unfold returned
      cases (answer E d (created x st v)).record <;> rfl
  have hnone : ∀ h, pending s h = none := fun h => congrFun hclean.cache h
  have hfed : Fed c s.blockVerifier (Origin.of s) s := by
    refine ⟨hclean.inv _, ⟨rfl, hlevel, nofun, fun h => absurd (hnone _) h⟩,
      ⟨fun h hp => absurd (hnone h) hp, fun i hi => ?_⟩, ?_⟩
    · rw [hunseen] at hi; cases hi
    · rw [show (Origin.of s).since s = [] from List.drop_length]
      nofun
  have hpos : 0 < n := by
    have hlt : s.lastExecutedBlockInfo.height < b.height := Linked.rank_lt Extends.rank hchain hb
    omega
  obtain ⟨h1, hle1⟩ := hfed.steps hE hlive hchain hts
  have hobs : Observed n (EState.steps (doStep E) s ts) := by
    obtain ⟨msg, hmem, hheight⟩ := hheard
    exact hfed.observed hE hlive hchain hts (.inr ⟨msg, hmem, hheight, hpos⟩)
  obtain ⟨h2, hle2⟩ := h1.rounds hcheck hP hE hlive hchain hver hrs hb hn hobs
  refine ⟨Linked.isPrefix_of_subset Extends.rank h2.inv.linked hchain h2.within, ?_⟩
  show min n ((executed s).height + rs.length) ≤ (executed _).height
  omega

namespace Small

/-- The history of a peer that has executed blocks 1 and 2 and has been restarted. -/
def peer : List Life :=
  [verifyingLife [.incomingBlock (.newBlock (fullBlock 1 1))] 5,
    verifyingLife [.incomingBlock (.newBlock (fullBlock 1 2))] 20]

theorem peer_certifiedBlock : (storeAfter (block 1 0) peer).certifiedBlock =
    Function.update (Function.update (fun _ => none) 1 (some (block 1 1))) 2 (some (block 1 2)) := rfl

theorem peer_supplies :
    Supplies verifierEnv (block 1 0) [block 1 1, block 1 2] 0 2 peer where
  records L hL := by
    simp only [peer, List.mem_cons, List.not_mem_nil, or_false] at hL
    rcases hL with rfl | rfl <;> exact verifyingEnv_recordsGiven
  verifies L hL := by
    simp only [peer, List.mem_cons, List.not_mem_nil, or_false] at hL
    rcases hL with rfl | rfl <;> exact ⟨false, rfl⟩
  stored h b _ hb := by
    rw [peer_certifiedBlock, Function.update_apply, Function.update_apply] at hb
    split at hb
    · cases hb; simp
    · split at hb
      · cases hb; simp
      · cases hb
  executed b hb _ := by
    have hhanded : handed (history (block 1 0) ChainStore.empty peer).flatten =
      [block 1 1, block 1 1, block 1 2] := by decide
    rw [hhanded]
    simp only [List.mem_cons, List.not_mem_nil, or_false] at hb
    rcases hb with rfl | rfl <;> simp

end Small

/-- A node with an empty store hears of block 2. After two rounds it has executed both blocks. -/
theorem node_catches_up_with_peer_small :
    2 ≤ ([⟨[.syncTimer], Small.peer⟩, ⟨[], Small.peer⟩].foldl
        (Round.play Small.verifyingEnv Small.verifyingEnv.reliable (Small.block 1 0))
        (EState.steps (doStep Small.verifyingEnv) Small.genesisAssembler
          [.incomingBlock (.newBlock (Small.fullBlock 1 2))])).lastExecutedBlockInfo.height := by
  have hnew : new Small.verifyingEnv (Warranter.standard Small.verifyingEnv)
      (genesisStore (Small.block 1 0) (BlockStore.new ⟨ChainStore.empty, []⟩ 1))
      ⟨Small.epochState 1 0⟩ = (.ok Small.genesisAssembler, Small.genesisAssembler.store.store) := rfl
  have hP : Small.verifyingEnv.reliable.Reliable := fun _ _ => rfl
  have hfresh : Fresh (genesisStore (Small.block 1 0) (BlockStore.new ⟨ChainStore.empty, []⟩ 1)) := rfl
  refine (node_catches_up_with_peer (c := [Small.block 1 1, Small.block 1 2]) (n := 2)
    (b := Small.block 1 2) (g := Small.block 1 0) Small.checkConsistency_ok hP hfresh hnew rfl rfl
    ⟨⟨fun _ _ => rfl, fun _ _ => rfl⟩, fun _ _ _ _ => rfl⟩ ⟨by decide, by decide, trivial⟩ ?_
    [.incomingBlock (.newBlock (Small.fullBlock 1 2))] ?_ (by simp) rfl
    ⟨.newBlock (Small.fullBlock 1 2), by simp, rfl⟩
    [⟨[.syncTimer], Small.peer⟩, ⟨[], Small.peer⟩] ?_).2
  · intro b hb
    simp only [List.mem_cons, List.not_mem_nil, or_false] at hb
    rcases hb with rfl | rfl <;> rfl
  · intro t ht
    cases List.mem_singleton.1 ht
    exact ⟨by decide, rfl⟩
  · intro r hr
    simp only [List.mem_cons, List.not_mem_nil, or_false] at hr
    rcases hr with rfl | rfl
    · refine ⟨fun t ht => ?_, Small.peer_supplies⟩
      cases List.mem_singleton.1 ht
      trivial
    · exact ⟨nofun, Small.peer_supplies⟩

end Consensus.Proof
