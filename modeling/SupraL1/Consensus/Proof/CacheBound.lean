import Mathlib.Data.Set.Card
import Mathlib.Order.Interval.Finset.Nat
import SupraL1.Consensus.Proof.Epoch

/-!
# The blocks held in memory

`cache` keeps a block in full only inside the bucket above the last committed block, and as its
header and digest outside. The bucket moves with every execution while the entries stay as they
were cached. `Within` is the bound at every step boundary. In the middle of `execute_block` the
committed height has moved and the entries below it are not dropped yet: there the bound needs
that no full block is cached at the height of the block under execution (`Opens`).
-/

namespace Consensus.Proof

open EState ChainStateAssembler SynchronizationContext Relation

variable {E : Env} {A : CertifiedBlock → Prop} {o : Origin} {α β : Type} {st : BlockStore}
  {v : EpochStates} {s : ChainStateAssembler} {w : World} {b : CertifiedBlock}

/-! ## The window -/

/-- The heights at which the cache holds a full block. -/
def fullHeights (st : BlockStore) : Set Nat :=
  { h | ∃ b, st.pendingExecution h = some (some (.block b)) }

/-- Full blocks are cached only in the bucket above the last committed block. -/
def Within (st : BlockStore) : Prop :=
  ∀ h ∈ fullHeights st, st.lastCommittedBlockHeight < h ∧
    h ≤ st.lastCommittedBlockHeight + st.certifiedBlockCacheBucketSize

theorem Within.of_fresh (hf : Fresh st) : Within st := by
  intro h hh
  obtain ⟨b, hb⟩ := hh
  rw [hf] at hb
  cases hb

theorem Within.mono {m : Cache} (hw : Within st)
    (hm : ∀ h b, m h = some (some (.block b)) → st.pendingExecution h = some (some (.block b))) :
    Within { st with pendingExecution := m } := by
  intro h hh
  obtain ⟨b, hb⟩ := hh
  exact hw h ⟨b, hm h b hb⟩

theorem Within.retain (hw : Within st) (n : Nat) :
    Within { st with pendingExecution := st.pendingExecution.retain n } :=
  hw.mono fun _ _ hb => (Cache.retain_some.1 hb).2

theorem Within.removeEntry (hw : Within st) (n : Nat) :
    Within { st with pendingExecution := st.pendingExecution.remove n } := by
  refine hw.mono fun h b hb => ?_
  unfold Cache.remove at hb
  rw [Function.update_apply] at hb
  split at hb
  · cases hb
  · exact hb

theorem Within.setEntry (hw : Within st) (n : Nat) {r : Option BlockReference}
    (hr : ∀ b, r ≠ some (.block b)) :
    Within { st with pendingExecution := st.pendingExecution.insert n r } := by
  refine hw.mono fun h b hb => ?_
  rw [Cache.insert_apply] at hb
  split at hb
  · exact absurd (Option.some.inj hb) (hr b)
  · exact hb

theorem Within.cache (hw : Within st) (hc : st.lastCommittedBlockHeight < b.height) :
    Within { st with
      pendingExecution := st.pendingExecution.insert b.height (some (st.reference b)) } := by
  by_cases hin : b.height ≤ st.lastCommittedBlockHeight + st.certifiedBlockCacheBucketSize
  · intro h hh
    by_cases heq : h = b.height
    · subst heq; exact ⟨hc, hin⟩
    · obtain ⟨b', hb'⟩ := hh
      exact hw h ⟨b', (Cache.insert_of_ne _ _ heq).symm.trans hb'⟩
  · unfold BlockStore.reference
    rw [if_neg hin]
    exact hw.setEntry _ nofun

/-! ## Computations that keep the window -/

/-- The part of the state the window depends on, with the last executed block. -/
def shelf (s : ChainStateAssembler) : ChainStateAssembler := withReady [] (core s)

/-- From a state in `P`, `m` ends in `Q`, or with an error and the window kept. -/
def Confined (P : ChainStateAssembler → Prop) (m : AssemblerM α)
    (Q : α → ChainStateAssembler → Prop) : Prop :=
  Does (fun _ _ => True) P m Q fun _ s => Within s.store

theorem Confined.frame {m : AssemblerM α} {P : ChainStateAssembler → Prop} (h : Keeps shelf m)
    (hP : ∀ s, P (shelf s) ↔ P s) (hW : ∀ s, P s → Within s.store) :
    Confined P m fun _ => P :=
  (h.does fun _ => trivial).conseq (fun s hs => (hP s).2 hs) (fun _ s hs => (hP s).1 hs)
    fun _ s hs => hW s ((hP s).1 hs)

theorem Confined.of_keeps {m : AssemblerM α} (h : Keeps shelf m) :
    Confined (fun s => Within s.store) m fun _ s => Within s.store :=
  .frame h (fun _ => Iff.rfl) fun _ h => h

theorem Confined.read {k : ChainStateAssembler → AssemblerM β} {P : ChainStateAssembler → Prop}
    {Q : β → ChainStateAssembler → Prop} (h : ∀ s, Confined P (k s) Q) : Confined P (get >>= k) Q :=
  fun s hs => h s s hs

theorem Confined.after {m : AssemblerM α} {P : ChainStateAssembler → Prop}
    (h : Confined P m fun _ s => Within s.store) (hs : P s) : Within (after m s).store := by
  have hend := h s hs
  cases hm : m s with
  | ok a s' => rw [hm] at hend; rw [after_ok hm]; exact hend.2
  | error e s' => rw [hm] at hend; rw [after_error hm]; exact hend.2

theorem keeps_shelf {m : AssemblerM α} (h : Keeps core m) : Keeps shelf m := h.comp (withReady [])

theorem keeps_shelf_trySend (b : CertifiedBlock) : Keeps shelf (trySend b) :=
  .read fun _ => .ite (.act fun _ => rfl) (.fail _)

theorem takeNextReadyBlockByHeight_confined (n : Nat) :
    Confined (fun s => Within s.store) (onStore (BlockStore.takeNextReadyBlockByHeight E.toStoreEnv n))
      fun _ s => Within s.store := by
  intro s hs
  unfold onStore onPart
  rw [BlockStore.takeNextReadyBlockByHeight_eq]
  cases s.store.pendingExecution n with
  | none => exact ⟨.refl, hs⟩
  | some r =>
    rcases r with _ | (b | i | i)
    · exact ⟨.single trivial, hs.removeEntry n⟩
    · exact ⟨.single trivial, hs.setEntry n nofun⟩
    · dsimp only
      cases E.fails (.readCertifiedBlock i.height) s.store.store.log with
      | some e => exact ⟨.single trivial, hs.setEntry n nofun⟩
      | none =>
        dsimp only
        cases s.store.store.chain.certifiedBlock i.height with
        | none => exact ⟨.single trivial, hs.removeEntry n⟩
        | some b =>
          dsimp only
          cases E.fails (.hydrate b) s.store.store.log with
          | some e => exact ⟨.single trivial, hs.setEntry n nofun⟩
          | none => exact ⟨.single trivial, hs.setEntry n nofun⟩
    · exact ⟨.single trivial, hs.setEntry n nofun⟩

/-! ## Execution -/

/-- The state at a step boundary: the window, and nothing cached up to the last executed block. -/
structure Shelved (s : ChainStateAssembler) : Prop where
  within : Within s.store
  above : ∀ h r, pending s h = some r → (executed s).height < h

/-- `b` may come under execution: it is not committed, and no full block is cached at its height. -/
structure Opens (b : CertifiedBlock) (s : ChainStateAssembler) : Prop extends Shelved s where
  free : b.height ∉ fullHeights s.store
  uncommitted : committed s < b.height

theorem Opens.commit (h : Opens b s) (hn : b.height = s.nextBlockHeight) :
    Within (withCommitted b.height s).store := by
  intro n hfull
  obtain ⟨b', hb'⟩ := hfull
  have habove : (executed s).height < n := h.above n _ hb'
  have hne : n ≠ b.height := fun heq => h.free (heq ▸ ⟨b', hb'⟩)
  have hlow := h.within n ⟨b', hb'⟩
  have hc := h.uncommitted
  refine ⟨Nat.lt_of_le_of_ne ?_ hne.symm, hlow.2.trans (Nat.add_le_add_right hc.le _)⟩
  rw [show (withCommitted b.height s).store.lastCommittedBlockHeight = b.height from rfl, hn]
  exact habove

theorem executeBlock_confined :
    Confined (fun s => Opens b s ∧ b.height = s.nextBlockHeight) (executeBlock E b)
      fun _ s => Within s.store := by
  intro s hs
  have hcommit : Within (withCommitted b.height s).store := hs.1.commit hs.2
  have hreturned : Within (returned E b s).store :=
    (congrArg (fun t => Within t.store) (returned_core E b s)).mpr hcommit
  rw [executeBlock_eq]
  cases E.fails (.write (.committedBlock b)) s.log with
  | some e => exact ⟨.single trivial, hcommit⟩
  | none =>
    dsimp only
    cases (answer E b s).result with
    | error e => exact ⟨.single trivial, hreturned⟩
    | ok flag => exact ⟨.single trivial, hreturned.retain b.height⟩

theorem tryExecuteBlockChain_confined :
    Confined (fun s => Opens b s ∧ b.height = s.nextBlockHeight) (tryExecuteBlockChain E b)
      fun _ s => Within s.store := by
  refine Does.bind executeBlock_confined fun _ => Confined.read fun s => .ite (fun _ => ?_) fun _ => ?_
  · exact Confined.of_keeps (keeps_shelf (keeps_write _ _))
  · refine Does.bind (takeNextReadyBlockByHeight_confined _) fun r => ?_
    cases r with
    | some b' => exact Confined.of_keeps (keeps_shelf_trySend b')
    | none => exact Confined.of_keeps (keeps_shelf keeps_tryToSyncSkippedBlocks)

theorem doesFollowChain_confined :
    Confined (Opens b) (doesFollowChain b) fun follows s =>
      Opens b s ∧ (follows = true → b.height = s.nextBlockHeight) := by
  refine Does.read fun s hs => ?_
  refine Does.ite (fun hn => ?_) (fun _ => ?_) s rfl
  · refine .ite (fun _ => .ret fun s' hs' => ?_) fun _ => .fail fun s' hs' => ?_
    · subst hs'; exact ⟨hs, fun _ => hn⟩
    · subst hs'; exact hs.within
  · exact .ret fun s' hs' => by subst hs'; exact ⟨hs, nofun⟩

/-! ## Blocks from the channels -/

theorem ensureCanBeCached_cases (n : Nat) (st : BlockStore) :
    (BlockStore.ensureCanBeCached n st = .ok () st ∧ st.lastCommittedBlockHeight < n) ∨
      ∃ e, BlockStore.ensureCanBeCached n st = .error e st := by
  unfold BlockStore.ensureCanBeCached
  rw [get_bind]
  split_ifs with hle
  · exact .inr ⟨_, rfl⟩
  · have hlt := Nat.not_le.1 hle
    rcases st.pendingExecution n with _ | _ | (b | i | i)
    · exact .inl ⟨rfl, hlt⟩
    · exact .inl ⟨rfl, hlt⟩
    · exact .inl ⟨rfl, hlt⟩
    · exact .inl ⟨rfl, hlt⟩
    · exact .inr ⟨_, rfl⟩

theorem cache_confined (b : CertifiedBlock) :
    Confined (fun s => Within s.store) (onStore (BlockStore.cache b)) fun _ s => Within s.store := by
  intro s hs
  unfold onStore onPart BlockStore.cache
  rcases ensureCanBeCached_cases b.height s.store with ⟨hok, hc⟩ | ⟨e, he⟩
  · rw [bind_ok hok]
    exact ⟨.single trivial, hs.cache hc⟩
  · rw [bind_error he]
    exact ⟨.single trivial, hs⟩

theorem handleFullBlock_confined (fb : FullBlock) :
    Confined (Opens fb.base) (handleFullBlock E fb) fun _ s => Within s.store := by
  refine Confined.read fun s => .ite (fun _ => .fail fun _ h => h.within) fun _ => ?_
  refine Does.bind (Confined.frame (keeps_shelf (keeps_persist fb)) (P := Opens fb.base)
    (fun _ => ⟨fun h => { h with }, fun h => { h with }⟩) fun _ h => h.within) fun _ => ?_
  refine Does.bind doesFollowChain_confined fun follows => ?_
  refine Does.bind (Confined.frame (keeps_shelf (keeps_clear _))
    (fun _ => ⟨fun h => ⟨{ h.1 with }, h.2⟩, fun h => ⟨{ h.1 with }, h.2⟩⟩)
    fun _ h => h.1.within) fun _ => ?_
  cases follows with
  | true =>
    have hexec := tryExecuteBlockChain_confined (E := E) (b := fb.base)
    exact hexec.conseq (fun _ h => ⟨h.1, h.2 rfl⟩) (fun _ _ h => h) fun _ _ h => h
  | false =>
    have hcache := cache_confined fb.base
    refine Does.bind (hcache.conseq (fun _ h => h.1.within) (fun _ _ h => h) fun _ _ h => h) ?_
    exact fun _ => Confined.of_keeps (keeps_shelf keeps_tryToSyncSkippedBlocks)

theorem handleScheduledBlock_confined (b : CertifiedBlock) :
    Confined (Opens b) (handleScheduledBlock E b) fun _ s => Within s.store := by
  refine Does.bind (Confined.frame (keeps_shelf (keeps_clear _)) (P := Opens b)
    (fun _ => ⟨fun h => { h with }, fun h => { h with }⟩) fun _ h => h.within) fun _ => ?_
  refine Confined.read fun s => .ite (fun _ => .fail fun _ h => h.within) fun _ => ?_
  refine Does.bind doesFollowChain_confined fun follows => ?_
  cases follows with
  | true =>
    have hexec := tryExecuteBlockChain_confined (E := E) (b := b)
    exact hexec.conseq (fun _ h => ⟨h.1, h.2 rfl⟩) (fun _ _ h => h) fun _ _ h => h
  | false =>
    have hretain : Confined (fun s => Opens b s ∧ (false = true → b.height = s.nextBlockHeight))
        (onStore (BlockStore.retain b.height)) fun _ s => Within s.store :=
      fun s h => ⟨.single trivial, h.1.within.retain b.height⟩
    exact Does.bind hretain fun _ => .fail fun _ h => h

/-- A message that is not skipped has nothing cached at its height. -/
theorem handleIncomingBlock_confined (msg : RpcBlockData) :
    Confined Shelved (handleIncomingBlock E msg) fun _ s => Within s.store := by
  have hobserve : ∀ s, shelf (observeBlock msg.fullBlock.base s) = shelf s := by
    intro s
    unfold observeBlock
    split <;> rfl
  refine Does.bind (Confined.frame (.act hobserve) (P := Shelved)
    (fun _ => ⟨fun h => { h with }, fun h => { h with }⟩) fun _ h => h.within) fun _ => ?_
  refine Does.read fun s hs => ?_
  by_cases hskip : s.shouldBeSkipped msg.fullBlock.base = true
  · rw [if_pos hskip]
    exact ⟨.refl, hs.within⟩
  · rw [if_neg hskip]
    simp only [shouldBeSkipped, Bool.or_eq_true, not_or, Bool.not_eq_true] at hskip
    obtain ⟨hc, hnone⟩ := BlockStore.hasEntry_false.1 hskip.2
    have hfree : msg.fullBlock.base.height ∉ fullHeights s.store := by
      intro hfull
      obtain ⟨b, hb⟩ := hfull
      cases hnone.symm.trans hb
    cases E.verify s.blockVerifier msg.fullBlock with
    | success => exact handleFullBlock_confined _ s { hs with free := hfree, uncommitted := hc }
    | oldEpochBlock => exact ⟨.refl, hs.within⟩
    | futureEpochBlock =>
      exact Confined.of_keeps (keeps_shelf keeps_tryToSyncSkippedBlocks) s hs.within
    | invalidBlock e => exact ⟨.refl, hs.within⟩

/-- The block of the channel has a scheduled entry at its height. -/
theorem receiveScheduled_confined :
    Confined (fun s => Inv A o s ∧ Within s.store) (receiveScheduled E)
      fun _ s => Within s.store := by
  refine Does.read fun s hs => ?_
  obtain ⟨hI, hw⟩ := hs
  cases hq : s.readyToExecute with
  | nil => exact ⟨.refl, hw⟩
  | cons b rest =>
    obtain ⟨-, -, hc, -, hp⟩ := hI.channel b (by rw [hq]; exact List.mem_cons_self)
    have hfree : b.height ∉ fullHeights s.store := by
      intro hfull
      obtain ⟨b', hb'⟩ := hfull
      cases hp.symm.trans hb'
    have hopens : Opens b (withReady rest s) :=
      { within := hw, above := hI.above, free := hfree, uncommitted := hc }
    exact (handleScheduledBlock_confined b _ hopens).head trivial

/-! ## Steps and runs -/

theorem applyNotification_confined (n : Notification) :
    Confined (fun s => Within s.store) (applyNotification E n) fun _ s => Within s.store := by
  cases n with
  | endEpoch => exact .ret fun _ h => h
  | newEpoch e =>
    have hretain : Confined (fun s => Within s.store) (onStore (BlockStore.retain e.startHeight))
        fun _ s => Within s.store := fun s h => ⟨.single trivial, h.retain e.startHeight⟩
    refine Does.bind hretain fun _ => ?_
    refine Does.bind (Q := fun _ s => Within (ChainStateAssembler.store s))
      (.act (fun _ _ => trivial) fun _ h => h) fun _ => ?_
    exact Confined.of_keeps (keeps_shelf keeps_tryToSyncSkippedBlocks)

/-- **A step keeps the window.** -/
theorem doStep_within (t : Trigger) (hI : Inv A o s) (hw : Within s.store) :
    Within (after (doStep E t) s).store := by
  cases t with
  | epochNotification n =>
    by_cases ha : Accepts E n s
    · rw [after_accept ha]
      exact (applyNotification_confined n).after hw
    · rw [after_reject ha]
      exact hw
  | epochManagerGone => exact hw
  | shutdown => exact hw
  | incomingBlock msg =>
    unfold doStep
    rw [after_bind_pure]
    exact (handleIncomingBlock_confined msg).after ⟨hw, hI.above⟩
  | blocksChannelClosed => exact hw
  | readyToExecute =>
    unfold doStep
    rw [after_bind_pure]
    exact receiveScheduled_confined.after ⟨hI, hw⟩
  | syncTimer =>
    unfold doStep
    rw [after_bind_pure]
    exact (Confined.of_keeps (keeps_shelf keeps_retry)).after hw

theorem Act.bucketSize {s' : ChainStateAssembler} (ha : Act E A o s s') :
    s'.store.certifiedBlockCacheBucketSize = s.store.certifiedBlockCacheBucketSize := by
  cases ha <;> rfl

theorem bucketSize_star {s' : ChainStateAssembler} (h : ReflTransGen (Act E A o) s s') :
    s'.store.certifiedBlockCacheBucketSize = s.store.certifiedBlockCacheBucketSize := by
  induction h with
  | refl => rfl
  | tail _ hact ih => exact hact.bucketSize.trans ih

theorem Starts.bucketSize (h : Starts E st v s) :
    s.store.certifiedBlockCacheBucketSize = st.certifiedBlockCacheBucketSize := by
  have hret : ∀ c x, (returned E c (created x st v)).store.certifiedBlockCacheBucketSize =
      st.certifiedBlockCacheBucketSize := fun c x =>
    congrArg (fun t => t.store.certifiedBlockCacheBucketSize) (returned_core E c (created x st v))
  cases h with
  | consistent _ _ => rfl
  | restored _ _ _ _ => exact hret _ _
  | duplicate _ _ _ _ _ => exact hret _ _

/-! ## The number of blocks -/

theorem Within.finite (hw : Within st) : (fullHeights st).Finite :=
  (Finset.Ioc st.lastCommittedBlockHeight
    (st.lastCommittedBlockHeight + st.certifiedBlockCacheBucketSize)).finite_toSet.subset
      fun h hh => Finset.mem_coe.2 (Finset.mem_Ioc.2 (hw h hh))

theorem ncard_le_of_window {S : Set Nat} {n k : Nat} (h : ∀ x ∈ S, n < x ∧ x ≤ n + k) :
    S.ncard ≤ k := by
  have hsub : S ⊆ (Finset.Ioc n (n + k) : Set Nat) := fun x hx =>
    Finset.mem_coe.2 (Finset.mem_Ioc.2 (h x hx))
  calc S.ncard ≤ (Finset.Ioc n (n + k) : Set Nat).ncard :=
        Set.ncard_le_ncard hsub (Finset.finite_toSet _)
    _ = k := by rw [Set.ncard_coe_finset, Nat.card_Ioc]; omega

/-- A block in the channel counts as well: its height is the next one, which the cache no longer
holds in full. -/
theorem Within.ncard_add_channel_le (hw : Within s.store) (hI : Inv A o s) :
    (fullHeights s.store).ncard + s.readyToExecute.length ≤
      max s.store.certifiedBlockCacheBucketSize 1 := by
  have hcard : (fullHeights s.store).ncard ≤ s.store.certifiedBlockCacheBucketSize :=
    ncard_le_of_window hw
  cases hq : s.readyToExecute with
  | nil => exact hcard.trans (le_max_left _ _)
  | cons b rest =>
    obtain ⟨-, hn, hc, -, hp⟩ := hI.channel b (by rw [hq]; exact List.mem_cons_self)
    have hnext : b.height = (executed s).height + 1 := hn
    have hcommitted : s.store.lastCommittedBlockHeight < b.height := hc
    have hlen : (b :: rest).length ≤ 1 := hq ▸ hI.single
    have hfree : b.height ∉ fullHeights s.store := by
      intro hfull
      obtain ⟨b', hb'⟩ := hfull
      cases hp.symm.trans hb'
    have hwindow : ∀ x ∈ insert b.height (fullHeights s.store), (executed s).height < x ∧
        x ≤ (executed s).height + max s.store.certifiedBlockCacheBucketSize 1 := by
      intro x hx
      rcases hx with rfl | hx
      · omega
      · obtain ⟨b', hb'⟩ := id hx
        have habove : (executed s).height < x := hI.above x _ hb'
        have hle := (hw x hx).2
        omega
    have hinsert := ncard_le_of_window hwindow
    rw [Set.ncard_insert_of_notMem hfree hw.finite] at hinsert
    omega

section
variable {W : Warranter E} (hf : Fresh st) (hnew : new E W st v = (.ok s, w)) (ts : List Trigger)
include hf hnew

theorem new_run_within : Within (steps (doStep E) s ts).store := by
  have hclean := (new_starts hnew).1.clean hf
  refine steps_inv (I := fun _ (t : ChainStateAssembler) => Within t.store)
    (.of_fresh hclean.cache) fun pre t _ _ hpre => ?_
  have hI : Inv (fun _ => True) (Origin.of s) (steps (doStep E) s pre) :=
    new_run_inv hf hnew fun _ _ => trivial
  exact doStep_within t hI hpre

theorem new_run_bucketSize : (steps (doStep E) s ts).store.certifiedBlockCacheBucketSize =
    st.certifiedBlockCacheBucketSize := by
  rw [← (new_starts hnew).1.bucketSize]
  have hI : Inv (fun _ => True) (Origin.of s) s := new_inv hf hnew _
  exact bucketSize_star (run_acts hI fun _ _ => trivial)

/-- **The memory held by cached blocks is bounded.** At every step boundary of every run, also
after failures, a block is cached in full only in the bucket above the last committed block. So
there are at most as many as the bucket has heights, a block that waits in the feedback channel
included (a bucket of size zero leaves room for this one). -/
theorem cached_blocks_bounded {s' : ChainStateAssembler} (hrun : steps (doStep E) s ts = s') :
    (∀ h b, s'.store.pendingExecution h = some (some (.block b)) →
      s'.store.lastCommittedBlockHeight < h ∧
        h ≤ s'.store.lastCommittedBlockHeight + st.certifiedBlockCacheBucketSize) ∧
    (fullHeights s'.store).Finite ∧
    (fullHeights s'.store).ncard ≤ st.certifiedBlockCacheBucketSize ∧
    (fullHeights s'.store).ncard + s'.readyToExecute.length ≤
      max st.certifiedBlockCacheBucketSize 1 := by
  subst hrun
  have hw := new_run_within hf hnew ts
  have hI : Inv (fun _ => True) (Origin.of s) (steps (doStep E) s ts) :=
    new_run_inv hf hnew fun _ _ => trivial
  rw [← new_run_bucketSize hf hnew ts]
  exact ⟨fun h b hb => hw h ⟨b, hb⟩, hw.finite, ncard_le_of_window hw,
    hw.ncard_add_channel_le hI⟩

end

/-- A bucket of two heights: of the blocks 2 to 4, which arrive before block 1, the first is cached
in full and the others as memos. -/
theorem cached_blocks_bounded_small :
    let E := Small.env fun _ => .ok false
    let s := steps (doStep E) (Small.assembler 2)
      ([2, 3, 4].map fun h => .incomingBlock (.newBlock (Small.fullBlock 1 h)))
    s.store.pendingExecution 2 = some (some (.block (Small.block 1 2))) ∧
      s.store.pendingExecution 4 = some (some (.memo (Small.block 1 4).info)) ∧
      (fullHeights s.store).ncard ≤ 2 := by
  intro E s
  exact ⟨by decide +kernel, by decide +kernel,
    (cached_blocks_bounded (Small.fresh _ _ 2) (Small.new_assembler _ 2) _ rfl).2.2.1⟩

end Consensus.Proof
