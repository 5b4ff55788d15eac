import SupraL1.Consensus.Proof.Creation

/-!
# The change of an epoch

Between the execution of the block that ends an epoch and the next epoch's notification the
assembler is halted: nothing is in the feedback channel and no sync request is pending, so that
neither of them can get around the check for the end of the epoch in `should_be_skipped`. A
halted assembler only acknowledges (`Silent`).
-/

namespace Consensus.Proof

open EState ChainStateAssembler SynchronizationContext Relation

variable {E : Env} {A : CertifiedBlock → Prop} {o : Origin} {st : BlockStore} {v : EpochStates}
  {s s' : ChainStateAssembler} {w : World}

/-! ## Notifications -/

theorem doStep_notification (n : Notification) (s : ChainStateAssembler) :
    doStep E (.epochNotification n) s = match handleEpochManagerNotification E n s with
      | .ok _ s' => .ok true s'
      | .error e s' => .error e s' := by
  show (handleEpochManagerNotification E n >>= fun _ => pure true : AssemblerM Bool) s = _
  rw [bind_apply]
  cases handleEpochManagerNotification E n s <;> rfl

theorem after_accept {n : Notification} (h : Accepts E n s) :
    after (doStep E (.epochNotification n)) s = (after (applyNotification E n) s).emit .ack := by
  unfold after
  rw [doStep_notification, handleEpochManagerNotification_accept h]
  cases applyNotification E n s <;> rfl

theorem after_reject {n : Notification} (h : ¬ Accepts E n s) :
    after (doStep E (.epochNotification n)) s = s := by
  obtain ⟨c, hc, -⟩ := handleEpochManagerNotification_reject h
  unfold after
  rw [doStep_notification, hc]

/-- The state in which the sync attempt of a new epoch starts. -/
def enterEpoch (e : EpochState) (s : ChainStateAssembler) : ChainStateAssembler :=
  withVerifier (s.blockVerifier.insert e) (withPending ((pending s).retain e.startHeight) s)

theorem applyNotification_newEpoch (e : EpochState) (s : ChainStateAssembler) :
    applyNotification E (.newEpoch e) s = tryToSyncSkippedBlocks E (enterEpoch e s) := rfl

theorem after_newEpoch {e : EpochState} (h : Accepts E (.newEpoch e) s) :
    after (doStep E (.epochNotification (.newEpoch e))) s =
      (after (tryToSyncSkippedBlocks E) (enterEpoch e s)).emit .ack := by
  rw [after_accept h]
  unfold after
  rw [applyNotification_newEpoch]

theorem log_accept {n : Notification} (h : Accepts E n s) :
    ∃ l, (after (doStep E (.epochNotification n)) s).log = s.log ++ l ++ [Event.ack] ∧
      ∀ e ∈ l, Requests e := by
  cases n with
  | endEpoch =>
    refine ⟨[], ?_, nofun⟩
    rw [after_accept h, List.append_nil]
    rfl
  | newEpoch e =>
    rw [after_newEpoch h]
    rcases after_tryToSyncSkippedBlocks (E := E) (enterEpoch e s) with hs | ⟨x, hx, hs⟩
    · exact ⟨[], by rw [hs, List.append_nil]; rfl, nofun⟩
    · refine ⟨[x], by rw [hs]; rfl, fun y hy => ?_⟩
      cases List.mem_singleton.1 hy; exact hx

theorem pending_newEpoch {e : EpochState} (h : Accepts E (.newEpoch e) s) :
    pending (after (doStep E (.epochNotification (.newEpoch e))) s) =
      (pending s).retain e.startHeight := by
  rw [after_newEpoch h]
  exact congrArg pending (keeps_tryToSyncSkippedBlocks (enterEpoch e s))

/-! ## Silence -/

/-- The assembler `s` after `k` acknowledgements, with `i` as the highest observed block. -/
def acknowledged (i : Option BlockInfo) (k : Nat) (s : ChainStateAssembler) : ChainStateAssembler :=
  { s with
    lastObservedHighestBlock := i
    store := { s.store with store :=
      { s.store.store with log := s.store.store.log ++ List.replicate k .ack } } }

/-- From `s` to `s'` nothing was executed, persisted, cached, scheduled or requested: the two
differ in the highest observed block and in acknowledgements. -/
def Silent (s s' : ChainStateAssembler) : Prop := ∃ i k, s' = acknowledged i k s

theorem Silent.refl (s : ChainStateAssembler) : Silent s s :=
  ⟨s.lastObservedHighestBlock, 0, by simp [acknowledged]⟩

theorem Silent.ack (h : Silent s s') : Silent s (s'.emit .ack) := by
  obtain ⟨i, k, rfl⟩ := h
  refine ⟨i, k + 1, ?_⟩
  simp [acknowledged, ChainStateAssembler.emit, World.emit, List.replicate_succ']

theorem Silent.observe (h : Silent s s') (b : CertifiedBlock) : Silent s (observeBlock b s') := by
  obtain ⟨i, k, rfl⟩ := h
  unfold observeBlock
  split
  · exact ⟨some b.info, k, rfl⟩
  · exact ⟨i, k, rfl⟩

/-- The epoch is over, and nothing is on its way. -/
structure Halted (s : ChainStateAssembler) : Prop where
  ended : s.isCurrentEpochOver = true
  quiet : s.readyToExecute = []
  idle : requested s = none

theorem Inv.toHalted (hI : Inv A o s) (ho : s.isCurrentEpochOver = true) : Halted s where
  ended := ho
  quiet := hI.halted ho
  idle := Option.eq_none_iff_forall_ne_some.2 fun n hn => by
    have hl := (hI.request n hn).2.2.2
    rw [ho] at hl; cases hl

theorem Halted.silent (h : Halted s) (hs : Silent s s') : Halted s' := by
  obtain ⟨i, k, rfl⟩ := hs
  exact ⟨h.ended, h.quiet, h.idle⟩

theorem after_incomingBlock_over {msg : RpcBlockData} (ho : s.isCurrentEpochOver = true) :
    after (doStep E (.incomingBlock msg)) s = observeBlock msg.fullBlock.base s := by
  have hskip : (observeBlock msg.fullBlock.base s).shouldBeSkipped msg.fullBlock.base = true := by
    have ho' : (observeBlock msg.fullBlock.base s).isCurrentEpochOver = true := by
      unfold observeBlock; split <;> exact ho
    simp [shouldBeSkipped, ho']
  refine after_ok (a := true) ?_
  show (handleIncomingBlock E msg >>= fun _ => pure true : AssemblerM Bool) s = _
  unfold handleIncomingBlock
  simp only [bind_apply, modify_apply, get_apply, hskip, if_true, pure_apply]

/-- A step of a halted assembler that accepts no new epoch is silent. -/
theorem Halted.step (h : Halted s') (hs : Silent s s') {t : Trigger}
    (hn : ∀ e, t = .epochNotification (.newEpoch e) → ¬ Accepts E (.newEpoch e) s') :
    Silent s (after (doStep E t) s') := by
  cases t with
  | epochNotification n =>
    by_cases ha : Accepts E n s'
    · cases n with
      | endEpoch => rw [after_accept ha]; exact hs.ack
      | newEpoch e => exact absurd ha (hn e rfl)
    · rw [after_reject ha]; exact hs
  | epochManagerGone => exact hs
  | shutdown => exact hs
  | incomingBlock msg => rw [after_incomingBlock_over h.ended]; exact hs.observe _
  | blocksChannelClosed => exact hs
  | readyToExecute =>
    have hstep : doStep E .readyToExecute s' = .ok true s' := by
      show (receiveScheduled E >>= fun _ => pure true : AssemblerM Bool) s' = _
      unfold receiveScheduled
      rw [bind_apply, get_bind, h.quiet]
      rfl
    rw [after_ok hstep]; exact hs
  | syncTimer =>
    have hstep : doStep E .syncTimer s' = .ok true s' := by
      show (retry E >>= fun _ => pure true : AssemblerM Bool) s' = _
      unfold retry
      rw [bind_apply, get_bind, show s'.synchronizer.pendingSyncRequest = none from h.idle]
      rfl
    rw [after_ok hstep]; exact hs

/-- No step of the run accepts a notification of a new epoch. -/
def NoNewEpoch (E : Env) (s : ChainStateAssembler) (us : List Trigger) : Prop :=
  ∀ pre e post, us = pre ++ .epochNotification (.newEpoch e) :: post →
    ¬ Accepts E (.newEpoch e) (steps (doStep E) s pre)

theorem Halted.steps (h : Halted s) {us : List Trigger} (hn : NoNewEpoch E s us) :
    Silent s (steps (doStep E) s us) := by
  refine steps_inv (I := fun _ s' => Silent s s') (.refl s) fun pre t post hus hs => ?_
  exact (h.silent hs).step hs fun e ht => hn pre e post (ht ▸ hus)

/-- **The assembler is silent while an epoch change is in progress.** In every state reached:
when the epoch is over, every run that accepts no new epoch is silent; a notification that is not
accepted is a fatal error that changes nothing; and one that is accepted is acknowledged exactly
once, whatever the step returns. -/
theorem silent_during_epoch_change {W : Warranter E} (hf : Fresh st)
    (hnew : new E W st v = (.ok s, w)) (ts : List Trigger) :
    ((steps (doStep E) s ts).isCurrentEpochOver = true → ∀ us,
        NoNewEpoch E (steps (doStep E) s ts) us →
        Silent (steps (doStep E) s ts) (steps (doStep E) s (ts ++ us))) ∧
      (∀ n, ¬ Accepts E n (steps (doStep E) s ts) → ∃ c,
        doStep E (.epochNotification n) (steps (doStep E) s ts) =
          .error (.fatal c) (steps (doStep E) s ts)) ∧
      ∀ n, Accepts E n (steps (doStep E) s ts) → ∃ events,
        (steps (doStep E) s (ts ++ [.epochNotification n])).log =
          (steps (doStep E) s ts).log ++ events ∧ events.count .ack = 1 := by
  refine ⟨fun ho us hus => ?_, fun n hn => ?_, fun n hn => ?_⟩
  · have hI : Inv (Accepted E s ts) (Origin.of s) (steps (doStep E) s ts) :=
      new_run_inv hf hnew fun _ hb => hb
    rw [steps_append]
    exact (hI.toHalted ho).steps hus
  · obtain ⟨c, hc, -⟩ := handleEpochManagerNotification_reject hn
    exact ⟨c, by rw [doStep_notification, hc]⟩
  · obtain ⟨l, hl, hreq⟩ := log_accept hn
    refine ⟨l ++ [Event.ack], by rw [steps_snoc, hl, List.append_assoc], ?_⟩
    have hack : .ack ∉ l := fun hmem => nomatch hreq _ hmem
    rw [List.count_append, List.count_eq_zero_of_not_mem hack]
    rfl

/-- Block 1 ends the epoch. Then block 2, a tick of the timer and an `EndEpoch` notification leave
the assembler silent, and the next epoch's notification is acknowledged once. -/
theorem silent_during_epoch_change_small :
    let E := Small.env fun b => .ok (b.height == 1)
    let s := steps (doStep E) (Small.assembler 1) [.incomingBlock (.newBlock (Small.fullBlock 1 1))]
    Silent s (steps (doStep E) (Small.assembler 1)
      ([.incomingBlock (.newBlock (Small.fullBlock 1 1))] ++
        [.incomingBlock (.newBlock (Small.fullBlock 1 2)), .readyToExecute, .syncTimer,
          .epochNotification .endEpoch])) ∧
      ∃ events, (steps (doStep E) (Small.assembler 1)
        ([.incomingBlock (.newBlock (Small.fullBlock 1 1))] ++
          [.epochNotification (.newEpoch (Small.epochState 2 1))])).log = s.log ++ events ∧
        events.count .ack = 1 := by
  intro E s
  obtain ⟨h1, -, h3⟩ := silent_during_epoch_change (Small.fresh _ _ 1)
    (Small.new_assembler (fun b => .ok (b.height == 1)) 1)
    [.incomingBlock (.newBlock (Small.fullBlock 1 1))]
  refine ⟨h1 rfl _ fun pre e post heq => ?_, h3 _ ⟨rfl, fun e he => by cases he; exact ⟨rfl, rfl⟩⟩⟩
  have hmem : Trigger.epochNotification (.newEpoch e) ∈ pre ++
      .epochNotification (.newEpoch e) :: post := by simp
  rw [← heq] at hmem
  simp at hmem

/-! ## The cache over an epoch change -/

/-- Steps that handle no notification do not read `extends`. -/
def frozen (E : Env) : Env := { E with epochExtends := fun _ _ => false }

theorem doStep_frozen {t : Trigger} (ht : ∀ n, t ≠ .epochNotification n) :
    doStep E t = doStep (frozen E) t := by
  cases t with
  | epochNotification n => exact absurd rfl (ht n)
  | _ => rfl

def currentEpoch (s : ChainStateAssembler) : Nat := s.currentEpochState.epoch

section
variable (hverify : ∀ v fb, E.verify v fb = .success → fb.base.epoch = v.current.epoch)
include hverify

theorem Act.entries (ha : Act E A o s s') {h : Nat} {r : BlockReference}
    (hr : pending s' h = some (some r)) :
    (∃ r', pending s h = some (some r') ∧ r'.epoch = r.epoch) ∨ r.epoch = currentEpoch s := by
  have old : pending s h = some (some r) →
      (∃ r', pending s h = some (some r') ∧ r'.epoch = r.epoch) ∨ r.epoch = currentEpoch s :=
    fun h => .inl ⟨r, h, rfl⟩
  cases ha with
  | @cache fb ha _ _ _ =>
    change (pending s).insert fb.base.height _ h = _ at hr
    rw [Cache.insert_apply] at hr
    split at hr
    · cases hr
      right
      rw [currentEpoch, ChainStateAssembler.currentEpochState, ← hverify _ _ ha.verified]
      unfold BlockStore.reference
      split <;> rfl
    · exact old hr
  | @schedule b _ _ _ _ hp _ =>
    change (pending s).insert b.height _ h = _ at hr
    rw [Cache.insert_apply] at hr
    split at hr
    · cases hr
      subst h
      rcases hp with hp | hp <;> exact .inl ⟨_, hp, rfl⟩
    · exact old hr
  | hole _ _ _ =>
    change (pending s).insert s.nextBlockHeight none h = _ at hr
    rw [Cache.insert_apply] at hr
    split at hr
    · cases hr
    · exact old hr
  | advance _ _ _ | retain _ _ => exact old (Cache.retain_some.1 hr).2
  | _ => exact old hr

end

theorem Act.epoch (ha : Act E A o s s') : currentEpoch s' = currentEpoch s ∨
    ∃ e, E.epochExtends e s.currentEpochState = true ∧ currentEpoch s' = e.epoch := by
  cases ha with
  | @advance b _ _ flag _ _ _ => cases flag <;> exact .inl rfl
  | newEpoch _ _ hx => exact .inr ⟨_, hx, rfl⟩
  | _ => exact .inl rfl

/-- Every block of the cache is one of the current epoch. -/
def Current (s : ChainStateAssembler) : Prop :=
  ∀ h r, pending s h = some (some r) → r.epoch = currentEpoch s

/-- The blocks handed over since the start were handed over with their own epoch's committee. -/
def OwnCommittee (o : Origin) (s : ChainStateAssembler) : Prop :=
  ∀ b c, .execute b c ∈ o.since s → b.epoch = c.epoch

def NoneAhead (s : ChainStateAssembler) : Prop := ∀ h, (executed s).height < h → pending s h = none

section
variable (hverify : ∀ v fb, E.verify v fb = .success → fb.base.epoch = v.current.epoch)
include hverify

theorem Committed.own_epoch {b : CertifiedBlock} (hb : Committed E A o s b) (hc : Current s) :
    b.epoch = currentEpoch s := by
  rcases hb.source with ⟨fb, rfl, hv⟩ | hp
  · exact hverify _ _ hv
  · exact hc _ _ hp

theorem Act.current (ha : Act (frozen E) A o s s') (hm : o.mark ≤ s.log.length) (hc : Current s)
    (hx : OwnCommittee o s) : Current s' ∧ OwnCommittee o s' := by
  have hep : currentEpoch s' = currentEpoch s := by
    rcases ha.epoch with h | ⟨e, he, -⟩
    · exact h
    · cases he
  constructor
  · intro h r hr
    rw [hep]
    rcases Act.entries (E := frozen E) hverify ha hr with ⟨r', hr', heq⟩ | h
    · rw [← heq]; exact hc h r' hr'
    · exact h
  · intro b c hmem
    unfold Origin.since at hmem
    rcases ha.event with ⟨hlog, -⟩ | ⟨e, hlog, -, he⟩
    · rw [hlog] at hmem; exact hx b c hmem
    · rw [hlog, List.drop_append_of_le_length hm] at hmem
      rcases List.mem_append.1 hmem with hmem | hmem
      · exact hx b c hmem
      · obtain ⟨hb, rfl⟩ := he b c (List.mem_singleton.1 hmem).symm
        exact Committed.own_epoch (E := frozen E) hverify hb hc

theorem acts_current (h : ReflTransGen (Act (frozen E) A o) s s') (hI : Inv A o s) (hc : Current s)
    (hx : OwnCommittee o s) : Current s' ∧ OwnCommittee o s' := by
  induction h with
  | refl => exact ⟨hc, hx⟩
  | tail hstar ha ih => exact ha.current hverify (hI.star hstar).mark ih.1 ih.2

/-- A step that enters a new epoch with nothing cached ahead, or enters none. -/
theorem step_current {t : Trigger} (hI : Inv A o s) (hA : ∀ b, Delivers E s.blockVerifier t b → A b)
    (hc : Current s) (hx : OwnCommittee o s)
    (hn : ∀ e, t = .epochNotification (.newEpoch e) → Accepts E (.newEpoch e) s →
      e.startHeight = (executed s).height ∧ NoneAhead s) :
    Current (after (doStep E t) s) ∧ OwnCommittee o (after (doStep E t) s) := by
  by_cases ht : ∃ n, t = .epochNotification n
  · obtain ⟨n, rfl⟩ := ht
    by_cases ha : Accepts E n s
    · refine ⟨?_, fun b c hmem => ?_⟩
      · cases n with
        | endEpoch => rw [after_accept ha]; exact hc
        | newEpoch e =>
          obtain ⟨hstart, hahead⟩ := hn e rfl ha
          intro h r hr
          rw [pending_newEpoch ha] at hr
          obtain ⟨hlt, hr⟩ := Cache.retain_some.1 hr
          rw [hahead h (hstart ▸ hlt)] at hr; cases hr
      · obtain ⟨l, hl, hreq⟩ := log_accept ha
        unfold Origin.since at hmem
        rw [hl, List.append_assoc, List.drop_append_of_le_length hI.mark] at hmem
        rcases List.mem_append.1 hmem with hmem | hmem
        · exact hx b c hmem
        · rcases List.mem_append.1 hmem with hmem | hmem
          · exact nomatch hreq _ hmem
          · cases List.mem_singleton.1 hmem
    · rw [after_reject ha]; exact ⟨hc, hx⟩
  · have ht : ∀ n, t ≠ .epochNotification n := fun n h => ht ⟨n, h⟩
    rw [doStep_frozen ht]
    exact acts_current hverify (doStep_ends (E := frozen E) hI hA).after hI hc hx

theorem acts_notLater (hextends : ∀ e cur, E.epochExtends e cur = true → cur.epoch < e.epoch)
    (h : ReflTransGen (Act E A o) s s')
    (h0 : ∀ h r, pending s h = some (some r) → r.epoch ≤ currentEpoch s) :
    ∀ h r, pending s' h = some (some r) → r.epoch ≤ currentEpoch s' := by
  induction h with
  | refl => exact h0
  | @tail s1 s2 _ ha ih =>
    have hmono : currentEpoch s1 ≤ currentEpoch s2 := by
      rcases ha.epoch with h | ⟨e, he, h⟩
      · exact Nat.le_of_eq h.symm
      · rw [h]; exact Nat.le_of_lt (hextends e _ he)
    intro h r hr
    refine Nat.le_trans ?_ hmono
    rcases ha.entries hverify hr with ⟨r', hr', heq⟩ | heq
    · rw [← heq]; exact ih h r' hr'
    · exact Nat.le_of_eq heq

omit hverify in
/-- When the cache has blocks of earlier epochs than `e` only, `retain` leaves none of them exactly
when nothing is cached ahead. -/
theorem retain_stale_iff {e : EpochState} (hhole : ∀ h, pending s h ≠ some none)
    (hearlier : ∀ h r, pending s h = some (some r) → r.epoch < e.epoch) :
    (∀ h r, (pending s).retain (executed s).height h = some (some r) → ¬ r.epoch < e.epoch) ↔
      NoneAhead s := by
  constructor
  · intro hno h hlt
    cases hp : pending s h with
    | none => rfl
    | some r =>
      cases r with
      | none => exact absurd hp (hhole h)
      | some r => exact absurd (hearlier h r hp) (hno h r (Cache.retain_some.2 ⟨hlt, hp⟩))
  · intro hnone h r hr
    obtain ⟨hlt, hr⟩ := Cache.retain_some.1 hr
    rw [hnone h hlt] at hr; cases hr

/-- **When a new epoch leaves nothing stale behind.** In every run, an accepted notification
leaves no block of an earlier epoch in the cache exactly when no block above the boundary block
was cached before it. If this holds at every accepted notification of the run, then the cache has
blocks of the current epoch only and every block was executed with its own epoch's committee. -/
theorem new_epoch_leaves_nothing_stale_iff {W : Warranter E}
    (hextends : ∀ e cur, E.epochExtends e cur = true → cur.epoch < e.epoch) (hf : Fresh st)
    (hnew : new E W st v = (.ok s, w)) (ts : List Trigger)
    (hstart : ∀ pre e post, ts = pre ++ .epochNotification (.newEpoch e) :: post →
      Accepts E (.newEpoch e) (steps (doStep E) s pre) →
      e.startHeight = (executed (steps (doStep E) s pre)).height) :
    (∀ pre e post, ts = pre ++ .epochNotification (.newEpoch e) :: post →
      Accepts E (.newEpoch e) (steps (doStep E) s pre) →
      ((∀ h r, pending (steps (doStep E) s (pre ++ [.epochNotification (.newEpoch e)])) h =
          some (some r) → ¬ r.epoch < e.epoch) ↔ NoneAhead (steps (doStep E) s pre))) ∧
    ((∀ pre e post, ts = pre ++ .epochNotification (.newEpoch e) :: post →
      Accepts E (.newEpoch e) (steps (doStep E) s pre) → NoneAhead (steps (doStep E) s pre)) →
      Current (steps (doStep E) s ts) ∧ OwnCommittee (Origin.of s) (steps (doStep E) s ts)) := by
  have hclean := (new_starts hnew).1.clean hf
  have hempty : ∀ h r, pending s h ≠ some (some r) := by
    intro h r hr
    rw [hclean.cache] at hr; cases hr
  constructor
  · intro pre e post hts ha
    have hI := new_inv hf hnew (Accepted E s pre)
    have hacts := run_acts hI fun _ hb => hb
    rw [steps_snoc, pending_newEpoch ha, hstart pre e post hts ha]
    refine retain_stale_iff (fun h hp => ?_) fun h r hp => ?_
    · have hl := ((hI.star hacts).hole h hp).2
      rw [ha.1] at hl; cases hl
    · have hle := acts_notLater hverify hextends hacts (fun h r hr => absurd hr (hempty h r)) h r hp
      exact Nat.lt_of_le_of_lt hle (hextends e _ (ha.2 e rfl).2)
  · intro hahead
    refine steps_inv (I := fun _ s' => Current s' ∧ OwnCommittee (Origin.of s) s')
      ⟨fun h r hr => absurd hr (hempty h r), fun b c hmem => ?_⟩ fun pre t post hts ⟨hc, hx⟩ => ?_
    · rw [show (Origin.of s).since s = [] from List.drop_length] at hmem
      cases hmem
    · have hI : Inv (Accepted E s ts) (Origin.of s) (steps (doStep E) s pre) :=
        new_run_inv hf hnew fun _ hb => hts ▸ hb.mono
      refine step_current hverify hI (fun b hb => ⟨pre, t, post, hts, hb⟩) hc hx fun e ht ha => ?_
      exact ⟨hstart pre e post (ht ▸ hts) ha, hahead pre e post (ht ▸ hts) ha⟩

end

/-- Block 1 ends the first epoch with nothing cached. -/
theorem new_epoch_leaves_nothing_stale_small :
    let E := Small.env fun b => .ok (b.height == 1)
    let s := steps (doStep E) (Small.assembler 1)
      [.incomingBlock (.newBlock (Small.fullBlock 1 1)),
        .epochNotification (.newEpoch (Small.epochState 2 1))]
    currentEpoch s = 2 ∧ Current s ∧ OwnCommittee (Origin.of (Small.assembler 1)) s := by
  intro E s
  -- the run has one notification
  have hone : ∀ {pre : List Trigger} {e : EpochState} {post : List Trigger},
      [Trigger.incomingBlock (.newBlock (Small.fullBlock 1 1)),
        Trigger.epochNotification (.newEpoch (Small.epochState 2 1))] =
        pre ++ Trigger.epochNotification (.newEpoch e) :: post →
      pre = [Trigger.incomingBlock (.newBlock (Small.fullBlock 1 1))] ∧ e = Small.epochState 2 1 := by
    intro pre e post h
    rcases pre with _ | ⟨a, _ | ⟨b, pre⟩⟩
    · cases h
    · cases h; exact ⟨rfl, rfl⟩
    · simp at h
  refine ⟨rfl, (new_epoch_leaves_nothing_stale_iff (E := E) (v := ⟨Small.epochState 1 0⟩)
    (fun _ _ => Small.verify_epoch) (fun _ _ => Small.extends_epoch) (Small.fresh _ _ 1)
    (Small.new_assembler (fun b => .ok (b.height == 1)) 1) _ fun pre e post h _ => ?_).2
    fun pre e post h _ => ?_⟩
  · obtain ⟨rfl, rfl⟩ := hone h
    rfl
  · obtain ⟨rfl, rfl⟩ := hone h
    intro h _
    show Cache.empty.retain 1 h = none
    rw [Cache.retain_empty]
    rfl

/-- Block 2 of the first epoch is cached when block 1 ends the epoch. It is still there after the
second epoch's notification, and the second epoch's block 2 is skipped because of it. -/
theorem stale_block_survives_new_epoch :
    let E := Small.env fun b => .ok (b.height == 1)
    let pre := [.incomingBlock (.newBlock (Small.fullBlock 1 2)),
      .incomingBlock (.newBlock (Small.fullBlock 1 1))]
    let e := Small.epochState 2 1
    let s := steps (doStep E) (Small.assembler 2) (pre ++ [.epochNotification (.newEpoch e)])
    Accepts E (.newEpoch e) (steps (doStep E) (Small.assembler 2) pre) ∧
      e.startHeight = (executed (steps (doStep E) (Small.assembler 2) pre)).height ∧
      pending s 2 = some (some (.block (Small.block 1 2))) ∧ (Small.block 1 2).epoch < e.epoch ∧
      E.verify s.blockVerifier (Small.fullBlock 2 2) = .success ∧
      (Small.block 2 2).parent = (executed s).hash ∧
      s.shouldBeSkipped (Small.block 2 2) = true := by
  refine ⟨⟨rfl, fun e he => ?_⟩, by decide⟩
  cases he
  exact ⟨rfl, rfl⟩

end Consensus.Proof
