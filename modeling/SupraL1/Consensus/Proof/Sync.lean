import SupraL1.Consensus.Proof.Chain
import SupraL1.Consensus.Proof.Epoch

/-!
# Sync requests are for the missing next block

A step sends at most one request. It is the timer's retry, or the last thing the step does but for
an acknowledgement (`Closing`); what comes before it is `Quiet`: it sends nothing, and a height
that has been asked for stays so until its block has been committed. Over runs (`Tracked`) this
ties every request to the next height at the moment it is sent, to the messages observed before,
and, for all but the first request of a height, to the timer.
-/

namespace Consensus.Proof

open EState ChainStateAssembler SynchronizationContext Relation

variable {E : Env} {A : CertifiedBlock → Prop} {o : Origin} {α β : Type}
  {s s' s'' m : ChainStateAssembler}

/-- The heights of the requests posted by the events of a log, whether or not they could be
sent. -/
def posts (log : List Event) : List Nat :=
  log.filterMap fun
    | .request h => some h
    | .requestFault h _ => some h
    | _ => none

theorem posts_append (l l' : List Event) : posts (l ++ l') = posts l ++ posts l' := by
  simp [posts]

/-- A request for `h` is pending, or the block at `h` has been committed. -/
def Asked (h : Nat) (s : ChainStateAssembler) : Prop := requested s = some h ∨ h ≤ committed s

/-! ## Parts of a step that send nothing -/

structure Quiet (s s' : ChainStateAssembler) : Prop where
  log : ∃ es, s'.log = s.log ++ es ∧ posts es = []
  committed : committed s ≤ committed s'
  asked : ∀ h, Asked h s → Asked h s'
  pending : ∀ h, requested s' = some h → requested s = some h
  observed : s'.lastObservedHighestBlock = s.lastObservedHighestBlock

namespace Quiet

theorem refl (s : ChainStateAssembler) : Quiet s s :=
  ⟨⟨[], (List.append_nil _).symm, rfl⟩, Nat.le_refl _, fun _ h => h, fun _ h => h, rfl⟩

theorem trans (h1 : Quiet s s') (h2 : Quiet s' s'') : Quiet s s'' := by
  obtain ⟨es, hes, hn⟩ := h1.log
  obtain ⟨fs, hfs, hm⟩ := h2.log
  refine ⟨⟨es ++ fs, ?_, ?_⟩, Nat.le_trans h1.committed h2.committed,
    fun h ha => h2.asked h (h1.asked h ha), fun h hp => h1.pending h (h2.pending h hp),
    h2.observed.trans h1.observed⟩
  · rw [hfs, hes, List.append_assoc]
  · rw [posts_append, hn, hm]; rfl

theorem of_log (es : List Event) (hlog : s'.log = s.log ++ es) (hn : posts es = [])
    (hc : Proof.committed s ≤ Proof.committed s') (hr : requested s' = requested s)
    (ho : s'.lastObservedHighestBlock = s.lastObservedHighestBlock) : Quiet s s' := by
  refine ⟨⟨es, hlog, hn⟩, hc, fun h ha => ?_, fun h hp => hr ▸ hp, ho⟩
  rcases ha with hp | hle
  · exact .inl (hr.trans hp)
  · exact .inr (Nat.le_trans hle hc)

theorem emit (s : ChainStateAssembler) {e : Event} (he : posts [e] = []) : Quiet s (s.emit e) :=
  of_log [e] rfl he (Nat.le_refl _) rfl rfl

theorem write (s : ChainStateAssembler) (w : Write) : Quiet s (s.write w) :=
  of_log [.write w] rfl rfl (Nat.le_refl _) rfl rfl

theorem withCommitted {n : Nat} (h : Proof.committed s ≤ n) : Quiet s (withCommitted n s) :=
  of_log [] (List.append_nil _).symm rfl h rfl rfl

theorem of_rest (hs : s'.store.store = s.store.store) (hc : Proof.committed s' = Proof.committed s)
    (hr : requested s' = requested s)
    (ho : s'.lastObservedHighestBlock = s.lastObservedHighestBlock) : Quiet s s' := by
  refine of_log [] ?_ rfl (Nat.le_of_eq hc.symm) hr ho
  rw [List.append_nil]
  exact congrArg World.log hs

theorem of_cleared {p : Option Nat} (h : Quiet (setPending p s) s')
    (hp : p = none ∨ p = requested s)
    (hc : ∀ n, requested s = some n → p ≠ some n → n ≤ Proof.committed s') : Quiet s s' where
  log := h.log
  committed := h.committed
  asked n ha := by
    rcases ha with hr | hle
    · by_cases hpn : p = some n
      · exact h.asked n (.inl hpn)
      · exact .inr (hc n hr hpn)
    · exact .inr (Nat.le_trans hle h.committed)
  pending n hn := by
    have hpn : p = some n := h.pending n hn
    rcases hp with hp | hp
    · rw [hp] at hpn; cases hpn
    · rw [← hp]; exact hpn
  observed := h.observed

end Quiet

/-- `m` sends nothing, whichever way it ends. -/
def Hushes (m : AssemblerM α) : Prop := ∀ s, Quiet s (after m s)

namespace Hushes

theorem of_keeps {m : AssemblerM α} (h : ∀ s, after m s = s) : Hushes m := fun s => by
  rw [h]; exact .refl s

theorem bind {m : AssemblerM α} {k : α → AssemblerM β} (hm : Hushes m) (hk : ∀ a, Hushes (k a)) :
    Hushes (m >>= k) := by
  intro s
  have h1 := hm s
  cases hms : m s with
  | error e s' => rw [after_error hms] at h1; rw [after_error (bind_error hms k)]; exact h1
  | ok a s' => rw [after_ok hms] at h1; rw [after_bind_ok hms]; exact h1.trans (hk a s')

theorem onStore {m : StoreM α} (h : Keeps (fun st => (st.store, st.lastCommittedBlockHeight)) m) :
    Hushes (onStore m) := by
  intro s
  have h1 := Prod.mk.inj (h s.store)
  have h2 : after (Consensus.onStore m) s = { s with store := after m s.store } := by
    unfold after Consensus.onStore onPart
    cases m s.store <;> rfl
  rw [h2]
  exact .of_rest h1.1 h1.2 rfl rfl

theorem write (err : StoreError → BlockStoreError) (w : Write) :
    Hushes (Consensus.onStore (BlockStore.write E.toStoreEnv err w)) := by
  intro s
  have h := onStore_write E.toStoreEnv err w s
  cases hf : E.fails (.write w) s.log with
  | some e => rw [hf] at h; rw [after_error h]; exact .emit s rfl
  | none => rw [hf] at h; rw [after_ok h]; exact .write s w

end Hushes

theorem persist_hushes (fb : FullBlock) : Hushes (onStore (BlockStore.persist E.toStoreEnv fb)) := by
  have hbatches : ∀ ps, Hushes (onStore (BlockStore.persistBatches E.toStoreEnv ps)) := by
    intro ps
    induction ps with
    | nil => exact .of_keeps fun _ => rfl
    | cons p ps ih =>
      unfold BlockStore.persistBatches
      rw [onStore_bind]
      exact .bind (.write _ _) fun _ => ih
  unfold BlockStore.persist
  rw [onStore_bind]
  exact .bind (hbatches _) fun _ => .write _ _

theorem doesFollowChain_hushes (b : CertifiedBlock) : Hushes (doesFollowChain b) := by
  refine .of_keeps (Keeps.read (f := id) fun _ => ?_)
  exact .ite (.ite (.ret true) (.fail _)) (.ret false)

theorem trySend_hushes (b : CertifiedBlock) : Hushes (trySend b) := by
  intro s
  unfold trySend
  rw [after_get_bind]
  split
  · exact .of_rest rfl rfl rfl rfl
  · exact .refl s

theorem cache_hushes (b : CertifiedBlock) : Hushes (onStore (BlockStore.cache b)) := by
  refine .onStore (.bind (.read fun st => .ite (.fail _) ?_) fun _ => .act fun _ => rfl)
  split
  · exact .fail _
  · exact .ret ()

theorem takeNext_hushes (n : Nat) :
    Hushes (onStore (BlockStore.takeNextReadyBlockByHeight E.toStoreEnv n)) := by
  refine .onStore fun st => ?_
  unfold after
  rw [BlockStore.takeNextReadyBlockByHeight_eq]
  cases st.pendingExecution n with
  | none => rfl
  | some r =>
    rcases r with _ | (b | i | i)
    · rfl
    · rfl
    · dsimp only
      cases E.fails (.readCertifiedBlock i.height) st.store.log with
      | some e => rfl
      | none =>
        dsimp only
        cases st.store.chain.certifiedBlock i.height with
        | none => rfl
        | some b =>
          dsimp only
          cases E.fails (.hydrate b) st.store.log <;> rfl
    · rfl

/-- The block is committed before it is executed, also where its execution fails. -/
theorem executeBlock_hushes {b : CertifiedBlock} (hc : committed s ≤ b.height) :
    Quiet s (after (executeBlock E b) s) ∧ b.height ≤ committed (after (executeBlock E b) s) := by
  have hexec := executeBlock_eq E b s
  have hmove : Quiet s (withCommitted b.height s) := .withCommitted hc
  cases hf : E.fails (.write (.committedBlock b)) s.log with
  | some e =>
    rw [hf] at hexec
    rw [after_error hexec]
    exact ⟨hmove.trans (.emit _ rfl), Nat.le_refl _⟩
  | none =>
    rw [hf] at hexec
    have hret : Quiet s (returned E b s) ∧ b.height ≤ committed (returned E b s) := by
      have hhand := (hmove.trans (.write _ (.committedBlock b))).trans
        (.emit (commitTo b s) (e := .execute b s.blockVerifier.current.committee) rfl)
      unfold returned
      cases (answer E b s).record with
      | none => exact ⟨hhand, Nat.le_refl _⟩
      | some r => exact ⟨hhand.trans (.write _ _), Nat.le_refl _⟩
    cases hres : (answer E b s).result with
    | error e =>
      rw [hres] at hexec
      rw [after_error hexec]
      exact hret
    | ok flag =>
      rw [hres] at hexec
      rw [after_ok hexec]
      refine ⟨(hret.1.trans (.emit _ (e := .executed b flag) rfl)).trans ?_, hret.2⟩
      exact .of_rest rfl rfl rfl rfl

/-! ## The end of a step -/

/-- What may follow the quiet part of a step: nothing, or the request for the next block, noted
and then posted. -/
inductive Closing (m : ChainStateAssembler) : ChainStateAssembler → Prop
  | none : Closing m m
  | sent (hs : Skipped m) (hi : requested m = none) :
      Closing m ((setPending (some m.nextBlockHeight) m).emit (.request m.nextBlockHeight))
  | failed (hs : Skipped m) (hi : requested m = none) (e : RpcClientError) :
      Closing m ((setPending (some m.nextBlockHeight) m).emit (.requestFault m.nextBlockHeight e))

/-- From a state with the invariant and `P`, `m` has a quiet part with `T`, and then closes. -/
def Closes (A : CertifiedBlock → Prop) (o : Origin) (P : ChainStateAssembler → Prop)
    (m : AssemblerM α) (T : ChainStateAssembler → ChainStateAssembler → Prop) : Prop :=
  ∀ s, Inv A o s → P s → ∃ s', Quiet s s' ∧ T s s' ∧ Closing s' (after m s)

theorem tryToSyncSkippedBlocks_closing (s : ChainStateAssembler) :
    Closing s (after (tryToSyncSkippedBlocks E) s) := by
  by_cases hs : Skipped s
  · have hpos := tryToSyncSkippedBlocks_pos (E := E) hs
    cases hr : requested s with
    | none =>
      rw [tryPostSyncRequest_none hr] at hpos
      cases hf : E.sendFails s.nextBlockHeight s.log with
      | some e => rw [hf] at hpos; rw [after_error hpos]; exact .failed hs hr e
      | none => rw [hf] at hpos; rw [after_ok hpos]; exact .sent hs hr
    | some n =>
      rw [tryPostSyncRequest_some hr] at hpos
      split at hpos
      · rw [after_ok hpos]; exact .none
      · rw [after_error hpos]; exact .none
  · rw [after_ok (tryToSyncSkippedBlocks_neg hs)]; exact .none

namespace Closes

variable {P : ChainStateAssembler → Prop} {T : ChainStateAssembler → ChainStateAssembler → Prop}
  {Q : α → ChainStateAssembler → Prop}

theorem of_hushes {m : AssemblerM α} (h : Hushes m) : Closes A o P m fun _ _ => True :=
  fun s _ _ => ⟨_, h s, trivial, .none⟩

theorem sync : Closes A o P (tryToSyncSkippedBlocks E) fun _ _ => True :=
  fun s _ _ => ⟨s, .refl s, trivial, tryToSyncSkippedBlocks_closing s⟩

theorem bind {m : AssemblerM α} {k : α → AssemblerM β} (hq : Hushes m) (hm : Sound E A o P m Q)
    (hk : ∀ a, Closes A o (Q a) (k a) fun _ _ => True) : Closes A o P (m >>= k) fun _ _ => True := by
  intro s hI hP
  have h1 := hq s
  have h2 := hm s ⟨hI, hP⟩
  cases hms : m s with
  | error e s' =>
    rw [after_error hms] at h1
    rw [after_error (bind_error hms k)]
    exact ⟨s', h1, trivial, .none⟩
  | ok a s' =>
    rw [after_ok hms] at h1
    rw [hms] at h2
    rw [after_bind_ok hms]
    obtain ⟨s'', h3, -, hc⟩ := hk a s' h2.2.1 h2.2.2
    exact ⟨s'', h1.trans h3, trivial, hc⟩

/-- A quiet part before the state `s'` joins the quiet part of what runs from there. -/
theorem of_quiet {s s' : ChainStateAssembler} {m : AssemblerM α} (hq : Quiet s s')
    (hI : Inv A o s') (hm : Closes A o (fun x => x = s') m fun _ _ => True) :
    ∃ s'', Quiet s s'' ∧ Quiet s' s'' ∧ Closing s'' (after m s') := by
  obtain ⟨s'', h, -, hc⟩ := hm s' hI rfl
  exact ⟨s'', hq.trans h, h, hc⟩

end Closes

theorem tryExecuteBlockChain_closes {b : CertifiedBlock} :
    Closes A o (fun s => Ready E A s b ∧ committed s < b.height) (tryExecuteBlockChain E b)
      fun _ s' => b.height ≤ committed s' := by
  intro s hI hr
  obtain ⟨hq, hc⟩ := executeBlock_hushes (E := E) (Nat.le_of_lt hr.2)
  have hsound := executeBlock_sound s ⟨hI, hr⟩
  unfold tryExecuteBlockChain
  cases hms : executeBlock E b s with
  | error e s' =>
    rw [after_error hms] at hq hc
    rw [after_error (bind_error hms _)]
    exact ⟨s', hq, hc, .none⟩
  | ok _ s' =>
    rw [after_ok hms] at hq hc
    rw [hms] at hsound
    rw [after_bind_ok hms, after_get_bind]
    refine (Closes.of_quiet hq hsound.2.1 ?_).imp fun s'' h =>
      ⟨h.1, Nat.le_trans hc h.2.1.committed, h.2.2⟩
    cases hl : s'.isCurrentEpochOver with
    | true => exact .of_hushes (.write _ _)
    | false =>
      refine .bind (takeNext_hushes _) ((takeNext_sound (b := b)).conseq (fun s'' _ hs => ?_)
        fun _ _ h => h) fun r => ?_
      · subst hs; exact ⟨hsound.2.2, hl, rfl⟩
      · cases r with
        | some b' => exact .of_hushes (trySend_hushes b')
        | none => exact .sync

/-- Clearing the request of a block and executing it is quiet: the block is committed. -/
theorem clear_execute_closes {fb : FullBlock} :
    Closes A o (fun s => Persisted E A fb s ∧ Extends (executed s) fb.base)
      (clear fb.base.height >>= fun _ => tryExecuteBlockChain E fb.base) fun _ _ => True := by
  intro s hI ⟨h, hx⟩
  obtain ⟨p, hne, hclear, hacts⟩ := clear_acts (E := E) (A := A) (o := o) fb.base.height s
  have hI' := hI.star hacts
  have hidle : requested (setPending p s) = none :=
    hI'.idle fun hp => hne (hp.trans (congrArg some hx.1.symm))
  rw [after_bind_ok hclear]
  obtain ⟨s', hq, hc, hclose⟩ := tryExecuteBlockChain_closes (E := E) (b := fb.base) _ hI'
    ⟨.of_persisted hI' { h with } hx hidle, h.uncommitted⟩
  refine ⟨s', hq.of_cleared (.inl hidle) fun n hn _ => ?_, trivial, hclose⟩
  have hnext : n = fb.base.height := (hI.request n hn).1.trans hx.1.symm
  rw [hnext]; exact hc

theorem clear_hushes {n : Nat} (hn : requested s ≠ some n) : clear n s = .ok () s := by
  unfold clear
  rw [modify_apply, if_neg hn]

theorem handleFullBlock_closes {fb : FullBlock} (hA : A fb.base) :
    Closes A o (fun s => Admits E s fb) (handleFullBlock E fb) fun _ _ => True := by
  intro s hI ha
  unfold handleFullBlock
  rw [after_get_bind, if_neg (Nat.not_le.2 ha.above)]
  refine Closes.bind (persist_hushes fb) (persist_sound hA) (fun _ => ?_) s hI ha
  refine .bind (E := E) (doesFollowChain_hushes _) doesFollowChain_sound fun follows => ?_
  cases follows with
  | true => exact clear_execute_closes
  | false =>
    rintro s' hI' ⟨h, hne⟩
    have hclear : clear fb.base.height s' = .ok () s' :=
      clear_hushes fun hr => hne (hI'.request _ hr).1
    rw [after_bind_ok hclear]
    exact Closes.bind (E := E) (cache_hushes _) cache_sound (fun _ => .sync) s' hI' ⟨h, hne⟩

theorem handleScheduledBlock_closes {b : CertifiedBlock} :
    Closes A o (Scheduled A b) (handleScheduledBlock E b) fun _ _ => True := by
  intro s hI h
  -- the scheduled block has an entry at the next height, so no request is pending
  have hidle : requested s = none := hI.idle fun hr => by
    have hnone := (hI.request _ hr).2.1
    rw [← h.next, h.entry] at hnone
    cases hnone
  have hclear : clear b.height s = .ok () s := clear_hushes (by rw [hidle]; nofun)
  unfold handleScheduledBlock
  rw [after_bind_ok hclear, after_get_bind, if_neg (by rw [h.live]; exact Bool.false_ne_true)]
  refine Closes.bind (E := E) (P := fun s' => s' = s) (doesFollowChain_hushes b)
    doesFollowChain_sound (fun follows => ?_) s hI rfl
  cases follows with
  | true =>
    rintro s' hI' ⟨rfl, hx⟩
    obtain ⟨s'', hq, -, hclose⟩ :=
      tryExecuteBlockChain_closes (E := E) (b := b) s' hI' ⟨h.ready hx hidle, h.uncommitted⟩
    exact ⟨s'', hq, trivial, hclose⟩
  | false =>
    rintro s' _ ⟨rfl, hne⟩
    exact absurd h.next hne

theorem receiveScheduled_closes : Closes A o (fun _ => True) (receiveScheduled E) fun _ _ => True := by
  intro s hI _
  unfold receiveScheduled
  rw [after_get_bind]
  cases hq : s.readyToExecute with
  | nil => exact ⟨s, .refl s, trivial, .none⟩
  | cons b rest =>
    obtain ⟨hpop, hsch⟩ := hI.received (E := E) hq
    obtain ⟨s', h1, -, hclose⟩ := handleScheduledBlock_closes (E := E) _ (hpop.inv hI) hsch
    have hpopped : Quiet s (withReady rest s) := .of_rest rfl rfl rfl rfl
    exact ⟨s', hpopped.trans h1, trivial, hclose⟩

/-- The step first notes the height of its message. -/
def noted : Trigger → ChainStateAssembler → ChainStateAssembler
  | .incomingBlock msg, s => observeBlock msg.fullBlock.base s
  | _, s => s

theorem noted_eq (t : Trigger) (s : ChainStateAssembler) :
    ∃ i, noted t s = { s with lastObservedHighestBlock := i } := by
  cases t with
  | incomingBlock msg =>
    show ∃ i, observeBlock msg.fullBlock.base s = _
    unfold observeBlock
    split
    · exact ⟨_, rfl⟩
    · exact ⟨s.lastObservedHighestBlock, rfl⟩
  | _ => exact ⟨s.lastObservedHighestBlock, rfl⟩

theorem noted_inv (t : Trigger) (hI : Inv A o s) : Inv A o (noted t s) := by
  obtain ⟨i, hi⟩ := noted_eq t s
  rw [hi]
  exact { hI with }

theorem noted_log (t : Trigger) (s : ChainStateAssembler) : (noted t s).log = s.log := by
  obtain ⟨i, hi⟩ := noted_eq t s
  rw [hi]
  rfl

theorem noted_asked (t : Trigger) {h : Nat} (ha : Asked h s) : Asked h (noted t s) := by
  obtain ⟨i, hi⟩ := noted_eq t s
  rw [hi]
  exact ha

theorem handleIncomingBlock_closes {msg : RpcBlockData} (hI : Inv A o s)
    (hA : E.verify s.blockVerifier msg.fullBlock = .success → A msg.fullBlock.base) :
    ∃ s', Quiet (noted (.incomingBlock msg) s) s' ∧
      Closing s' (after (handleIncomingBlock E msg) s) := by
  have hI' : Inv A o (observeBlock msg.fullBlock.base s) := noted_inv (.incomingBlock msg) hI
  have hv' : (observeBlock msg.fullBlock.base s).blockVerifier = s.blockVerifier := by
    obtain ⟨i, hi⟩ := noted_eq (.incomingBlock msg) s
    exact (congrArg ChainStateAssembler.blockVerifier hi :)
  show ∃ s', Quiet (observeBlock msg.fullBlock.base s) s' ∧ _
  generalize hn : observeBlock msg.fullBlock.base s = s₁ at hI' hv' ⊢
  unfold handleIncomingBlock
  have hobs : (modify (observeBlock msg.fullBlock.base) : AssemblerM Unit) s = .ok () s₁ := by
    rw [modify_apply, hn]
  rw [after_bind_ok hobs, after_get_bind]
  split
  · exact ⟨s₁, .refl s₁, .none⟩
  · rename_i hskip
    simp only [shouldBeSkipped, Bool.or_eq_true, not_or, Bool.not_eq_true, decide_eq_true_eq,
      Nat.not_le] at hskip
    obtain ⟨⟨hl, habove⟩, hentry⟩ := hskip
    obtain ⟨hc, hp⟩ := BlockStore.hasEntry_false.1 hentry
    cases hv : E.verify s₁.blockVerifier msg.fullBlock with
    | success =>
      obtain ⟨s', hq, -, hclose⟩ :=
        handleFullBlock_closes (hA (hv' ▸ hv)) s₁ hI' ⟨hv, hl, habove, hc, hp⟩
      exact ⟨s', hq, hclose⟩
    | oldEpochBlock => exact ⟨s₁, .refl s₁, .none⟩
    | futureEpochBlock => exact ⟨s₁, .refl s₁, tryToSyncSkippedBlocks_closing s₁⟩
    | invalidBlock e => exact ⟨s₁, .refl s₁, .none⟩

/-- **Every step but the timer's is quiet up to a closing request**, which an acknowledgement may
follow. -/
theorem doStep_closes {t : Trigger} (ht : t ≠ .syncTimer) (hI : Inv A o s)
    (hA : ∀ b, Delivers E s.blockVerifier t b → A b) :
    ∃ m f, Quiet (noted t s) m ∧ Closing m f ∧
      (after (doStep E t) s = f ∨ after (doStep E t) s = f.emit .ack) := by
  have hstay : after (doStep E t) s = s → noted t s = s → ∃ m f, Quiet (noted t s) m ∧
      Closing m f ∧ (after (doStep E t) s = f ∨ after (doStep E t) s = f.emit .ack) :=
    fun h1 h2 => ⟨s, s, by rw [h2]; exact .refl s, .none, .inl h1⟩
  cases t with
  | epochNotification n =>
    by_cases h : Accepts E n s
    · cases n with
      | endEpoch => exact ⟨s, s, .refl s, .none, .inr (after_accept h)⟩
      | newEpoch e =>
        refine ⟨enterEpoch e s, _, ?_, tryToSyncSkippedBlocks_closing _, .inr (after_newEpoch h)⟩
        exact .of_rest rfl rfl rfl rfl
    · exact hstay (after_reject h) rfl
  | epochManagerGone => exact hstay rfl rfl
  | shutdown => exact hstay rfl rfl
  | incomingBlock msg =>
    obtain ⟨m, hq, hc⟩ := handleIncomingBlock_closes hI fun hv => hA _ ⟨msg, rfl, rfl, hv⟩
    exact ⟨m, _, hq, hc, .inl (after_bind_pure _ _ _)⟩
  | blocksChannelClosed => exact hstay rfl rfl
  | readyToExecute =>
    obtain ⟨m, hq, -, hc⟩ := receiveScheduled_closes (E := E) s hI trivial
    exact ⟨m, _, hq, hc, .inl (after_bind_pure _ _ _)⟩
  | syncTimer => exact absurd rfl ht

theorem after_syncTimer (s : ChainStateAssembler) :
    (requested s = none ∧ after (doStep E .syncTimer) s = s) ∨
      ∃ h, requested s = some h ∧ (after (doStep E .syncTimer) s = s.emit (.request h) ∨
        ∃ e, after (doStep E .syncTimer) s = s.emit (.requestFault h e)) := by
  unfold doStep
  rw [after_bind_pure]
  unfold retry
  rw [after_get_bind]
  cases hr : s.synchronizer.pendingSyncRequest with
  | none => exact .inl ⟨hr, rfl⟩
  | some h =>
    refine .inr ⟨h, hr, ?_⟩
    cases hf : E.sendFails h s.log with
    | none =>
      have hpost : postSyncRequest E h s = .ok () (s.emit (.request h)) := by
        unfold postSyncRequest; rw [hf]
      exact .inl (after_ok hpost)
    | some e =>
      have hpost : postSyncRequest E h s =
          .error (.rpcInternalError e) (s.emit (.requestFault h e)) := by
        unfold postSyncRequest; rw [hf]
      exact .inr ⟨e, after_error hpost⟩

/-! ## Runs -/

/-- What is known of the requests after the triggers `ts`; the log was `mark` long at the start. -/
structure Tracked (mark : Nat) (ts : List Trigger) (s : ChainStateAssembler) : Prop where
  reached : mark ≤ s.log.length
  /-- The highest observed height is that of a message. -/
  seen : ∀ i, s.lastObservedHighestBlock = some i →
    ∃ msg, .incomingBlock msg ∈ ts ∧ msg.fullBlock.base.height = i.height
  wanted : ∀ h, requested s = some h → ∃ i, s.lastObservedHighestBlock = some i ∧ h ≤ i.height
  asked : ∀ h ∈ posts (s.log.drop mark), Asked h s

/-- The step from `s` on `t` posts `h` in the state `m`, as its last event but for an
acknowledgement. -/
def PostsIn (E : Env) (t : Trigger) (s m : ChainStateAssembler) (h : Nat) : Prop :=
  ∃ e, (e = .request h ∨ ∃ x, e = .requestFault h x) ∧
    (after (doStep E t) s = m.emit e ∨ after (doStep E t) s = (m.emit e).emit .ack)

variable {mark : Nat} {ts : List Trigger}

theorem Tracked.noted (h : Tracked mark ts s) (t : Trigger) :
    Tracked mark (ts ++ [t]) (noted t s) := by
  have hsame : Tracked mark (ts ++ [t]) s :=
    { h with seen := fun i hi => (h.seen i hi).imp fun _ hm => ⟨List.mem_append_left _ hm.1, hm.2⟩ }
  cases t with
  | incomingBlock msg =>
    show Tracked mark _ (observeBlock msg.fullBlock.base s)
    unfold observeBlock
    split
    · rename_i hlt
      refine { hsame with seen := fun i hi => ?_, wanted := fun n hn => ?_ }
      · cases hi
        exact ⟨msg, by simp, rfl⟩
      · -- the height observed only grows
        obtain ⟨i, hi, hle⟩ := h.wanted n hn
        rw [hi] at hlt
        exact ⟨_, rfl, Nat.le_trans hle (Nat.le_of_lt hlt)⟩
    · exact hsame
  | _ => exact hsame

theorem Tracked.quiet (h : Tracked mark ts s) (hq : Quiet s s') : Tracked mark ts s' := by
  obtain ⟨es, hes, hn⟩ := hq.log
  refine ⟨?_, ?_, fun n hr => ?_, fun n hmem => hq.asked n (h.asked n ?_)⟩
  · rw [hes, List.length_append]; exact Nat.le_trans h.reached (Nat.le_add_right _ _)
  · rw [hq.observed]; exact h.seen
  · rw [hq.observed]; exact h.wanted n (hq.pending n hr)
  · rw [hes, List.drop_append_of_le_length h.reached, posts_append, hn, List.append_nil] at hmem
    exact hmem

theorem Tracked.posted (h : Tracked mark ts s) {n : Nat} (hr : requested s = some n) {e : Event}
    (he : ∀ k ∈ posts [e], k = n) : Tracked mark ts (s.emit e) := by
  have hlog : (s.emit e).log = s.log ++ [e] := rfl
  refine ⟨?_, h.seen, h.wanted, fun k hk => ?_⟩
  · rw [hlog, List.length_append]; exact Nat.le_trans h.reached (Nat.le_add_right _ _)
  · rw [hlog, List.drop_append_of_le_length h.reached, posts_append, List.mem_append] at hk
    rcases hk with hk | hk
    · exact h.asked k hk
    · rw [he k hk]; exact .inl hr

theorem Tracked.closing (h : Tracked mark ts s) (hc : Closing s s') : Tracked mark ts s' := by
  have hnote : ∀ (hs : Skipped s) (hi : requested s = none),
      Tracked mark ts (setPending (some s.nextBlockHeight) s) := fun hs hi =>
    { h with
      wanted := fun n hn => by
        cases hn
        obtain ⟨i, ho, hle, -⟩ := hs
        exact ⟨i, ho, hle⟩
      asked := fun n hn => (h.asked n hn).elim (idle_elim hi) .inr }
  cases hc with
  | none => exact h
  | sent hs hi => exact (hnote hs hi).posted rfl (by simp [posts])
  | failed hs hi e => exact (hnote hs hi).posted rfl (by simp [posts])

/-- **A step keeps track of the requests.** -/
theorem Tracked.step (h : Tracked mark ts s) {t : Trigger} (hI : Inv A o s)
    (hA : ∀ b, Delivers E s.blockVerifier t b → A b) :
    Tracked mark (ts ++ [t]) (after (doStep E t) s) := by
  by_cases ht : t = .syncTimer
  · subst ht
    have h1 : Tracked mark (ts ++ [Trigger.syncTimer]) s := h.noted .syncTimer
    rcases after_syncTimer (E := E) s with ⟨-, heq⟩ | ⟨n, hr, heq | ⟨e, heq⟩⟩
    · rw [heq]; exact h1
    · rw [heq]; exact h1.posted hr (by simp [posts])
    · rw [heq]; exact h1.posted hr (by simp [posts])
  · obtain ⟨m, f, hq, hc, heq⟩ := doStep_closes ht hI hA
    have h1 := ((h.noted t).quiet hq).closing hc
    rcases heq with heq | heq
    · rw [heq]; exact h1
    · rw [heq]; exact h1.quiet (.emit f rfl)

theorem Asked.not_skipped {h : Nat} (ha : Asked h m) (hi : requested m = none) (hs : Skipped m) :
    h ≠ m.nextBlockHeight := by
  rintro rfl
  obtain ⟨i, -, -, hn⟩ := hs
  rcases ha with hr | hle
  · exact idle_elim hi hr
  · exact absurd (BlockStore.hasEntry_false.1 hn).1 (Nat.not_lt.2 hle)

theorem doStep_posts {t : Trigger} (hI : Inv A o s) (hA : ∀ b, Delivers E s.blockVerifier t b → A b) :
    ∃ events, (after (doStep E t) s).log = s.log ++ events ∧
      (posts events = [] ∨ ∃ h m, posts events = [h] ∧ PostsIn E t s m h ∧
        requested m = some h ∧ (Asked h s → t = .syncTimer)) := by
  by_cases ht : t = .syncTimer
  · subst ht
    rcases after_syncTimer (E := E) s with ⟨-, heq⟩ | ⟨h, hr, heq | ⟨x, heq⟩⟩
    · exact ⟨[], by rw [heq, List.append_nil], .inl rfl⟩
    · exact ⟨[.request h], by rw [heq]; rfl, .inr ⟨h, s, rfl, ⟨_, .inl rfl, .inl heq⟩, hr,
        fun _ => rfl⟩⟩
    · exact ⟨[.requestFault h x], by rw [heq]; rfl, .inr ⟨h, s, rfl, ⟨_, .inr ⟨x, rfl⟩, .inl heq⟩, hr,
        fun _ => rfl⟩⟩
  · obtain ⟨m, f, hq, hc, heq⟩ := doStep_closes ht hI hA
    obtain ⟨es, hes, hn⟩ := hq.log
    rw [noted_log] at hes
    -- an acknowledgement posts nothing
    obtain ⟨acks, hacks, hlog⟩ : ∃ acks, posts acks = [] ∧
        (after (doStep E t) s).log = f.log ++ acks := by
      rcases heq with heq | heq
      · exact ⟨[], rfl, by rw [heq, List.append_nil]⟩
      · exact ⟨[.ack], rfl, by rw [heq]; rfl⟩
    have hagain : requested m = none → Skipped m → Asked m.nextBlockHeight s → t = .syncTimer :=
      fun hi hs ha => absurd rfl ((hq.asked _ (noted_asked t ha)).not_skipped hi hs)
    have hevent : ∀ e, f.log = m.log ++ [e] →
        (after (doStep E t) s).log = s.log ++ (es ++ [e] ++ acks) := fun e hf => by
      rw [hlog, hf, hes]; simp only [List.append_assoc]
    have hposts : ∀ e, posts (es ++ [e] ++ acks) = posts [e] := fun e => by
      rw [posts_append, posts_append, hn, hacks, List.append_nil]; rfl
    cases hc with
    | none =>
      exact ⟨es ++ acks, by rw [hlog, hes, List.append_assoc], .inl (by
        rw [posts_append, hn, hacks]; rfl)⟩
    | sent hs hi =>
      exact ⟨_, hevent _ rfl, .inr ⟨m.nextBlockHeight, setPending (some m.nextBlockHeight) m,
        hposts _, ⟨_, .inl rfl, heq⟩, rfl, hagain hi hs⟩⟩
    | failed hs hi x =>
      exact ⟨_, hevent _ rfl, .inr ⟨m.nextBlockHeight, setPending (some m.nextBlockHeight) m,
        hposts _, ⟨_, .inr ⟨x, rfl⟩, heq⟩, rfl, hagain hi hs⟩⟩

theorem PostsIn.fields {t : Trigger} {h : Nat} (hp : PostsIn E t s m h) :
    ∃ x, after (doStep E t) s = { m with store := { m.store with store := x } } := by
  obtain ⟨e, -, heq | heq⟩ := hp
  · exact ⟨_, heq⟩
  · exact ⟨_, heq⟩

theorem Starts.tracked {st : BlockStore} {v : EpochStates} (h : Starts E st v s) (hf : Fresh st) :
    Tracked s.log.length [] s := by
  have hret : ∀ c x, (returned E c (created x st v)).lastObservedHighestBlock = none := by
    intro c x
    unfold returned
    cases (answer E c (created x st v)).record <;> rfl
  have hobs : s.lastObservedHighestBlock = none := by
    cases h with
    | consistent _ _ => rfl
    | @restored c x flag _ _ _ _ => exact hret c x
    | @duplicate c x e _ _ _ _ _ => exact hret c x
  refine ⟨Nat.le_refl _, fun i hi => ?_, fun n hr => idle_elim (h.clean hf).idle hr, fun n hmem => ?_⟩
  · rw [hobs] at hi; cases hi
  · rw [List.drop_length] at hmem; cases hmem

/-- **Sync requests are for the missing next block.** In every run from a successful creation, a
step posts at most one request, which it then sends or fails to send. It is for the height after
the last executed block at that moment, the store has no entry at that height, committed or
pending, and a message with at least that height has been observed; where a request for the height
has been posted before in the run, this one is a retry of the timer. -/
theorem sync_requests_are_for_missing_next_block {st : BlockStore} {v : EpochStates} {w : World}
    {W : Warranter E} (hf : Fresh st) (hnew : new E W st v = (.ok s, w)) (ts : List Trigger) :
    ∀ pre t post, ts = pre ++ t :: post →
      ∃ past events, (steps (doStep E) s pre).log = s.log ++ past ∧
        (steps (doStep E) s (pre ++ [t])).log = s.log ++ past ++ events ∧
        (posts events = [] ∨ ∃ h m, posts events = [h] ∧
          PostsIn E t (steps (doStep E) s pre) m h ∧
          h = m.lastExecutedBlockInfo.height + 1 ∧ m.store.hasEntry h = false ∧
          (∃ msg, .incomingBlock msg ∈ pre ++ [t] ∧ h ≤ msg.fullBlock.base.height) ∧
          (h ∈ posts past → t = .syncTimer)) := by
  rintro pre t post rfl
  have hinv : ∀ us, Inv (fun _ => True) (Origin.of s) (steps (doStep E) s us) := fun us =>
    new_run_inv hf hnew fun _ _ => trivial
  have htracked : ∀ us, Tracked s.log.length us (steps (doStep E) s us) := fun us =>
    steps_inv (I := fun us s' => Tracked s.log.length us s') ((new_starts hnew).1.tracked hf)
      fun pre t _ _ htr => htr.step (hinv pre) fun _ _ => trivial
  obtain ⟨past, hpast⟩ : s.log <+: (steps (doStep E) s pre).log :=
    log_prefix_of_acts (run_acts (hinv []) fun _ _ => trivial)
  obtain ⟨events, hevents, hposts⟩ := doStep_posts (E := E) (t := t) (hinv pre) fun _ _ => trivial
  refine ⟨past, events, hpast.symm, by rw [steps_snoc, hevents, hpast], ?_⟩
  refine hposts.imp_right fun ⟨h, m, hone, hin, hr, hagain⟩ => ⟨h, m, hone, hin, ?_⟩
  obtain ⟨x, hx⟩ := hin.fields
  have hI := hinv (pre ++ [t])
  have htr := htracked (pre ++ [t])
  rw [steps_snoc, hx] at hI htr
  obtain ⟨hnext, hfree, hc, -⟩ := hI.request h hr
  obtain ⟨i, hi, hle⟩ := htr.wanted h hr
  obtain ⟨msg, hmsg, hheight⟩ := htr.seen i hi
  refine ⟨hnext, BlockStore.hasEntry_false.2 ⟨hc, hfree⟩, ⟨msg, hmsg, hheight ▸ hle⟩, fun hmem => ?_⟩
  refine hagain ((htracked pre).asked h ?_)
  rw [← hpast, List.drop_left]
  exact hmem

/-- Block 2 arrives first, block 1 is asked for and the timer asks for it again. -/
theorem sync_requests_are_for_missing_next_block_small :
    let E := Small.env fun _ => .ok false
    let ts : List Trigger := [.incomingBlock (.newBlock (Small.fullBlock 1 2)), .syncTimer]
    posts (steps (doStep E) (Small.assembler 1) ts).log = [1, 1] ∧
      ∃ past events, (steps (doStep E) (Small.assembler 1) (ts.take 1)).log = past ∧
        (steps (doStep E) (Small.assembler 1) ts).log = past ++ events ∧
        (posts events = [] ∨ ∃ (h : Nat) (m : ChainStateAssembler), posts events = [h] ∧
          h = m.lastExecutedBlockInfo.height + 1 ∧ m.store.hasEntry h = false) := by
  intro E ts
  refine ⟨by decide, ?_⟩
  obtain ⟨past, events, h1, h2, h3⟩ := sync_requests_are_for_missing_next_block
    (Small.fresh _ _ 1) (Small.new_assembler (fun _ => .ok false) 1) ts (ts.take 1) .syncTimer [] rfl
  refine ⟨past, events, h1, h2, h3.imp_right fun ⟨h, m, hone, _, hnext, hfree, _⟩ => ?_⟩
  exact ⟨h, m, hone, hnext, hfree⟩

end Consensus.Proof
