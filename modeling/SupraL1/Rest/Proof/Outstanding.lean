import SupraL1.Rest.Proof.Minting

/-!
# One transaction of a minter at a time

A minter's transaction is built with the sequence number that the Move store has for the minter, so two
of them that could be executed at the same time would have the same number. The faucet avoids this: a
minter is used by one task at a time, and a task gives it back when the archive has reported on its
transaction, or when it has waited for longer than the transaction is valid.

`outstanding` are the transactions that were acknowledged and not reported on since. A task that is about
to issue a transaction holds a `Quiet` account, none of whose outstanding transactions is valid any more,
and no other task or delegate has it (`tokens`).
-/

namespace Rest.Minting.Proof

open Consensus (Hash)
open Delegates (MinterAccount DelegateState Call)
open Move Pool

variable {E : Env} {input : Input} {s s' : Shared} {p p' : Process} {new : List Process}
  {log : List Event} {tx : RawTransaction} {m account : AccountAddress}

/-! ## Outstanding transactions -/

def settle (txs : List RawTransaction) : Event → List RawTransaction
  | .acknowledged tx => txs ++ [tx]
  | .reported tx _ => txs.filter fun tx' => !decide (tx' = tx)
  | .generated _ | .issued _ => txs

/-- The transactions that were acknowledged and not reported on since. -/
def outstanding (log : List Event) : List RawTransaction := log.foldl settle []

theorem outstanding_snoc (log : List Event) (e : Event) :
    outstanding (log ++ [e]) = settle (outstanding log) e := by
  rw [outstanding, List.foldl_append]
  rfl

theorem mem_settle {txs : List RawTransaction} {e : Event} (h : tx ∈ settle txs e) :
    tx ∈ txs ∨ e = .acknowledged tx := by
  cases e with
  | acknowledged tx' =>
    rcases List.mem_append.1 h with h | h
    · exact .inl h
    · rw [List.mem_singleton.1 h]
      exact .inr rfl
  | reported tx' result => exact .inl (List.mem_of_mem_filter h)
  | generated | issued => exact .inl h

/-- The transaction has not been valid for as long as it was valid before. -/
def Stale (clock : Nat) (tx : RawTransaction) : Prop :=
  tx.expirationTimestampSecs + faucetTransactionExpirySeconds ≤ clock / second

def Quiet (s : Shared) (account : AccountAddress) : Prop :=
  ∀ tx ∈ outstanding s.log, tx.sender = account → Stale s.clock tx

def Awaits (s : Shared) (account : AccountAddress) (tx : RawTransaction) : Prop :=
  ∀ tx' ∈ outstanding s.log, tx'.sender = account → tx' = tx ∨ Stale s.clock tx'

/-- The account has no new outstanding transactions. -/
structure Stable (s s' : Shared) (account : AccountAddress) : Prop where
  clock : s.clock ≤ s'.clock
  outstanding : ∀ tx ∈ outstanding s'.log, tx.sender = account → tx ∈ outstanding s.log

theorem Stale.mono {clock clock' : Nat} (h : Stale clock tx) (hle : clock ≤ clock') : Stale clock' tx :=
  Nat.le_trans h (Nat.div_le_div_right hle)

namespace Stable

theorem refl (s : Shared) (account : AccountAddress) : Stable s s account :=
  ⟨Nat.le_refl _, fun _ htx _ => htx⟩

theorem tick (s : Shared) (elapsed : Nat) (account : AccountAddress) :
    Stable s { s with clock := s.clock + elapsed } account :=
  ⟨Nat.le_add_right _ _, fun _ htx _ => htx⟩

theorem record {e : Event} (h : ∀ tx, e = .acknowledged tx → ¬ tx.sender = account) :
    Stable s (s.record e) account := by
  refine ⟨Nat.le_refl _, fun tx htx hsender => ?_⟩
  change tx ∈ Proof.outstanding (s.log ++ [e]) at htx
  rw [outstanding_snoc] at htx
  rcases mem_settle htx with htx | rfl
  · exact htx
  · exact absurd hsender (h tx rfl)

theorem quiet (h : Stable s s' account) (hs : Quiet s account) : Quiet s' account :=
  fun tx htx hsender => (hs tx (h.outstanding tx htx hsender) hsender).mono h.clock

theorem awaits (h : Stable s s' account) (hs : Awaits s account tx) : Awaits s' account tx :=
  fun tx' htx' hsender =>
    (hs tx' (h.outstanding tx' htx' hsender) hsender).imp id fun hstale => hstale.mono h.clock

end Stable

theorem Quiet.awaits (h : Quiet s account) : Awaits s account tx := fun tx' htx' hsender =>
  .inr (h tx' htx' hsender)

theorem Quiet.acknowledged (h : Quiet s account) : Awaits (s.record (.acknowledged tx)) account tx := by
  intro tx' htx' hsender
  change tx' ∈ outstanding (s.log ++ [_]) at htx'
  rw [outstanding_snoc] at htx'
  rcases mem_settle htx' with htx' | heq
  · exact .inr (h tx' htx' hsender)
  · exact .inl (Event.acknowledged.inj heq).symm

theorem Awaits.reported {result : Except String TxExecutionStatus} (h : Awaits s account tx) :
    Quiet (s.record (.reported tx result)) account := by
  intro tx' htx' hsender
  change tx' ∈ outstanding (s.log ++ [_]) at htx'
  rw [outstanding_snoc] at htx'
  obtain ⟨hmem, hne⟩ := List.mem_filter.1 htx'
  refine (h tx' hmem hsender).resolve_left fun heq => ?_
  simp [heq] at hne

theorem Awaits.outwaited {deadline : Nat} (h : Awaits s account tx)
    (hexpires : (tx.expirationTimestampSecs + faucetTransactionExpirySeconds) * second ≤ deadline)
    (hclock : deadline ≤ s.clock) : Quiet s account := by
  intro tx' htx' hsender
  rcases h tx' htx' hsender with rfl | hstale
  · exact (Nat.le_div_iff_mul_le (by decide)).2 (hexpires.trans hclock)
  · exact hstale

/-! ## The accounts that were generated -/

def generatedMinter : Event → Option MinterAccount
  | .generated minter => some minter
  | .issued _ | .acknowledged _ | .reported .. => none

def generatedMinters (log : List Event) : List MinterAccount := log.filterMap generatedMinter

/-- The accounts that were generated are different from one another and from the root account. -/
def Fresh (E : Env) (log : List Event) : Prop :=
  (generatedMinters log).Nodup ∧ E.rootAccount ∉ generatedMinters log

theorem generatedMinters_snoc (log : List Event) (e : Event) :
    generatedMinters (log ++ [e]) = generatedMinters log ++ (generatedMinter e).toList := by
  cases e with
  | generated | issued | acknowledged | reported => simp [generatedMinters, generatedMinter]

theorem Fresh.of_prefix {log' : List Event} (h : Fresh E log') (hle : log <+: log') : Fresh E log := by
  obtain ⟨rest, rfl⟩ := hle
  unfold Fresh generatedMinters at *
  rw [List.filterMap_append] at h
  exact ⟨h.1.of_append_left, fun hroot => h.2 (List.mem_append_left _ hroot)⟩

def Owned (E : Env) (log : List Event) : Prop :=
  ∀ tx ∈ outstanding log, tx.sender = E.rootAccount ∨ tx.sender ∈ generatedMinters log

theorem Owned.snoc {e : Event} (h : Owned E log)
    (he : ∀ tx, e = .acknowledged tx → tx.sender = E.rootAccount ∨ tx.sender ∈ generatedMinters log) :
    Owned E (log ++ [e]) := by
  intro tx htx
  rw [outstanding_snoc] at htx
  rw [generatedMinters_snoc]
  refine Or.imp id (List.mem_append_left _) ?_
  rcases mem_settle htx with htx | heq
  · exact h tx htx
  · exact he tx heq

/-! ## The tasks -/

/-- What a task knows of the accounts that it holds. -/
def Knows (E : Env) (s : Shared) : Process → Prop
  | .sending _ _ minter tx => tx.sender = minter ∧ Quiet s minter ∧
      tx.expirationTimestampSecs * second ≤ s.clock + faucetTransactionExpirySeconds * second
  | .waiting _ minter _ tx deadline _ => Awaits s minter tx ∧
      (tx.expirationTimestampSecs + faucetTransactionExpirySeconds) * second ≤ deadline
  | .ensuring q minter stage _ t =>
    (∀ m ∈ q.addresses, Quiet s m) ∧
      match t with
      | .issuing => Quiet s minter
      | .sending tx => Quiet s minter ∧ tx.sender = stage.senderAccount E minter
      | .waiting tx _ => Awaits s minter tx
  | p => ∀ m ∈ held p, Quiet s m

theorem Knows.stable (h : ∀ m ∈ held p, Stable s s' m) (hclock : s.clock ≤ s'.clock) (hp : Knows E s p) :
    Knows E s' p := by
  cases p with
  | sending call i minter tx =>
    obtain ⟨hsender, hquiet, hexpires⟩ := hp
    exact ⟨hsender, (h minter List.mem_cons_self).quiet hquiet, by omega⟩
  | waiting i minter account tx deadline wakeAt =>
    exact ⟨(h minter List.mem_cons_self).awaits hp.1, hp.2⟩
  | ensuring q minter stage deadline t =>
    have hminter := h minter List.mem_cons_self
    refine ⟨fun m hm => (h m (List.mem_cons_of_mem _ hm)).quiet (hp.1 m hm), ?_⟩
    cases t with
    | issuing => exact hminter.quiet hp.2
    | sending tx => exact ⟨hminter.quiet hp.2.1, hp.2.2⟩
    | waiting tx wakeAt => exact hminter.awaits hp.2
  | _ => exact fun m hm => (h m hm).quiet (hp m hm)

theorem knows_of_over (h : Over p) : Knows E s p := by
  unfold Over at h
  split at h
  all_goals first | exact absurd h id | exact fun m hm => absurd hm List.not_mem_nil

theorem knows_advance {s₀ : Shared} {q : Preparation} {minter : MinterAccount} (stage : Stage)
    (haddresses : ∀ m ∈ q.addresses, Quiet s m) (hminter : Quiet s minter) :
    Knows E s (advance s₀ q minter stage) := by
  cases stage with
  | fund | delegate => exact ⟨haddresses, hminter⟩
  | claim =>
    intro m hm
    rcases List.mem_append.1 hm with hm | hm
    · exact haddresses m hm
    · rw [List.mem_singleton.1 hm]
      exact hminter

/-- The sender of a stage is the minter, or not an account that was generated. -/
theorem sender_ne {minter : MinterAccount} {stage : Stage} (hfresh : Fresh E log)
    (hsender : tx.sender = stage.senderAccount E minter) (hm : m ∈ generatedMinters log)
    (hne : ¬ m = minter) : ¬ tx.sender = m := by
  rintro rfl
  rw [hsender] at hm hne
  cases stage with
  | fund | delegate => exact hfresh.2 hm
  | claim => exact hne rfl

theorem clock_effect (h : Effect E input s p s' p' new) : s'.clock = s.clock := by
  cases h <;> rfl

/-- A step leaves the accounts alone that its task does not hold. -/
theorem stable_effect (h : Effect E input s p s' p' new) (hfresh : Fresh E s.log) (hp : Knows E s p)
    (hm : m ∈ generatedMinters s.log) (hother : ¬ m ∈ held p) : Stable s s' m := by
  cases h with
  | sent =>
    refine .record fun tx' heq => ?_
    obtain rfl := Event.acknowledged.inj heq
    rintro rfl
    exact hother (hp.1 ▸ List.mem_cons_self)
  | ensureSent =>
    refine .record fun tx' heq => ?_
    obtain rfl := Event.acknowledged.inj heq
    refine sender_ne hfresh hp.2.2 hm ?_
    rintro rfl
    exact hother List.mem_cons_self
  | issue | waited | generate | ensureIssue | succeeded | failed | unreadable =>
    exact .record fun _ heq => by cases heq
  | _ => exact ⟨Nat.le_refl _, fun _ htx _ => htx⟩

theorem owned_effect (h : Effect E input s p s' p' new) (hs : Owned E s.log) (hp : Knows E s p)
    (hheld : ∀ m ∈ held p, m ∈ generatedMinters s.log) : Owned E s'.log := by
  cases h with
  | sent =>
    refine hs.snoc fun tx' heq => ?_
    obtain rfl := Event.acknowledged.inj heq
    exact .inr (hheld _ (hp.1 ▸ List.mem_cons_self))
  | @ensureSent q minter stage deadline wakeAt tx =>
    refine hs.snoc fun tx' heq => ?_
    obtain rfl := Event.acknowledged.inj heq
    rw [hp.2.2]
    cases stage with
    | fund | delegate => exact .inl rfl
    | claim => exact .inr (hheld _ List.mem_cons_self)
  | issue | waited | generate | ensureIssue | succeeded | failed | unreadable =>
    exact hs.snoc fun _ heq => by cases heq
  | _ => exact hs

/-- No transaction of an account that has just been generated is outstanding. -/
theorem Owned.quiet {minter : MinterAccount} (h : Owned E s.log)
    (hfresh : Fresh E (s.log ++ [.generated minter])) : Quiet s minter := by
  unfold Fresh at hfresh
  rw [generatedMinters_snoc] at hfresh
  rintro tx htx rfl
  rcases h tx htx with hroot | hmem
  · exact absurd (hroot ▸ List.mem_append_right _ List.mem_cons_self) hfresh.2
  · exact absurd List.mem_cons_self (List.disjoint_of_nodup_append hfresh.1 hmem)

/-- A transaction is only issued by an account whose outstanding ones are stale. -/
def Timely (E : Env) (pre : List Event) (e : Event) : Prop :=
  ∀ tx', e = .issued tx' → ¬ tx'.sender = E.rootAccount → ∀ tx ∈ outstanding pre,
    tx.sender = tx'.sender →
      tx.expirationTimestampSecs + 2 * faucetTransactionExpirySeconds ≤ tx'.expirationTimestampSecs

theorem timely_of_quiet (hquiet : ¬ tx.sender = E.rootAccount → Quiet s tx.sender)
    (hexpires : tx.expirationTimestampSecs = s.clock / second + faucetTransactionExpirySeconds) :
    Timely E s.log (.issued tx) := by
  intro tx' heq hroot tx₀ htx₀ hsender
  obtain rfl := Event.issued.inj heq
  have hstale := hquiet hroot tx₀ htx₀ hsender
  unfold Stale at hstale
  omega

theorem timely_effect (h : Effect E input s p s' p' new) (hp : Knows E s p)
    (hs : Journal.Each (Timely E) s.log) : Journal.Each (Timely E) s'.log := by
  cases h with
  | issue hissue =>
    obtain ⟨hsender, _, hexpires⟩ := issueTx_spec hissue
    exact hs.snoc (timely_of_quiet (fun _ => hsender ▸ hp _ List.mem_cons_self) hexpires)
  | @ensureIssue q minter stage deadline tx hissue =>
    obtain ⟨hsender, _, hexpires⟩ := issueTx_spec hissue
    refine hs.snoc (timely_of_quiet (fun hroot => ?_) hexpires)
    rw [hsender] at hroot ⊢
    cases stage with
    | fund | delegate => exact absurd rfl hroot
    | claim => exact hp.2
  | sent | waited | generate | ensureSent | succeeded | failed | unreadable =>
    exact hs.snoc fun _ heq => by cases heq
  | _ => exact hs

/-! ## Who holds an account -/

def freeMinter : DelegateState → Option MinterAccount
  | some (.free minter) => some minter
  | some (.busy ..) | none => none

def freeMinters (delegates : List DelegateState) : List MinterAccount := delegates.filterMap freeMinter

theorem knows_effect (h : Effect E input s p s' p' new) (hp : Knows E s p) (hs : Owned E s.log)
    (hfresh : Fresh E s'.log) (hheld : ∀ m ∈ held p, m ∈ generatedMinters s.log) (hnodup : (held p).Nodup)
    (hfree : ∀ m ∈ freeMinters s.delegates, Quiet s m) : Knows E s' p' := by
  have hkeep {e : Event} (he : ∀ tx, ¬ e = .acknowledged tx) (account : AccountAddress) :
      Stable s (s.record e) account := .record fun tx heq => absurd heq (he tx)
  cases h with
  | lock hd hd' =>
    intro m hm
    rw [hd'] at hm
    cases hm
  | @take call i minter hget =>
    intro m hm
    rw [List.mem_singleton.1 hm]
    exact hfree minter (List.mem_filterMap.2 ⟨_, List.mem_of_getElem? hget, rfl⟩)
  | issue hissue =>
    obtain ⟨hsender, _, hexpires⟩ := issueTx_spec hissue
    refine ⟨hsender, (hkeep (fun _ heq => by cases heq) _).quiet (hp _ List.mem_cons_self), ?_⟩
    have hdiv := Nat.div_mul_le_self s.clock second
    rw [hexpires, Nat.add_mul]
    exact Nat.add_le_add_right hdiv _
  | unsent =>
    intro m hm
    rw [List.mem_singleton.1 hm]
    exact hp.2.1
  | outwaited hdeadline =>
    intro m hm
    rw [List.mem_singleton.1 hm]
    exact hp.1.outwaited hp.2 hdeadline
  | waited =>
    intro m hm
    rw [List.mem_singleton.1 hm]
    exact hp.1.reported
  | refuse | wait | skip | ensureWait => exact hp
  | sent | release | free | finish => exact fun m hm => absurd hm List.not_mem_nil
  | generate =>
    refine ⟨fun m hm => (hkeep (fun _ heq => by cases heq) m).quiet (hp m hm), ?_⟩
    exact (hkeep (fun _ heq => by cases heq) _).quiet (hs.quiet hfresh)
  | ensureIssue hissue =>
    refine ⟨fun m hm => (hkeep (fun _ heq => by cases heq) m).quiet (hp.1 m hm), ?_⟩
    exact ⟨(hkeep (fun _ heq => by cases heq) _).quiet hp.2, (issueTx_spec hissue).1⟩
  | @ensureSent q minter stage deadline wakeAt tx =>
    -- the prepared minters are not the one that has sent a transaction
    refine ⟨fun m hm => ?_, hp.2.1.acknowledged⟩
    have hne : ¬ m = minter := fun heq => (List.nodup_cons.1 hnodup).1 (heq ▸ hm)
    have hm' := hheld m (List.mem_cons_of_mem _ hm)
    refine (Stable.record fun tx' heq => ?_).quiet (hp.1 m hm)
    obtain rfl := Event.acknowledged.inj heq
    exact sender_ne (hfresh.of_prefix (List.prefix_append _ _)) hp.2.2 hm' hne
  | giveUp => exact hp.1
  | succeeded =>
    refine knows_advance _ (fun m hm => ?_) hp.2.reported
    exact (hkeep (fun _ heq => by cases heq) m).quiet (hp.1 m hm)
  | failed =>
    exact ⟨fun m hm => (hkeep (fun _ heq => by cases heq) m).quiet (hp.1 m hm), hp.2.reported⟩
  | unreadable => exact fun m hm => (hkeep (fun _ heq => by cases heq) m).quiet (hp.1 m hm)
  | stop hover => exact knows_of_over hover

theorem knows_new (h : Effect E input s p s' p' new) (hp : Knows E s p) : ∀ q ∈ new, Knows E s' q := by
  cases h with
  | sent =>
    intro q hq
    rw [List.mem_singleton.1 hq]
    obtain ⟨_, hquiet, hexpires⟩ := hp
    refine ⟨hquiet.acknowledged, ?_⟩
    have hwait : txMaxWait = 2 * (faucetTransactionExpirySeconds * second) := rfl
    rw [Nat.add_mul]
    omega
  | _ => exact fun q hq => absurd hq List.not_mem_nil

/-- How many tasks and free delegates have the account. -/
def tokens (m : MinterAccount) (c : Config Shared Process) : Nat :=
  (freeMinters c.shared.delegates).count m + (c.procs.map fun p => (held p).count m).sum

theorem count_freeMinters_split (l r : List DelegateState) (d : DelegateState) (m : MinterAccount) :
    (freeMinters (l ++ d :: r)).count m =
      (freeMinters l).count m + (freeMinter d).toList.count m + (freeMinters r).count m := by
  unfold freeMinters
  rw [List.filterMap_append, List.count_append, List.filterMap_cons]
  cases freeMinter d with
  | none => rfl
  | some minter =>
    rw [Option.toList_some, List.count_cons, List.count_singleton]
    omega

theorem count_freeMinters_set {delegates : List DelegateState} {i : Nat} (hi : i < delegates.length)
    (d : DelegateState) (m : MinterAccount) :
    (freeMinters (delegates.set i d)).count m + (freeMinter delegates[i]).toList.count m =
      (freeMinters delegates).count m + (freeMinter d).toList.count m := by
  have hsplit : delegates = delegates.take i ++ delegates[i] :: delegates.drop (i + 1) := by
    rw [List.getElem_cons_drop, List.take_append_drop]
  have hold := count_freeMinters_split (delegates.take i) (delegates.drop (i + 1)) delegates[i] m
  rw [← hsplit] at hold
  rw [List.set_eq_take_cons_drop d hi, count_freeMinters_split, hold]
  omega

theorem count_freeMinters_set_le (delegates : List DelegateState) (i : Nat) (d : DelegateState)
    (m : MinterAccount) : (freeMinters (delegates.set i d)).count m ≤
      (freeMinters delegates).count m + (freeMinter d).toList.count m := by
  by_cases hi : i < delegates.length
  · have := count_freeMinters_set hi d m
    omega
  · rw [List.set_eq_of_length_le (Nat.le_of_not_lt hi)]
    omega

theorem freeMinters_new (addresses : List MinterAccount) :
    freeMinters (addresses.map .new) = addresses := by
  unfold freeMinters
  rw [List.filterMap_map]
  exact List.filterMap_some

theorem held_of_over (h : Over p) : held p = [] := by
  unfold Over at h
  split at h
  · rfl
  · rfl
  · rfl
  · rfl
  · exact absurd h id

theorem count_held_advance (q : Preparation) (minter : MinterAccount) (stage : Stage) (m : MinterAccount) :
    (held (advance s q minter stage)).count m = (minter :: q.addresses).count m := by
  cases stage with
  | fund | delegate => rfl
  | claim => exact (List.perm_append_singleton minter q.addresses).count_eq m

/-- **A step passes accounts on**, unless it generates one. -/
theorem count_effect (h : Effect E input s p s' p' new) (m : MinterAccount) :
    (freeMinters s'.delegates).count m + (held p').count m +
        (new.map fun q => (held q).count m).sum + (generatedMinters s.log).count m ≤
      (freeMinters s.delegates).count m + (held p).count m + (generatedMinters s'.log).count m := by
  have hgenerated : (generatedMinters s.log).count m ≤ (generatedMinters s'.log).count m := by
    obtain ⟨rest, hrest⟩ := log_effect h
    rw [← hrest, generatedMinters, generatedMinters, List.filterMap_append, List.count_append]
    exact Nat.le_add_right _ _
  have hfail (minter : MinterAccount) (addresses : List MinterAccount) :
      addresses.count m ≤ (minter :: addresses).count m := List.count_le_count_cons
  cases h with
  | @generate left deadline addresses failures minter =>
    show (freeMinters s.delegates).count m + (minter :: addresses).count m + 0 + _ ≤
      _ + addresses.count m + (generatedMinters (s.log ++ [.generated minter])).count m
    rw [generatedMinters_snoc, List.count_append, List.count_cons]
    simp only [generatedMinter, Option.toList_some, List.count_singleton]
    omega
  | lock hd hd' =>
    rw [hd, hd']
    exact Nat.le_refl _
  | @take call i minter hget =>
    obtain ⟨hi, hdelegate⟩ := List.getElem?_eq_some_iff.1 hget
    have hset := count_freeMinters_set hi (some (.busy minter call.account)) m
    rw [hdelegate] at hset
    exact Nat.add_le_add_right (Nat.le_of_eq hset) _
  | @sent call call' i wakeAt minter =>
    show (freeMinters s.delegates).count m + 0 + ([minter].count m + 0) + _ ≤
      (freeMinters s.delegates).count m + [minter].count m + _
    omega
  | release | free => exact Nat.add_le_add_right (count_freeMinters_set_le _ _ _ m) _
  | @finish addresses failures =>
    show (freeMinters (addresses.map .new)).count m + _ ≤ _ + addresses.count m + _
    rw [freeMinters_new]
    omega
  | giveUp => exact Nat.add_le_add (Nat.add_le_add_left (hfail _ _) _) hgenerated
  | unreadable => exact Nat.add_le_add (Nat.add_le_add_left (hfail _ _) _) hgenerated
  | succeeded =>
    rw [count_held_advance]
    exact Nat.add_le_add_left hgenerated _
  | stop hover =>
    rw [held_of_over hover]
    exact Nat.add_le_add_right (Nat.le_add_right _ _) _
  | _ => exact Nat.add_le_add_left hgenerated _

/-! ## Runs -/

/-- What holds of the faucet. -/
structure InOrder (E : Env) (c : Config Shared Process) : Prop where
  timely : Journal.Each (Timely E) c.shared.log
  owned : Owned E c.shared.log
  tokens : ∀ m, tokens m c ≤ (generatedMinters c.shared.log).count m
  free : ∀ m ∈ freeMinters c.shared.delegates, Quiet c.shared m
  knows : ∀ p ∈ c.procs, Knows E c.shared p

theorem free_effect (h : Effect E input s p s' p' new) (hp : Knows E s p)
    (hm : m ∈ freeMinters s'.delegates) :
    m ∈ freeMinters s.delegates ∨ (m ∈ held p ∧ Quiet s' m) := by
  have hset {delegates : List DelegateState} {i : Nat} {d : DelegateState}
      (hm : m ∈ freeMinters (delegates.set i d)) : m ∈ freeMinters delegates ∨ freeMinter d = some m := by
    obtain ⟨d', hd', hfree⟩ := List.mem_filterMap.1 hm
    rcases List.mem_or_eq_of_mem_set hd' with hd' | rfl
    · exact .inl (List.mem_filterMap.2 ⟨d', hd', hfree⟩)
    · exact .inr hfree
  cases h with
  | take => exact .inl ((hset hm).resolve_right (Option.some_ne_none _).symm)
  | release | free =>
    refine (hset hm).imp id fun heq => ?_
    cases heq
    exact ⟨List.mem_cons_self, hp _ List.mem_cons_self⟩
  | @finish addresses failures =>
    change m ∈ freeMinters (addresses.map .new) at hm
    rw [freeMinters_new] at hm
    exact .inr ⟨hm, hp m hm⟩
  | _ => exact .inl hm

theorem tokens_split (m : MinterAccount) (s : Shared) (l r : List Process) (p : Process) :
    tokens m ⟨s, l ++ p :: r⟩ = (freeMinters s.delegates).count m + (held p).count m +
      ((l ++ r).map fun q => (held q).count m).sum := by
  simp only [tokens, List.map_append, List.map_cons, List.sum_append, List.sum_cons]
  omega

theorem tokens_turn (m : MinterAccount) (s : Shared) (l r new : List Process) (p : Process) :
    tokens m ⟨s, l ++ p :: (r ++ new)⟩ = (freeMinters s.delegates).count m + (held p).count m +
      (new.map fun q => (held q).count m).sum + ((l ++ r).map fun q => (held q).count m).sum := by
  simp only [tokens, List.map_append, List.map_cons, List.sum_append, List.sum_cons]
  omega

section
variable {c : Config Shared Process} (hc : InOrder E c) (hfresh : Fresh E c.shared.log)
include hc

theorem InOrder.generated (hm : 0 < Proof.tokens m c) : m ∈ generatedMinters c.shared.log :=
  List.count_pos_iff.1 (Nat.lt_of_lt_of_le hm (hc.tokens m))

include hfresh

theorem InOrder.once (m : MinterAccount) : Proof.tokens m c ≤ 1 :=
  (hc.tokens m).trans (List.nodup_iff_count_le_one.1 hfresh.1 m)

theorem InOrder.exclusive {l r : List Process} (hprocs : c.procs = l ++ p :: r) (hm : m ∈ held p) :
    ¬ m ∈ freeMinters c.shared.delegates ∧ ∀ q ∈ l ++ r, ¬ m ∈ held q := by
  have hone := hc.once hfresh m
  obtain ⟨s, procs⟩ := c
  subst hprocs
  rw [tokens_split] at hone
  have hp := List.count_pos_iff.2 hm
  refine ⟨fun hfree => ?_, fun q hq hq' => ?_⟩
  · have hpos : 0 < (freeMinters s.delegates).count m := List.count_pos_iff.2 hfree
    omega
  · have hpos : 0 < ((l ++ r).map fun q => (held q).count m).sum :=
      List.sum_pos_iff_exists_pos_nat.2 ⟨_, List.mem_map.2 ⟨q, hq, rfl⟩, List.count_pos_iff.2 hq'⟩
    omega

theorem InOrder.held_spec {l r : List Process} (hprocs : c.procs = l ++ p :: r) :
    (∀ m ∈ held p, m ∈ generatedMinters c.shared.log) ∧ (held p).Nodup := by
  have hsplit (m : MinterAccount) : (held p).count m ≤ Proof.tokens m c := by
    obtain ⟨s, procs⟩ := c
    subst hprocs
    rw [tokens_split]
    omega
  refine ⟨fun m hm => hc.generated ?_, List.nodup_iff_count_le_one.2 fun m => ?_⟩
  · exact Nat.lt_of_lt_of_le (List.count_pos_iff.2 hm) (hsplit m)
  · exact (hsplit m).trans (hc.once hfresh m)

end

theorem InOrder.start {c : Config Shared Process} (hc : InOrder E c) (account : AccountAddress) :
    InOrder E ⟨c.shared, c.procs ++ [(faucet E).init account]⟩ := by
  have htokens (m : MinterAccount) :
      Proof.tokens m ⟨c.shared, c.procs ++ [(faucet E).init account]⟩ = Proof.tokens m c := by
    have hinit : held ((faucet E).init account) = [] := rfl
    simp [Proof.tokens, hinit]
  refine ⟨hc.timely, hc.owned, fun m => ?_, hc.free, fun q hq => ?_⟩
  · rw [htokens]
    exact hc.tokens m
  · rcases List.mem_append.1 hq with hq | hq
    · exact hc.knows q hq
    · rw [List.mem_singleton.1 hq]
      exact fun m hm => absurd hm List.not_mem_nil

/-- The clock moves on before each step. -/
theorem InOrder.tick {c : Config Shared Process} (hc : InOrder E c) (elapsed : Nat) :
    InOrder E ⟨{ c.shared with clock := c.shared.clock + elapsed }, c.procs⟩ := by
  have htick (m : MinterAccount) := Stable.tick c.shared elapsed m
  refine ⟨hc.timely, hc.owned, hc.tokens, fun m hm => (htick m).quiet (hc.free m hm), fun q hq => ?_⟩
  exact (hc.knows q hq).stable (fun m _ => htick m) (Nat.le_add_right _ _)

theorem InOrder.turn {l r : List Process} (hc : InOrder E ⟨s, l ++ p :: r⟩)
    (heffect : Effect E input s p s' p' new) (hfresh : Fresh E s'.log) :
    InOrder E ⟨s', l ++ p' :: (r ++ new)⟩ := by
  have hfresh₀ : Fresh E s.log := hfresh.of_prefix (log_effect heffect)
  obtain ⟨hheld, hnodup⟩ := hc.held_spec hfresh₀ rfl
  have hknows : Knows E s p := hc.knows p (by simp)
  have hstable {m : MinterAccount} (hm : m ∈ generatedMinters s.log) (hother : ¬ m ∈ held p) :
      Stable s s' m := stable_effect heffect hfresh₀ hknows hm hother
  have hothers {q : Process} (hq : q ∈ l ++ r) : Knows E s' q := by
    have hmem : q ∈ l ++ p :: r := by
      rcases List.mem_append.1 hq with hq | hq
      · exact List.mem_append_left _ hq
      · exact List.mem_append_right _ (List.mem_cons_of_mem _ hq)
    obtain ⟨l', r', hsplit⟩ := List.append_of_mem hmem
    refine (hc.knows q hmem).stable (fun m hm => ?_) (Nat.le_of_eq (clock_effect heffect).symm)
    refine hstable ((hc.held_spec hfresh₀ hsplit).1 m hm) fun hp => ?_
    exact (hc.exclusive hfresh₀ rfl hp).2 q hq hm
  refine ⟨timely_effect heffect hknows hc.timely, owned_effect heffect hc.owned hknows hheld,
    fun m => ?_, fun m hm => ?_, fun q hq => ?_⟩
  · have hle := hc.tokens m
    have hcount := count_effect heffect m
    rw [tokens_split] at hle
    rw [tokens_turn]
    dsimp only at hle hcount ⊢
    omega
  · rcases free_effect heffect hknows hm with hold | ⟨_, hquiet⟩
    · have hpos : 0 < Proof.tokens m ⟨s, l ++ p :: r⟩ :=
        Nat.lt_of_lt_of_le (List.count_pos_iff.2 hold) (Nat.le_add_right _ _)
      have hother : ¬ m ∈ held p := fun hmem => (hc.exclusive hfresh₀ rfl hmem).1 hold
      exact (hstable (hc.generated hpos) hother).quiet (hc.free m hold)
    · exact hquiet
  · rcases List.mem_append.1 hq with hq | hq
    · exact hothers (List.mem_append_left _ hq)
    · rcases List.mem_cons.1 hq with rfl | hq
      · exact knows_effect heffect hknows hc.owned hfresh hheld hnodup hc.free
      · rcases List.mem_append.1 hq with hq | hq
        · exact hothers (List.mem_append_right _ hq)
        · exact knows_new heffect hknows q hq

theorem inOrder_step {c c' : Config Shared Process} {a : Act AccountAddress Input}
    (hstep : Step (faucet E) c a c') (hfresh : Fresh E c'.shared.log) (hc : InOrder E c) :
    InOrder E c' := by
  cases hstep with
  | idle => exact hc
  | start account => exact hc.start account
  | @turn l r new p p' s' input hprocs hturn =>
    have htick := hc.tick input.elapsed
    rw [hprocs] at htick
    exact htick.turn (stepAt_effect hturn) hfresh

theorem inOrder_start (E : Env) (clock n : Nat) : InOrder E (start clock n) := by
  refine ⟨Journal.each_nil, fun tx htx => absurd htx List.not_mem_nil, fun m => Nat.le_refl 0,
    fun m hm => absurd hm List.not_mem_nil, fun p hp => ?_⟩
  rw [List.mem_singleton.1 hp]
  exact fun m hm => absurd hm List.not_mem_nil

/-- **A minter has one transaction at a time.** When an account other than the root account issues a
transaction, all of its transactions that the dispatcher has acknowledged were reported on by the
archive, or have not been valid for a minute. -/
theorem minters_issue_one_at_a_time (E : Env) (clock n : Nat) (acts : List (Act AccountAddress Input))
    (s : Shared) (hs : (run (faucet E) (start clock n) acts).shared = s) (hfresh : Fresh E s.log) :
    ∀ pre tx' post, s.log = pre ++ .issued tx' :: post → ¬ tx'.sender = E.rootAccount →
      ∀ tx ∈ outstanding pre, tx.sender = tx'.sender →
        tx.expirationTimestampSecs + 2 * faucetTransactionExpirySeconds ≤
          tx'.expirationTimestampSecs := by
  subst hs
  have hinOrder : InOrder E (run (faucet E) (start clock n) acts) := by
    refine run_inv (I := fun c => Fresh E c.shared.log → InOrder E c) (P := fun _ _ => True) ?_
      (fun _ => inOrder_start E clock n) (fun _ _ _ _ => trivial) hfresh
    intro c a c' hc _ hstep hfresh'
    exact inOrder_step hstep hfresh' (hc (hfresh'.of_prefix (log_step hstep)))
  intro pre tx' post hlog hroot
  exact hinOrder.timely pre (.issued tx') post hlog tx' rfl hroot

/-- The minter that was prepared funds an account. Nothing is heard of its transaction, so it is only
given back when the time budget is exhausted, and then funds another one. -/
def outwaitedActs : List (Act AccountAddress Input) :=
  smallActs ++ funding 9 1 ++ [.turn 2 { after txMaxWait with wake := .timer }, .turn 2 (after 0)] ++
    funding 8 3

theorem minters_issue_one_at_a_time_small :
    ∃ s, (run (faucet small) (start 0 1) outwaitedActs).shared = s ∧
      outstanding (s.log.take 15) = [makeSmrMoveTx (4 * second) (.minterScript 9 5) 3 6 7] ∧
      s.log.drop 15 = [.issued (makeSmrMoveTx (124 * second) (.minterScript 8 5) 3 6 7),
        .acknowledged (makeSmrMoveTx (124 * second) (.minterScript 8 5) 3 6 7)] ∧
      (makeSmrMoveTx (4 * second) (.minterScript 9 5) 3 6 7).expirationTimestampSecs +
          2 * faucetTransactionExpirySeconds ≤
        (makeSmrMoveTx (124 * second) (.minterScript 8 5) 3 6 7).expirationTimestampSecs := by
  refine ⟨_, rfl, rfl, rfl, ?_⟩
  refine minters_issue_one_at_a_time small 0 1 outwaitedActs _ rfl ?_
    ((run (faucet small) (start 0 1) outwaitedActs).shared.log.take 15) _
    [.acknowledged (makeSmrMoveTx (124 * second) (.minterScript 8 5) 3 6 7)] rfl ?_ _ ?_ rfl
  · unfold Fresh
    decide
  · decide
  · decide

end Rest.Minting.Proof
