import SupraL1.Client.Proof.Pacing
import SupraL1.Node.IdentityRotation

/-!
# A rotated key that is nowhere stored

The new key is in memory until the transaction that installs it has been finalized with success and
looked up once more, and the identity file has been backed up and written. `Submits` says when the
transaction is submitted, and `Finishes` when the new identity is written: each is a condition on
what the effects find and on how many of them the process gets to. A rotation is safe exactly when
a submitted, accepted and executed transaction is followed by all of the rest
(`rotation_keeps_key_iff`).
-/

namespace Node.IdentityRotation.Proof

open Client (CliError CliTransactionInfo RpcResponse)
open Client.Proof (Requested answeredAt awaitFinalized_ok_iff)
open Consensus (Hash)
open EState

/-! ## Effects -/

/-- A property of the files and of the chain, not of the effects that are left. -/
def Untimed (P : World → Prop) : Prop := ∀ w n, P { w with effectsLeft := n } = P w

/-- The world after `n` effects that change nothing. -/
def spend (n : Nat) (w : World) : World := { w with effectsLeft := w.effectsLeft - n }

@[simp] theorem effectsLeft_spend (n : Nat) (w : World) :
    (spend n w).effectsLeft = w.effectsLeft - n := rfl

@[simp] theorem spend_spend (m n : Nat) (w : World) : spend m (spend n w) = spend (n + m) w := by
  simp [spend, Nat.sub_sub]

section
variable {α β : Type} {P : World → Prop}

theorem lift_ok_iff {r : Except CliError α} {w w' : World} {a : α} :
    lift r w = .ok a w' ↔ r = .ok a ∧ w' = w := by
  cases r with
  | ok b =>
    show EStateM.Result.ok b w = .ok a w' ↔ _
    constructor
    · rintro ⟨⟩; exact ⟨rfl, rfl⟩
    · rintro ⟨⟨⟩, rfl⟩; rfl
  | error e => exact ⟨nofun, nofun⟩

theorem tick_eq (w : World) :
    tick w = if w.effectsLeft = 0 then .error .killed w else .ok () (spend 1 w) := by
  unfold tick
  rw [get_bind]
  split <;> rfl

theorem effect_ok_iff {r : Except CliError α} {w w' : World} {a : α} :
    effect r w = .ok a w' ↔ 0 < w.effectsLeft ∧ r = .ok a ∧ w' = spend 1 w := by
  unfold effect
  rw [bind_apply, tick_eq]
  by_cases h0 : w.effectsLeft = 0
  · rw [if_pos h0]
    exact ⟨nofun, fun h => absurd h0 (Nat.pos_iff_ne_zero.1 h.1)⟩
  · rw [if_neg h0]
    dsimp only
    rw [lift_ok_iff]
    exact ⟨fun h => ⟨Nat.pos_of_ne_zero h0, h⟩, fun h => h.2⟩

theorem effect_bind_ok_iff {r : Except CliError α} {k : α → Cli β} {w w' : World} {b : β} :
    (effect r >>= k) w = .ok b w' ↔
      0 < w.effectsLeft ∧ ∃ a, r = .ok a ∧ k a (spend 1 w) = .ok b w' := by
  rw [bind_ok_iff]
  constructor
  · rintro ⟨a, _, h, hk⟩
    obtain ⟨hpos, hr, rfl⟩ := effect_ok_iff.1 h
    exact ⟨hpos, a, hr, hk⟩
  · rintro ⟨hpos, a, hr, hk⟩
    exact ⟨a, _, effect_ok_iff.2 ⟨hpos, hr, rfl⟩, hk⟩

theorem keeps_lift (r : Except CliError α) : Keeps P (lift r) := by
  cases r with
  | ok a => exact .ret a
  | error e => exact .fail _

theorem keeps_tick (hP : Untimed P) : Keeps P tick := by
  intro w
  unfold after
  rw [tick_eq]
  split
  · rename_i h
    split at h <;> cases h
    exact hP w _
  · rename_i h
    split at h <;> cases h
    rfl

theorem keeps_effect (hP : Untimed P) (r : Except CliError α) : Keeps P (effect r) :=
  (keeps_tick hP).bind fun _ => keeps_lift r

/-- What an effect does not bring about itself comes after it, if the process gets past it. -/
theorem after_effect_iff (hP : Untimed P) {r : Except CliError α} {k : α → Cli β} {w : World}
    (hw : ¬ P w) : P (after (effect r >>= k) w) ↔
      0 < w.effectsLeft ∧ ∃ a, r = .ok a ∧ P (after (k a) (spend 1 w)) := by
  rw [(keeps_effect hP r).after_bind_iff hw]
  constructor
  · rintro ⟨a, w', h, hk⟩
    obtain ⟨hpos, hr, rfl⟩ := effect_ok_iff.1 h
    exact ⟨hpos, a, hr, hk⟩
  · rintro ⟨hpos, a, hr, hk⟩
    exact ⟨a, _, effect_ok_iff.2 ⟨hpos, hr, rfl⟩, hk⟩

theorem after_lift_iff {r : Except CliError α} {k : α → Cli β} {w : World} (hw : ¬ P w) :
    P (after (lift r >>= k) w) ↔ ∃ a, r = .ok a ∧ P (after (k a) w) := by
  rw [(keeps_lift r).after_bind_iff hw]
  constructor
  · rintro ⟨a, w', h, hk⟩
    obtain ⟨hr, rfl⟩ := lift_ok_iff.1 h
    exact ⟨a, hr, hk⟩
  · rintro ⟨a, hr, hk⟩
    exact ⟨a, _, lift_ok_iff.2 ⟨hr, rfl⟩, hk⟩

end

/-! ## Awaiting the transaction -/

variable {O : Outcomes}

theorem keeps_awaitFinalized {P : World → Prop} (hP : Untimed P) (hash : Hash) (expiration : Nat) :
    Keeps P (awaitFinalized O hash expiration) := by
  intro w
  have hend : ∃ n, after (awaitFinalized O hash expiration) w = { w with effectsLeft := n } := by
    unfold after awaitFinalized
    dsimp only
    cases (O.await hash expiration).result w.effectsLeft with
    | ok info => exact ⟨_, rfl⟩
    | error e => cases e <;> exact ⟨_, rfl⟩
  obtain ⟨n, hn⟩ := hend
  rw [hn]
  exact hP w n

/-- **The wait** returns what the first poll that finds the transaction final has found. -/
theorem awaitFinalized_ok {hash : Hash} {expiration : Nat} {info : CliTransactionInfo} {w w' : World} :
    awaitFinalized O hash expiration w = .ok info w' ↔
      ∃ k < w.effectsLeft, Requested (O.await hash expiration) k ∧
        O.network.poll k = .ok (.transactionInfo info) ∧ Client.isFinal info.status = true ∧
        w' = spend (k + 1) w := by
  have hspent : ∀ k, (answeredAt (O.await hash expiration) k).requests.length = k + 1 := fun k => by
    rw [answeredAt, List.length_map, List.length_range]
  unfold awaitFinalized Client.Call.result Client.Call.waited
  generalize hC : O.await hash expiration = C at hspent
  have hpolls : C.poll = O.network.poll := hC ▸ rfl
  dsimp only
  rw [← hpolls]
  constructor
  · intro h
    cases hrun : Client.awaitFinalized C w.effectsLeft ⟨C.start, []⟩ with
    | ok txInfo wait =>
      rw [outcome_ok hrun, after_ok hrun] at h
      obtain ⟨k, hk, hreq, hpoll, hfinal, rfl⟩ := awaitFinalized_ok_iff.1 hrun
      rw [hspent] at h
      cases h
      exact ⟨k, hk, hreq, hpoll, hfinal, rfl⟩
    | error e wait =>
      rw [outcome_error hrun] at h
      cases e <;> cases h
  · rintro ⟨k, hk, hreq, hpoll, hfinal, rfl⟩
    have hrun := awaitFinalized_ok_iff.2 ⟨k, hk, hreq, hpoll, hfinal, rfl⟩
    rw [outcome_ok hrun, after_ok hrun, hspent]
    rfl

/-! ## Sending the transaction -/

/-- Poll `k` is the first to find the transaction final, and finds success. -/
structure Succeeds (O : Outcomes) (hash : Hash) (expiration k : Nat) : Prop where
  requested : Requested (O.await hash expiration) k
  finds : ∃ info, O.network.poll k = .ok (.transactionInfo info) ∧ info.status = .success

theorem awaitFinalizedWithSuccess_ok_iff {hash : Hash} {expiration : Nat} {w w' : World} {u : Unit} :
    awaitFinalizedWithSuccess O hash expiration w = .ok u w' ↔
      ∃ k, Succeeds O hash expiration k ∧ k < w.effectsLeft ∧ w' = spend (k + 1) w := by
  unfold awaitFinalizedWithSuccess
  rw [bind_ok_iff]
  constructor
  · rintro ⟨info, w1, hwait, hend⟩
    obtain ⟨k, hk, hreq, hpoll, -, rfl⟩ := awaitFinalized_ok.1 hwait
    by_cases hstatus : info.status = .success
    · rw [if_neg (not_not_intro hstatus)] at hend
      cases hend
      exact ⟨k, ⟨hreq, info, hpoll, hstatus⟩, hk, rfl⟩
    · rw [if_pos hstatus] at hend
      cases hend
  · rintro ⟨k, ⟨hreq, info, hpoll, hstatus⟩, hk, rfl⟩
    refine ⟨info, spend (k + 1) w, awaitFinalized_ok.2 ⟨k, hk, hreq, hpoll, ?_, rfl⟩, ?_⟩
    · rw [hstatus]
      rfl
    · rw [if_neg (not_not_intro hstatus)]
      rfl

theorem checkTransactionInfo_ok_iff {w w' : World} {info : CliTransactionInfo} :
    checkTransactionInfo O w = .ok info w' ↔
      O.transactionInfo = .ok (.transactionInfo info) ∧ 0 < w.effectsLeft ∧ w' = spend 1 w := by
  unfold checkTransactionInfo
  rw [effect_bind_ok_iff]
  constructor
  · rintro ⟨hpos, response, hr, hend⟩
    cases response with
    | transactionInfo found => cases hend; exact ⟨hr, hpos, rfl⟩
    | sendTransaction h t | unexpected bytes => cases hend
  · rintro ⟨hr, hpos, rfl⟩
    exact ⟨hpos, _, hr, rfl⟩

/-- The network takes the transaction. -/
def submitted (O : Outcomes) (w : World) : World := { w with accepted := O.accepts }

theorem submit_ok_iff {w w' : World} {response : RpcResponse} :
    submit O w = .ok response w' ↔
      O.sendReply = .ok response ∧ 0 < w.effectsLeft ∧ w' = submitted O (spend 1 w) := by
  unfold submit
  rw [bind_apply, tick_eq]
  by_cases h0 : w.effectsLeft = 0
  · rw [if_pos h0]
    exact ⟨nofun, fun h => absurd h0 (Nat.pos_iff_ne_zero.1 h.2.1)⟩
  · rw [if_neg h0]
    dsimp only
    rw [modify_bind, lift_ok_iff]
    exact ⟨fun h => ⟨h.1, Nat.pos_of_ne_zero h0, h.2⟩, fun h => ⟨h.1, h.2.2⟩⟩

theorem resolveTransactionHash_ok_iff {response : RpcResponse} {hash : Hash} {w w' : World} :
    resolveTransactionHash O response w = .ok hash w' ↔
      ∃ expiration k, response = .sendTransaction hash expiration ∧ Succeeds O hash expiration k ∧
        k < w.effectsLeft ∧ w' = spend (k + 1) w := by
  cases response with
  | sendTransaction hash' expiration =>
    unfold resolveTransactionHash
    rw [bind_ok_iff]
    constructor
    · rintro ⟨u, w1, hawait, ⟨⟩⟩
      obtain ⟨k, h⟩ := awaitFinalizedWithSuccess_ok_iff.1 hawait
      exact ⟨expiration, k, rfl, h⟩
    · rintro ⟨_, k, ⟨⟩, h⟩
      exact ⟨(), w', awaitFinalizedWithSuccess_ok_iff.2 ⟨k, h⟩, rfl⟩
  | transactionInfo found | unexpected bytes =>
    refine ⟨nofun, ?_⟩
    rintro ⟨_, _, h, -⟩
    cases h

/-- **The transaction is sent and found final**, and looked up once more. -/
theorem sendTransaction_ok_iff {w w' : World} {info : CliTransactionInfo} :
    sendTransaction O w = .ok info w' ↔
      O.signerProfileToSend = .ok () ∧ O.gasParameters = .ok () ∧
        ∃ hash expiration k, O.sendReply = .ok (.sendTransaction hash expiration) ∧
          Succeeds O hash expiration k ∧ O.transactionInfo = .ok (.transactionInfo info) ∧
          k + 5 ≤ w.effectsLeft ∧ w' = submitted O (spend (k + 5) w) := by
  unfold sendTransaction
  simp only [bind_ok_iff, effect_ok_iff, submit_ok_iff, resolveTransactionHash_ok_iff,
    checkTransactionInfo_ok_iff]
  constructor
  · rintro ⟨_, _, ⟨-, hprofile, rfl⟩, _, _, ⟨-, hgas, rfl⟩, _, _, ⟨hreply, -, rfl⟩, hash, _,
      ⟨expiration, k, rfl, hk, -, rfl⟩, hcheck, hleft, rfl⟩
    simp only [submitted, spend] at hleft
    refine ⟨hprofile, hgas, hash, expiration, k, hreply, hk, hcheck, by omega, ?_⟩
    simp only [submitted, spend, World.mk.injEq, and_true]
    omega
  · rintro ⟨hprofile, hgas, hash, expiration, k, hreply, hk, hcheck, hleft, rfl⟩
    refine ⟨(), _, ⟨by omega, hprofile, rfl⟩, (), _, ⟨?_, hgas, rfl⟩, _, _, ⟨hreply, ?_, rfl⟩, hash, _,
      ⟨expiration, k, rfl, hk, ?_, rfl⟩, hcheck, ?_, ?_⟩
    · simp only [spend]; omega
    · simp only [spend]; omega
    · simp only [submitted, spend]; omega
    · simp only [submitted, spend]; omega
    · simp only [submitted, spend, World.mk.injEq, and_true]
      omega

/-! ## Frames -/

def backedUp (w : World) : World :=
  { w with files := { w.files with backups := w.files.backups ++ [w.files.identity] } }

section
variable {P : World → Prop} (hP : Untimed P)
include hP

theorem keeps_resolveTransactionHash (response : RpcResponse) :
    Keeps P (resolveTransactionHash O response) := by
  cases response with
  | sendTransaction hash expiration =>
    refine Keeps.bind ?_ fun _ => .ret _
    exact (keeps_awaitFinalized hP _ _).bind fun _ => .ite (.fail _) (.ret _)
  | transactionInfo info | unexpected bytes => exact .fail _

theorem keeps_checkTransactionInfo : Keeps P (checkTransactionInfo O) :=
  (keeps_effect hP _).bind fun
    | .transactionInfo _ => .ret _
    | .sendTransaction .. => .fail _
    | .unexpected _ => .fail _

theorem keeps_sendTransaction (hsubmitted : ∀ w, P (submitted O w) = P w) :
    Keeps P (sendTransaction O) :=
  (keeps_effect hP _).bind fun _ => (keeps_effect hP _).bind fun _ =>
    ((keeps_tick hP).bind fun _ => (Keeps.act hsubmitted).bind fun _ => keeps_lift _).bind fun _ =>
      (keeps_resolveTransactionHash hP _).bind fun _ => keeps_checkTransactionInfo hP

theorem keeps_backup (hbackup : ∀ w, P (backedUp w) = P w) : Keeps P (backup O) :=
  (keeps_effect hP _).bind fun _ => .act hbackup

theorem keeps_toEncryptedFile
    (hidentity : ∀ w identity, P { w with files := { w.files with identity } } = P w)
    (identity : NodeIdentity) : Keeps P (toEncryptedFile O identity) :=
  (keeps_effect hP _).bind fun _ => .act fun w => hidentity w _

theorem keeps_writePublicIdentity
    (hpublic : ∀ w publicIdentity, P { w with files := { w.files with publicIdentity } } = P w)
    (identity : NodeIdentity) : Keeps P (writePublicIdentity O identity) :=
  (keeps_effect hP _).bind fun _ => .act fun w => hpublic w _

end

/-! ## The end of a command -/

/-- The part of a command from the new identity on. -/
def rotate (O : Outcomes) (identity : NodeIdentity) : Cli CliTransactionInfo := do
  let txnInfo ← sendTransaction O
  backup O
  toEncryptedFile O identity
  writePublicIdentity O identity
  return txnInfo

/-- Whether the network has accepted the transaction is decided when it is submitted. -/
theorem accepted_submit_iff {w : World} (hw : ¬ w.accepted = true) :
    (after (submit O) w).accepted = true ↔ 0 < w.effectsLeft ∧ O.accepts = true := by
  unfold submit after
  rw [bind_apply, tick_eq]
  by_cases h0 : w.effectsLeft = 0
  · rw [if_pos h0]
    exact ⟨fun h => absurd h hw, fun h => absurd h0 (Nat.pos_iff_ne_zero.1 h.1)⟩
  · rw [if_neg h0]
    cases O.sendReply <;> exact ⟨fun h => ⟨Nat.pos_of_ne_zero h0, h⟩, fun h => h.2⟩

theorem accepted_rotate_iff {identity : NodeIdentity} {w : World} (hw : ¬ w.accepted = true) :
    (after (rotate O identity) w).accepted = true ↔
      O.signerProfileToSend = .ok () ∧ O.gasParameters = .ok () ∧ 3 ≤ w.effectsLeft ∧
        O.accepts = true := by
  have hP : Untimed fun w => w.accepted = true := fun _ _ => rfl
  -- what follows the submission does not matter
  have hfiles : ∀ info : CliTransactionInfo, Keeps (fun w : World => w.accepted = true)
      (backup O >>= fun _ => toEncryptedFile O identity >>= fun _ =>
        writePublicIdentity O identity >>= fun _ => pure info) := fun _ =>
    (keeps_backup hP fun _ => rfl).bind fun _ => (keeps_toEncryptedFile hP (fun _ _ => rfl) _).bind
      fun _ => (keeps_writePublicIdentity hP (fun _ _ => rfl) _).bind fun _ => .ret _
  have hawait : ∀ response : RpcResponse, Keeps (fun w : World => w.accepted = true)
      (resolveTransactionHash O response >>= fun _ => checkTransactionInfo O) := fun _ =>
    (keeps_resolveTransactionHash hP _).bind fun _ => keeps_checkTransactionInfo hP
  have hsubmit : ∀ w : World, ¬ w.accepted = true → ((after (submit O >>= fun response =>
      resolveTransactionHash O response >>= fun _ => checkTransactionInfo O) w).accepted = true ↔
        0 < w.effectsLeft ∧ O.accepts = true) := fun w hw =>
    (iff_of_eq (Keeps.after_bind_eq hawait w)).trans (accepted_submit_iff hw)
  refine (iff_of_eq (Keeps.after_bind_eq hfiles w)).trans ?_
  have hw1 : ¬ (spend 1 w).accepted = true := hw
  have hw2 : ¬ (spend 1 (spend 1 w)).accepted = true := hw
  unfold sendTransaction
  rw [after_effect_iff hP hw]
  constructor
  · rintro ⟨-, _, hprofile, h⟩
    obtain ⟨-, _, hgas, h⟩ := (after_effect_iff hP hw1).1 h
    obtain ⟨hleft, haccepts⟩ := (hsubmit _ hw2).1 h
    simp only [spend] at hleft
    exact ⟨hprofile, hgas, by omega, haccepts⟩
  · rintro ⟨hprofile, hgas, hleft, haccepts⟩
    refine ⟨by omega, (), hprofile, (after_effect_iff hP hw1).2 ⟨?_, (), hgas, (hsubmit _ hw2).2 ⟨?_, haccepts⟩⟩⟩
    · simp only [spend]; omega
    · simp only [spend]; omega

section
variable (secret : NodeIdentity → Secret) (key : Secret)

/-- A node identity file has the key. -/
def Stored (w : World) : Prop :=
  secret w.files.identity = key ∨ ∃ b ∈ w.files.backups, secret b = key

theorem stored_backedUp (w : World) : Stored secret key (backedUp w) = Stored secret key w := by
  apply propext
  unfold Stored backedUp
  simp only [List.mem_append, List.mem_singleton]
  constructor
  · rintro (h | ⟨b, hb | rfl, h⟩)
    · exact .inl h
    · exact .inr ⟨b, hb, h⟩
    · exact .inl h
  · exact fun h => h.imp_right fun ⟨b, hb, h⟩ => ⟨b, .inl hb, h⟩

end

theorem backup_ok_iff {w w' : World} {u : Unit} : backup O w = .ok u w' ↔
    O.backup = .ok () ∧ 0 < w.effectsLeft ∧ w' = backedUp (spend 1 w) := by
  unfold backup
  rw [effect_bind_ok_iff]
  constructor
  · rintro ⟨hpos, _, hr, ⟨⟩⟩
    exact ⟨hr, hpos, rfl⟩
  · rintro ⟨hr, hpos, rfl⟩
    exact ⟨hpos, (), hr, rfl⟩

theorem stored_rotate_iff {secret : NodeIdentity → Secret} {key : Secret} {identity : NodeIdentity}
    {w : World} (hidentity : secret identity = key) (hw : ¬ Stored secret key w) :
    Stored secret key (after (rotate O identity) w) ↔
      O.signerProfileToSend = .ok () ∧ O.gasParameters = .ok () ∧
        ∃ hash expiration k, O.sendReply = .ok (.sendTransaction hash expiration) ∧
          Succeeds O hash expiration k ∧ (∃ info, O.transactionInfo = .ok (.transactionInfo info)) ∧
          O.backup = .ok () ∧ O.writeIdentity = .ok () ∧ k + 7 ≤ w.effectsLeft := by
  have hP : Untimed (Stored secret key) := fun _ _ => rfl
  have hwrite : ∀ (w : World) (info : CliTransactionInfo), ¬ Stored secret key w →
      (Stored secret key (after (toEncryptedFile O identity >>= fun _ =>
        writePublicIdentity O identity >>= fun _ => pure info) w) ↔
          0 < w.effectsLeft ∧ O.writeIdentity = .ok ()) := by
    intro w info hw
    have hpublic : ∀ _ : Unit, Keeps (Stored secret key)
        (writePublicIdentity O identity >>= fun _ => pure info) := fun _ =>
      (keeps_writePublicIdentity hP (fun _ _ => rfl) _).bind fun _ => .ret _
    refine (iff_of_eq (Keeps.after_bind_eq hpublic w)).trans ?_
    unfold toEncryptedFile
    rw [after_effect_iff hP hw]
    exact ⟨fun ⟨hpos, _, hr, _⟩ => ⟨hpos, hr⟩, fun ⟨hpos, hr⟩ => ⟨hpos, (), hr, .inl hidentity⟩⟩
  have hw1 : ∀ k, ¬ Stored secret key (submitted O (spend k w)) := fun _ => hw
  unfold rotate
  rw [(keeps_sendTransaction hP fun _ => rfl).after_bind_iff hw]
  constructor
  · rintro ⟨info, w1, hsend, h⟩
    obtain ⟨hprofile, hgas, hash, expiration, k, hreply, hk, hinfo, -, rfl⟩ := sendTransaction_ok_iff.1 hsend
    obtain ⟨_, w2, hbacked, h⟩ := ((keeps_backup hP (stored_backedUp secret key)).after_bind_iff (hw1 _)).1 h
    obtain ⟨hbackup, -, rfl⟩ := backup_ok_iff.1 hbacked
    obtain ⟨hleft, hwrite⟩ := (hwrite _ info (by rw [stored_backedUp]; exact hw)).1 h
    simp only [backedUp, submitted, spend] at hleft
    exact ⟨hprofile, hgas, hash, expiration, k, hreply, hk, ⟨info, hinfo⟩, hbackup, hwrite, by omega⟩
  · rintro ⟨hprofile, hgas, hash, expiration, k, hreply, hk, ⟨info, hinfo⟩, hbackup, hwritten, hleft⟩
    refine ⟨info, _, sendTransaction_ok_iff.2
      ⟨hprofile, hgas, hash, expiration, k, hreply, hk, hinfo, by omega, rfl⟩, ?_⟩
    refine ((keeps_backup hP (stored_backedUp secret key)).after_bind_iff (hw1 _)).2
      ⟨(), _, backup_ok_iff.2 ⟨hbackup, ?_, rfl⟩, ?_⟩
    · simp only [submitted, spend]; omega
    · refine (hwrite _ info (by rw [stored_backedUp]; exact hw)).2 ⟨?_, hwritten⟩
      simp only [backedUp, submitted, spend]; omega

/-! ## The commands -/

/-- The commands that install a new key. -/
inductive Command where
  | rotateConsensusKey
  | rotateNetworkAddress (socketAddr dns : Option String)
  deriving DecidableEq, Repr

namespace Command

def execute (O : Outcomes) : Command → Cli CliTransactionInfo
  | .rotateConsensusKey => IdentityRotation.rotateConsensusKey O
  | .rotateNetworkAddress socketAddr dns => IdentityRotation.rotateNetworkAddress O ⟨socketAddr, dns, true⟩

/-- The secret of the key that the command installs. -/
def secret : Command → NodeIdentity → Secret
  | .rotateConsensusKey => NodeIdentity.consensus
  | .rotateNetworkAddress .. => NodeIdentity.networkKey

/-- The command makes a new identity from the one in the file. -/
def Makes (O : Outcomes) (identity new : NodeIdentity) : Command → Prop
  | .rotateConsensusKey =>
    O.newPublicKey = .ok () ∧ new = { identity with consensus := O.newSecret }
  | .rotateNetworkAddress socketAddr dns =>
    newNetworkIdentity O ⟨socketAddr, dns, true⟩ identity = .ok new ∧ O.encodeAddress = .ok ()

end Command

theorem networkKey_newNetworkIdentity {socketAddr dns : Option String} {identity new : NodeIdentity}
    (h : newNetworkIdentity O ⟨socketAddr, dns, true⟩ identity = .ok new) :
    new.networkKey = O.newSecret := by
  unfold newNetworkIdentity at h
  dsimp only at h
  split at h
  · cases h; rfl
  · cases h
  · split at h <;> cases h
    rfl
  · split at h
    · split at h <;> cases h
      rfl
    · cases h

theorem secret_of_makes {cmd : Command} {identity new : NodeIdentity}
    (h : cmd.Makes O identity new) : cmd.secret new = O.newSecret := by
  cases cmd with
  | rotateConsensusKey => rw [h.2]; rfl
  | rotateNetworkAddress socketAddr dns => exact networkKey_newNetworkIdentity h.1

theorem fromEncryptedFile_ok_iff {w w' : World} {identity : NodeIdentity} :
    fromEncryptedFile O w = .ok identity w' ↔ O.readIdentity = .ok () ∧ 0 < w.effectsLeft ∧
      identity = w.files.identity ∧ w' = spend 1 w := by
  unfold fromEncryptedFile
  rw [effect_bind_ok_iff]
  constructor
  · rintro ⟨hpos, _, hr, ⟨⟩⟩
    exact ⟨hr, hpos, rfl, rfl⟩
  · rintro ⟨hr, hpos, rfl, rfl⟩
    exact ⟨hpos, (), hr, rfl⟩

theorem after_fromEncryptedFile_iff {β : Type} {P : World → Prop} (hP : Untimed P)
    {k : NodeIdentity → Cli β} {w : World} (hw : ¬ P w) :
    P (after (fromEncryptedFile O >>= k) w) ↔ 0 < w.effectsLeft ∧ O.readIdentity = .ok () ∧
      P (after (k w.files.identity) (spend 1 w)) := by
  have hkeeps : Keeps P (fromEncryptedFile O) := (keeps_effect hP _).bind fun _ => .read fun _ => .ret _
  rw [hkeeps.after_bind_iff hw]
  constructor
  · rintro ⟨identity, w', h, hk⟩
    obtain ⟨hr, hpos, rfl, rfl⟩ := fromEncryptedFile_ok_iff.1 h
    exact ⟨hpos, hr, hk⟩
  · rintro ⟨hpos, hr, hk⟩
    exact ⟨_, _, fromEncryptedFile_ok_iff.2 ⟨hr, hpos, rfl, rfl⟩, hk⟩

theorem after_execute_iff {P : World → Prop} (hP : Untimed P) (cmd : Command) {w : World}
    (hw : ¬ P w) : P (after (cmd.execute O) w) ↔
      O.signerProfile = .ok () ∧ O.poolAddress = .ok () ∧ O.readIdentity = .ok () ∧
        2 ≤ w.effectsLeft ∧ ∃ new, cmd.Makes O w.files.identity new ∧
          P (after (rotate O new) (spend 2 w)) := by
  have hw1 : ¬ P (spend 1 w) := by rw [show P (spend 1 w) = P w from hP w _]; exact hw
  have hw2 : ¬ P (spend 2 w) := by rw [show P (spend 2 w) = P w from hP w _]; exact hw
  cases cmd with
  | rotateConsensusKey =>
    have hkey : ∀ u, O.newPublicKey.mapError CliError.consensusKey = .ok u ↔ O.newPublicKey = .ok () := by
      intro u
      cases O.newPublicKey with
      | ok u => exact ⟨fun _ => rfl, fun _ => rfl⟩
      | error e => exact ⟨nofun, nofun⟩
    show P (after (rotateConsensusKey O) w) ↔ _
    unfold rotateConsensusKey
    rw [after_effect_iff hP hw]
    simp only [after_lift_iff hw1, after_fromEncryptedFile_iff hP hw1, spend_spend,
      after_lift_iff hw2, hkey, Command.Makes]
    constructor
    · rintro ⟨-, _, hprofile, _, hpool, hleft, hread, _, hnew, h⟩
      rw [effectsLeft_spend] at hleft
      exact ⟨hprofile, hpool, hread, by omega, _, ⟨hnew, rfl⟩, h⟩
    · rintro ⟨hprofile, hpool, hread, hleft, _, ⟨hnew, rfl⟩, h⟩
      refine ⟨by omega, (), hprofile, (), hpool, ?_, hread, (), hnew, h⟩
      rw [effectsLeft_spend]; omega
  | rotateNetworkAddress socketAddr dns =>
    show P (after (rotateNetworkAddress O ⟨socketAddr, dns, true⟩) w) ↔ _
    unfold rotateNetworkAddress
    rw [after_effect_iff hP hw]
    simp only [after_fromEncryptedFile_iff hP hw1, spend_spend, after_lift_iff hw2, Command.Makes]
    constructor
    · rintro ⟨-, _, hprofile, hleft, hread, _, hpool, new, hnew, _, hencode, h⟩
      rw [effectsLeft_spend] at hleft
      exact ⟨hprofile, hpool, hread, by omega, new, ⟨hnew, hencode⟩, h⟩
    · rintro ⟨hprofile, hpool, hread, hleft, new, ⟨hnew, hencode⟩, h⟩
      refine ⟨by omega, (), hprofile, ?_, hread, (), hpool, new, hnew, (), hencode, h⟩
      rw [effectsLeft_spend]; omega

section
variable (cmd : Command) (O : Outcomes) (w : World)

/-- Everything goes well up to the submission of the transaction. -/
structure Submits : Prop where
  signerProfile : O.signerProfile = .ok ()
  poolAddress : O.poolAddress = .ok ()
  readIdentity : O.readIdentity = .ok ()
  makes : ∃ new, cmd.Makes O w.files.identity new
  signerProfileToSend : O.signerProfileToSend = .ok ()
  gasParameters : O.gasParameters = .ok ()
  effects : 5 ≤ w.effectsLeft

/-- Everything goes well from the submission to the write of the identity file: the network answers
with the hash, poll `k` is the first to find the transaction final and finds success, the transaction
can be looked up, the file can be backed up and written, and the process lives until then. -/
structure Finishes (hash : Hash) (expiration k : Nat) : Prop where
  sendReply : O.sendReply = .ok (.sendTransaction hash expiration)
  succeeds : Succeeds O hash expiration k
  transactionInfo : ∃ info, O.transactionInfo = .ok (.transactionInfo info)
  backup : O.backup = .ok ()
  writeIdentity : O.writeIdentity = .ok ()
  effects : k + 9 ≤ w.effectsLeft

end

theorem accepted_execute_iff (cmd : Command) {w : World} (hw : ¬ w.accepted = true) :
    (after (cmd.execute O) w).accepted = true ↔ Submits cmd O w ∧ O.accepts = true := by
  refine (after_execute_iff (P := fun w => w.accepted = true) (fun _ _ => rfl) cmd hw).trans ?_
  have hw2 : ¬ (spend 2 w).accepted = true := hw
  simp only [accepted_rotate_iff hw2, effectsLeft_spend]
  constructor
  · rintro ⟨h1, h2, h3, h4, new, h5, h6, h7, h8, h9⟩
    exact ⟨⟨h1, h2, h3, ⟨new, h5⟩, h6, h7, by omega⟩, h9⟩
  · rintro ⟨⟨h1, h2, h3, ⟨new, h5⟩, h6, h7, h8⟩, h9⟩
    exact ⟨h1, h2, h3, by omega, new, h5, h6, h7, by omega, h9⟩

theorem stored_execute_iff (cmd : Command) {w : World} (hw : ¬ Stored cmd.secret O.newSecret w) :
    Stored cmd.secret O.newSecret (after (cmd.execute O) w) ↔
      Submits cmd O w ∧ ∃ hash expiration k, Finishes O w hash expiration k := by
  rw [after_execute_iff (fun _ _ => rfl) cmd hw]
  have hw2 : ¬ Stored cmd.secret O.newSecret (spend 2 w) := hw
  constructor
  · rintro ⟨h1, h2, h3, h4, new, h5, h⟩
    obtain ⟨h6, h7, hash, expiration, k, hreply, hk, hinfo, hbackup, hwrite, hleft⟩ :=
      (stored_rotate_iff (secret_of_makes h5) hw2).1 h
    rw [effectsLeft_spend] at hleft
    exact ⟨⟨h1, h2, h3, ⟨new, h5⟩, h6, h7, by omega⟩, hash, expiration, k, hreply, hk, hinfo, hbackup,
      hwrite, by omega⟩
  · rintro ⟨⟨h1, h2, h3, ⟨new, h5⟩, h6, h7, h8⟩, hash, expiration, k, hreply, hk, hinfo, hbackup, hwrite, hleft⟩
    refine ⟨h1, h2, h3, by omega, new, h5, (stored_rotate_iff (secret_of_makes h5) hw2).2
      ⟨h6, h7, hash, expiration, k, hreply, hk, hinfo, hbackup, hwrite, ?_⟩⟩
    rw [effectsLeft_spend]; omega

/-- **When a rotation keeps the key.** A key that was not stored before is stored at the end of the
command whenever its transaction was accepted and is executed, exactly if a transaction that is
submitted, accepted and executed is followed by everything else up to the write. -/
theorem rotation_keeps_key_iff (cmd : Command) (O : Outcomes) (w : World) (executed : Prop)
    (hnew : ¬ Stored cmd.secret O.newSecret w) (hw : w.accepted = false) :
    ((after (cmd.execute O) w).accepted = true → executed →
      Stored cmd.secret O.newSecret (after (cmd.execute O) w)) ↔
    (Submits cmd O w → O.accepts = true → executed →
      ∃ hash expiration k, Finishes O w hash expiration k) := by
  rw [accepted_execute_iff cmd (by simp [hw]), stored_execute_iff cmd hnew]
  constructor
  · intro h hs ha he
    exact (h ⟨hs, ha⟩ he).2
  · rintro h ⟨hs, ha⟩ he
    exact ⟨hs, h hs ha he⟩

def smooth : Outcomes where
  signerProfile := .ok ()
  poolAddress := .ok ()
  readIdentity := .ok ()
  newSecret := [9]
  newPublicKey := .ok ()
  encodeAddress := .ok ()
  parseSocketAddr := some
  parsePort _ := some 35000
  signerProfileToSend := .ok ()
  gasParameters := .ok ()
  accepts := true
  sendReply := .ok (.sendTransaction 7 100)
  network :=
    { newPoll := fun _ => .ok ()
      poll := fun _ => .ok (.transactionInfo ⟨[], .success⟩)
      latency := fun _ => 20000000
      oversleep := fun _ => 0
      clock := fun nanos => 50 * 1000000000 + nanos
      showHash := fun _ => ""
      debugTransactionInfo := fun _ => "" }
  sentAt := 0
  retryDelay := 1000000000
  transactionInfo := .ok (.transactionInfo ⟨[], .success⟩)
  backup := .ok ()
  writeIdentity := .ok ()
  writePublicIdentity := .ok ()
  debugPayload := ""
  showStatus _ := ""

def node : World := ⟨20, ⟨⟨[1], [2], .dns "example.com" 35000⟩, [], none⟩, false⟩

theorem not_stored_node (cmd : Command) : ¬ Stored cmd.secret smooth.newSecret node := by
  rintro (h | ⟨b, hb, -⟩)
  · cases cmd with
    | rotateConsensusKey => exact absurd h (by decide)
    | rotateNetworkAddress socketAddr dns =>
      exact absurd (show ([2] : Secret) = [9] from h) (by decide)
  · cases hb

theorem rotation_keeps_key_iff_smooth :
    (after (Command.rotateConsensusKey.execute smooth) node).accepted = true ∧
    (((after (Command.rotateConsensusKey.execute smooth) node).accepted = true → True →
      Stored Command.rotateConsensusKey.secret smooth.newSecret
        (after (Command.rotateConsensusKey.execute smooth) node)) ↔
    (Submits .rotateConsensusKey smooth node → smooth.accepts = true → True →
      ∃ hash expiration k, Finishes smooth node hash expiration k)) :=
  ⟨rfl, rotation_keeps_key_iff .rotateConsensusKey smooth node True (not_stored_node _) rfl⟩

/-- The transaction is accepted and stays pending for longer than the command waits; the clock is at
the end of the wait after the first poll. -/
def late : Outcomes :=
  { smooth with network := { smooth.network with
      poll := fun _ => .ok (.transactionInfo ⟨[], .pending⟩)
      clock := fun nanos => 110 * 1000000000 + nanos } }

theorem not_stored_of_files_eq {cmd : Command} (h : (after (cmd.execute late) node).files = node.files) :
    ¬ Stored cmd.secret late.newSecret (after (cmd.execute late) node) := by
  unfold Stored
  rw [h]
  exact not_stored_node cmd

/-- Both commands then end without the key on disk, and nothing keeps the chain from executing the
transaction later. -/
theorem accepted_key_is_lost :
    ((after (Command.rotateConsensusKey.execute late) node).accepted = true ∧
      ¬ Stored Command.rotateConsensusKey.secret late.newSecret
        (after (Command.rotateConsensusKey.execute late) node)) ∧
    (after ((Command.rotateNetworkAddress none none).execute late) node).accepted = true ∧
      ¬ Stored (Command.rotateNetworkAddress none none).secret late.newSecret
        (after ((Command.rotateNetworkAddress none none).execute late) node) :=
  ⟨⟨rfl, not_stored_of_files_eq rfl⟩, rfl, not_stored_of_files_eq rfl⟩

end Node.IdentityRotation.Proof
