import Mathlib.Algebra.BigOperators.Group.List.Basic
import Mathlib.Algebra.GroupWithZero.Nat
import Mathlib.Tactic.Common
import SupraL1.Lib.Journal
import SupraL1.Rest.Minting

/-!
# What preparing the minters costs

`Effect` says what a step of the faucet can do. The root account funds a minter with a transaction that
is issued again only when the archive has reported that the one before it has not succeeded. So of the
transactions that fund minters, all but one for each minter that was asked for are known to have failed,
whatever fails, is dropped or runs out of time (`budget`). The delegates of the faucet are accounts for
which all three transactions were reported as successful, one after the other (`Trail`), and only these
mint.
-/

namespace Rest.Minting.Proof

open Consensus (Hash)
open Delegates (MinterAccount DelegateState Call)
open Move Pool

variable {E : Env} {input : Input} {s s' : Shared} {p p' : Process} {new : List Process}
  {log log' : List Event} {tx : RawTransaction} {m : MinterAccount}

/-! ## What a step does -/

/-- The minters that a process holds: the one it uses, and those that were prepared. -/
def held : Process → List MinterAccount
  | .call (.dispatching _ _ minter) | .call (.releasing _ _ minter) | .call (.gettingFree _ minter)
  | .sending _ _ minter _ | .waiting _ minter _ _ _ _ => [minter]
  | .preparing q => q.addresses
  | .ensuring q minter _ _ _ => minter :: q.addresses
  | .call (.assessing ..) | .call (.requesting ..) | .call (.processing ..) | .call (.returned ..)
  | .call (.waiting ..) | .call .ended | .call (.panicked _) | .ended | .panicked _ => []

def Over : Process → Prop
  | .ended | .panicked _ | .call (.panicked _) | .call .ended => True
  | _ => False

/-- What a step can do. -/
inductive Effect (E : Env) (input : Input) (s : Shared) :
    Process → Shared → Process → List Process → Prop where
  | lock {d d' : Delegates.Process} (hd : held (.call d) = []) (hd' : held (.call d') = []) :
      Effect E input s (.call d) s (.call d') []
  | take {call : Call} {i : Nat} {minter : MinterAccount}
      (h : s.delegates[i]? = some (some (.free minter))) :
      Effect E input s (.call (.requesting call i))
        { s with delegates := s.delegates.set i (some (.busy minter call.account)) }
        (.call (.dispatching call i minter)) []
  | issue {call : Call} {i : Nat} {minter : MinterAccount} {tx : RawTransaction}
      (h : issueTx input s.clock (.minterScript call.account E.quantsGrantedPerRequest) minter = .ok tx) :
      Effect E input s (.call (.dispatching call i minter)) (s.record (.issued tx))
        (.sending call i minter tx) []
  | refuse {call : Call} {i : Nat} {minter : MinterAccount} :
      Effect E input s (.call (.dispatching call i minter)) s (.call (.releasing call i minter)) []
  | unsent {call : Call} {i : Nat} {minter : MinterAccount} {tx : RawTransaction} :
      Effect E input s (.sending call i minter tx) s (.call (.releasing call i minter)) []
  | sent {call call' : Call} {i wakeAt : Nat} {minter : MinterAccount} {tx : RawTransaction}
      {txHash : Hash} :
      Effect E input s (.sending call i minter tx) (s.record (.acknowledged tx))
        (.call (.processing call' txHash 0 0))
        [.waiting i minter call.account tx (s.clock + txMaxWait) wakeAt]
  | release {call : Call} {i : Nat} {minter : MinterAccount} :
      Effect E input s (.call (.releasing call i minter))
        { s with delegates := s.delegates.set i (some (.free minter)) }
        (.call (.requesting call (i + 1))) []
  | wait {i : Nat} {minter : MinterAccount} {account : AccountAddress} {tx : RawTransaction}
      {deadline wakeAt wakeAt' : Nat} :
      Effect E input s (.waiting i minter account tx deadline wakeAt) s
        (.waiting i minter account tx deadline wakeAt') []
  | outwaited {i : Nat} {minter : MinterAccount} {account : AccountAddress} {tx : RawTransaction}
      {deadline wakeAt : Nat} (h : deadline ≤ s.clock) :
      Effect E input s (.waiting i minter account tx deadline wakeAt) s (.call (.gettingFree i minter)) []
  | waited {i : Nat} {minter : MinterAccount} {account : AccountAddress} {tx : RawTransaction}
      {deadline wakeAt : Nat} {result : Except String TxExecutionStatus} :
      Effect E input s (.waiting i minter account tx deadline wakeAt) (s.record (.reported tx result))
        (.call (.gettingFree i minter)) []
  | free {i : Nat} {minter : MinterAccount} :
      Effect E input s (.call (.gettingFree i minter))
        { s with delegates := s.delegates.set i (some (.free minter)) } (.call .ended) []
  | finish {addresses : List MinterAccount} {failures : List MinterAccountError} :
      Effect E input s (.preparing ⟨0, addresses, failures⟩)
        { s with delegates := addresses.map .new } .ended []
  | skip {left : Nat} {addresses : List MinterAccount} {failures : List MinterAccountError}
      {e : MinterAccountError} :
      Effect E input s (.preparing ⟨left + 1, addresses, failures⟩) s
        (.preparing ⟨left, addresses, failures ++ [e]⟩) []
  | generate {left deadline : Nat} {addresses : List MinterAccount} {failures : List MinterAccountError}
      {minter : MinterAccount} :
      Effect E input s (.preparing ⟨left + 1, addresses, failures⟩) (s.record (.generated minter))
        (.ensuring ⟨left, addresses, failures⟩ minter .fund deadline .issuing) []
  | ensureIssue {q : Preparation} {minter : MinterAccount} {stage : Stage} {deadline : Nat}
      {tx : RawTransaction}
      (h : issueTx input s.clock (stage.txPayload minter) (stage.senderAccount E minter) = .ok tx) :
      Effect E input s (.ensuring q minter stage deadline .issuing) (s.record (.issued tx))
        (.ensuring q minter stage deadline (.sending tx)) []
  | ensureSent {q : Preparation} {minter : MinterAccount} {stage : Stage} {deadline wakeAt : Nat}
      {tx : RawTransaction} :
      Effect E input s (.ensuring q minter stage deadline (.sending tx)) (s.record (.acknowledged tx))
        (.ensuring q minter stage deadline (.waiting tx wakeAt)) []
  | giveUp {q : Preparation} {minter : MinterAccount} {stage : Stage} {deadline : Nat} {t : Ensuring}
      {e : MinterAccountError} :
      Effect E input s (.ensuring q minter stage deadline t) s (q.fail e) []
  | ensureWait {q : Preparation} {minter : MinterAccount} {stage : Stage} {deadline wakeAt wakeAt' : Nat}
      {tx : RawTransaction} :
      Effect E input s (.ensuring q minter stage deadline (.waiting tx wakeAt)) s
        (.ensuring q minter stage deadline (.waiting tx wakeAt')) []
  | succeeded {q : Preparation} {minter : MinterAccount} {stage : Stage} {deadline wakeAt : Nat}
      {tx : RawTransaction} :
      Effect E input s (.ensuring q minter stage deadline (.waiting tx wakeAt))
        (s.record (.reported tx (.ok .success))) (advance s q minter stage) []
  | failed {q : Preparation} {minter : MinterAccount} {stage : Stage} {deadline wakeAt : Nat}
      {tx : RawTransaction} {status : TxExecutionStatus} (hstatus : ¬ status = .success) :
      Effect E input s (.ensuring q minter stage deadline (.waiting tx wakeAt))
        (s.record (.reported tx (.ok status))) (.ensuring q minter stage deadline .issuing) []
  | unreadable {q : Preparation} {minter : MinterAccount} {stage : Stage} {deadline wakeAt : Nat}
      {tx : RawTransaction} {message : String} {e : MinterAccountError} :
      Effect E input s (.ensuring q minter stage deadline (.waiting tx wakeAt))
        (s.record (.reported tx (.error message))) (q.fail e) []
  | stop {p p' : Process} (h : Over p') : Effect E input s p s p' []

theorem tryFund_effect {call : Call} {i : Nat} {minter : MinterAccount}
    (h : tryFund E input s call i minter = some (s', p', new)) :
    Effect E input s (.call (.dispatching call i minter)) s' p' new := by
  unfold tryFund at h
  split at h
  · rename_i tx hissue
    cases h
    exact .issue hissue
  · cases h
    exact .stop trivial
  · cases h
    exact .refuse

theorem sent_effect {call : Call} {i : Nat} {minter : MinterAccount}
    (h : sent E input s call i minter tx = some (s', p', new)) :
    Effect E input s (.sending call i minter tx) s' p' new := by
  unfold sent at h
  split at h
  · cases h
    exact .unsent
  · cases h
    exact .sent

theorem wait_effect {i : Nat} {minter : MinterAccount} {account : AccountAddress} {deadline wakeAt : Nat}
    (h : wait E input s i minter account tx deadline wakeAt = some (s', p', new)) :
    Effect E input s (.waiting i minter account tx deadline wakeAt) s' p' new := by
  unfold wait at h
  split at h
  · cases h
    exact .stop trivial
  · split at h
    · rename_i hdeadline
      cases h
      exact .outwaited hdeadline
    · cases h
      exact .wait
  · split at h
    · cases h
      exact .wait
    · split at h
      · cases h
        exact .wait
      · cases h
        exact .waited

theorem prepare_effect (q : Preparation) :
    Effect E input s (.preparing q) (prepare input s q).1 (prepare input s q).2 [] := by
  obtain ⟨left, addresses, failures⟩ := q
  unfold prepare
  cases left with
  | zero => exact .finish
  | succ left =>
    dsimp only
    split
    · exact .skip
    · exact .generate

theorem ensureTx_effect (q : Preparation) (minter : MinterAccount) (stage : Stage) (deadline : Nat)
    (t : Ensuring) :
    Effect E input s (.ensuring q minter stage deadline t) (ensureTx E input s q minter stage deadline t).1
      (ensureTx E input s q minter stage deadline t).2 [] := by
  cases t with
  | issuing =>
    simp only [ensureTx]
    split
    · rename_i tx h
      exact .ensureIssue h
    · exact .stop trivial
    · exact .giveUp
  | sending tx =>
    simp only [ensureTx]
    split
    · exact .giveUp
    · split
      · exact .giveUp
      · exact .ensureSent
  | waiting tx wakeAt =>
    simp only [ensureTx]
    split
    · exact .giveUp
    · split
      · exact .ensureWait
      · split
        · exact .ensureWait
        · rename_i result _
          cases result with
          | error message => exact .unreadable
          | ok status =>
            cases status with
            | success => exact .succeeded
            | fail | invalid | pending | pendingAfterExecution => exact .failed (by decide)

theorem lock_effect {d d' : Delegates.Process} {delegates : List DelegateState}
    {forked : List Delegates.Process} (hd : ∀ call i minter, d ≠ .dispatching call i minter)
    (h : Delegates.step locked s.delegates d = some (delegates, d', forked)) :
    forked = [] ∧ Effect E input s (.call d) { s with delegates := delegates } (.call d') [] := by
  cases d with
  | dispatching call i minter => exact absurd rfl (hd call i minter)
  | assessing call i n =>
    simp only [Delegates.step] at h
    split at h
    · split at h <;> cases h
      · exact ⟨rfl, .lock rfl rfl⟩
      · exact ⟨rfl, .lock rfl rfl⟩
    · split at h <;> cases h
      · exact ⟨rfl, .lock rfl rfl⟩
      · exact ⟨rfl, .lock rfl rfl⟩
  | requesting call i =>
    simp only [Delegates.step] at h
    split at h <;> cases h
    · exact ⟨rfl, .lock rfl rfl⟩
    · exact ⟨rfl, .lock rfl rfl⟩
    · exact ⟨rfl, .lock rfl rfl⟩
    · rename_i hfree
      exact ⟨rfl, .take hfree⟩
  | releasing call i minter =>
    cases h
    exact ⟨rfl, .release⟩
  | processing call txHash i n =>
    simp only [Delegates.step] at h
    split at h
    · split at h <;> cases h
      · exact ⟨rfl, .lock rfl rfl⟩
      · exact ⟨rfl, .lock rfl rfl⟩
    · cases h
      exact ⟨rfl, .lock rfl rfl⟩
  | waiting i minter account txHash =>
    cases h
    exact ⟨rfl, .stop trivial⟩
  | gettingFree i minter =>
    simp only [Delegates.step] at h
    split at h <;> cases h
    · exact ⟨rfl, .stop trivial⟩
    · exact ⟨rfl, .stop trivial⟩
    · exact ⟨rfl, .stop trivial⟩
    · exact ⟨rfl, .free⟩
  | returned call result => cases h
  | ended => cases h
  | panicked message => cases h

theorem stepAt_effect (h : stepAt E input s p = some (s', p', new)) : Effect E input s p s' p' new := by
  cases p with
  | call d =>
    cases d with
    | dispatching call i minter => exact tryFund_effect h
    | _ =>
      simp only [stepAt] at h
      obtain ⟨⟨delegates, d', forked⟩, hlock, heq⟩ := Option.map_eq_some_iff.1 h
      cases heq
      obtain ⟨rfl, heffect⟩ := lock_effect (fun _ _ _ heq => by cases heq) hlock
      exact heffect
  | sending call i minter tx => exact sent_effect h
  | waiting i minter account tx deadline wakeAt => exact wait_effect h
  | preparing q =>
    simp only [stepAt] at h
    split at h <;> cases h
    · exact .stop trivial
    · exact prepare_effect q
    · exact prepare_effect q
  | ensuring q minter stage deadline t =>
    simp only [stepAt] at h
    split at h <;> cases h
    · exact .stop trivial
    · exact ensureTx_effect ..
    · exact ensureTx_effect ..
  | ended => cases h
  | panicked message => cases h

theorem log_effect (h : Effect E input s p s' p' new) : s.log <+: s'.log := by
  cases h with
  | issue | sent | waited | generate | ensureIssue | ensureSent | succeeded | failed | unreadable =>
    exact List.prefix_append _ _
  | _ => exact List.prefix_refl _

theorem log_step {c c' : Config Shared Process} {a : Act AccountAddress Input}
    (h : Step (faucet E) c a c') : c.shared.log <+: c'.shared.log := by
  cases h with
  | idle => exact List.prefix_refl _
  | start account => exact List.prefix_refl _
  | turn hprocs hturn =>
    have hlog := log_effect (stepAt_effect hturn)
    exact hlog

/-! ## What the minters have been given -/

/-- The transaction of a stage. -/
def IsFor (E : Env) (minter : MinterAccount) (stage : Stage) (tx : RawTransaction) : Prop :=
  tx.sender = stage.senderAccount E minter ∧ tx.payload = stage.txPayload minter

/-- An account was generated, and the transactions of some stages were issued and reported as
successful, one after the other. -/
inductive Trail (E : Env) (minter : MinterAccount) : List Stage → List Event → Prop where
  | generated : Trail E minter [] [.generated minter]
  | succeeded {stages : List Stage} {trail : List Event} {stage : Stage} {tx : RawTransaction}
      (before : Trail E minter stages trail) (hfor : IsFor E minter stage tx) :
      Trail E minter (stages ++ [stage]) (trail ++ [.issued tx, .reported tx (.ok .success)])

/-- The log has the trail of these stages, with other events between. -/
def Done (E : Env) (log : List Event) (minter : MinterAccount) (stages : List Stage) : Prop :=
  ∃ trail, Trail E minter stages trail ∧ trail.Sublist log

/-- The account was funded, was delegated the capability to mint, and has claimed it. -/
def Capable (E : Env) (log : List Event) (minter : MinterAccount) : Prop :=
  Done E log minter [.fund, .delegate, .claim]

def before : Stage → List Stage
  | .fund => []
  | .delegate => [.fund]
  | .claim => [.fund, .delegate]

/-- The transaction was issued when the stages before its own were done. -/
def Underway (E : Env) (log : List Event) (minter : MinterAccount) (stage : Stage) (tx : RawTransaction) :
    Prop :=
  IsFor E minter stage tx ∧
    ∃ trail, Trail E minter (before stage) trail ∧ (trail ++ [Event.issued tx]).Sublist log

def isFunding (tx : RawTransaction) : Bool :=
  match tx.payload with
  | .supraAccountTransfer .. => true
  | .supraCoinDelegateMintCapability _ | .supraCoinClaimMintCapability | .minterScript .. => false

/-- The minters of a process are capable, and its transaction is the one of its task. -/
def Backed (E : Env) (log : List Event) : Process → Prop
  | .sending _ _ minter tx | .waiting _ minter _ tx _ _ => Capable E log minter ∧ isFunding tx = false
  | .ensuring q minter stage _ t =>
    (∀ m ∈ q.addresses, Capable E log m) ∧
      match t with
      | .issuing => Done E log minter (before stage)
      | .sending tx | .waiting tx _ => Underway E log minter stage tx
  | p => ∀ m ∈ held p, Capable E log m

section
variable (h : log <+: log')
include h

theorem Done.mono {stages : List Stage} (hd : Done E log m stages) : Done E log' m stages := by
  obtain ⟨trail, htrail, hsub⟩ := hd
  exact ⟨trail, htrail, hsub.trans h.sublist⟩

theorem Underway.mono {stage : Stage} (hu : Underway E log m stage tx) : Underway E log' m stage tx := by
  obtain ⟨hfor, trail, htrail, hsub⟩ := hu
  exact ⟨hfor, trail, htrail, hsub.trans h.sublist⟩

theorem Backed.mono (hp : Backed E log p) : Backed E log' p := by
  cases p with
  | sending => exact ⟨hp.1.mono h, hp.2⟩
  | waiting => exact ⟨hp.1.mono h, hp.2⟩
  | ensuring q minter stage deadline t =>
    refine ⟨fun m hm => (hp.1 m hm).mono h, ?_⟩
    cases t with
    | issuing => exact hp.2.mono h
    | sending | waiting => exact hp.2.mono h
  | _ => exact fun m hm => (hp m hm).mono h

end

theorem backed_of_over (h : Over p) : Backed E log p := by
  unfold Over at h
  split at h
  all_goals first | exact absurd h id | exact fun m hm => absurd hm List.not_mem_nil

/-- A transaction that is reported as successful ends its stage. -/
theorem Underway.succeeded {stage : Stage} (h : Underway E log m stage tx) :
    Done E (log ++ [.reported tx (.ok .success)]) m (before stage ++ [stage]) := by
  obtain ⟨hfor, trail, htrail, hsub⟩ := h
  refine ⟨_, htrail.succeeded hfor, ?_⟩
  have happend := hsub.append (List.Sublist.refl [Event.reported tx (.ok .success)])
  rwa [List.append_assoc] at happend

theorem backed_advance {q : Preparation} {stage : Stage} (haddresses : ∀ m ∈ q.addresses, Capable E log m)
    (hdone : Done E log m (before stage ++ [stage])) : Backed E log (advance s q m stage) := by
  cases stage with
  | fund | delegate => exact ⟨haddresses, hdone⟩
  | claim =>
    intro m' hm'
    rcases List.mem_append.1 hm' with hm' | hm'
    · exact haddresses m' hm'
    · rw [List.mem_singleton.1 hm']
      exact hdone

theorem issueTx_spec {payload : TransactionPayload} {account : AccountAddress} {now : Nat}
    (h : issueTx input now payload account = .ok tx) :
    tx.sender = account ∧ tx.payload = payload ∧
      tx.expirationTimestampSecs = now / second + faucetTransactionExpirySeconds := by
  unfold issueTx at h
  split at h
  · cases h
  · split at h <;> cases h
    exact ⟨rfl, rfl, rfl⟩

theorem Done.underway {stage : Stage} (h : Done E log m (before stage)) (hfor : IsFor E m stage tx) :
    Underway E (log ++ [.issued tx]) m stage tx := by
  obtain ⟨trail, htrail, hsub⟩ := h
  exact ⟨hfor, trail, htrail, hsub.append (List.Sublist.refl _)⟩

/-- The minters of the delegates are capable. -/
def Stocked (E : Env) (log : List Event) (delegates : List DelegateState) : Prop :=
  ∀ d, some d ∈ delegates → Capable E log d.minter

theorem Stocked.set {delegates : List DelegateState} (h : Stocked E log delegates) {i : Nat}
    {d : Delegates.Delegate} (hd : Capable E log d.minter) :
    Stocked E log (delegates.set i (some d)) := by
  intro d' hd'
  rcases List.mem_or_eq_of_mem_set hd' with hd' | heq
  · exact h d' hd'
  · cases heq
    exact hd

theorem stocked_effect (h : Effect E input s p s' p' new) (hs : Stocked E s.log s.delegates)
    (hp : Backed E s.log p) : Stocked E s'.log s'.delegates := by
  cases h with
  | @take call i minter hget => exact hs.set (hs (.free minter) (List.mem_of_getElem? hget))
  | release | free => exact hs.set (hp _ List.mem_cons_self)
  | finish =>
    intro d hd
    obtain ⟨minter, hminter, heq⟩ := List.mem_map.1 hd
    cases heq
    exact hp minter hminter
  | issue | sent | waited | generate | ensureIssue | ensureSent | succeeded | failed | unreadable =>
    exact fun d hd => (hs d hd).mono (List.prefix_append _ _)
  | _ => exact hs

theorem backed_new (h : Effect E input s p s' p' new) (hp : Backed E s.log p) :
    ∀ q ∈ new, Backed E s'.log q := by
  cases h with
  | sent =>
    intro q hq
    rw [List.mem_singleton.1 hq]
    exact ⟨hp.1.mono (List.prefix_append _ _), hp.2⟩
  | _ => exact fun q hq => absurd hq List.not_mem_nil

theorem isFunding_of_payload {account : AccountAddress} {amount : Nat}
    (h : tx.payload = .minterScript account amount) : isFunding tx = false := by
  unfold isFunding
  rw [h]

theorem backed_effect (h : Effect E input s p s' p' new) (hs : Stocked E s.log s.delegates)
    (hp : Backed E s.log p) : Backed E s'.log p' := by
  have hmono {e : Event} : s.log <+: s.log ++ [e] := List.prefix_append _ _
  cases h with
  | lock hd hd' =>
    intro m hm
    rw [hd'] at hm
    cases hm
  | take hget =>
    intro m hm
    rw [List.mem_singleton.1 hm]
    exact hs _ (List.mem_of_getElem? hget)
  | issue hissue =>
    exact ⟨(hp _ List.mem_cons_self).mono hmono, isFunding_of_payload (issueTx_spec hissue).2.1⟩
  | unsent | outwaited =>
    intro m hm
    rw [List.mem_singleton.1 hm]
    exact hp.1
  | waited =>
    intro m hm
    rw [List.mem_singleton.1 hm]
    exact hp.1.mono hmono
  | refuse | wait | skip | ensureWait => exact hp
  | sent | release | free | finish => exact fun m hm => absurd hm List.not_mem_nil
  | generate =>
    exact ⟨fun m hm => (hp m hm).mono hmono,
      [.generated _], .generated, List.singleton_sublist.2 (List.mem_append_right _ List.mem_cons_self)⟩
  | ensureIssue hissue =>
    obtain ⟨hsender, hpayload, _⟩ := issueTx_spec hissue
    exact ⟨fun m hm => (hp.1 m hm).mono hmono, hp.2.underway ⟨hsender, hpayload⟩⟩
  | ensureSent => exact ⟨fun m hm => (hp.1 m hm).mono hmono, hp.2.mono hmono⟩
  | giveUp => exact hp.1
  | succeeded => exact backed_advance (fun m hm => (hp.1 m hm).mono hmono) hp.2.succeeded
  | failed =>
    obtain ⟨_, trail, htrail, hsub⟩ := hp.2
    exact ⟨fun m hm => (hp.1 m hm).mono hmono, trail, htrail,
      ((List.sublist_append_left _ _).trans hsub).trans hmono.sublist⟩
  | unreadable => exact fun m hm => (hp.1 m hm).mono hmono
  | stop hover => exact backed_of_over hover

/-- An event that mints is a transaction of a capable account, over the amount of the faucet. -/
def Licensed (E : Env) (pre : List Event) (e : Event) : Prop :=
  ∀ tx account amount, e = .issued tx → tx.payload = .minterScript account amount →
    amount = E.quantsGrantedPerRequest ∧ Capable E pre tx.sender

theorem licensed_of_not_issued {e : Event} (h : ∀ tx, ¬ e = .issued tx) : Licensed E log e :=
  fun tx _ _ heq => absurd heq (h tx)

theorem licensed_effect (h : Effect E input s p s' p' new) (hp : Backed E s.log p)
    (hs : Journal.Each (Licensed E) s.log) : Journal.Each (Licensed E) s'.log := by
  cases h with
  | issue hissue =>
    obtain ⟨hsender, hpayload, _⟩ := issueTx_spec hissue
    refine hs.snoc fun tx' account amount heq hscript => ?_
    obtain rfl := Event.issued.inj heq
    rw [hpayload] at hscript
    cases hscript
    rw [hsender]
    exact ⟨rfl, hp _ List.mem_cons_self⟩
  | @ensureIssue q minter stage deadline tx hissue =>
    refine hs.snoc fun tx' account amount heq hscript => ?_
    obtain rfl := Event.issued.inj heq
    rw [(issueTx_spec hissue).2.1] at hscript
    cases stage with
    | fund | delegate | claim => cases hscript
  | sent | waited | generate | ensureSent | succeeded | failed | unreadable =>
    exact hs.snoc (licensed_of_not_issued fun _ heq => by cases heq)
  | _ => exact hs

/-! ## What the root account may transfer -/

def issuedTx : Event → Option RawTransaction
  | .issued tx => some tx
  | .generated _ | .acknowledged _ | .reported .. => none

/-- The transactions that the faucet has given to the dispatcher. -/
def issuedTxs (log : List Event) : List RawTransaction := log.filterMap issuedTx

def reportsFailure (tx : RawTransaction) : Event → Bool
  | .reported tx' (.ok status) => tx' = tx && !decide (status = .success)
  | .reported _ (.error _) | .generated _ | .issued _ | .acknowledged _ => false

/-- The archive has reported that the transaction has not succeeded. -/
def unsuccessful (log : List Event) (tx : RawTransaction) : Bool := log.any (reportsFailure tx)

/-- What the root account transfers with the transaction if it succeeds. -/
def transferred (E : Env) (tx : RawTransaction) : Nat :=
  match tx.payload with
  | .supraAccountTransfer _ amount => if tx.sender = E.rootAccount then amount else 0
  | .supraCoinDelegateMintCapability _ | .supraCoinClaimMintCapability | .minterScript .. => 0

/-- The transaction funds a minter, as far as is known. -/
def mayCharge (log : List Event) (tx : RawTransaction) : Bool := isFunding tx && !unsuccessful log tx

def charges (log : List Event) : Nat := (issuedTxs log).countP (mayCharge log)

theorem unsuccessful_snoc (log : List Event) (e : Event) (tx : RawTransaction) :
    unsuccessful (log ++ [e]) tx = (unsuccessful log tx || reportsFailure tx e) := by
  simp [unsuccessful]

theorem issuedTxs_snoc (log : List Event) (e : Event) :
    issuedTxs (log ++ [e]) = issuedTxs log ++ (issuedTx e).toList := by
  cases e with
  | issued | generated | acknowledged | reported => simp [issuedTxs, issuedTx]

theorem mayCharge_of_snoc {e : Event} (h : mayCharge (log ++ [e]) tx = true) : mayCharge log tx = true := by
  simp only [mayCharge, unsuccessful_snoc, Bool.and_eq_true, Bool.not_eq_true', Bool.or_eq_false_iff] at h ⊢
  exact ⟨h.1, h.2.1⟩

theorem charges_issued (log : List Event) (tx : RawTransaction) :
    charges (log ++ [.issued tx]) = charges log + if mayCharge log tx then 1 else 0 := by
  have hcharge (tx' : RawTransaction) : mayCharge (log ++ [.issued tx]) tx' = mayCharge log tx' := by
    simp [mayCharge, unsuccessful_snoc, reportsFailure]
  unfold charges
  rw [issuedTxs_snoc, List.countP_append, List.countP_congr fun tx' _ => by rw [hcharge tx']]
  simp [issuedTx, hcharge, List.countP_cons]

theorem charges_snoc_le {e : Event} (h : issuedTx e = none) : charges (log ++ [e]) ≤ charges log := by
  unfold charges
  rw [issuedTxs_snoc, h, Option.toList_none, List.append_nil]
  exact List.countP_mono_left fun tx _ => mayCharge_of_snoc

/-- A report of failure takes a charge back. -/
theorem charges_failure {status : TxExecutionStatus} (hstatus : ¬ status = .success)
    (hissued : tx ∈ issuedTxs log) (hcharge : mayCharge log tx = true) :
    charges (log ++ [.reported tx (.ok status)]) + 1 ≤ charges log := by
  have hnot : mayCharge (log ++ [.reported tx (.ok status)]) tx = false := by
    simp [mayCharge, unsuccessful_snoc, reportsFailure, hstatus]
  unfold charges
  rw [issuedTxs_snoc]
  simp only [issuedTx, Option.toList_none, List.append_nil]
  obtain ⟨l, r, hsplit⟩ := List.append_of_mem hissued
  rw [hsplit, List.countP_append, List.countP_append, List.countP_cons_of_neg (by simp [hnot]),
    List.countP_cons_of_pos hcharge]
  have hle (txs : List RawTransaction) :
      txs.countP (mayCharge (log ++ [.reported tx (.ok status)])) ≤ txs.countP (mayCharge log) :=
    List.countP_mono_left fun _ _ => mayCharge_of_snoc
  have hl := hle l
  have hr := hle r
  omega

/-- The charges that the preparation can still come to. -/
def cost (log : List Event) : Process → Nat
  | .preparing q => q.left
  | .ensuring q _ .fund _ .issuing => 1 + q.left
  | .ensuring q _ .fund _ (.sending tx) | .ensuring q _ .fund _ (.waiting tx _) =>
    (if unsuccessful log tx then 1 else 0) + q.left
  | .ensuring q _ .delegate _ _ | .ensuring q _ .claim _ _ => q.left
  | .call _ | .sending .. | .waiting .. | .ended | .panicked _ => 0

def budget (log : List Event) (p : Process) : Nat := charges log + cost log p

theorem left_le_cost (q : Preparation) (minter : MinterAccount) (stage : Stage) (deadline : Nat)
    (t : Ensuring) : q.left ≤ cost log (.ensuring q minter stage deadline t) := by
  cases stage with
  | delegate | claim => exact Nat.le_refl _
  | fund =>
    cases t with
    | issuing | sending | waiting => exact Nat.le_add_left _ _

theorem cost_of_over (h : Over p) : cost log p = 0 := by
  unfold Over at h
  split at h
  · rfl
  · rfl
  · rfl
  · rfl
  · exact absurd h id

theorem cost_advance (q : Preparation) (minter : MinterAccount) (stage : Stage) :
    cost log (advance s q minter stage) = q.left := by
  cases stage with
  | fund | delegate | claim => rfl

theorem isFunding_of_isFor {stage : Stage} (h : IsFor E m stage tx) :
    isFunding tx = decide (stage = .fund) := by
  unfold isFunding
  rw [h.2]
  cases stage with
  | fund | delegate | claim => rfl

theorem Underway.mem_issuedTxs {stage : Stage} (h : Underway E log m stage tx) : tx ∈ issuedTxs log := by
  obtain ⟨_, trail, _, hsub⟩ := h
  have hmem : Event.issued tx ∈ log := hsub.subset (List.mem_append_right _ List.mem_cons_self)
  exact List.mem_filterMap.2 ⟨_, hmem, rfl⟩

theorem budget_ensureIssue {q : Preparation} {stage : Stage} {deadline : Nat}
    (h : IsFor E m stage tx) :
    budget (log ++ [.issued tx]) (.ensuring q m stage deadline (.sending tx)) ≤
      budget log (.ensuring q m stage deadline .issuing) := by
  have hfunding := isFunding_of_isFor h
  unfold budget
  rw [charges_issued]
  cases stage with
  | fund =>
    simp only [cost, unsuccessful_snoc, reportsFailure, mayCharge, hfunding, Bool.or_false]
    cases unsuccessful log tx with
    | true | false => simp <;> omega
  | delegate | claim => simp [cost, mayCharge, hfunding]

/-- A transaction that has failed leaves its charge to the next one. -/
theorem budget_failed {q : Preparation} {stage : Stage} {deadline wakeAt : Nat}
    {status : TxExecutionStatus} (hstatus : ¬ status = .success) (h : Underway E log m stage tx) :
    budget (log ++ [.reported tx (.ok status)]) (.ensuring q m stage deadline .issuing) ≤
      budget log (.ensuring q m stage deadline (.waiting tx wakeAt)) := by
  have hle : charges (log ++ [.reported tx (.ok status)]) ≤ charges log := charges_snoc_le rfl
  unfold budget
  cases stage with
  | fund =>
    simp only [cost]
    cases hunsuccessful : unsuccessful log tx with
    | true =>
      simp only [if_true]
      omega
    | false =>
      have hcharge : mayCharge log tx = true := by
        rw [mayCharge, isFunding_of_isFor h.1, hunsuccessful]
        rfl
      have hlt := charges_failure hstatus h.mem_issuedTxs hcharge
      simp only [Bool.false_eq_true, if_false]
      omega
  | delegate | claim => exact Nat.add_le_add_right hle _

/-- **The budget never grows.** -/
theorem budget_effect (h : Effect E input s p s' p' new) (hp : Backed E s.log p) :
    budget s'.log p' ≤ budget s.log p := by
  -- an event that issues nothing, after which the preparation goes on with the next minter
  have hgiveUp {e : Event} {e' : MinterAccountError} {q : Preparation} {minter : MinterAccount}
      {stage : Stage} {deadline : Nat} {t : Ensuring} (he : issuedTx e = none) :
      budget (s.log ++ [e]) (q.fail e') ≤ budget s.log (.ensuring q minter stage deadline t) :=
    Nat.add_le_add (charges_snoc_le he) (left_le_cost q minter stage deadline t)
  cases h with
  | issue hissue =>
    have hfunding := isFunding_of_payload (issueTx_spec hissue).2.1
    simp [budget, Shared.record, charges_issued, mayCharge, hfunding, cost]
  | sent | waited => exact Nat.add_le_add (charges_snoc_le rfl) (Nat.le_refl _)
  | skip => exact Nat.add_le_add_left (Nat.le_succ _) _
  | generate =>
    refine Nat.add_le_add (charges_snoc_le rfl) ?_
    simp only [cost]
    omega
  | ensureIssue hissue =>
    obtain ⟨hsender, hpayload, _⟩ := issueTx_spec hissue
    exact budget_ensureIssue ⟨hsender, hpayload⟩
  | @ensureSent q minter stage deadline wakeAt tx =>
    refine Nat.add_le_add (charges_snoc_le rfl) ?_
    cases stage with
    | fund => simp [cost, Shared.record, unsuccessful_snoc, reportsFailure]
    | delegate | claim => exact Nat.le_refl _
  | @giveUp q minter stage deadline t e =>
    exact Nat.add_le_add (Nat.le_refl _) (left_le_cost q minter stage deadline t)
  | @ensureWait q minter stage deadline wakeAt wakeAt' tx =>
    cases stage with
    | fund | delegate | claim => exact Nat.le_refl _
  | succeeded =>
    refine Nat.add_le_add (charges_snoc_le rfl) ?_
    rw [cost_advance]
    exact left_le_cost _ _ _ _ _
  | failed hstatus => exact budget_failed hstatus hp.2
  | unreadable => exact hgiveUp rfl
  | finish => exact Nat.le_refl _
  | stop hover =>
    unfold budget
    rw [cost_of_over hover]
    exact Nat.le_add_right _ _
  | _ => exact Nat.le_refl _

def isPreparation : Process → Bool
  | .preparing _ | .ensuring .. => true
  | .call _ | .sending .. | .waiting .. | .ended | .panicked _ => false

/-- The transaction that a task waits for funds a minter. -/
def Funds : Process → Prop
  | .ensuring _ _ .fund _ (.sending tx) | .ensuring _ _ .fund _ (.waiting tx _) => isFunding tx = true
  | _ => True

theorem funds_of_backed (h : Backed E log p) : Funds p := by
  unfold Funds
  split
  · exact isFunding_of_isFor h.2.1
  · exact isFunding_of_isFor h.2.1
  · trivial

theorem budget_snoc_le {e : Event} {q : Process} (hissued : issuedTx e = none) (hq : Funds q)
    (he : ∀ tx, isFunding tx = true → reportsFailure tx e = false) :
    budget (log ++ [e]) q ≤ budget log q := by
  refine Nat.add_le_add (charges_snoc_le hissued) ?_
  unfold cost Funds at *
  split
  · exact Nat.le_refl _
  · exact Nat.le_refl _
  · rw [unsuccessful_snoc, he _ hq, Bool.or_false]
  · rw [unsuccessful_snoc, he _ hq, Bool.or_false]
  all_goals exact Nat.le_refl _

theorem budget_other (h : Effect E input s p s' p' new) (hp : Backed E s.log p)
    (hother : isPreparation p = false) {q : Process} (hq : Funds q) :
    budget s'.log q ≤ budget s.log q := by
  cases h with
  | issue hissue =>
    have hfunding := isFunding_of_payload (issueTx_spec hissue).2.1
    show budget (s.log ++ [_]) q ≤ _
    have hcost : cost (s.log ++ [.issued ‹_›]) q = cost s.log q := by
      unfold cost
      split
      all_goals simp [unsuccessful_snoc, reportsFailure]
    unfold budget
    rw [charges_issued, hcost, mayCharge, hfunding]
    exact Nat.le_refl _
  | sent => exact budget_snoc_le rfl hq fun _ _ => rfl
  | @waited i minter account tx deadline wakeAt result =>
    refine budget_snoc_le rfl hq fun tx' htx' => ?_
    have hne : ¬ tx = tx' := by
      rintro rfl
      rw [hp.2] at htx'
      cases htx'
    cases result with
    | error message => rfl
    | ok status => simp [reportsFailure, hne]
  | finish | skip | generate | ensureIssue | ensureSent | giveUp | ensureWait | succeeded | failed
  | unreadable => cases hother
  | _ => exact Nat.le_refl _

theorem isPreparation_of_over (h : Over p) : isPreparation p = false := by
  unfold Over at h
  split at h
  · rfl
  · rfl
  · rfl
  · rfl
  · exact absurd h id

theorem isPreparation_effect (h : Effect E input s p s' p' new) (hother : isPreparation p = false) :
    isPreparation p' = false := by
  cases h with
  | finish | skip | generate | ensureIssue | ensureSent | giveUp | ensureWait | succeeded | failed
  | unreadable => cases hother
  | stop hover => exact isPreparation_of_over hover
  | _ => rfl

theorem isPreparation_new (h : Effect E input s p s' p' new) : ∀ q ∈ new, isPreparation q = false := by
  cases h with
  | sent =>
    intro q hq
    rw [List.mem_singleton.1 hq]
    rfl
  | _ => exact fun q hq => absurd hq List.not_mem_nil

/-! ## The size of the faucet -/

/-- How many delegates the preparation can come to. -/
def slots : Process → Nat
  | .preparing q => q.addresses.length + q.left
  | .ensuring q _ _ _ _ => q.addresses.length + 1 + q.left
  | .call _ | .sending .. | .waiting .. | .ended | .panicked _ => 0

theorem slots_of_isPreparation (h : isPreparation p = false) : slots p = 0 := by
  cases p with
  | preparing | ensuring => cases h
  | _ => rfl

theorem slots_advance (q : Preparation) (minter : MinterAccount) (stage : Stage) :
    slots (advance s q minter stage) = q.addresses.length + 1 + q.left := by
  cases stage with
  | fund | delegate => rfl
  | claim => simp only [advance, Stage.next, slots, List.length_append, List.length_singleton]

theorem slots_effect (h : Effect E input s p s' p' new) : slots p' ≤ slots p := by
  cases h with
  | skip | generate =>
    simp only [slots]
    omega
  | giveUp | unreadable =>
    simp only [Preparation.fail, slots]
    omega
  | succeeded =>
    rw [slots_advance]
    exact Nat.le_refl _
  | stop hover =>
    rw [slots_of_isPreparation (isPreparation_of_over hover)]
    exact Nat.zero_le _
  | ensureIssue | ensureSent | ensureWait | failed => exact Nat.le_refl _
  | _ => exact Nat.zero_le _

theorem length_delegates_effect {n : Nat} (h : Effect E input s p s' p' new)
    (hs : s.delegates.length ≤ n) (hp : slots p ≤ n) : s'.delegates.length ≤ n := by
  cases h with
  | take | release | free =>
    rw [List.length_set]
    exact hs
  | finish =>
    rw [List.length_map]
    exact hp
  | _ => exact hs

/-! ## Runs -/

/-- A minter is funded with the initial balance. -/
def Priced (E : Env) (log : List Event) : Prop :=
  ∀ tx ∈ issuedTxs log, transferred E tx ≤ if isFunding tx then initialBalance else 0

theorem Priced.snoc {e : Event} (h : Priced E log)
    (he : ∀ tx, issuedTx e = some tx → transferred E tx ≤ if isFunding tx then initialBalance else 0) :
    Priced E (log ++ [e]) := by
  intro tx htx
  rw [issuedTxs_snoc] at htx
  rcases List.mem_append.1 htx with htx | htx
  · exact h tx htx
  · exact he tx (Option.mem_toList.1 htx)

theorem transferred_of_isFor {stage : Stage} (h : IsFor E m stage tx) :
    transferred E tx ≤ if isFunding tx then initialBalance else 0 := by
  unfold transferred isFunding
  rw [h.2]
  cases stage with
  | fund =>
    simp only [Stage.txPayload]
    split
    · exact Nat.le_refl _
    · exact Nat.zero_le _
  | delegate | claim => exact Nat.zero_le _

theorem priced_effect (h : Effect E input s p s' p' new) (hs : Priced E s.log) : Priced E s'.log := by
  cases h with
  | issue hissue =>
    refine hs.snoc fun tx' heq => ?_
    cases heq
    unfold transferred
    rw [(issueTx_spec hissue).2.1]
    exact Nat.zero_le _
  | ensureIssue hissue =>
    obtain ⟨hsender, hpayload, _⟩ := issueTx_spec hissue
    refine hs.snoc fun tx' heq => ?_
    cases heq
    exact transferred_of_isFor ⟨hsender, hpayload⟩
  | sent | waited | generate | ensureSent | succeeded | failed | unreadable =>
    exact hs.snoc fun _ heq => by cases heq
  | _ => exact hs

/-- What holds while the minters are prepared and afterwards. -/
structure Prepared (E : Env) (n : Nat) (c : Config Shared Process) : Prop where
  priced : Priced E c.shared.log
  licensed : Journal.Each (Licensed E) c.shared.log
  backed : ∀ p ∈ c.procs, Backed E c.shared.log p
  stocked : Stocked E c.shared.log c.shared.delegates
  size : c.shared.delegates.length ≤ n
  /-- The first process is the task that prepares the minters. -/
  first : ∃ p rest, c.procs = p :: rest ∧ budget c.shared.log p ≤ n ∧ slots p ≤ n ∧
    ∀ q ∈ rest, isPreparation q = false

section
variable {n : Nat} {c c' : Config Shared Process}

theorem Prepared.start (hc : Prepared E n c) (account : AccountAddress) :
    Prepared E n ⟨c.shared, c.procs ++ [(faucet E).init account]⟩ := by
  obtain ⟨p, rest, hprocs, hbudget, hslots, hrest⟩ := hc.first
  refine ⟨hc.priced, hc.licensed, fun q hq => ?_, hc.stocked, hc.size, p,
    rest ++ [(faucet E).init account], by rw [hprocs]; rfl, hbudget, hslots, fun q hq => ?_⟩
  · rcases List.mem_append.1 hq with hq | hq
    · exact hc.backed q hq
    · rw [List.mem_singleton.1 hq]
      exact fun m hm => absurd hm List.not_mem_nil
  · rcases List.mem_append.1 hq with hq | hq
    · exact hrest q hq
    · rw [List.mem_singleton.1 hq]
      rfl

theorem Prepared.slots_le (hc : Prepared E n c) (hp : p ∈ c.procs) : slots p ≤ n := by
  obtain ⟨p₀, rest, hfirst, _, hslots, hrest⟩ := hc.first
  rw [hfirst] at hp
  rcases List.mem_cons.1 hp with rfl | hp
  · exact hslots
  · rw [slots_of_isPreparation (hrest p hp)]
    exact Nat.zero_le n

theorem prepared_step {a : Act AccountAddress Input} (hstep : Step (faucet E) c a c')
    (hc : Prepared E n c) : Prepared E n c' := by
  cases hstep with
  | idle => exact hc
  | start account => exact hc.start account
  | @turn l r new p p' s' input hprocs hturn =>
    have heffect := stepAt_effect hturn
    have hmem : p ∈ c.procs := by
      rw [hprocs]
      simp
    have hp : Backed E c.shared.log p := hc.backed p hmem
    have hlog := log_effect heffect
    refine ⟨priced_effect heffect hc.priced, licensed_effect heffect hp hc.licensed, fun q hq => ?_,
      stocked_effect heffect hc.stocked hp, length_delegates_effect heffect hc.size (hc.slots_le hmem), ?_⟩
    · rcases mem_drop_turn (p := p) (n := 0) hq with hold | ⟨rfl, _⟩ | hforked
      · exact (hc.backed q (hprocs ▸ hold)).mono hlog
      · exact backed_effect heffect hc.stocked hp
      · exact backed_new heffect hp q hforked
    · obtain ⟨p₀, rest, hfirst, hbudget, hslots, hrest⟩ := hc.first
      have hfunds : Funds p₀ := funds_of_backed (hc.backed p₀ (by rw [hfirst]; simp))
      rw [hprocs] at hfirst
      cases l with
      | nil =>
        -- the turn is the one of the preparation
        cases hfirst
        refine ⟨p', r ++ new, rfl, (budget_effect heffect hp).trans hbudget,
          (slots_effect heffect).trans hslots, fun q hq => ?_⟩
        rcases List.mem_append.1 hq with hq | hq
        · exact hrest q hq
        · exact isPreparation_new heffect q hq
      | cons x l =>
        cases hfirst
        have hother := hrest p (by simp)
        refine ⟨p₀, l ++ p' :: (r ++ new), rfl, (budget_other heffect hp hother hfunds).trans hbudget,
          hslots, fun q hq => ?_⟩
        rcases mem_drop_turn (p := p) (n := 0) hq with hold | ⟨rfl, _⟩ | hforked
        · exact hrest q hold
        · exact isPreparation_effect heffect hother
        · exact isPreparation_new heffect q hforked

end

theorem prepared_start (E : Env) (clock n : Nat) : Prepared E n (start clock n) := by
  refine ⟨fun tx htx => absurd htx List.not_mem_nil, Journal.each_nil, fun p hp => ?_,
    fun d hd => absurd hd List.not_mem_nil, Nat.zero_le n, _, _, rfl, ?_, ?_, ?_⟩
  · rw [List.mem_singleton.1 hp]
    exact fun m hm => absurd hm List.not_mem_nil
  · show 0 + n ≤ n
    omega
  · show 0 + n ≤ n
    omega
  · exact fun q hq => absurd hq List.not_mem_nil

theorem prepared_run (E : Env) (clock n : Nat) (acts : List (Act AccountAddress Input)) :
    Prepared E n (run (faucet E) (start clock n) acts) :=
  run_inv (I := Prepared E n) (P := fun _ _ => True) (fun _ _ _ hc _ hstep => prepared_step hstep hc)
    (prepared_start E clock n) fun _ _ _ _ => trivial

/-- The transfers that are not known to have failed are charges. -/
theorem sum_transferred_le (h : Priced E log) :
    (((issuedTxs log).filter fun tx => !unsuccessful log tx).map (transferred E)).sum ≤
      charges log * initialBalance := by
  unfold Priced at h
  unfold charges
  generalize issuedTxs log = txs at h
  induction txs with
  | nil => exact Nat.zero_le _
  | cons tx txs ih =>
    have htx := h tx List.mem_cons_self
    have hrest := ih fun tx' htx' => h tx' (List.mem_cons_of_mem tx htx')
    rw [List.filter_cons, List.countP_cons, Nat.add_mul]
    cases hunsuccessful : unsuccessful log tx with
    | true => simpa [mayCharge, hunsuccessful] using hrest
    | false =>
      cases hfunding : isFunding tx with
      | true =>
        simp only [hfunding, if_true] at htx
        simp only [mayCharge, hunsuccessful, hfunding, Bool.not_false, Bool.and_self, if_true,
          List.map_cons, List.sum_cons]
        omega
      | false =>
        simp only [hfunding, Bool.false_eq_true, if_false] at htx
        simp only [mayCharge, hunsuccessful, hfunding, Bool.not_false, Bool.false_and,
          Bool.false_eq_true, if_false, if_true, List.map_cons, List.sum_cons]
        omega

/-- **The root account funds each minter once.** Whatever fails, is dropped or runs out of time while
the minters are prepared: the transfers of the root account, but for those that the archive has reported
as unsuccessful, are no more than the initial balance of each minter that was asked for; and there are
no more delegates than that. -/
theorem root_funds_each_minter_once (E : Env) (clock n : Nat) (acts : List (Act AccountAddress Input))
    (s : Shared) (hs : (run (faucet E) (start clock n) acts).shared = s) :
    (((issuedTxs s.log).filter fun tx => !unsuccessful s.log tx).map (transferred E)).sum ≤
        n * initialBalance ∧
      s.delegates.length ≤ n := by
  subst hs
  have hprepared := prepared_run E clock n acts
  obtain ⟨p, rest, _, hbudget, _⟩ := hprepared.first
  refine ⟨?_, hprepared.size⟩
  calc _ ≤ charges _ * initialBalance := sum_transferred_le hprepared.priced
    _ ≤ n * initialBalance := Nat.mul_le_mul_right _ ((Nat.le_add_right _ _).trans hbudget)

/-! One minter is prepared, while the first transaction for it fails. -/

def small : Env where
  digest tx := BitVec.ofNat 256 tx.expirationTimestampSecs
  rootAccount := 1
  quantsGrantedPerRequest := 5
  dispatchErrorText _ := ""
  minterAccountErrorText _ := ""
  fundingDescriptor _ _ := ""

/-- What a step finds after some time, when nothing fails. -/
def after (elapsed : Nat) : Input where
  elapsed := elapsed
  wake := .ready
  sequenceNumber := some 3
  chainId := some 6
  dispatch := .ok ()
  status := .ok (some .success)
  generated := .ok 7

/-- The first task issues a transaction and sees its status. -/
def ensured (status : TxExecutionStatus) : List (Act AccountAddress Input) :=
  [.turn 0 (after 0), .turn 0 (after 0), .turn 0 { after second with status := .ok (some status) }]

def smallActs : List (Act AccountAddress Input) :=
  .turn 0 (after 0) :: (ensured .fail ++ ensured .success ++ ensured .success ++ ensured .success ++
    [.turn 0 (after 0)])

theorem root_funds_each_minter_once_small :
    ∃ s, (run (faucet small) (start 0 1) smallActs).shared = s ∧ s.delegates = [some (.free 7)] ∧
      (issuedTxs s.log).length = 4 ∧
      (((issuedTxs s.log).filter fun tx => !unsuccessful s.log tx).map (transferred small)).sum ≤
        1 * initialBalance := by
  refine ⟨_, rfl, rfl, rfl, ?_⟩
  exact (root_funds_each_minter_once small 0 1 smallActs _ rfl).1

/-- **Only capable accounts mint.** Every transaction that mints is over the amount of the faucet, and
its sender, like every delegate, is an account that the faucet has generated and whose funding,
delegation and claim were reported as successful, in this order. -/
theorem minting_accounts_are_capable (E : Env) (clock n : Nat) (acts : List (Act AccountAddress Input))
    (s : Shared) (hs : (run (faucet E) (start clock n) acts).shared = s) :
    (∀ pre tx post account amount, s.log = pre ++ .issued tx :: post →
      tx.payload = .minterScript account amount →
        amount = E.quantsGrantedPerRequest ∧ Capable E pre tx.sender) ∧
      ∀ d, some d ∈ s.delegates → Capable E s.log d.minter := by
  subst hs
  have hprepared := prepared_run E clock n acts
  refine ⟨fun pre tx post account amount hlog hpayload => ?_, hprepared.stocked⟩
  exact hprepared.licensed pre (.issued tx) post hlog tx account amount rfl hpayload

/-- A call of `Faucet::try_fund`, as process `i`, up to its answer by the dispatcher. -/
def funding (account : AccountAddress) (i : Nat) : List (Act AccountAddress Input) :=
  [.start account, .turn i (after 0), .turn i (after 0), .turn i (after 0), .turn i (after 0),
    .turn i (after 0)]

/-- The minter that was prepared funds an account. -/
theorem minting_accounts_are_capable_small :
    ∃ s, (run (faucet small) (start 0 1) (smallActs ++ funding 9 1)).shared = s ∧
      s.log.length = 15 ∧ Capable small (s.log.take 13) 7 := by
  refine ⟨_, rfl, rfl, ?_⟩
  exact ((minting_accounts_are_capable small 0 1 (smallActs ++ funding 9 1) _ rfl).1 _
    (makeSmrMoveTx (4 * second) (.minterScript 9 5) 3 6 7) [.acknowledged _] 9 5 rfl rfl).2

end Rest.Minting.Proof
