import Mathlib.Tactic.Common
import SupraL1.Rest.RpcStorage

/-!
# A lookup while a block is inserted

A transaction that has been consumed is in the backlog, in the archive, or moving: a block with it
has been finalized in the backlog and is not yet in the archive (`Stored`). Once a lookup has missed
it in the backlog it is in the archive or moving (`Settled`), and this is stable. So a lookup finds
it unless it reads the archive while the transaction is moving (`lookup_of_apart`), which is the case
in which it is answered with `TransactionNotFound` (`lookup_while_moving`).
-/

namespace Rest.Storage.Proof

open Consensus (Hash)
open Move (TxExecutionStatus)
open Pool

variable {T B A O N I : Type}

/-- What the storage relies on. -/
structure Lawful (E : Env T B A O N I) : Prop where
  digest_getByHash : ∀ {b h t}, E.getByHash b h = some t → E.digest t = h
  getByHash_insert : ∀ {b t b'}, E.insert b t = .ok b' → (E.getByHash b' (E.digest t)).isSome
  /-- The backlog keeps a transaction until it is finalized or expired. -/
  insert_keeps : ∀ {b t b' h}, E.insert b t = .ok b' → (E.getByHash b h).isSome →
    (E.getByHash b' h).isSome
  finalize_keeps : ∀ {b t h}, E.digest t ≠ h → (E.getByHash b h).isSome →
    (E.getByHash (E.finalize b t) h).isSome
  expire_keeps : ∀ {b time h t}, E.getByHash b h = some t → time < E.expirationTimestamp t →
    (E.getByHash (E.expire b time) h).isSome
  /-- A block is inserted into the archive as a whole. -/
  archive_insert : ∀ {a block t}, t ∈ block.transactions →
    (E.getTransaction (E.insertExecutedBlock a block) (E.digest t)).isSome ∧
      (E.getTransactionStatus (E.insertExecutedBlock a block) (E.digest t)).isSome
  archive_keeps : ∀ {a block h},
    ((E.getTransaction a h).isSome → (E.getTransaction (E.insertExecutedBlock a block) h).isSome) ∧
      ((E.getTransactionStatus a h).isSome →
        (E.getTransactionStatus (E.insertExecutedBlock a block) h).isSome) ∧
      ((E.getBlockHashByTxnHash a h).isSome →
        (E.getBlockHashByTxnHash (E.insertExecutedBlock a block) h).isSome)
  /-- The status of a finalized transaction is there with its block. -/
  archive_finalized : ∀ {a h status}, E.getTransactionStatus a h = some status →
    status ≠ .pending → status ≠ .pendingAfterExecution → (E.getBlockHashByTxnHash a h).isSome

/-! ## Where a transaction is -/

section
variable (E : Env T B A O N I) (h : Hash)

def Contains (block : ExecutedBlock T) : Prop := ∃ t ∈ block.transactions, E.digest t = h

/-- The transaction expires later than the block. -/
def Outlives (block : ExecutedBlock T) : Prop :=
  ∀ t, E.digest t = h → block.timestamp < E.expirationTimestamp t

def InBacklog (c : Config (RpcStorage B A) (Process T O I)) : Prop :=
  (E.getByHash c.shared.backlog h).isSome

def Archived (c : Config (RpcStorage B A) (Process T O I)) : Prop :=
  (E.getTransaction c.shared.archive h).isSome ∧ (E.getTransactionStatus c.shared.archive h).isSome

/-- A block with the transaction is out of the backlog and not yet in the archive. -/
def Moving (c : Config (RpcStorage B A) (Process T O I)) : Prop :=
  ∃ block, .archive block ∈ c.procs ∧ Contains E h block

def Settled (c : Config (RpcStorage B A) (Process T O I)) : Prop := Archived E h c ∨ Moving E h c

def Stored (c : Config (RpcStorage B A) (Process T O I)) : Prop := InBacklog E h c ∨ Settled E h c

end

variable {E : Env T B A O N I} {h : Hash}

/-! ## What a turn does to the stores -/

/-- A turn reads, or is one of the four writes. -/
inductive Effect (E : Env T B A O N I) (s : RpcStorage B A) :
    Process T O I → RpcStorage B A → Process T O I → Prop where
  | read {p p' : Process T O I} (harchive : ∀ block, p ≠ .archive block)
      (hconsumed : ∀ t, p' ≠ .consumed t (.ok ())) (hexpire : ∀ block, p' ≠ .expire block) :
      Effect E s p s p'
  | consume {t : T} {b : B} (h : E.insert s.backlog t = .ok b) :
      Effect E s (.consume t) { s with backlog := b } (.consumed t (.ok ()))
  | expire (block : ExecutedBlock T) :
      Effect E s (.expire block) { s with backlog := E.expire s.backlog block.timestamp }
        (.finalize block)
  | finalize (block : ExecutedBlock T) :
      Effect E s (.finalize block)
        { s with backlog := block.transactions.foldl E.finalize s.backlog } (.archive block)
  | archive (block : ExecutedBlock T) :
      Effect E s (.archive block) { s with archive := E.insertExecutedBlock s.archive block }
        (.inserted block)

def Process.looks : Process T O I → Bool
  | .lookup _ | .lookupArchived _ | .status .. | .statusArchived .. | .output .. | .blockHash .. |
    .blockInfo .. | .lookedUp .. => true
  | .consume _ | .consumed .. | .expire _ | .finalize _ | .archive _ | .inserted _ => false

theorem Effect.of_looks {s : RpcStorage B A} {p p' : Process T O I} (hp : Process.looks p)
    (hp' : Process.looks p') : Effect E s p s p' := by
  refine .read (fun block => ?_) (fun t => ?_) fun block => ?_ <;>
  · rintro rfl
    first | cases hp | cases hp'

theorem looks_finish (hash : Hash) (t : T) (output : Option O) (status : TxExecutionStatus)
    (blockInfo : Option N) : Process.looks (finish E hash t output status blockInfo) := by
  unfold finish
  split <;> rfl

theorem looks_withStatus (hash : Hash) (t : T) (status : TxExecutionStatus) :
    Process.looks (withStatus E hash t status) := by
  unfold withStatus
  split
  · exact looks_finish ..
  · rfl

theorem looks_readArchive (hash : Hash) (e : Option String) {next : Process T O I}
    (hnext : Process.looks next) : Process.looks (readArchive hash e next) := by
  cases e
  · exact hnext
  · rfl

theorem step_effect {e : Option String} {s s' : RpcStorage B A} {p p' : Process T O I}
    {new : List (Process T O I)} (hstep : step E e s p = some (s', p', new)) :
    new = [] ∧ Effect E s p s' p' := by
  unfold step at hstep
  split at hstep
  · split at hstep <;> cases hstep <;> exact ⟨rfl, .of_looks rfl rfl⟩
  · cases hstep
    refine ⟨rfl, .of_looks rfl (looks_readArchive _ _ ?_)⟩
    split <;> rfl
  · split at hstep <;> cases hstep
    · exact ⟨rfl, .of_looks rfl (looks_withStatus ..)⟩
    · exact ⟨rfl, .of_looks rfl rfl⟩
  · cases hstep
    refine ⟨rfl, .of_looks rfl (looks_readArchive _ _ ?_)⟩
    split
    · exact looks_withStatus ..
    · rfl
  · cases hstep
    exact ⟨rfl, .of_looks rfl (looks_readArchive _ _ rfl)⟩
  · cases hstep
    refine ⟨rfl, .of_looks rfl (looks_readArchive _ _ ?_)⟩
    split <;> rfl
  · cases hstep
    exact ⟨rfl, .of_looks rfl (looks_readArchive _ _ (looks_finish ..))⟩
  · split at hstep <;> cases hstep
    · rename_i hinsert
      exact ⟨rfl, .consume hinsert⟩
    · exact ⟨rfl, .read nofun nofun nofun⟩
  · cases hstep; exact ⟨rfl, .expire _⟩
  · cases hstep; exact ⟨rfl, .finalize _⟩
  · cases hstep; exact ⟨rfl, .archive _⟩
  · cases hstep
  · cases hstep
  · cases hstep

/-! ## What is stable -/

section
variable (hE : Lawful E)
include hE

theorem finalize_foldl_keeps {txns : List T} {b : B} (hne : ∀ t ∈ txns, E.digest t ≠ h)
    (hb : (E.getByHash b h).isSome) : (E.getByHash (txns.foldl E.finalize b) h).isSome := by
  induction txns generalizing b with
  | nil => exact hb
  | cons t txns ih =>
    exact ih (fun t' ht => hne t' (List.mem_cons_of_mem t ht))
      (hE.finalize_keeps (hne t List.mem_cons_self) hb)

theorem archived_effect {s s' : RpcStorage B A} {p p' : Process T O I} {procs procs' : List (Process T O I)}
    (heffect : Effect E s p s' p') (ha : Archived E h ⟨s, procs⟩) : Archived E h ⟨s', procs'⟩ := by
  cases heffect with
  | archive block => exact ⟨hE.archive_keeps.1 ha.1, hE.archive_keeps.2.1 ha.2⟩
  | read | consume | expire | finalize => exact ha

theorem settled_stable {c c' : Config (RpcStorage B A) (Process T O I)} {a : Act (Request T) (Option String)}
    (hstep : Step (rpcStorage E) c a c') (hc : Settled E h c) : Settled E h c' := by
  cases hstep with
  | start a =>
    refine hc.imp id fun ⟨block, hmem, hin⟩ => ⟨block, ?_, hin⟩
    exact List.mem_append_left _ hmem
  | idle => exact hc
  | @turn l r new p p' s input hprocs hturn =>
    obtain ⟨rfl, heffect⟩ := step_effect hturn
    obtain ⟨s0, procs⟩ := c
    subst hprocs
    rcases hc with ha | ⟨block, hmem, hin⟩
    · exact .inl (archived_effect hE heffect ha)
    · by_cases hp : p = .archive block
      · -- the block arrives in the archive
        subst hp
        cases heffect with
        | read harchive => exact absurd rfl (harchive block)
        | archive =>
          obtain ⟨t, ht, rfl⟩ := hin
          exact .inl (hE.archive_insert ht)
      · refine .inr ⟨block, ?_, hin⟩
        simp only [List.mem_append, List.mem_cons] at hmem ⊢
        rcases hmem with hmem | rfl | hmem
        · exact .inl hmem
        · exact absurd rfl hp
        · exact .inr (.inr (.inl hmem))

/-- A transaction that is stored stays so, as long as the blocks are older than its expiration. -/
theorem stored_stable {c c' : Config (RpcStorage B A) (Process T O I)} {a : Act (Request T) (Option String)}
    (hstep : Step (rpcStorage E) c a c') (hout : ∀ block, .expire block ∈ c.procs → Outlives E h block)
    (hc : Stored E h c) : Stored E h c' := by
  rcases hc with hb | hs
  · cases hstep with
    | start a => exact .inl hb
    | idle => exact .inl hb
    | @turn l r new p p' s input hprocs hturn =>
      obtain ⟨rfl, heffect⟩ := step_effect hturn
      obtain ⟨s0, procs⟩ := c
      subst hprocs
      cases heffect with
      | read => exact .inl hb
      | consume hinsert => exact .inl (hE.insert_keeps hinsert hb)
      | expire block =>
        obtain ⟨t, ht⟩ := Option.isSome_iff_exists.1 hb
        exact .inl (hE.expire_keeps ht (hout block (by simp) t (hE.digest_getByHash ht)))
      | finalize block =>
        by_cases hin : Contains E h block
        · exact .inr (.inr ⟨block, by simp, hin⟩)
        · exact .inl (finalize_foldl_keeps hE (fun t ht heq => hin ⟨t, ht, heq⟩) hb)
      | archive block => exact .inl hb
  · exact .inr (settled_stable hE hstep hs)

theorem blockHash_stable {c c' : Config (RpcStorage B A) (Process T O I)}
    {a : Act (Request T) (Option String)} (hstep : Step (rpcStorage E) c a c')
    (hc : (E.getBlockHashByTxnHash c.shared.archive h).isSome) :
    (E.getBlockHashByTxnHash c'.shared.archive h).isSome := by
  cases hstep with
  | start a => exact hc
  | idle => exact hc
  | turn hprocs hturn =>
    obtain ⟨-, heffect⟩ := step_effect hturn
    generalize c.shared = s at hc heffect
    cases heffect with
    | archive block => exact hE.archive_keeps.2.2 hc
    | read | consume | expire | finalize => exact hc

end

/-! ## Runs -/

/-- Every block is older than the expiration of the transaction. -/
def Timely (E : Env T B A O N I) (h : Hash) : Act (Request T) (Option String) → Prop
  | .start (.insertExecutedBlock block) => Outlives E h block
  | .start (.lookup _) | .start (.consume _) | .turn .. => True

theorem outlives_step {c c' : Config (RpcStorage B A) (Process T O I)}
    {a : Act (Request T) (Option String)} (hstep : Step (rpcStorage E) c a c') (ha : Timely E h a)
    (hc : ∀ block, .expire block ∈ c.procs → Outlives E h block) :
    ∀ block, .expire block ∈ c'.procs → Outlives E h block := by
  intro block hmem
  cases hstep with
  | start a =>
    rcases List.mem_append.1 hmem with hmem | hmem
    · exact hc block hmem
    · cases a with
      | insertExecutedBlock b => cases List.mem_singleton.1 hmem; exact ha
      | lookup hash | consume t => cases List.mem_singleton.1 hmem
  | idle => exact hc block hmem
  | @turn l r new p p' s input hprocs hturn =>
    obtain ⟨rfl, heffect⟩ := step_effect hturn
    have hne : p' ≠ .expire block := by
      cases heffect with
      | read harchive hconsumed hexpire => exact hexpire block
      | consume | expire | finalize | archive => nofun
    rcases mem_drop_turn (p := p) (n := 0) hmem with hold | ⟨heq, -⟩ | hfork
    · exact hc block (hprocs ▸ hold)
    · exact absurd heq.symm hne
    · cases hfork

theorem stored_of_consumed (hE : Lawful E) (s : RpcStorage B A)
    (acts : List (Act (Request T) (Option String))) (htimely : ∀ a ∈ acts, Timely E h a) :
    let c := run (rpcStorage E) ⟨s, []⟩ acts
    (∀ block, .expire block ∈ c.procs → Outlives E h block) ∧
      ∀ t, .consumed t (.ok ()) ∈ c.procs → E.digest t = h → Stored E h c := by
  refine run_inv (c := ⟨s, []⟩) (P := fun _ a => Timely E h a) (I := fun c =>
    (∀ block, .expire block ∈ c.procs → Outlives E h block) ∧
      ∀ t, .consumed t (.ok ()) ∈ c.procs → E.digest t = h → Stored E h c) ?_
    ⟨fun _ hmem => absurd hmem List.not_mem_nil, fun _ hmem => absurd hmem List.not_mem_nil⟩ ?_
  · rintro c a c' ⟨hout, hstored⟩ ha hstep
    refine ⟨outlives_step hstep ha hout, fun t hmem ht => ?_⟩
    by_cases hold : .consumed t (.ok ()) ∈ c.procs
    · exact stored_stable hE hstep hout (hstored t hold ht)
    -- the turn has just inserted the transaction
    cases hstep with
    | start a =>
      rcases List.mem_append.1 hmem with hmem | hmem
      · exact absurd hmem hold
      · cases a <;> cases List.mem_singleton.1 hmem
    | idle => exact absurd hmem hold
    | @turn l r new p p' s input hprocs hturn =>
      obtain ⟨rfl, heffect⟩ := step_effect hturn
      have hp' : p' = .consumed t (.ok ()) := by
        rcases mem_drop_turn (p := p) (n := 0) hmem with hmem | ⟨heq, -⟩ | hfork
        · exact absurd (hprocs ▸ hmem) hold
        · exact heq.symm
        · cases hfork
      subst hp'
      cases heffect with
      | read harchive hconsumed => exact absurd rfl (hconsumed t)
      | consume hinsert => exact .inl (ht ▸ hE.getByHash_insert hinsert)
  · intro pre a post hacts
    exact htimely a (by rw [hacts]; simp)

/-! ## Lookups -/

section
variable (E : Env T B A O N I) (h : Hash)

/-- The call reads the archive for the transaction or its status. -/
def readsArchive : Process T O I → Bool
  | .lookupArchived hash | .statusArchived hash _ => hash = h
  | _ => false

/-- No lookup of the transaction reads the archive for it or its status while it is moving. -/
def Apart (c : Config (RpcStorage B A) (Process T O I)) : Act (Request T) (Option String) → Prop
  | .start _ => True
  | .turn i _ => ∀ p, c.procs[i]? = some p → readsArchive h p → ¬ Moving E h c

/-- A lookup of the transaction will find it. -/
def Finds (c : Config (RpcStorage B A) (Process T O I)) : Process T O I → Prop
  | .lookupArchived hash | .statusArchived hash _ => hash = h → Settled E h c
  | .output hash _ _ | .blockHash hash _ _ _ =>
    hash = h → (E.getBlockHashByTxnHash c.shared.archive h).isSome
  | .lookedUp hash result => hash = h → result ≠ .error (.transactionNotFound h) ∧
      result ≠ .error (.missingTransactionStatus h)
  | _ => True

end

theorem finds_stable (hE : Lawful E) {c c' : Config (RpcStorage B A) (Process T O I)}
    {a : Act (Request T) (Option String)} (hstep : Step (rpcStorage E) c a c')
    {p : Process T O I} (hp : Finds E h c p) : Finds E h c' p := by
  cases p with
  | lookupArchived hash => exact fun heq => settled_stable hE hstep (hp heq)
  | statusArchived hash t => exact fun heq => settled_stable hE hstep (hp heq)
  | output hash t status => exact fun heq => blockHash_stable hE hstep (hp heq)
  | blockHash hash t status output => exact fun heq => blockHash_stable hE hstep (hp heq)
  | lookedUp hash result => exact hp
  | lookup | status | blockInfo | consume | consumed | expire | finalize | archive | inserted =>
    trivial

theorem finds_finish {c : Config (RpcStorage B A) (Process T O I)} (hash : Hash) (t : T)
    (output : Option O) (status : TxExecutionStatus) (blockInfo : Option N) :
    Finds E h c (finish E hash t output status blockInfo) := by
  unfold finish
  split <;> exact fun _ => ⟨nofun, nofun⟩

theorem finds_readArchive {c : Config (RpcStorage B A) (Process T O I)} {hash : Hash}
    (e : Option String) {next : Process T O I} (hnext : Finds E h c next) :
    Finds E h c (readArchive hash e next) := by
  cases e with
  | none => exact hnext
  | some e => exact fun _ => ⟨nofun, nofun⟩

theorem finds_withStatus {c : Config (RpcStorage B A) (Process T O I)} (hash : Hash) (t : T)
    {status : TxExecutionStatus} (hstatus : status ≠ .pending → status ≠ .pendingAfterExecution →
      hash = h → (E.getBlockHashByTxnHash c.shared.archive h).isSome) :
    Finds E h c (withStatus E hash t status) := by
  unfold withStatus
  split
  · exact finds_finish ..
  · rename_i hne
    rw [not_or] at hne
    exact hstatus hne.1 hne.2

/-- A read of the archive that is not in the way of the move finds the transaction. -/
theorem archived_of_apart {c : Config (RpcStorage B A) (Process T O I)} {l r : List (Process T O I)}
    {p : Process T O I} {e : Option String} (hprocs : c.procs = l ++ p :: r)
    (hapart : Apart E h c (.turn l.length e)) (hread : readsArchive h p) (hp : Settled E h c) :
    Archived E h c :=
  hp.resolve_right (hapart p (by rw [hprocs]; simp) hread)

theorem finds_turn (hE : Lawful E) {c : Config (RpcStorage B A) (Process T O I)}
    {l r new : List (Process T O I)} {p p' : Process T O I} {e : Option String} {s : RpcStorage B A}
    (hstored : Stored E h c) (hapart : Apart E h c (.turn l.length e))
    (hprocs : c.procs = l ++ p :: r) (hstep : step E e c.shared p = some (s, p', new))
    (hp : Finds E h c p) : Finds E h ⟨s, l ++ p' :: (r ++ new)⟩ p' := by
  have hstable : ∀ {q}, Finds E h c q → Finds E h ⟨s, l ++ p' :: (r ++ new)⟩ q :=
    finds_stable hE (Step.turn (M := rpcStorage E) hprocs hstep)
  -- the stores before the turn decide what it finds
  refine hstable ?_
  unfold step at hstep
  split at hstep
  · split at hstep <;> cases hstep
    · trivial
    · rename_i hash hnone
      rintro rfl
      exact hstored.resolve_left (by simp [InBacklog, hnone])
  · rename_i hash
    cases hstep
    refine finds_readArchive e ?_
    split
    · trivial
    · rename_i hnone
      intro heq
      have ha := archived_of_apart hprocs hapart (by simp [readsArchive, heq]) (hp heq)
      rw [← heq] at ha
      simp [Archived, hnone] at ha
  · split at hstep <;> cases hstep
    · exact finds_withStatus _ _ fun hne => absurd rfl hne
    · rename_i hash t hnone
      rintro rfl
      exact hstored.resolve_left (by simp [InBacklog, hnone])
  · rename_i hash t
    cases hstep
    refine finds_readArchive e ?_
    split
    · rename_i status hstatus
      refine finds_withStatus _ _ fun hne hne' heq => ?_
      rw [heq] at hstatus
      exact hE.archive_finalized hstatus hne hne'
    · rename_i hnone
      intro heq
      have ha := archived_of_apart hprocs hapart (by simp [readsArchive, heq]) (hp heq)
      rw [← heq] at ha
      simp [Archived, hnone] at ha
  · cases hstep
    exact finds_readArchive e hp
  · rename_i hash t status output
    cases hstep
    refine finds_readArchive e ?_
    split
    · trivial
    · rename_i hnone
      intro heq
      have hsome := hp heq
      rw [← heq, hnone] at hsome
      cases hsome
  · cases hstep
    exact finds_readArchive e (finds_finish ..)
  · split at hstep <;> cases hstep <;> trivial
  · cases hstep; trivial
  · cases hstep; trivial
  · cases hstep; trivial
  · cases hstep
  · cases hstep
  · cases hstep

/-- **A submitted transaction is found** by every lookup that starts after it has been consumed, in
every run in which no lookup reads the archive for it while a block with it is between its two
writes. -/
theorem lookup_of_apart (hE : Lawful E) (s : RpcStorage B A)
    (before after : List (Act (Request T) (Option String))) (t : T)
    (hconsumed : .consumed t (.ok ()) ∈ (run (rpcStorage E) ⟨s, []⟩ before).procs)
    (htimely : ∀ a ∈ before ++ after, Timely E (E.digest t) a)
    (hapart : Along (rpcStorage E) (Apart E (E.digest t)) (run (rpcStorage E) ⟨s, []⟩ before) after) :
    let c := run (rpcStorage E) ⟨s, []⟩ before
    ∀ result, .lookedUp (E.digest t) result ∈ (run (rpcStorage E) c after).procs.drop c.procs.length →
      result ≠ .error (.transactionNotFound (E.digest t)) ∧
        result ≠ .error (.missingTransactionStatus (E.digest t)) := by
  intro c result hmem
  obtain ⟨hout, hstored⟩ := stored_of_consumed hE s before fun a ha =>
    htimely a (List.mem_append_left _ ha)
  have hboth : Along (rpcStorage E) (fun c a => Apart E (E.digest t) c a ∧ Timely E (E.digest t) a)
      c after := fun pre a post hacts =>
    ⟨hapart pre a post hacts, htimely a (by rw [hacts]; simp)⟩
  exact run_local (Q := Finds E (E.digest t)) (I := fun c => Stored E (E.digest t) c ∧
      ∀ block, .expire block ∈ c.procs → Outlives E (E.digest t) block)
    (fun c a c' hc ha hstep => ⟨stored_stable hE hstep hc.2 hc.1, outlives_step hstep ha.2 hc.2⟩)
    (fun c a c' q _ _ hstep hq => finds_stable hE hstep hq)
    (fun c a => by cases a <;> trivial)
    (fun c l p r e s p' new hc ha hprocs hstep => ⟨finds_turn hE hc.1 ha.1 hprocs hstep, fun q hq => by
      obtain ⟨rfl, -⟩ := step_effect hstep
      cases hq⟩)
    ⟨hstored t hconsumed rfl, hout⟩ hboth _ hmem rfl

/-! A storage of hashes, with one expiration for all transactions. -/

def member (l : List Hash) (h : Hash) : Option Hash := if h ∈ l then some h else none

def small : Env Hash (List Hash) (List Hash) Unit Unit Unit where
  digest := id
  expirationTimestamp _ := 10
  getByHash := member
  insert b t := .ok (t :: b)
  finalize b t := b.filter (· ≠ t)
  expire b time := if time < 10 then b else []
  getTransaction := member
  getTransactionStatus a h := (member a h).map fun _ => .success
  getTxnOutput _ _ := some ()
  getBlockHashByTxnHash a h := member a h
  getBlockHeaderInfo _ _ := some ()
  insertExecutedBlock a block := block.transactions ++ a
  createTransactionInfo _ _ _ _ _ := .ok ()

theorem isSome_member {l : List Hash} {h : Hash} : (member l h).isSome ↔ h ∈ l := by
  unfold member
  split <;> simp [*]

theorem small_lawful : Lawful small where
  digest_getByHash h := by
    simp only [small, member, Option.ite_none_right_eq_some, Option.some.injEq] at h
    exact h.2.symm
  getByHash_insert h := by
    cases h
    simp [small, isSome_member]
  insert_keeps h hb := by
    cases h
    simp only [small, isSome_member] at hb ⊢
    exact List.mem_cons_of_mem _ hb
  finalize_keeps hne hb := by
    simp only [small, isSome_member] at hb ⊢
    exact List.mem_filter.2 ⟨hb, decide_eq_true (Ne.symm hne)⟩
  expire_keeps hb htime := by
    have hlt : _ < 10 := htime
    simp only [small, if_pos hlt] at hb ⊢
    rw [hb]
    rfl
  archive_insert ht := by
    simp only [small, Option.isSome_map, isSome_member, id]
    exact ⟨List.mem_append_left _ ht, List.mem_append_left _ ht⟩
  archive_keeps := by
    simp only [small, Option.isSome_map, isSome_member]
    exact ⟨List.mem_append_right _, List.mem_append_right _, List.mem_append_right _⟩
  archive_finalized h _ _ := by
    have hsome := congrArg Option.isSome h
    simpa [small] using hsome

/-- A lookup after the block with the transaction has been inserted. -/
theorem lookup_of_apart_small :
    let c := run (rpcStorage small) ⟨⟨[], []⟩, []⟩ [.start (.consume 5), .turn 0 none]
    let started := (run (rpcStorage small) c
      [.start (.insertExecutedBlock ⟨1, [5]⟩), .turn 1 none, .turn 1 none, .turn 1 none,
        .start (.lookup 5), .turn 2 none, .turn 2 none, .turn 2 none, .turn 2 none, .turn 2 none,
        .turn 2 none, .turn 2 none]).procs.drop c.procs.length
    .lookedUp 5 (.ok ()) ∈ started ∧ ∀ result, .lookedUp 5 result ∈ started →
      result ≠ .error (.transactionNotFound 5) ∧ result ≠ .error (.missingTransactionStatus 5) := by
  refine ⟨List.mem_cons_of_mem _ List.mem_cons_self,
    lookup_of_apart small_lawful ⟨[], []⟩ _ _ 5 ?_ ?_ ?_⟩
  · exact List.mem_cons_self
  · simp [Timely, Outlives, small]
  · have hquiet : ∀ {c : Config (RpcStorage (List Hash) (List Hash)) (Process Hash Unit Unit)} {i e},
        (c.procs[i]?).all (fun p => !readsArchive 5 p) → Apart small 5 c (.turn i e) := by
      intro c i e hall p hp hread
      rw [hp, Option.all_some, hread] at hall
      cases hall
    have hinserted : ∀ {c : Config (RpcStorage (List Hash) (List Hash)) (Process Hash Unit Unit)}
        {i e q}, c.procs = [.consumed 5 (.ok ()), .inserted ⟨1, [5]⟩, q] → Process.looks q →
        Apart small 5 c (.turn i e) := by
      rintro c i e q hprocs hq p - - ⟨block, hmem, -⟩
      rw [hprocs] at hmem
      simp only [List.mem_cons, reduceCtorEq, List.not_mem_nil, or_false, false_or] at hmem
      subst hmem
      cases hq
    exact along_cons trivial (along_cons (hquiet rfl) (along_cons (hquiet rfl) (along_cons
      (hquiet rfl) (along_cons trivial (along_cons (hinserted rfl rfl) (along_cons (hinserted rfl rfl)
      (along_cons (hinserted rfl rfl) (along_cons (hinserted rfl rfl) (along_cons (hinserted rfl rfl)
      (along_cons (hinserted rfl rfl) (along_cons (hinserted rfl rfl) along_nil)))))))))))

/-- A lookup between the two writes of the block does not find its transaction. -/
theorem lookup_while_moving : Lawful small ∧
    .lookedUp 5 (.error (.transactionNotFound 5)) ∈ (run (rpcStorage small) ⟨⟨[], []⟩, []⟩
      [.start (.consume 5), .turn 0 none, .start (.insertExecutedBlock ⟨1, [5]⟩), .turn 1 none,
        .turn 1 none, .start (.lookup 5), .turn 2 none, .turn 2 none]).procs :=
  ⟨small_lawful, List.mem_cons_of_mem _ (List.mem_cons_of_mem _ List.mem_cons_self)⟩

end Rest.Storage.Proof
