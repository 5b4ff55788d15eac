import Mathlib.Data.List.Chain
import SupraL1.Rest.Submission
import SupraL1.Rest.Proof.Lookup
import SupraL1.Rest.Proof.RestCallLimiter

/-!
# What is sent to the consensus

Requests are served at the same time, and blocks are inserted meanwhile. In every interleaving the
client is given one message for each request that is answered with the hash of its transaction or with
the error of the client, and none for one that was refused by the limiter, the verifier or the storage.
What the client was given is in the storage, as it is put there first. And the limiter bounds how much
of one sender it is given.
-/

namespace Rest.Submission.Proof

open Consensus (Hash)
open Pool
open RestCallLimiter (LimitInstance Registration LimitingStrategy cacheSize Tracks lastAllowed)
open Storage (ExecutedBlock RpcStorage)
open Storage.Proof (Lawful Contains Outlives)

variable {M S T B A O N I : Type} {E : Env M S T B A O N I}

/-! ## What a turn does -/

/-- What a turn can do. -/
inductive Effect (E : Env M S T B A O N I) (now : Nat) (s : Server M S T B A) :
    Process M S T → Server M S T B A → Process M S T → Prop where
  | unlimited {r : SupraTransaction M S} (h : s.restCallLimiter = none) :
      Effect E now s (.register r) s (.verify r)
  | allowed {r : SupraTransaction M S} {L : RestCallLimiter} (hL : s.restCallLimiter = some L)
      (h : (L.register now (E.limitInstance r)).2 = .ok ()) :
      Effect E now s (.register r) { s with
        restCallLimiter := some (L.register now (E.limitInstance r)).1
        registrations := ⟨E.limitInstance r, now, true⟩ :: s.registrations } (.verify r)
  | refused {r : SupraTransaction M S} {L : RestCallLimiter} {e : RestCallLimiter.Error} {e' : Error}
      (hL : s.restCallLimiter = some L) (h : (L.register now (E.limitInstance r)).2 = .error e) :
      Effect E now s (.register r) { s with
        restCallLimiter := some (L.register now (E.limitInstance r)).1
        registrations := ⟨E.limitInstance r, now, false⟩ :: s.registrations }
        (.answered (.submitted r) (.error e'))
  | poisoned {r : SupraTransaction M S} {e : Error} :
      Effect E now s (.register r) s (.answered (.submitted r) (.error e))
  | verified {r : SupraTransaction M S} :
      Effect E now s (.verify r) s (.dispatch (.submitted r) delegates)
  | rejected {r : SupraTransaction M S} {e : Error} :
      Effect E now s (.verify r) s (.answered (.submitted r) (.error e))
  | stored {src : Source M S T} {left : List Consumer} {b : B}
      (h : E.storage.insert s.storage.backlog (E.transaction src) = .ok b) :
      Effect E now s (.dispatch src (.rpcStorage :: left)) { s with storage.backlog := b }
        (.dispatch src left)
  | notStored {src : Source M S T} {left : List Consumer} {e : TransactionDispatchError} :
      Effect E now s (.dispatch src (.rpcStorage :: left)) s (.interrupted src .rpcStorage e)
  | sent {src : Source M S T} {left : List Consumer} :
      Effect E now s (.dispatch src (.rpcClient :: left)) { s with sent := s.sent ++ [src] }
        (.dispatch src left)
  | failed {src : Source M S T} {left : List Consumer} {e : TransactionDispatchError} :
      Effect E now s (.dispatch src (.rpcClient :: left)) { s with sent := s.sent ++ [src] }
        (.interrupted src .rpcClient e)
  | done {src : Source M S T} :
      Effect E now s (.dispatch src []) s (.answered src (.ok (E.storage.digest (E.transaction src))))
  | expire (block : ExecutedBlock T) : Effect E now s (.expire block)
      { s with storage.backlog := E.storage.expire s.storage.backlog block.timestamp } (.finalize block)
  | finalize (block : ExecutedBlock T) : Effect E now s (.finalize block)
      { s with storage.backlog := block.transactions.foldl E.storage.finalize s.storage.backlog }
      (.archive block)
  | archive (block : ExecutedBlock T) : Effect E now s (.archive block)
      { s with storage.archive := E.storage.insertExecutedBlock s.storage.archive block }
      (.inserted block)

theorem register_effect (input : Input) (s : Server M S T B A) (r : SupraTransaction M S) :
    Effect E input.now s (.register r) (register E input s r).1 (register E input s r).2 := by
  unfold register
  cases hL : s.restCallLimiter with
  | none => exact .unlimited hL
  | some L =>
    dsimp only
    split
    · exact .poisoned
    · cases hresult : (L.register input.now (E.limitInstance r)).2 with
      | ok u => exact .allowed hL hresult
      | error e =>
        cases e with
        | tooManyRequests allowIn => exact .refused hL hresult

theorem consume_effect (input : Input) (s : Server M S T B A) (src : Source M S T) (delegate : Consumer)
    (left : List Consumer) :
    (∃ s', consume E input s src delegate = (s', .ok ()) ∧
      Effect E input.now s (.dispatch src (delegate :: left)) s' (.dispatch src left)) ∨
    ∃ s' e, consume E input s src delegate = (s', .error e) ∧
      Effect E input.now s (.dispatch src (delegate :: left)) s' (.interrupted src delegate e) := by
  cases delegate with
  | rpcStorage =>
    simp only [consume]
    cases hinsert : E.storage.insert s.storage.backlog (E.transaction src) with
    | ok b => exact .inl ⟨_, rfl, .stored hinsert⟩
    | error e => exact .inr ⟨_, _, rfl, .notStored⟩
  | rpcClient =>
    simp only [consume]
    cases input.clientError with
    | none => exact .inl ⟨_, rfl, .sent⟩
    | some e => exact .inr ⟨_, _, rfl, .failed⟩

theorem step_effect {input : Input} {s s' : Server M S T B A} {p p' : Process M S T}
    {new : List (Process M S T)} (h : step E input s p = some (s', p', new)) :
    new = [] ∧ Effect E input.now s p s' p' := by
  cases p with
  | register r =>
    cases h
    exact ⟨rfl, register_effect input s r⟩
  | verify r =>
    simp only [step] at h
    split at h
    · cases h
      exact ⟨rfl, .verified⟩
    · cases h
      exact ⟨rfl, .rejected⟩
    · cases h
      exact ⟨rfl, .rejected⟩
  | dispatch src left =>
    cases left with
    | nil =>
      cases h
      exact ⟨rfl, .done⟩
    | cons delegate left =>
      simp only [step] at h
      rcases consume_effect input s src delegate left with ⟨s'', heq, heffect⟩ | ⟨s'', e, heq, heffect⟩
      · rw [heq] at h
        cases h
        exact ⟨rfl, heffect⟩
      · rw [heq] at h
        cases h
        exact ⟨rfl, heffect⟩
  | answered src result => cases h
  | interrupted src delegate e => cases h
  | expire block =>
    cases h
    exact ⟨rfl, .expire block⟩
  | finalize block =>
    cases h
    exact ⟨rfl, .finalize block⟩
  | archive block =>
    cases h
    exact ⟨rfl, .archive block⟩
  | inserted block => cases h

/-! ## One message for each request -/

/-- The consumers are called in their order. -/
def Orderly : Process M S T → Prop
  | .dispatch _ left => left <:+ delegates
  | _ => True

/-- The source of a call that has called the client. -/
def passed : Process M S T → Option (Source M S T)
  | .dispatch src [] => some src
  | .answered src (.ok _) => some src
  | .interrupted src .rpcClient _ => some src
  | _ => none

/-- What was sent is what has called the client, and an answer is the hash of the transaction. -/
structure Accounted (E : Env M S T B A O N I) (c : Config (Server M S T B A) (Process M S T)) :
    Prop where
  orderly : ∀ p ∈ c.procs, Orderly p
  sent : c.shared.sent.Perm (c.procs.filterMap passed)
  answer : ∀ src hash, .answered src (.ok hash) ∈ c.procs →
    hash = E.storage.digest (E.transaction src)

theorem suffix_delegates {left : List Consumer} {delegate : Consumer}
    (h : delegate :: left <:+ delegates) :
    (delegate = .rpcStorage ∧ left = [.rpcClient]) ∨ (delegate = .rpcClient ∧ left = []) := by
  rcases List.suffix_cons_iff.1 h with heq | h
  · obtain ⟨rfl, rfl⟩ := List.cons.inj heq
    exact .inl ⟨rfl, rfl⟩
  · rcases List.suffix_cons_iff.1 h with heq | h
    · obtain ⟨rfl, rfl⟩ := List.cons.inj heq
      exact .inr ⟨rfl, rfl⟩
    · cases List.suffix_nil.1 h

theorem orderly_effect {now : Nat} {s s' : Server M S T B A} {p p' : Process M S T}
    (h : Effect E now s p s' p') (hp : Orderly p) : Orderly p' := by
  cases h with
  | verified => exact List.suffix_refl _
  | stored => exact (List.suffix_cons _ _).trans hp
  | sent => exact (List.suffix_cons _ _).trans hp
  | _ => trivial

/-- A turn calls the client exactly if it sends. -/
theorem sent_effect {now : Nat} {s s' : Server M S T B A} {p p' : Process M S T}
    (h : Effect E now s p s' p') (hp : Orderly p) :
    (s'.sent = s.sent ∧ passed p' = passed p) ∨
      ∃ src, s'.sent = s.sent ++ [src] ∧ passed p = none ∧ passed p' = some src := by
  cases h with
  | stored =>
    rcases suffix_delegates hp with ⟨_, rfl⟩ | ⟨hne, _⟩
    · exact .inl ⟨rfl, rfl⟩
    · cases hne
  | @sent src left =>
    rcases suffix_delegates hp with ⟨hne, _⟩ | ⟨_, rfl⟩
    · cases hne
    · exact .inr ⟨src, rfl, rfl, rfl⟩
  | @failed src left =>
    rcases suffix_delegates hp with ⟨hne, _⟩ | ⟨_, rfl⟩
    · cases hne
    · exact .inr ⟨src, rfl, rfl, rfl⟩
  | notStored =>
    rcases suffix_delegates hp with ⟨_, rfl⟩ | ⟨hne, _⟩
    · exact .inl ⟨rfl, rfl⟩
    · cases hne
  | _ => exact .inl ⟨rfl, rfl⟩

theorem answer_effect {now : Nat} {s s' : Server M S T B A} {p : Process M S T} {src : Source M S T}
    {hash : Hash} (h : Effect E now s p s' (.answered src (.ok hash))) :
    hash = E.storage.digest (E.transaction src) := by
  cases h
  rfl

section
variable {c c' : Config (Server M S T B A) (Process M S T)}

theorem Accounted.start (hc : Accounted E c) (r : Request M S T) :
    Accounted E ⟨c.shared, c.procs ++ [(server E).init r]⟩ := by
  obtain ⟨horderly, hpassed, hanswer⟩ : Orderly ((server E).init r) ∧
      passed ((server E).init r) = none ∧ ∀ src hash, .answered src (.ok hash) ≠ (server E).init r := by
    cases r with
    | submit => exact ⟨trivial, rfl, fun _ _ h => by cases h⟩
    | issue => exact ⟨List.suffix_refl _, rfl, fun _ _ h => by cases h⟩
    | insertExecutedBlock => exact ⟨trivial, rfl, fun _ _ h => by cases h⟩
  refine ⟨fun p hp => ?_, ?_, fun src hash hmem => ?_⟩
  · rcases List.mem_append.1 hp with hp | hp
    · exact hc.orderly p hp
    · rw [List.mem_singleton.1 hp]
      exact horderly
  · show c.shared.sent.Perm ((c.procs ++ [(server E).init r]).filterMap passed)
    rw [List.filterMap_append, List.filterMap_cons_none hpassed, List.filterMap_nil, List.append_nil]
    exact hc.sent
  · rcases List.mem_append.1 hmem with hmem | hmem
    · exact hc.answer src hash hmem
    · exact absurd (List.mem_singleton.1 hmem) (hanswer src hash)

theorem accounted_step {a : Act (Request M S T) Input} (hstep : Step (server E) c a c')
    (hc : Accounted E c) : Accounted E c' := by
  cases hstep with
  | idle => exact hc
  | start r => exact hc.start r
  | @turn l r new p p' s input hprocs hturn =>
    obtain ⟨rfl, heffect⟩ := step_effect hturn
    have hp : p ∈ c.procs := by
      rw [hprocs]
      exact List.mem_append_right l List.mem_cons_self
    have hmem {q : Process M S T} (hq : q ∈ l ++ p' :: (r ++ [])) : q = p' ∨ q ∈ c.procs := by
      rw [List.append_nil] at hq
      rw [hprocs]
      exact mem_turn hq
    refine ⟨fun q hq => ?_, ?_, fun src hash hq => ?_⟩
    · rcases hmem hq with rfl | hq
      · exact orderly_effect heffect (hc.orderly p hp)
      · exact hc.orderly q hq
    · have hsent := hc.sent
      rw [hprocs, List.filterMap_append] at hsent
      show s.sent.Perm ((l ++ p' :: (r ++ [])).filterMap passed)
      rw [List.append_nil, List.filterMap_append]
      rcases sent_effect heffect (hc.orderly p hp) with ⟨heq, hpassed⟩ | ⟨src, heq, hbefore, hafter⟩
      · rw [heq, List.filterMap_cons, hpassed, ← List.filterMap_cons]
        exact hsent
      · rw [List.filterMap_cons_none hbefore] at hsent
        rw [heq, List.filterMap_cons_some hafter]
        exact (hsent.append_right [src]).trans
          ((List.perm_append_singleton src _).trans List.perm_middle.symm)
    · rcases hmem hq with heq | hq
      · rw [← heq] at heffect
        exact answer_effect heffect
      · exact hc.answer src hash hq

end

theorem accounted_start {s : Server M S T B A} (hs : s.sent = []) : Accounted E ⟨s, []⟩ := by
  refine ⟨fun _ hp => absurd hp List.not_mem_nil, ?_, fun _ _ hp => absurd hp List.not_mem_nil⟩
  rw [hs]
  exact .refl _

theorem accounted_run (s : Server M S T B A) (hs : s.sent = [])
    (acts : List (Act (Request M S T) Input)) : Accounted E (run (server E) ⟨s, []⟩ acts) :=
  run_inv (I := Accounted E) (P := fun _ _ => True)
    (fun _ _ _ hc _ hstep => accounted_step hstep hc) (accounted_start hs) fun _ _ _ _ => trivial

/-! ## What was sent is stored -/

section
variable (E : Env M S T B A O N I) (h : Hash)

/-- The transaction is in the backlog, in the archive, or on its way from one to the other. -/
def Stored (c : Config (Server M S T B A) (Process M S T)) : Prop :=
  (E.storage.getByHash c.shared.storage.backlog h).isSome ∨
  ((E.storage.getTransaction c.shared.storage.archive h).isSome ∧
    (E.storage.getTransactionStatus c.shared.storage.archive h).isSome) ∨
  ∃ block, .archive block ∈ c.procs ∧ Contains E.storage h block

def Kept : Process M S T → Prop
  | .dispatch src left => .rpcStorage ∉ left ∧ E.storage.digest (E.transaction src) = h
  | .answered src (.ok _) | .interrupted src .rpcClient _ => E.storage.digest (E.transaction src) = h
  | _ => False

def Timely : Act (Request M S T) Input → Prop
  | .start (.insertExecutedBlock block) => Outlives E.storage h block
  | _ => True

end

variable {h : Hash}

section
variable (hE : Lawful E.storage)
include hE

theorem stored_effect {now : Nat} {s s' : Server M S T B A} {p p' : Process M S T}
    {l r : List (Process M S T)} (heffect : Effect E now s p s' p')
    (hout : ∀ block, .expire block ∈ l ++ p :: r → Outlives E.storage h block)
    (hc : Stored E h ⟨s, l ++ p :: r⟩) : Stored E h ⟨s', l ++ p' :: r⟩ := by
  rcases hc with hb | ha | ⟨block, hmem, hin⟩
  · cases heffect with
    | stored hinsert => exact .inl (hE.insert_keeps hinsert hb)
    | expire block =>
      obtain ⟨t, ht⟩ := Option.isSome_iff_exists.1 hb
      exact .inl (hE.expire_keeps ht (hout block (by simp) t (hE.digest_getByHash ht)))
    | finalize block =>
      by_cases hin : Contains E.storage h block
      · exact .inr (.inr ⟨block, by simp, hin⟩)
      · exact .inl (Storage.Proof.finalize_foldl_keeps hE (fun t ht heq => hin ⟨t, ht, heq⟩) hb)
    | _ => exact .inl hb
  · cases heffect with
    | archive block => exact .inr (.inl ⟨hE.archive_keeps.1 ha.1, hE.archive_keeps.2.1 ha.2⟩)
    | _ => exact .inr (.inl ha)
  · by_cases hp : p = .archive block
    · -- the block arrives in the archive
      subst hp
      cases heffect
      obtain ⟨t, ht, rfl⟩ := hin
      exact .inr (.inl (hE.archive_insert ht))
    · refine .inr (.inr ⟨block, ?_, hin⟩)
      simp only [List.mem_append, List.mem_cons] at hmem ⊢
      rcases hmem with hmem | rfl | hmem
      · exact .inl hmem
      · exact absurd rfl hp
      · exact .inr (.inr hmem)

/-- A call puts its transaction into the storage before anything else. -/
theorem kept_effect {now : Nat} {s s' : Server M S T B A} {p p' : Process M S T}
    {procs : List (Process M S T)} (heffect : Effect E now s p s' p') (hp : Orderly p)
    (hp' : Kept E h p') :
    Kept E h p ∨ Stored E h ⟨s', procs⟩ := by
  cases heffect with
  | verified => exact absurd List.mem_cons_self hp'.1
  | stored hinsert =>
    obtain ⟨-, rfl⟩ := hp'
    exact .inr (.inl (hE.getByHash_insert hinsert))
  | sent => exact .inl ⟨by simpa using hp'.1, hp'.2⟩
  | failed =>
    rcases suffix_delegates hp with ⟨hne, _⟩ | ⟨_, rfl⟩
    · cases hne
    · exact .inl ⟨by decide, hp'⟩
  | done => exact .inl ⟨List.not_mem_nil, hp'⟩
  | _ => exact absurd hp' id

/-- What was put into the storage is there, and the blocks that are inserted are old enough. -/
structure Safe (E : Env M S T B A O N I) (h : Hash)
    (c : Config (Server M S T B A) (Process M S T)) : Prop where
  outlives : ∀ block, .expire block ∈ c.procs → Outlives E.storage h block
  stored : ∀ p ∈ c.procs, Kept E h p → Stored E h c

theorem safe_step {c c' : Config (Server M S T B A) (Process M S T)}
    {a : Act (Request M S T) Input} (hstep : Step (server E) c a c') (ha : Timely E h a)
    (horderly : ∀ p ∈ c.procs, Orderly p) (hc : Safe E h c) : Safe E h c' := by
  cases hstep with
  | idle => exact hc
  | start request =>
    have hstored (hc' : Stored E h c) : Stored E h ⟨c.shared, c.procs ++ [(server E).init request]⟩ :=
      hc'.imp id (Or.imp id fun ⟨block, hmem, hin⟩ => ⟨block, List.mem_append_left _ hmem, hin⟩)
    refine ⟨fun block hmem => ?_, fun p hmem hp => ?_⟩
    · rcases List.mem_append.1 hmem with hmem | hmem
      · exact hc.outlives block hmem
      · cases request with
        | insertExecutedBlock block' =>
          cases List.mem_singleton.1 hmem
          exact ha
        | submit | issue => cases List.mem_singleton.1 hmem
    · rcases List.mem_append.1 hmem with hmem | hmem
      · exact hstored (hc.stored p hmem hp)
      · rw [List.mem_singleton.1 hmem] at hp
        cases request with
        | issue txn => exact absurd List.mem_cons_self hp.1
        | submit | insertExecutedBlock => exact absurd hp id
  | @turn l r new p p' s input hprocs hturn =>
    obtain ⟨rfl, heffect⟩ := step_effect hturn
    obtain ⟨s₀, procs⟩ := c
    subst hprocs
    rw [List.append_nil]
    have hkeeps : Stored E h ⟨s₀, l ++ p :: r⟩ → Stored E h ⟨s, l ++ p' :: r⟩ :=
      stored_effect hE heffect hc.outlives
    refine ⟨fun block hmem => ?_, fun q hmem hq => ?_⟩
    · rcases mem_turn hmem with heq | hold
      · subst heq
        cases heffect
      · exact hc.outlives block hold
    · rcases mem_turn hmem with rfl | hold
      · rcases kept_effect hE heffect (horderly p (by simp)) hq with hp | hstored
        · exact hkeeps (hc.stored p (by simp) hp)
        · exact hstored
      · exact hkeeps (hc.stored q hold hq)

end

theorem kept_of_passed {p : Process M S T} {src : Source M S T} (hp : passed p = some src)
    (hh : E.storage.digest (E.transaction src) = h) : Kept E h p := by
  unfold passed at hp
  split at hp
  · cases hp
    exact ⟨List.not_mem_nil, hh⟩
  · cases hp
    exact hh
  · cases hp
    exact hh
  · cases hp

/-- **What was sent.** Whatever requests are served and blocks inserted, in any interleaving: the client
is given one message for each request that is answered with a hash, or about to be, or with the error of
the client, and no other; the hash is the one of the transaction that was sent; and what was sent is in
the backlog, in the archive or on its way there, unless a block has expired it. -/
theorem sent_once_and_stored (hE : Lawful E.storage) (s : Server M S T B A) (hs : s.sent = [])
    (acts : List (Act (Request M S T) Input)) (c : Config (Server M S T B A) (Process M S T))
    (hc : run (server E) ⟨s, []⟩ acts = c) :
    c.shared.sent.Perm (c.procs.filterMap passed) ∧
      (∀ src hash, .answered src (.ok hash) ∈ c.procs →
        src ∈ c.shared.sent ∧ hash = E.storage.digest (E.transaction src)) ∧
      ∀ src ∈ c.shared.sent,
        (∀ a ∈ acts, Timely E (E.storage.digest (E.transaction src)) a) →
          Stored E (E.storage.digest (E.transaction src)) c := by
  have haccounted : Accounted E c := hc ▸ accounted_run s hs acts
  refine ⟨haccounted.sent, fun src hash hmem => ?_, fun src hsrc htimely => ?_⟩
  · refine ⟨?_, haccounted.answer src hash hmem⟩
    exact haccounted.sent.mem_iff.2 (List.mem_filterMap.2 ⟨_, hmem, rfl⟩)
  · have hsafe : Safe E (E.storage.digest (E.transaction src)) c := by
      rw [← hc]
      refine (run_inv (I := fun c => Accounted E c ∧ Safe E (E.storage.digest (E.transaction src)) c)
        (P := fun _ a => Timely E (E.storage.digest (E.transaction src)) a) ?_ ?_ ?_).2
      · rintro c a c' ⟨hc, hsafe⟩ ha hstep
        exact ⟨accounted_step hstep hc, safe_step hE hstep ha hc.orderly hsafe⟩
      · exact ⟨accounted_start hs, fun _ hp => absurd hp List.not_mem_nil,
          fun _ hp => absurd hp List.not_mem_nil⟩
      · intro pre a post hacts
        exact htimely a (by rw [hacts]; simp)
    obtain ⟨p, hp, hpassed⟩ := List.mem_filterMap.1 (haccounted.sent.mem_iff.1 hsrc)
    exact hsafe.stored p hp (kept_of_passed hpassed rfl)

/-! A server whose transactions are their own hashes and senders, and whose limiter has an interval of
five. A transaction is submitted twice, and the second request comes too early; the client reports an
error for another one. -/

def smallEnv : Env Hash Hash Hash (List Hash) (List Hash) Unit Unit Unit where
  storage := Storage.Proof.small
  sender := id
  signer := id
  fromSupra
    | .move txn | .smr txn => txn

def smallServer : Server Hash Hash Hash (List Hash) (List Hash) :=
  ⟨some (.new (RestCallLimiter.intervalStrategy 5)), ⟨[], []⟩, [], []⟩

/-- A step at which nothing fails. -/
def well (now : Nat) : Input := ⟨now, false, .verified, none⟩

def smallActs : List (Act (Request Hash Hash Hash) Input) :=
  [.start (.submit (.move 5)), .start (.submit (.move 5)), .start (.submit (.smr 6)),
    .turn 0 (well 1), .turn 1 (well 2), .turn 0 (well 3), .turn 2 (well 3), .turn 0 (well 4),
    .turn 0 (well 5), .turn 2 (well 6), .turn 2 (well 7),
    .turn 2 ⟨8, false, .verified, some (.notConnected "")⟩, .turn 0 (well 9),
    .start (.insertExecutedBlock ⟨1, [5]⟩), .turn 3 (well 10), .turn 3 (well 11)]

theorem sent_once_and_stored_small : ∃ c, run (server smallEnv) ⟨smallServer, []⟩ smallActs = c ∧
    c.shared.sent = [.submitted (.move 5), .submitted (.smr 6)] ∧ Stored smallEnv 5 c ∧
      Stored smallEnv 6 c := by
  obtain ⟨_, _, hstored⟩ := sent_once_and_stored (E := smallEnv) Storage.Proof.small_lawful smallServer
    rfl smallActs _ rfl
  refine ⟨_, rfl, rfl, hstored (.submitted (.move 5)) List.mem_cons_self ?_,
    hstored (.submitted (.smr 6)) (List.mem_cons_of_mem _ List.mem_cons_self) ?_⟩
  all_goals simp [smallActs, Timely, Outlives, smallEnv, Storage.Proof.small]

/-! ## The limiter -/

section
variable (E : Env M S T B A O N I) (i : LimitInstance)

/-- The source is a request that the limiter counts for the value. -/
def countsFor : Source M S T → Bool
  | .submitted request => E.limitInstance request = i
  | .issued _ => false

/-- The call is past the limiter, and was not refused by the verifier. -/
def admitted : Process M S T → Bool
  | .verify request => countsFor E i (.submitted request)
  | .dispatch src _ | .answered src (.ok _) | .interrupted src .. => countsFor E i src
  | _ => false

/-- The times at which the value was allowed, the latest first. -/
def allowedTimes (log : List Registration) : List Nat :=
  (log.filter fun r => r.limitInstance = i && r.allowed).map (·.time)

end

/-- The limiter has a record of its registrations, all of which are of some senders and in a span of
time, and the times at which one of them was allowed are apart by the interval. -/
structure Metered (interval : Nat) (senders : Finset LimitInstance) (t₀ t₁ : Nat)
    (s : Server M S T B A) : Prop where
  limiter : ∃ L, s.restCallLimiter = some L ∧ L.limitingStrategy.IsInterval interval ∧
    Tracks L s.registrations
  registered : ∀ r ∈ s.registrations, r.limitInstance ∈ senders ∧ t₀ ≤ r.time ∧ r.time ≤ t₁
  apart : ∀ i, (allowedTimes i s.registrations).IsChain fun later earlier => interval ≤ later - earlier

theorem allowedTimes_cons (i : LimitInstance) (r : Registration) (log : List Registration) :
    allowedTimes i (r :: log) =
      if r.limitInstance = i ∧ r.allowed then r.time :: allowedTimes i log else allowedTimes i log := by
  unfold allowedTimes
  rw [List.filter_cons]
  simp only [Bool.and_eq_true, decide_eq_true_eq]
  split
  · rfl
  · rfl

theorem head?_allowedTimes (i : LimitInstance) (log : List Registration) :
    (allowedTimes i log).head? = (lastAllowed log i).map (·.time) := by
  rw [allowedTimes, List.head?_map, List.head?_filter]
  rfl

theorem peek_of_registered {L : RestCallLimiter} {log : List Registration} {senders : Finset LimitInstance}
    (hL : Tracks L log) (hlog : ∀ r ∈ log, r.limitInstance ∈ senders)
    (hcard : senders.card ≤ cacheSize) {r : Registration} (hr : r ∈ log) :
    ∃ t, L.cache.peek r.limitInstance = some t := by
  have hlength : (Lru.recent (log.map (·.limitInstance))).length ≤ cacheSize := by
    rw [Lru.length_recent]
    refine (Finset.card_le_card fun i hi => ?_).trans hcard
    obtain ⟨r, hr, rfl⟩ := List.mem_map.1 (List.mem_toFinset.1 hi)
    exact hlog r hr
  have hmem : r.limitInstance ∈ L.cache.keys := by
    rw [hL.keys, List.take_of_length_le hlength, Lru.mem_recent]
    exact List.mem_map_of_mem hr
  refine Option.ne_none_iff_exists'.1 fun hnone => ?_
  exact Lru.Cache.peek_eq_none_iff.1 hnone hmem

theorem apart_of_allowed {L : RestCallLimiter} {log : List Registration} {senders : Finset LimitInstance}
    {interval now : Nat} {i : LimitInstance} (hint : L.limitingStrategy.IsInterval interval)
    (hL : Tracks L log) (hlog : ∀ r ∈ log, r.limitInstance ∈ senders)
    (hcard : senders.card ≤ cacheSize) (hok : (L.register now i).2 = .ok ()) :
    ∀ t ∈ (allowedTimes i log).head?, interval ≤ now - t := by
  intro t ht
  rw [head?_allowedTimes] at ht
  obtain ⟨r, hr, rfl⟩ := Option.map_eq_some_iff.1 ht
  have hfor : r.limitInstance = i := by
    have hpred := List.find?_some hr
    simp only [Bool.and_eq_true, decide_eq_true_eq] at hpred
    exact hpred.1
  obtain ⟨t', hpeek⟩ := peek_of_registered hL hlog hcard (List.mem_of_find?_eq_some hr)
  rw [hfor] at hpeek
  have ht' : r.time = t' := by
    have htimes := hL.times i t' hpeek
    rw [hr] at htimes
    exact Option.some.inj htimes
  rcases RestCallLimiter.register_spec hint now i with ⟨_, _, _, _, hrefused⟩ | ⟨hle, _⟩
  · rw [hrefused] at hok
    cases hok
  · exact ht' ▸ hle t' hpeek

theorem metered_register {s : Server M S T B A} {interval t₀ t₁ now : Nat}
    {senders : Finset LimitInstance} (hcard : senders.card ≤ cacheSize)
    (hs : Metered interval senders t₀ t₁ s) {i : LimitInstance} (hi : i ∈ senders)
    (hnow : t₀ ≤ now ∧ now ≤ t₁) {L : RestCallLimiter} (hL : s.restCallLimiter = some L) :
    Metered interval senders t₀ t₁ { s with
      restCallLimiter := some (L.register now i).1
      registrations := ⟨i, now, (L.register now i).2.isOk⟩ :: s.registrations } := by
  obtain ⟨L', hL', hint, htracks⟩ := hs.limiter
  cases hL.symm.trans hL'
  refine ⟨⟨_, rfl, ?_, htracks.register hint now i⟩, fun r hr => ?_, fun j => ?_⟩
  · rw [RestCallLimiter.limitingStrategy_register hint]
    exact hint
  · rcases List.mem_cons.1 hr with rfl | hr
    · exact ⟨hi, hnow⟩
    · exact hs.registered r hr
  · show (allowedTimes j (_ :: s.registrations)).IsChain _
    rw [allowedTimes_cons]
    split
    · rename_i hnew
      obtain ⟨rfl, hallowed⟩ := hnew
      refine (hs.apart i).cons ?_
      refine apart_of_allowed hint htracks (fun r hr => (hs.registered r hr).1) hcard ?_
      cases hok : (L.register now i).2 with
      | ok => rfl
      | error e =>
        dsimp only at hallowed
        rw [hok] at hallowed
        cases hallowed
    · exact hs.apart j

theorem metered_effect {s s' : Server M S T B A} {p p' : Process M S T} {interval t₀ t₁ now : Nat}
    {senders : Finset LimitInstance} (hcard : senders.card ≤ cacheSize)
    (heffect : Effect E now s p s' p') (hp : ∀ request, p = .register request → E.limitInstance request ∈ senders)
    (hnow : t₀ ≤ now ∧ now ≤ t₁) (hs : Metered interval senders t₀ t₁ s) :
    Metered interval senders t₀ t₁ s' := by
  cases heffect with
  | allowed hL h =>
    have hmetered := metered_register hcard hs (hp _ rfl) hnow hL
    rwa [h] at hmetered
  | refused hL h =>
    have hmetered := metered_register hcard hs (hp _ rfl) hnow hL
    rwa [h] at hmetered
  | _ => exact ⟨hs.limiter, hs.registered, hs.apart⟩

theorem admitted_effect {s s' : Server M S T B A} {p p' : Process M S T} {now : Nat}
    (hlimiter : s.restCallLimiter ≠ none) (heffect : Effect E now s p s' p') (i : LimitInstance) :
    [p'].countP (admitted E i) + (allowedTimes i s.registrations).length ≤
      [p].countP (admitted E i) + (allowedTimes i s'.registrations).length := by
  simp only [List.countP_singleton]
  cases heffect with
  | unlimited h => exact absurd h hlimiter
  | @allowed r L hL h =>
    rw [allowedTimes_cons]
    by_cases hr : E.limitInstance r = i
    · simp [admitted, countsFor, hr]
      omega
    · simp [admitted, countsFor, hr]
  | refused hL h =>
    rw [allowedTimes_cons]
    simp [admitted]
  | rejected => simp [admitted]
  | _ => exact Nat.le_refl _

theorem length_mul_le {interval t₀ t : Nat} {times : List Nat}
    (hchain : (t :: times).IsChain fun later earlier => interval ≤ later - earlier)
    (htimes : ∀ u ∈ times, t₀ ≤ u) : times.length * interval ≤ t - t₀ := by
  rcases Nat.eq_zero_or_pos interval with rfl | hpos
  · simp
  induction times generalizing t with
  | nil => simp
  | cons u times ih =>
    obtain ⟨hle, hchain⟩ := List.isChain_cons_cons.1 hchain
    have hrest := ih hchain fun v hv => htimes v (List.mem_cons_of_mem u hv)
    have hu := htimes u List.mem_cons_self
    rw [List.length_cons, Nat.succ_mul]
    omega

theorem Metered.length_le {s : Server M S T B A} {interval t₀ t₁ : Nat}
    {senders : Finset LimitInstance} (hs : Metered interval senders t₀ t₁ s) (i : LimitInstance) :
    (allowedTimes i s.registrations).length * interval ≤ t₁ - t₀ + interval := by
  have htimes : ∀ t ∈ allowedTimes i s.registrations, t₀ ≤ t ∧ t ≤ t₁ := by
    intro t ht
    obtain ⟨r, hr, rfl⟩ := List.mem_map.1 ht
    exact (hs.registered r (List.mem_of_mem_filter hr)).2
  have hchain := hs.apart i
  generalize allowedTimes i s.registrations = times at htimes hchain
  cases times with
  | nil => simp
  | cons t times =>
    have hrest := length_mul_le hchain fun u hu => (htimes u (List.mem_cons_of_mem t hu)).1
    have ht := (htimes t List.mem_cons_self).2
    rw [List.length_cons, Nat.succ_mul]
    omega

/-- The limiter is metered, the requests are those of the senders, and every call past the limiter was
allowed. -/
structure Limited (E : Env M S T B A O N I) (interval : Nat) (senders : Finset LimitInstance)
    (t₀ t₁ : Nat) (c : Config (Server M S T B A) (Process M S T)) : Prop where
  metered : Metered interval senders t₀ t₁ c.shared
  requests : ∀ request, .register request ∈ c.procs → E.limitInstance request ∈ senders
  admitted : ∀ i, c.procs.countP (admitted E i) ≤ (allowedTimes i c.shared.registrations).length

/-- The requests are from the senders, and the clock is in a span of time. -/
def Within (E : Env M S T B A O N I) (senders : Finset LimitInstance) (t₀ t₁ : Nat) :
    Act (Request M S T) Input → Prop
  | .start (.submit request) => E.limitInstance request ∈ senders
  | .start _ => True
  | .turn _ input => t₀ ≤ input.now ∧ input.now ≤ t₁

theorem limited_step {c c' : Config (Server M S T B A) (Process M S T)}
    {a : Act (Request M S T) Input} {interval t₀ t₁ : Nat} {senders : Finset LimitInstance}
    (hcard : senders.card ≤ cacheSize) (hstep : Step (server E) c a c')
    (ha : Within E senders t₀ t₁ a) (hc : Limited E interval senders t₀ t₁ c) :
    Limited E interval senders t₀ t₁ c' := by
  cases hstep with
  | idle => exact hc
  | start request =>
    refine ⟨hc.metered, fun r hmem => ?_, fun i => ?_⟩
    · rcases List.mem_append.1 hmem with hmem | hmem
      · exact hc.requests r hmem
      · cases request with
        | submit request =>
          cases List.mem_singleton.1 hmem
          exact ha
        | issue | insertExecutedBlock => cases List.mem_singleton.1 hmem
    · have hinit : admitted E i ((server E).init request) = false := by
        cases request <;> rfl
      rw [List.countP_append, List.countP_singleton, hinit]
      exact hc.admitted i
  | @turn l r new p p' s input hprocs hturn =>
    obtain ⟨rfl, heffect⟩ := step_effect hturn
    refine ⟨?_, fun request hmem => ?_, fun i => ?_⟩
    · refine metered_effect hcard heffect (fun request hp => ?_) ha hc.metered
      exact hc.requests request (by rw [hprocs, hp]; simp)
    · rw [List.append_nil] at hmem
      rcases mem_turn (p := p) hmem with heq | hold
      · subst heq
        cases heffect
      · exact hc.requests request (hprocs ▸ hold)
    · obtain ⟨L, hL, -⟩ := hc.metered.limiter
      have hlimiter : c.shared.restCallLimiter ≠ none := by
        rw [hL]
        exact Option.some_ne_none L
      have hcount := countP_turn (admitted E i) l r [] p p'
      have hturn := admitted_effect hlimiter heffect i
      have hold := hc.admitted i
      rw [hprocs] at hold
      show (l ++ p' :: (r ++ [])).countP (admitted E i) ≤ (allowedTimes i s.registrations).length
      omega

theorem admitted_of_passed {p : Process M S T} {i : LimitInstance}
    (hp : ((passed p).map (countsFor E i)).getD false) : admitted E i p := by
  unfold passed at hp
  split at hp
  · exact hp
  · exact hp
  · exact hp
  · cases hp

/-- **The limiter bounds what is sent.** As long as no more senders than the cache holds submit
transactions, in any interleaving, the transactions of one of them that the client is given are at most
one in each interval of the span of time. -/
theorem sent_at_most_one_per_interval (strategy : LimitingStrategy) (interval : Nat)
    (hstrategy : strategy.IsInterval interval) (storage : RpcStorage B A)
    (senders : Finset LimitInstance) (hcard : senders.card ≤ cacheSize) (t₀ t₁ : Nat)
    (acts : List (Act (Request M S T) Input)) (hacts : ∀ a ∈ acts, Within E senders t₀ t₁ a)
    (i : LimitInstance) :
    (run (server E) ⟨⟨some (.new strategy), storage, [], []⟩, []⟩ acts).shared.sent.countP
      (countsFor E i) * interval ≤ t₁ - t₀ + interval := by
  have haccounted := accounted_run (E := E) ⟨some (.new strategy), storage, [], []⟩ rfl acts
  have hlimited : Limited E interval senders t₀ t₁
      (run (server E) ⟨⟨some (.new strategy), storage, [], []⟩, []⟩ acts) := by
    refine run_inv (I := Limited E interval senders t₀ t₁) (P := fun _ a => Within E senders t₀ t₁ a)
      (fun c a c' hc ha hstep => limited_step hcard hstep ha hc) ?_ ?_
    · refine ⟨⟨⟨_, rfl, hstrategy, RestCallLimiter.tracks_new strategy⟩, ?_, ?_⟩, ?_, ?_⟩
      · exact fun _ hr => absurd hr List.not_mem_nil
      · exact fun _ => .nil
      · exact fun _ hp => absurd hp List.not_mem_nil
      · exact fun _ => Nat.le_refl _
    · intro pre a post heq
      exact hacts a (by rw [heq]; simp)
  generalize run (server E) ⟨⟨some (.new strategy), storage, [], []⟩, []⟩ acts = c at haccounted hlimited
  calc c.shared.sent.countP (countsFor E i) * interval
      = (c.procs.filterMap passed).countP (countsFor E i) * interval := by
        rw [haccounted.sent.countP_eq]
    _ ≤ c.procs.countP (admitted E i) * interval := by
        rw [List.countP_filterMap]
        exact Nat.mul_le_mul_right _ (List.countP_mono_left fun p _ hp => admitted_of_passed hp)
    _ ≤ (allowedTimes i c.shared.registrations).length * interval :=
        Nat.mul_le_mul_right _ (hlimited.admitted i)
    _ ≤ t₁ - t₀ + interval := hlimited.metered.length_le i

theorem sent_at_most_one_per_interval_small :
    (run (server smallEnv) ⟨smallServer, []⟩ smallActs).shared.sent.countP
      (countsFor smallEnv (.account 5)) * 5 ≤ 11 - 1 + 5 := by
  refine sent_at_most_one_per_interval (RestCallLimiter.intervalStrategy 5) 5
    (RestCallLimiter.intervalStrategy_isInterval 5) ⟨[], []⟩ {.account 5, .publicKey 6} ?_ 1 11 smallActs
    ?_ (.account 5)
  · decide
  · simp [smallActs, Within, smallEnv, Env.limitInstance, well]

end Rest.Submission.Proof
