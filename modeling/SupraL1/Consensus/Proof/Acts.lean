import SupraL1.Lib.Linked
import SupraL1.Consensus.Assembler

/-!
# The assembler as a system of atomic actions

`Act E A o s s'`: one atomic action of the assembler, a change of its memory or one event. A
constructor says what has to hold for the action to be taken; `A` are the blocks accepted so far
(received in a message and verified) and `o` is where the run started. `Refine.lean` shows that
every step of the code is a sequence of these actions, and everything that holds over whole runs
and at every crash point is derived from them.

`Inv` is the invariant that ties cache, store, feedback channel, pending sync request and the
last executed block together. It is kept by every single action (`Act.inv`), not only by steps.
-/

namespace Consensus.Proof

open EState ChainStateAssembler SynchronizationContext Relation

/-! ## Chains of blocks -/

/-- `b` directly follows the block with info `i`. -/
def Extends (i : BlockInfo) (b : CertifiedBlock) : Prop :=
  b.height = i.height + 1 ∧ b.parent = i.hash

instance (i : BlockInfo) (b : CertifiedBlock) : Decidable (Extends i b) :=
  inferInstanceAs (Decidable (_ ∧ _))

theorem Extends.rank (i : BlockInfo) (b : CertifiedBlock) (h : Extends i b) :
    b.info.height = i.height + 1 := h.1

/-- The blocks handed to the executor by the events of a log. -/
def handed (log : List Event) : List CertifiedBlock :=
  log.filterMap fun
    | .execute b _ => some b
    | _ => none

theorem handed_append (l l' : List Event) : handed (l ++ l') = handed l ++ handed l' := by
  simp [handed]

/-- Where a run starts: the last executed block and the length of the log. -/
structure Origin where
  info : BlockInfo
  mark : Nat

def Origin.of (s : ChainStateAssembler) : Origin := ⟨s.lastExecutedBlockInfo, s.log.length⟩

def Origin.since (o : Origin) (s : ChainStateAssembler) : List Event := s.log.drop o.mark

/-- The last block handed to the executor since the start. -/
def Origin.tip (o : Origin) (s : ChainStateAssembler) : BlockInfo :=
  Linked.tip CertifiedBlock.info o.info (handed (o.since s))

/-! ## Changes of the state -/

/-- The height of the last committed block, in memory. -/
abbrev committed (s : ChainStateAssembler) : Nat := s.store.lastCommittedBlockHeight

/-- The cache of the blocks pending execution. -/
abbrev pending (s : ChainStateAssembler) : Cache := s.store.pendingExecution

abbrev executed (s : ChainStateAssembler) : BlockInfo := s.lastExecutedBlockInfo

abbrev stored (s : ChainStateAssembler) : Nat → Option CertifiedBlock := s.chain.certifiedBlock

abbrev requested (s : ChainStateAssembler) : Option Nat := s.synchronizer.pendingSyncRequest

def withPending (m : Cache) (s : ChainStateAssembler) : ChainStateAssembler :=
  { s with store := { s.store with pendingExecution := m } }

def withCommitted (h : Nat) (s : ChainStateAssembler) : ChainStateAssembler :=
  { s with store := { s.store with lastCommittedBlockHeight := h } }

def withReady (l : List CertifiedBlock) (s : ChainStateAssembler) : ChainStateAssembler :=
  { s with readyToExecute := l }

def withVerifier (v : EpochStates) (s : ChainStateAssembler) : ChainStateAssembler :=
  { s with blockVerifier := v }

/-- The state but for the disk with its events, the observed block and the synchronizer. -/
def core (s : ChainStateAssembler) : ChainStateAssembler :=
  { s with
    lastObservedHighestBlock := none
    synchronizer := ⟨none⟩
    store := { s.store with store := ⟨ChainStore.empty, []⟩ } }

/-- After the successful execution of `b`. -/
def advance (b : CertifiedBlock) (epochChanged : Bool) (s : ChainStateAssembler) :
    ChainStateAssembler :=
  { s with
    lastExecutedBlockInfo := b.info
    blockVerifier := if epochChanged then s.blockVerifier.endCurrentEpoch else s.blockVerifier
    store := { s.store with pendingExecution := s.store.pendingExecution.retain b.height } }

theorem advance_over (b : CertifiedBlock) (flag : Bool) (s : ChainStateAssembler) :
    (advance b flag s).isCurrentEpochOver = (flag || s.isCurrentEpochOver) := by
  cases flag <;> rfl

def commitTo (b : CertifiedBlock) (s : ChainStateAssembler) : ChainStateAssembler :=
  (withCommitted b.height s).write (.committedBlock b)

/-- The executor's own write, if there is one. -/
def recordBlock : Option ExecutedBlock → ChainStateAssembler → ChainStateAssembler
  | some r, s => s.write (.executedBlock r)
  | none, s => s

/-- What the executor answers on `b` after it has been committed in `s`. -/
def answer (E : Env) (b : CertifiedBlock) (s : ChainStateAssembler) : ExecOutcome :=
  E.executeBlock (commitTo b s).log b s.blockVerifier.current.committee

/-- The state in which the executor returns from its call on `b`. -/
def returned (E : Env) (b : CertifiedBlock) (s : ChainStateAssembler) : ChainStateAssembler :=
  recordBlock (answer E b s).record
    ((commitTo b s).emit (.execute b s.blockVerifier.current.committee))

theorem returned_core (E : Env) (b : CertifiedBlock) (s : ChainStateAssembler) :
    core (returned E b s) = core (withCommitted b.height s) := by
  unfold returned
  cases (answer E b s).record <;> rfl

theorem returned_requested (E : Env) (b : CertifiedBlock) (s : ChainStateAssembler) :
    (returned E b s).synchronizer = s.synchronizer := by
  unfold returned
  cases (answer E b s).record <;> rfl

theorem executeBlock_eq (E : Env) (b : CertifiedBlock) (s : ChainStateAssembler) :
    executeBlock E b s = match E.fails (.write (.committedBlock b)) s.log with
      | some e => .error (.fatal (.blockStore (.persistentStore e)))
          ((withCommitted b.height s).emit (.writeFault (.committedBlock b) e))
      | none => match (answer E b s).result with
        | .error e => .error (.executionFailed e) (returned E b s)
        | .ok flag => .ok () (advance b flag ((returned E b s).emit (.executed b flag))) := by
  have hcommit : onStore (BlockStore.updateLastCommittedBlockInfo E.toStoreEnv b) s =
      match E.fails (.write (.committedBlock b)) s.log with
      | some e => .error (.fatal (.blockStore (.persistentStore e)))
          ((withCommitted b.height s).emit (.writeFault (.committedBlock b) e))
      | none => .ok () (commitTo b s) := by
    unfold BlockStore.updateLastCommittedBlockInfo
    rw [onStore_bind, bind_apply, onStore_modify]
    exact onStore_write _ _ _ (withCommitted b.height s)
  unfold executeBlock
  rw [bind_apply, hcommit]
  cases E.fails (.write (.committedBlock b)) s.log with
  | some e => rfl
  | none =>
    have hcall : callExecutor E b (commitTo b s) = match (answer E b s).result with
        | .error e => .error (.executionFailed e) (returned E b s)
        | .ok flag => .ok flag ((returned E b s).emit (.executed b flag)) := by
      have hans : E.executeBlock (commitTo b s).log b (commitTo b s).blockVerifier.current.committee =
        answer E b s := rfl
      unfold callExecutor returned
      dsimp only
      rw [hans]
      obtain ⟨result, record⟩ := answer E b s
      cases result <;> cases record <;> rfl
    simp only [bind_apply, hcall]
    cases (answer E b s).result with
    | error e => rfl
    | ok flag => cases flag <;> rfl

/-! ## Guards -/

/-- `fb` passes the checks that come before the store: it is verified in the current epoch,
the epoch is not over, and nothing is known at its height. -/
structure Admits (E : Env) (s : ChainStateAssembler) (fb : FullBlock) : Prop where
  verified : E.verify s.blockVerifier fb = .success
  live : s.isCurrentEpochOver = false
  above : (executed s).height < fb.base.height
  uncommitted : committed s < fb.base.height
  free : pending s fb.base.height = none

/-- `b` can be executed: it is the stored next block, and nothing else is on its way. It comes
directly from a verified message or is the scheduled one. -/
structure Ready (E : Env) (A : CertifiedBlock → Prop) (s : ChainStateAssembler)
    (b : CertifiedBlock) : Prop where
  accepted : A b
  live : s.isCurrentEpochOver = false
  follows : Extends (executed s) b
  stored : stored s b.height = some b
  quiet : s.readyToExecute = []
  idle : requested s = none
  source : (∃ fb, fb.base = b ∧ E.verify s.blockVerifier fb = .success) ∨
    pending s b.height = some (some (.scheduled b.info))

/-- The last committed block has been moved to `b`, and `b` not yet handed over. -/
structure Committed (E : Env) (A : CertifiedBlock → Prop) (o : Origin) (s : ChainStateAssembler)
    (b : CertifiedBlock) : Prop extends Ready E A s b where
  atHeight : committed s = b.height
  recorded : s.chain.committedBlock = some b
  atTip : o.tip s = executed s

structure Handed (E : Env) (A : CertifiedBlock → Prop) (o : Origin) (s : ChainStateAssembler)
    (b : CertifiedBlock) : Prop extends Ready E A s b where
  atHeight : committed s = b.height
  recorded : s.chain.committedBlock = some b
  atTip : o.tip s = b.info

/-- Events that neither write nor hand over nor request. -/
inductive Passive : Event → Prop
  | writeFault (w : Write) (e : StoreError) : Passive (.writeFault w e)
  | requestFault (h : Nat) (e : RpcClientError) : Passive (.requestFault h e)
  | ack : Passive .ack

/-! ## Actions -/

inductive Act (E : Env) (A : CertifiedBlock → Prop) (o : Origin) (s : ChainStateAssembler) :
    ChainStateAssembler → Prop
  | observe (i : Option BlockInfo) : Act E A o s { s with lastObservedHighestBlock := i }
  | emit {e : Event} (he : Passive e) : Act E A o s (s.emit e)
  | batch {fb : FullBlock} {p : PackedSmrBatch} (ha : Admits E s fb) (hp : p ∈ fb.batches) :
      Act E A o s (s.write (.batch p.key p.batch))
  | certified {fb : FullBlock} (ha : Admits E s fb) (hA : A fb.base)
      (hb : ∀ p ∈ fb.batches, (s.chain.batch p.key).isSome) :
      Act E A o s (s.write (.certifiedBlock fb.base))
  | forget : Act E A o s (setPending none s)
  | ask {i : BlockInfo} (hi : s.lastObservedHighestBlock = some i)
      (hle : s.nextBlockHeight ≤ i.height) (hn : s.store.hasEntry s.nextBlockHeight = false)
      (hl : s.isCurrentEpochOver = false) (hp : requested s = none) :
      Act E A o s (setPending (some s.nextBlockHeight) s)
  | post {h : Nat} (hp : requested s = some h) : Act E A o s (s.emit (.request h))
  | cache {fb : FullBlock} (ha : Admits E s fb) (hA : A fb.base)
      (hs : stored s fb.base.height = some fb.base) (hne : fb.base.height ≠ s.nextBlockHeight) :
      Act E A o s (withPending
        ((pending s).insert fb.base.height (some (s.store.reference fb.base))) s)
  | commitFault {b : CertifiedBlock} (e : StoreError) (hr : Ready E A s b)
      (hc : committed s < b.height) :
      Act E A o s ((withCommitted b.height s).emit (.writeFault (.committedBlock b) e))
  | commit {b : CertifiedBlock} (hr : Ready E A s b) (hc : committed s < b.height) :
      Act E A o s ((withCommitted b.height s).write (.committedBlock b))
  | handOver {b : CertifiedBlock} (hc : Committed E A o s b) :
      Act E A o s (s.emit (.execute b s.blockVerifier.current.committee))
  | record {b : CertifiedBlock} {log : List Event} {c : ValidatorCommittee} {r : ExecutedBlock}
      (hh : Handed E A o s b) (hr : (E.executeBlock log b c).record = some r) :
      Act E A o s (s.write (.executedBlock r))
  | advance {b : CertifiedBlock} {log : List Event} {c : ValidatorCommittee} {flag : Bool}
      (hh : Handed E A o s b) (hok : (E.executeBlock log b c).result = .ok flag)
      (hw : ∀ r, (E.executeBlock log b c).record = some r → s.chain.executedBlock = some r) :
      Act E A o s (advance b flag (s.emit (.executed b flag)))
  | boundary {b : CertifiedBlock} (ho : s.isCurrentEpochOver = true) (hb : executed s = b.info) :
      Act E A o s (s.write (.epochBoundaryBlockQC b.qc))
  | schedule {b : CertifiedBlock} (hl : s.isCurrentEpochOver = false) (hA : A b)
      (hh : b.height = s.nextBlockHeight) (hs : stored s b.height = some b)
      (hp : pending s b.height = some (some (.block b)) ∨
        pending s b.height = some (some (.memo b.info)))
      (hq : s.readyToExecute = []) :
      Act E A o s (withPending ((pending s).insert b.height (some (.scheduled b.info))) s)
  | push {b : CertifiedBlock} (hl : s.isCurrentEpochOver = false) (hA : A b)
      (hh : b.height = s.nextBlockHeight) (hs : stored s b.height = some b)
      (hp : pending s b.height = some (some (.scheduled b.info))) (hc : committed s < b.height)
      (hq : s.readyToExecute = []) : Act E A o s (withReady [b] s)
  | pop : Act E A o s (withReady s.readyToExecute.tail s)
  | hole {i : BlockInfo} (hl : s.isCurrentEpochOver = false)
      (hp : pending s s.nextBlockHeight = some (some (.memo i))) (hq : s.readyToExecute = []) :
      Act E A o s (withPending ((pending s).insert s.nextBlockHeight none) s)
  | retain (n : Nat) (ho : s.isCurrentEpochOver = true) :
      Act E A o s (withPending ((pending s).retain n) s)
  | newEpoch {e : EpochState} (ho : s.isCurrentEpochOver = true) (he : e.isEpochOver = false)
      (hx : E.epochExtends e s.currentEpochState = true) :
      Act E A o s (withVerifier (s.blockVerifier.insert e) s)

/-- **An action is silent or one event**, and the persistent store is what its events make it. A
block is handed over with the current committee. -/
theorem Act.event {E : Env} {A : CertifiedBlock → Prop} {o : Origin} {s s' : ChainStateAssembler}
    (ha : Act E A o s s') :
    (s'.log = s.log ∧ s'.chain = s.chain) ∨
      ∃ e, s'.log = s.log ++ [e] ∧ s'.chain = s.chain.replay [e] ∧
        ∀ b c, e = .execute b c → Committed E A o s b ∧ c = s.blockVerifier.current.committee := by
  cases ha with
  | observe _ | forget | ask _ _ _ _ _ | cache _ _ _ _ | schedule _ _ _ _ _ _
  | push _ _ _ _ _ _ _ | pop | hole _ _ _ | retain _ _ | newEpoch _ _ _ => exact .inl ⟨rfl, rfl⟩
  | emit he => cases he <;> exact .inr ⟨_, rfl, rfl, nofun⟩
  | handOver hc => exact .inr ⟨_, rfl, rfl, fun _ _ h => by cases h; exact ⟨hc, rfl⟩⟩
  | _ => exact .inr ⟨_, rfl, rfl, nofun⟩

theorem Act.log_prefix {E : Env} {A : CertifiedBlock → Prop} {o : Origin}
    {s s' : ChainStateAssembler} (ha : Act E A o s s') : s.log <+: s'.log := by
  rcases ha.event with ⟨h, -⟩ | ⟨e, h, -⟩
  · exact ⟨[], (List.append_nil _).trans h.symm⟩
  · exact ⟨[e], h.symm⟩

theorem log_prefix_of_acts {E : Env} {A : CertifiedBlock → Prop} {o : Origin}
    {s s' : ChainStateAssembler} (h : ReflTransGen (Act E A o) s s') : s.log <+: s'.log := by
  induction h with
  | refl => exact List.prefix_rfl
  | tail _ ha ih => exact ih.trans ha.log_prefix

/-! ## The invariant -/

structure Inv (A : CertifiedBlock → Prop) (o : Origin) (s : ChainStateAssembler) : Prop where
  mark : o.mark ≤ s.log.length
  /-- The channel holds at most the next block, which the cache knows as scheduled. -/
  single : s.readyToExecute.length ≤ 1
  channel : ∀ b ∈ s.readyToExecute, A b ∧ b.height = s.nextBlockHeight ∧ committed s < b.height ∧
    stored s b.height = some b ∧ pending s b.height = some (some (.scheduled b.info))
  halted : s.isCurrentEpochOver = true → s.readyToExecute = []
  above : ∀ h r, pending s h = some r → (executed s).height < h
  hole : ∀ h, pending s h = some none → h = s.nextBlockHeight ∧ s.isCurrentEpochOver = false
  scheduled : ∀ h i, pending s h = some (some (.scheduled i)) →
    h = s.nextBlockHeight ∧ s.isCurrentEpochOver = false
  /-- A block in the cache is an accepted one, and the store has it at its height. -/
  block : ∀ h b, pending s h = some (some (.block b)) → b.height = h ∧ A b ∧ stored s h = some b
  memo : ∀ h i, pending s h = some (some (.memo i)) →
    ∃ b, b.info = i ∧ b.height = h ∧ A b ∧ stored s h = some b
  /-- A pending request is for the next block, of which nothing is known. -/
  request : ∀ h, requested s = some h → h = s.nextBlockHeight ∧ pending s h = none ∧
    committed s < h ∧ s.isCurrentEpochOver = false
  linked : Linked.From Extends CertifiedBlock.info o.info (handed (o.since s))
  /-- Unless the next block has been committed, the last one handed over has been executed. -/
  settled : committed s < s.nextBlockHeight → o.tip s = executed s

/-! ## The log -/

section
variable {o : Origin} {s : ChainStateAssembler} (hm : o.mark ≤ s.log.length)
include hm

theorem Origin.since_emit (e : Event) : o.since (s.emit e) = o.since s ++ [e] :=
  List.drop_append_of_le_length hm

theorem Origin.since_write (w : Write) : o.since (s.write w) = o.since s ++ [Event.write w] :=
  List.drop_append_of_le_length hm

theorem handed_emit {e : Event} (he : ∀ b c, e ≠ .execute b c) :
    handed (o.since (s.emit e)) = handed (o.since s) := by
  rw [Origin.since_emit hm, handed_append]
  cases e with
  | execute b c => exact absurd rfl (he b c)
  | _ => exact List.append_nil _

theorem handed_write (w : Write) : handed (o.since (s.write w)) = handed (o.since s) := by
  rw [Origin.since_write hm, handed_append]
  exact List.append_nil _

theorem handed_execute (b : CertifiedBlock) (c : ValidatorCommittee) :
    handed (o.since (s.emit (.execute b c))) = handed (o.since s) ++ [b] := by
  rw [Origin.since_emit hm, handed_append]; rfl

end

theorem Passive.ne_execute {e : Event} (he : Passive e) (b : CertifiedBlock)
    (c : ValidatorCommittee) : e ≠ .execute b c := by
  cases he <;> simp

/-! ## Preservation -/

variable {E : Env} {A : CertifiedBlock → Prop} {o : Origin} {s s' : ChainStateAssembler}

theorem mark_emit (hm : o.mark ≤ s.log.length) (e : Event) : o.mark ≤ (s.emit e).log.length := by
  simp only [ChainStateAssembler.log, ChainStateAssembler.emit, World.emit_log,
    List.length_append] at hm ⊢
  omega

theorem mark_write (hm : o.mark ≤ s.log.length) (w : Write) : o.mark ≤ (s.write w).log.length := by
  simp only [ChainStateAssembler.log, ChainStateAssembler.write, World.write_log,
    List.length_append] at hm ⊢
  omega

theorem Inv.emit (h : Inv A o s) {e : Event} (he : ∀ b c, e ≠ .execute b c) : Inv A o (s.emit e) :=
  have hh := handed_emit h.mark he
  { h with
    mark := mark_emit h.mark e
    linked := by rw [hh]; exact h.linked
    settled := fun hc => by
      unfold Origin.tip
      rw [hh]; exact h.settled hc }

theorem Inv.write (h : Inv A o s) {w : Write}
    (hw : ∀ h r, pending s h = some r → stored (s.write w) h = stored s h) : Inv A o (s.write w) :=
  have hh := handed_write h.mark w
  { h with
    mark := mark_write h.mark w
    channel := fun b hb => by
      obtain ⟨hA, hn, hc, hs, hp⟩ := h.channel b hb
      exact ⟨hA, hn, hc, (hw _ _ hp).trans hs, hp⟩
    block := fun n b hb => by
      obtain ⟨hn, hA, hs⟩ := h.block n b hb
      exact ⟨hn, hA, (hw _ _ hb).trans hs⟩
    memo := fun n i hi => by
      obtain ⟨b, hb, hn, hA, hs⟩ := h.memo n i hi
      exact ⟨b, hb, hn, hA, (hw _ _ hi).trans hs⟩
    linked := by rw [hh]; exact h.linked
    settled := fun hc => by
      unfold Origin.tip
      rw [hh]; exact h.settled hc }

theorem stored_write {w : Write} (hw : ∀ b, w ≠ .certifiedBlock b) :
    stored (s.write w) = stored s := by
  cases w with
  | certifiedBlock b => exact absurd rfl (hw b)
  | _ => rfl

theorem stored_write_block (b : CertifiedBlock) (h : Nat) :
    stored (s.write (.certifiedBlock b)) h = if h = b.height then some b else stored s h := by
  simp [stored, ChainStateAssembler.chain, ChainStateAssembler.write, ChainStore.apply,
    Function.update_apply]

theorem batch_write_batch (k : Hash) (v : Bytes) (k' : Hash) :
    (s.write (.batch k v)).chain.batch k' = if k' = k then some v else s.chain.batch k' := by
  simp [ChainStateAssembler.chain, ChainStateAssembler.write, ChainStore.apply,
    Function.update_apply]

theorem quiet_elim {P : Prop} (hq : s.readyToExecute = []) {b : CertifiedBlock}
    (hb : b ∈ s.readyToExecute) : P := by
  rw [hq] at hb; cases hb

theorem idle_elim {P : Prop} (hi : requested s = none) {n : Nat} (hn : requested s = some n) :
    P := by
  rw [hi] at hn; cases hn

theorem Inv.withCommitted (h : Inv A o s) {n : Nat} (hn : s.nextBlockHeight ≤ n)
    (hq : s.readyToExecute = []) (hi : requested s = none) : Inv A o (withCommitted n s) :=
  { h with
    channel := fun _ hb => quiet_elim (s := s) hq hb
    request := fun _ hm => idle_elim (s := s) hi hm
    settled := fun hc => absurd hc (Nat.not_lt.2 hn) }

theorem Inv.retain (h : Inv A o s) (n : Nat) (hq : s.readyToExecute = []) :
    Inv A o (withPending ((pending s).retain n) s) :=
  { h with
    channel := fun _ hb => quiet_elim (s := s) hq hb
    above := fun m r hr => h.above m r (Cache.retain_some.1 hr).2
    hole := fun m hr => h.hole m (Cache.retain_some.1 hr).2
    scheduled := fun m i hr => h.scheduled m i (Cache.retain_some.1 hr).2
    block := fun m b hr => h.block m b (Cache.retain_some.1 hr).2
    memo := fun m i hr => h.memo m i (Cache.retain_some.1 hr).2
    request := fun m hm => by
      obtain ⟨h1, h2, h3⟩ := h.request m hm
      refine ⟨h1, ?_, h3⟩
      show (pending s).retain n m = none
      rw [Cache.retain_apply, h2]
      simp }

/-- A new entry for a stored block above the next one, or a scheduled or empty one at the next
height, where the channel and the pending request leave room. -/
theorem Inv.insert (h : Inv A o s) {n : Nat} {r : Option BlockReference}
    (hn : (executed s).height < n) (hl : s.isCurrentEpochOver = false)
    (hr : (r = none ∧ n = s.nextBlockHeight) ∨ (∃ i, r = some (.scheduled i) ∧ n = s.nextBlockHeight) ∨
      ∃ b, (r = some (.block b) ∨ r = some (.memo b.info)) ∧ b.height = n ∧ A b ∧ stored s n = some b)
    (hc : ∀ b ∈ s.readyToExecute, b.height ≠ n) (hq : ∀ m, requested s = some m → m ≠ n) :
    Inv A o (withPending ((pending s).insert n r) s) := by
  -- an entry of the new cache is the new one or an old one
  have key : ∀ {m x}, pending (withPending ((pending s).insert n r) s) m = some x →
      (m = n ∧ x = r) ∨ (m ≠ n ∧ pending s m = some x) := by
    intro m x hx
    change (pending s).insert n r m = some x at hx
    rw [Cache.insert_apply] at hx
    split at hx
    · exact .inl ⟨‹_›, (Option.some.inj hx).symm⟩
    · exact .inr ⟨‹_›, hx⟩
  refine { h with
    channel := fun b hb => ?_
    above := fun m x hx => ?_
    hole := fun m hx => ?_
    scheduled := fun m i hx => ?_
    block := fun m b hx => ?_
    memo := fun m i hx => ?_
    request := fun m hm => ?_ }
  · obtain ⟨hA, hb1, hb2, hb3, hb4⟩ := h.channel b hb
    exact ⟨hA, hb1, hb2, hb3, (Cache.insert_of_ne _ _ (hc b hb)).trans hb4⟩
  · rcases key hx with ⟨rfl, -⟩ | ⟨-, hx⟩
    · exact hn
    · exact h.above m x hx
  · rcases key hx with ⟨rfl, rfl⟩ | ⟨-, hx⟩
    · rcases hr with ⟨-, hn⟩ | ⟨i, hi, -⟩ | ⟨b, hb | hb, -⟩
      · exact ⟨hn, hl⟩
      · cases hi
      · cases hb
      · cases hb
    · exact h.hole m hx
  · rcases key hx with ⟨rfl, rfl⟩ | ⟨-, hx⟩
    · rcases hr with ⟨hi, -⟩ | ⟨i, -, hn⟩ | ⟨b, hb | hb, -⟩
      · cases hi
      · exact ⟨hn, hl⟩
      · cases hb
      · cases hb
    · exact h.scheduled m i hx
  · rcases key hx with ⟨rfl, rfl⟩ | ⟨-, hx⟩
    · rcases hr with ⟨hi, -⟩ | ⟨i, hi, -⟩ | ⟨b, hb | hb, h1, h2, h3⟩
      · cases hi
      · cases hi
      · cases hb; exact ⟨h1, h2, h3⟩
      · cases hb
    · exact h.block m b hx
  · rcases key hx with ⟨rfl, rfl⟩ | ⟨-, hx⟩
    · rcases hr with ⟨hi, -⟩ | ⟨i, hi, -⟩ | ⟨b, hb | hb, h1, h2, h3⟩
      · cases hi
      · cases hi
      · cases hb
      · cases hb; exact ⟨b, rfl, h1, h2, h3⟩
    · exact h.memo m i hx
  · obtain ⟨h1, h2, h3⟩ := h.request m hm
    exact ⟨h1, (Cache.insert_of_ne _ _ (hq m hm)).trans h2, h3⟩

theorem Origin.tip_emit (hm : o.mark ≤ s.log.length) {e : Event} (he : ∀ b c, e ≠ .execute b c) :
    o.tip (s.emit e) = o.tip s := by
  unfold Origin.tip
  rw [handed_emit hm he]

theorem Origin.tip_write (hm : o.mark ≤ s.log.length) (w : Write) : o.tip (s.write w) = o.tip s := by
  unfold Origin.tip
  rw [handed_write hm w]

theorem Origin.tip_execute (hm : o.mark ≤ s.log.length) (b : CertifiedBlock)
    (c : ValidatorCommittee) : o.tip (s.emit (.execute b c)) = b.info := by
  unfold Origin.tip
  rw [handed_execute hm, Linked.tip_snoc]

theorem Inv.handOver (h : Inv A o s) {b : CertifiedBlock} (hc : Committed E A o s b)
    (c : ValidatorCommittee) : Inv A o (s.emit (.execute b c)) :=
  { h with
    mark := mark_emit h.mark _
    linked := by
      rw [handed_execute h.mark, Linked.from_snoc]
      refine ⟨h.linked, ?_⟩
      show Extends (o.tip s) b
      rw [hc.atTip]; exact hc.follows
    settled := fun hlt => by
      have h1 := hc.atHeight
      have h2 : b.height = s.nextBlockHeight := hc.follows.1
      exact absurd hlt (by show ¬ committed s < s.nextBlockHeight; omega) }

theorem Inv.advance (h : Inv A o s) {b : CertifiedBlock} (hh : Handed E A o s b) (flag : Bool) :
    Inv A o (advance b flag (s.emit (.executed b flag))) := by
  have hb : b.height = s.nextBlockHeight := hh.follows.1
  have h1 := h.emit (e := .executed b flag) (by simp)
  have h2 := h1.retain b.height hh.quiet
  refine { h2 with
    channel := fun _ hm => quiet_elim (s := s) hh.quiet hm
    halted := fun _ => hh.quiet
    above := fun m r hr => (Cache.retain_some.1 hr).1
    hole := fun m hr => ?_
    scheduled := fun m i hr => ?_
    request := fun _ hm => idle_elim (s := s) hh.idle hm
    settled := fun _ => (Origin.tip_emit h.mark (by simp)).trans hh.atTip }
  · obtain ⟨hlt, hr⟩ := Cache.retain_some.1 hr
    have := (h.hole m hr).1
    omega
  · obtain ⟨hlt, hr⟩ := Cache.retain_some.1 hr
    have := (h.scheduled m i hr).1
    omega

/-- **Every action keeps the invariant.** -/
theorem Act.inv (h : Inv A o s) (ha : Act E A o s s') : Inv A o s' := by
  cases ha with
  | observe i => exact { h with }
  | emit he => exact h.emit he.ne_execute
  | batch _ _ => exact h.write fun _ _ _ => rfl
  | certified ha _ _ =>
    refine h.write fun n r hr => ?_
    rw [stored_write_block, if_neg]
    rintro rfl
    rw [ha.free] at hr; cases hr
  | forget => exact { h with request := fun _ hm => by cases hm }
  | ask _ _ hn hl _ =>
    obtain ⟨hc, hp⟩ := BlockStore.hasEntry_false.1 hn
    exact { h with request := fun m hm => by cases hm; exact ⟨rfl, hp, hc, hl⟩ }
  | post _ => exact h.emit (by simp)
  | @cache fb ha hA hs hne =>
    refine h.insert ha.above ha.live (.inr (.inr ⟨fb.base, ?_, rfl, hA, hs⟩)) (fun b hb => ?_)
      (fun m hm => ?_)
    · unfold BlockStore.reference
      split
      · exact .inl rfl
      · exact .inr rfl
    · rw [(h.channel b hb).2.1]; exact hne.symm
    · rw [(h.request m hm).1]; exact hne.symm
  | commitFault e hr hc =>
    exact (h.withCommitted (Nat.le_of_eq hr.follows.1.symm) hr.quiet hr.idle).emit (by simp)
  | commit hr hc =>
    exact (h.withCommitted (Nat.le_of_eq hr.follows.1.symm) hr.quiet hr.idle).write fun _ _ _ => rfl
  | handOver hc => exact h.handOver hc _
  | record _ _ => exact h.write fun _ _ _ => rfl
  | advance hh _ _ => exact h.advance hh _
  | boundary _ _ => exact h.write fun _ _ _ => rfl
  | @schedule b hl hA hh hs hp hq =>
    have hsome : pending s b.height ≠ none := by rcases hp with hp | hp <;> simp [hp]
    refine h.insert ?_ hl (.inr (.inl ⟨_, rfl, hh⟩)) (fun _ hb => quiet_elim hq hb) ?_
    · rcases hp with hp | hp <;> exact h.above _ _ hp
    · rintro m hm rfl
      exact hsome (h.request _ hm).2.1
  | @push b hl hA hh hs hp hc hq =>
    exact { h with
      single := Nat.le_refl 1
      channel := fun b' hb' => by
        cases List.mem_singleton.1 hb'
        exact ⟨hA, hh, hc, hs, hp⟩
      halted := fun ho => by
        rw [show (withReady [b] s).isCurrentEpochOver = false from hl] at ho; cases ho }
  | pop =>
    have hsub : ∀ b ∈ s.readyToExecute.tail, b ∈ s.readyToExecute := fun b => List.mem_of_mem_tail
    exact { h with
      single := by
        have := h.single
        simp only [withReady, List.length_tail]; omega
      channel := fun b hb => h.channel b (hsub b hb)
      halted := fun ho => by
        show s.readyToExecute.tail = []
        rw [h.halted ho]; rfl }
  | hole hl hp hq =>
    refine h.insert (h.above _ _ hp) hl (.inl ⟨rfl, rfl⟩) (fun _ hb => quiet_elim hq hb) ?_
    rintro m hm rfl
    rw [(h.request _ hm).2.1] at hp; cases hp
  | retain n ho => exact h.retain n (h.halted ho)
  | newEpoch ho he _ =>
    have hq := h.halted ho
    exact { h with
      halted := fun _ => hq
      hole := fun m hm => ⟨(h.hole m hm).1, he⟩
      scheduled := fun m i hm => ⟨(h.scheduled m i hm).1, he⟩
      request := fun m hm => by
        obtain ⟨h1, h2, h3, -⟩ := h.request m hm
        exact ⟨h1, h2, h3, he⟩ }

theorem Inv.star (hI : Inv A o s) (h : ReflTransGen (Act E A o) s s') : Inv A o s' := by
  induction h with
  | refl => exact hI
  | tail _ ha ih => exact ha.inv ih

end Consensus.Proof
