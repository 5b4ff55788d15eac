import SupraL1.Rest.ApiServerState
import SupraL1.Consensus.Proof.Chain
import SupraL1.Consensus.Proof.Restart

/-!
# What was accepted is what is served

`persist` writes the batches of a block before the block, a batch is identified by its key, and
a height is written again only while nothing at it has been committed. So at every point of a
run a block in the store has all of its batches, and the block at an executed height is the
executed one.
-/

namespace Consensus.Proof

open EState ChainStateAssembler SynchronizationContext Relation Journal

variable {E : Env} {A : CertifiedBlock → Prop} {o : Origin} {g : CertifiedBlock} {size : Nat}
  {st : BlockStore} {v : EpochStates} {s s' : ChainStateAssembler} {w : World}

/-! ## Executed heights -/

theorem Act.heights (ha : Act E A o s s') :
    (executed s).height ≤ (executed s').height ∧ committed s ≤ committed s' := by
  cases ha with
  | commitFault _ _ hc | commit _ hc => exact ⟨Nat.le_refl _, Nat.le_of_lt hc⟩
  | advance hh _ _ =>
    refine ⟨?_, Nat.le_refl _⟩
    show (executed s).height ≤ CertifiedBlock.height _
    rw [hh.follows.1]
    exact Nat.le_succ _
  | _ => exact ⟨Nat.le_refl _, Nat.le_refl _⟩

theorem Act.stored_settled (ha : Act E A o s s') {h : Nat}
    (hh : h ≤ (executed s).height ∨ h ≤ committed s) : stored s' h = stored s h := by
  cases ha with
  | certified ha _ _ =>
    rw [stored_write_block, if_neg]
    rintro rfl
    have h1 := ha.above
    have h2 := ha.uncommitted
    omega
  | _ => rfl

/-- The blocks handed over since the start are the ones in the store. -/
def ExecutedStored (o : Origin) (s : ChainStateAssembler) : Prop :=
  ∀ b ∈ handed (o.since s), stored s b.height = some b ∧
    (b.height ≤ (executed s).height ∨ b.height ≤ committed s)

theorem Act.executedStored (ha : Act E A o s s') (hm : o.mark ≤ s.log.length)
    (h : ExecutedStored o s) : ExecutedStored o s' := by
  have hkeep : ∀ b ∈ handed (o.since s), stored s' b.height = some b ∧
      (b.height ≤ (executed s').height ∨ b.height ≤ committed s') := by
    intro b hb
    obtain ⟨hs, hle⟩ := h b hb
    obtain ⟨h1, h2⟩ := ha.heights
    exact ⟨(ha.stored_settled hle).trans hs, by omega⟩
  rcases ha.handed_cases hm with heq | ⟨b, hc, rfl⟩
  · intro b hb
    rw [heq] at hb
    exact hkeep b hb
  · intro b' hb'
    rw [handed_execute hm] at hb'
    rcases List.mem_append.1 hb' with hb' | hb'
    · exact hkeep b' hb'
    · cases List.mem_singleton.1 hb'
      exact ⟨hc.stored, .inr (Nat.le_of_eq hc.atHeight.symm)⟩

/-! ## Batches -/

/-- A block of the store has its batches in the store, and a batch has the bytes of its key. -/
structure Complete (batchOf : Hash → Bytes) (c : ChainStore) : Prop where
  blocks : ∀ h b, c.certifiedBlock h = some b → ∀ item ∈ b.block.payload,
    c.batch item.storeKey = some (batchOf item.storeKey)
  batches : ∀ k x, c.batch k = some x → x = batchOf k

section
variable {V : VerifierEnv} {skip : Bool} {batchOf : Hash → Bytes}
  (hverify : E.verify = BlockVerifier.verify V skip)
  (hcheck : ∀ fb, V.checkConsistency fb = .ok () →
    (∀ item ∈ fb.base.block.payload, ∃ p ∈ fb.batches, p.key = item.storeKey) ∧
      ∀ p ∈ fb.batches, p.batch = batchOf p.key)
include hverify hcheck

theorem Admits.batches {fb : FullBlock} (ha : Admits E s fb) :
    (∀ item ∈ fb.base.block.payload, ∃ p ∈ fb.batches, p.key = item.storeKey) ∧
      ∀ p ∈ fb.batches, p.batch = batchOf p.key := by
  have hv := ha.verified
  rw [hverify] at hv
  exact hcheck fb (BlockVerifier.verify_success hv).2.2

theorem Act.complete (ha : Act E A o s s') (h : Complete batchOf s.chain) :
    Complete batchOf s'.chain := by
  cases ha with
  | @batch fb p ha hp =>
    have hbytes := (ha.batches hverify hcheck).2 p hp
    refine ⟨fun n b hb item hitem => ?_, fun k x hx => ?_⟩
    · rw [batch_write_batch]
      split
      · rename_i hk
        rw [hbytes, hk]
      · exact h.blocks n b hb item hitem
    · rw [batch_write_batch] at hx
      split at hx
      · rename_i hk
        cases hx
        rw [hbytes, hk]
      · exact h.batches k x hx
  | @certified fb ha _ hb =>
    refine ⟨fun n b hs item hitem => ?_, h.batches⟩
    change stored (s.write (.certifiedBlock fb.base)) n = some b at hs
    rw [stored_write_block] at hs
    split at hs
    · -- the batches have been written before the block
      cases hs
      obtain ⟨p, hp, hkey⟩ := (ha.batches hverify hcheck).1 item hitem
      obtain ⟨x, hx⟩ := Option.isSome_iff_exists.1 (hb p hp)
      rw [hkey] at hx
      show s.chain.batch item.storeKey = _
      rw [hx, h.batches _ _ hx]
    · exact h.blocks n b hs item hitem
  | _ => exact ⟨h.blocks, h.batches⟩

/-- What holds of the log of a run at every point: the store it makes serves its blocks, and the
blocks handed over since `mark` are the ones in it. -/
theorem acts_served {base : List Event} {c₀ : ChainStore}
    (hacts : ReflTransGen (Act E A o) s s') (hI : Inv A o s) (hc : Complete batchOf s.chain)
    (hx : ExecutedStored o s)
    (hj : Journaled c₀ base (fun p => Complete batchOf (c₀.replay p) ∧
      ∀ b ∈ handed (p.drop o.mark), (c₀.replay p).certifiedBlock b.height = some b)
      s.store.store) :
    Journaled c₀ base (fun p => Complete batchOf (c₀.replay p) ∧
      ∀ b ∈ handed (p.drop o.mark), (c₀.replay p).certifiedBlock b.height = some b)
      s'.store.store := by
  suffices h : Complete batchOf s'.chain ∧ ExecutedStored o s' ∧ Journaled c₀ base _ s'.store.store
    from h.2.2
  induction hacts with
  | refl => exact ⟨hc, hx, hj⟩
  | tail hstar ha ih =>
    obtain ⟨hc', hx', hj'⟩ := ih
    have hc'' := ha.complete hverify hcheck hc'
    have hx'' := ha.executedStored (hI.star hstar).mark hx'
    refine ⟨hc'', hx'', ha.journaled hj' ?_⟩
    rw [← ha.replay hj'.chain]
    exact ⟨hc'', fun b hb => (hx'' b hb).1⟩

/-- **What was accepted is what is served.** The store starts empty. Wherever the process stops in
a run, every certified block of the store that is left is served, with the bytes of each of its
batches in the order of the payload, and at a height executed in the run the executed block is
served. -/
theorem accepted_blocks_are_served {W : Warranter E}
    (hinit : BlockStore.initializeStore E.toStoreEnv g (BlockStore.new ⟨ChainStore.empty, []⟩ size) =
      .ok () st) (hnew : new E W st v = (.ok s, w)) (ts : List Trigger) :
    ∀ p, p <+: (steps (doStep E) s ts).log →
      (∀ h b, (ChainStore.empty.replay p).certifiedBlock h = some b →
        Rest.getCertifiedBlock E.reliable ⟨ChainStore.empty.replay p, p⟩ h true =
          .ok (some ⟨b, some (b.block.payload.map fun item =>
            ⟨item.storeKey, batchOf item.storeKey⟩)⟩)) ∧
      ∀ b ∈ handed (p.drop s.log.length),
        Rest.getCertifiedBlock E.reliable ⟨ChainStore.empty.replay p, p⟩ b.height true =
          .ok (some ⟨b, some (b.block.payload.map fun item =>
            ⟨item.storeKey, batchOf item.storeKey⟩)⟩) := by
  have hrel : E.reliable.Reliable := fun _ _ => rfl
  have hst : st = genesisStore g (BlockStore.new ⟨ChainStore.empty, []⟩ size) := by
    rcases initializeStore_cases hinit with ⟨-, -, h⟩ | ⟨c, x, hc, -⟩
    · exact h
    · cases hc
  -- the records agree, so nothing is executed at the start
  have hs : s = created ⟨g⟩ st v := by
    subst hst
    cases (new_starts hnew).1 with
    | consistent _ hx => cases hx; rfl
    | restored hc hx hne _ => cases hc; cases hx; exact absurd rfl hne
    | duplicate hc hx hne _ _ => cases hc; cases hx; exact absurd rfl hne
  have hclean : Clean s := (new_starts hnew).1.clean (initializeStore_ok hinit).cache
  have hI := hclean.inv (Accepted E s ts)
  have hacts := run_acts hI fun _ hb => hb
  subst hs hst
  have hj : Journaled ChainStore.empty [] (fun p => Complete batchOf (ChainStore.empty.replay p) ∧
      ∀ b ∈ handed (p.drop 2), (ChainStore.empty.replay p).certifiedBlock b.height = some b)
      (genesisStore g (BlockStore.new ⟨ChainStore.empty, []⟩ size)).store := by
    refine ⟨rfl, Always.snoc (Always.snoc (always_start ?_) ?_) ?_⟩ <;>
      exact ⟨⟨nofun, nofun⟩, nofun⟩
  have hrun := acts_served hverify hcheck hacts hI ⟨nofun, nofun⟩ nofun hj
  intro p hp
  obtain ⟨hcomplete, hexec⟩ := hrun.always p List.nil_prefix hp
  exact ⟨fun h b hb => Rest.getCertifiedBlock_reliable hrel hb (hcomplete.blocks h b hb),
    fun b hb => Rest.getCertifiedBlock_reliable hrel (hexec b hb)
      (hcomplete.blocks _ b (hexec b hb))⟩

end

namespace Small

def batchOf (k : Hash) : Bytes := [UInt8.ofNat k.toNat]

def verifierEnv : VerifierEnv where
  isCommitCertified _ := true
  checkConsistency fb :=
    if fb.batches = fb.base.block.payload.map fun item => ⟨item.storeKey, batchOf item.storeKey⟩ then
      .ok ()
    else .error "inconsistent batches"
  committeeVerify _ _ := .ok ()

/-- The environment of `env` with the source's verifier. -/
def verifyingEnv : Env :=
  { env (fun _ => .ok false) with verify := BlockVerifier.verify verifierEnv false }

theorem checkConsistency_ok (fb : FullBlock) (h : verifierEnv.checkConsistency fb = .ok ()) :
    (∀ item ∈ fb.base.block.payload, ∃ p ∈ fb.batches, p.key = item.storeKey) ∧
      ∀ p ∈ fb.batches, p.batch = batchOf p.key := by
  unfold verifierEnv at h
  dsimp only at h
  split at h
  · rename_i heq
    rw [heq]
    refine ⟨fun item hitem => ⟨_, List.mem_map_of_mem hitem, rfl⟩, fun p hp => ?_⟩
    obtain ⟨item, -, rfl⟩ := List.mem_map.1 hp
    rfl
  · cases h

def blockWithBatch : FullBlock :=
  { base := { block 1 1 with block := { (block 1 1).block with payload := [⟨7⟩] } }
    batches := [⟨7, batchOf 7⟩] }

def genesisAssembler : ChainStateAssembler :=
  created ⟨block 1 0⟩ (genesisStore (block 1 0) (BlockStore.new ⟨ChainStore.empty, []⟩ 1))
    ⟨epochState 1 0⟩

end Small

/-- A run that accepts and executes a block with a batch. -/
theorem accepted_blocks_are_served_small :
    let log := (steps (doStep Small.verifyingEnv) Small.genesisAssembler
      [.incomingBlock (.newBlock Small.blockWithBatch)]).log
    handed log = [Small.blockWithBatch.base] ∧
      Rest.getCertifiedBlock Small.verifyingEnv.reliable ⟨ChainStore.empty.replay log, log⟩ 1 true =
        .ok (some ⟨Small.blockWithBatch.base, some [⟨7, Small.batchOf 7⟩]⟩) := by
  intro log
  have hnew : new Small.verifyingEnv (Warranter.standard Small.verifyingEnv)
      (genesisStore (Small.block 1 0) (BlockStore.new ⟨ChainStore.empty, []⟩ 1))
      ⟨Small.epochState 1 0⟩ = (.ok Small.genesisAssembler, Small.genesisAssembler.store.store) := rfl
  have hserved := accepted_blocks_are_served rfl Small.checkConsistency_ok rfl hnew
    [.incomingBlock (.newBlock Small.blockWithBatch)] log List.prefix_rfl
  exact ⟨rfl, hserved.2 Small.blockWithBatch.base (by decide)⟩

end Consensus.Proof
