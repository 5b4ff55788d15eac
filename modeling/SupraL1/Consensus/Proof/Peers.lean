import SupraL1.Consensus.Proof.Lives
import SupraL1.Consensus.Proof.Serve

/-!
# A node as its peers see it

Two results on the whole history of a node, with all its crashes and restarts. No two nodes part
(`nodes_do_not_fork`): their chains start at one genesis block, and a certificate leaves one block on
each parent. And what a node has executed once it serves from then on (`executed_blocks_stay_served`):
the blocks handed over are kept in the store, and a stored block has its batches (`Complete`), which
the writes of a start do not touch.
-/

namespace Consensus.Proof

open EState ChainStateAssembler SynchronizationContext Relation Journal

variable {E : Env} {A G : CertifiedBlock → Prop} {o : Origin} {g b : CertifiedBlock}
  {x : ExecutedBlock} {H : List CertifiedBlock} {c c₀ : ChainStore} {size : Nat}
  {st : BlockStore} {v : EpochStates} {s s' : ChainStateAssembler} {w : World}

/-! ## Two nodes -/

/-- **Nodes do not fork.** Two nodes with one genesis block, each through any number of lives with
its own inputs, failures and settings. If at most one block on each parent carries a certificate
their verifiers accept, then the blocks one of them has executed are the first blocks the other has
executed. -/
theorem nodes_do_not_fork {Certified : CertifiedBlock → Prop}
    (huniq : ∀ b b', Certified b → Certified b' → b.height = b'.height → b.parent = b'.parent →
      b.block = b'.block)
    (g : CertifiedBlock) (lives lives' : List Life)
    (hrec : ∀ L ∈ lives ++ lives', RecordsGiven L.env)
    (hv : ∀ L ∈ lives ++ lives', ∀ v fb, L.env.verify v fb = .success → Certified fb.base) :
    (executedBlocks g lives).map (·.block) <+: (executedBlocks g lives').map (·.block) ∨
      (executedBlocks g lives').map (·.block) <+: (executedBlocks g lives).map (·.block) := by
  have h := (lives_chained (g := g) (fun L hL => hrec L (List.mem_append_left _ hL))
    fun L hL => hv L (List.mem_append_left _ hL)).1
  have h' := (lives_chained (g := g) (fun L hL => hrec L (List.mem_append_right _ hL))
    fun L hL => hv L (List.mem_append_right _ hL)).1
  refine Linked.comparable (G := Certified) (fun i a b ha hb hia hib => ?_) (fun a b hab => ?_)
    h.linked h'.linked (fun b hb => h.good b ((List.destutter_sublist _ _).subset hb))
    fun b hb => h'.good b ((List.destutter_sublist _ _).subset hb)
  · exact huniq a b ha hb (hia.1.trans hib.1.symm) (hia.2.trans hib.2.symm)
  · exact congrArg BlockInfo.ofBlock hab

/-- One node has executed block 1, the other blocks 1 and 2, in two lives. -/
theorem nodes_do_not_fork_small :
    ((executedBlocks (Small.block 1 0)
        [Small.life [.incomingBlock (.newBlock (Small.fullBlock 1 1))] 9]).map (·.block) <+:
      (executedBlocks (Small.block 1 0)
        [Small.life [.incomingBlock (.newBlock (Small.fullBlock 1 1))] 4,
          Small.life [.incomingBlock (.newBlock (Small.fullBlock 1 2))] 20]).map (·.block) ∨
      (executedBlocks (Small.block 1 0)
        [Small.life [.incomingBlock (.newBlock (Small.fullBlock 1 1))] 4,
          Small.life [.incomingBlock (.newBlock (Small.fullBlock 1 2))] 20]).map (·.block) <+:
      (executedBlocks (Small.block 1 0)
        [Small.life [.incomingBlock (.newBlock (Small.fullBlock 1 1))] 9]).map (·.block)) ∧
    executedBlocks (Small.block 1 0)
        [Small.life [.incomingBlock (.newBlock (Small.fullBlock 1 1))] 4,
          Small.life [.incomingBlock (.newBlock (Small.fullBlock 1 2))] 20] =
      [Small.block 1 1, Small.block 1 2] := by
  refine ⟨@nodes_do_not_fork (fun b => b = Small.block 1 b.height) ?_ _ _ _ ?_ ?_,
    by decide⟩
  · intro b b' hb hb' hheight _
    rw [hb, hb', hheight]
  · intro L hL
    simp only [List.mem_append, List.mem_cons, List.not_mem_nil, or_false] at hL
    rcases hL with rfl | rfl | rfl <;> exact Small.certifyingEnv_recordsGiven
  · intro L hL v fb
    simp only [List.mem_append, List.mem_cons, List.not_mem_nil, or_false] at hL
    rcases hL with rfl | rfl | rfl <;> exact Small.certifyingEnv_verify

/-! ## What a start writes -/

/-- An event that writes neither a batch nor a block. -/
def Spares : Event → Prop
  | .write (.batch _ _) => False
  | .write (.certifiedBlock _) => False
  | _ => True

theorem Complete.replay {batchOf : Hash → Bytes} (h : Complete batchOf c) {l : List Event}
    (hl : ∀ e ∈ l, Spares e) : Complete batchOf (c.replay l) := by
  induction l generalizing c with
  | nil => exact h
  | cons e l ih =>
    have hrest : ∀ e ∈ l, Spares e := fun e' he' => hl e' (List.mem_cons_of_mem e he')
    have he := hl e List.mem_cons_self
    cases e with
    | write w =>
      cases w with
      | batch k x => exact he.elim
      | certifiedBlock b => exact he.elim
      | committedBlock b => exact ih (c := c.apply (.committedBlock b)) ⟨h.blocks, h.batches⟩ hrest
      | executedBlock b => exact ih (c := c.apply (.executedBlock b)) ⟨h.blocks, h.batches⟩ hrest
      | epochBoundaryBlockQC qc =>
        exact ih (c := c.apply (.epochBoundaryBlockQC qc)) ⟨h.blocks, h.batches⟩ hrest
    | _ => exact ih h hrest

theorem FirstRun.spares {E : StoreEnv} {l : List Event} (h : FirstRun E g l) :
    ∀ e ∈ l, Spares e := by
  cases h <;> simp [Spares]

theorem initializeStore_spares (E : StoreEnv) (g : CertifiedBlock) (c : ChainStore) (size : Nat) :
    ∀ e ∈ (after (BlockStore.initializeStore E g) (BlockStore.new ⟨c, []⟩ size)).store.log,
      Spares e := by
  rcases initializeStore_log E g c size with hlog | ⟨-, -, hfirst⟩
  · rw [hlog]; nofun
  · exact hfirst.spares

theorem execute_spares (h : ∀ e ∈ s.log, Spares e) :
    ∀ e ∈ (after (execute E b) s).log, Spares e := by
  have hret : ∀ e ∈ (returned E b s).log, Spares e := by
    have hcommit : ∀ e ∈ (commitTo b s).log ++ [.execute b s.blockVerifier.current.committee],
        Spares e := by
      intro e he
      simp only [commitTo, ChainStateAssembler.log, ChainStateAssembler.write, World.write_log,
        List.mem_append, List.mem_singleton] at he
      rcases he with (he | rfl) | rfl
      · exact h e he
      · trivial
      · trivial
    unfold returned
    cases (answer E b s).record with
    | none => exact hcommit
    | some r =>
      intro e he
      rcases List.mem_append.1 he with he | he
      · exact hcommit e he
      · cases List.mem_singleton.1 he
        trivial
  have heq := execute_eq E b s
  cases hf : E.fails (.write (.committedBlock b)) s.log with
  | some err =>
    rw [hf] at heq
    rw [after_error heq]
    intro e he
    rcases List.mem_append.1 he with he | he
    · exact h e he
    · cases List.mem_singleton.1 he
      trivial
  | none =>
    rw [hf] at heq
    cases hres : (answer E b s).result with
    | error err => rw [hres] at heq; rw [after_error heq]; exact hret
    | ok flag =>
      rw [hres] at heq
      rw [after_ok heq]
      intro e he
      rcases List.mem_append.1 he with he | he
      · exact hret e he
      · cases List.mem_singleton.1 he
        trivial

theorem new_spares {E : Env} {W : Warranter E}
    (hinit : BlockStore.initializeStore E.toStoreEnv g (BlockStore.new ⟨c, []⟩ size) = .ok () st) :
    ∀ e ∈ (new E W st v).2.log, Spares e := by
  have hst : ∀ e ∈ st.store.log, Spares e := by
    have h := initializeStore_spares E.toStoreEnv g c size
    rw [after_ok hinit] at h
    exact h
  obtain ⟨d, x, hd, hx, -⟩ := (initializeStore_ok hinit).restartable
  rcases new_world W v hd hx with h | h
  · rw [h]; exact hst
  · rw [h]; exact execute_spares (s := created x st v) hst

/-! ## Batches over all lives -/

section
variable {V : VerifierEnv} {batchOf : Hash → Bytes}
  (hcheck : ∀ fb, V.checkConsistency fb = .ok () →
    (∀ item ∈ fb.base.block.payload, ∃ p ∈ fb.batches, p.key = item.storeKey) ∧
      ∀ p ∈ fb.batches, p.batch = batchOf p.key)
include hcheck

theorem acts_complete {skip : Bool} (hverify : E.verify = BlockVerifier.verify V skip)
    (hacts : ReflTransGen (Act E A o) s s')
    (hj : Journaled c₀ [] (fun p => Complete batchOf (c₀.replay p)) s.store.store) :
    Journaled c₀ [] (fun p => Complete batchOf (c₀.replay p)) s'.store.store := by
  induction hacts with
  | refl => exact hj
  | @tail m m' _ ha ih =>
    have hm : Complete batchOf m.chain := by
      rw [show m.chain = c₀.replay m.log from ih.chain]
      exact ih.always m.log List.nil_prefix List.prefix_rfl
    refine ha.journaled ih ?_
    rw [← ha.replay ih.chain]
    exact ha.complete hverify hcheck hm

theorem life_complete {L : Life} {skip : Bool} (hverify : L.env.verify = BlockVerifier.verify V skip)
    (hrec : RecordsGiven L.env)
    (ha : Anchored g G H c₀) (hH : Chained g G H) (hK : Kept H c₀) (hc : Complete batchOf c₀) :
    Always (fun p => Complete batchOf (c₀.replay p)) [] (L.startRpcServer g c₀) := by
  have hof : ∀ {l}, (∀ e ∈ l, Spares e) →
      Always (fun p => Complete batchOf (c₀.replay p)) [] l := fun hl p _ hp =>
    hc.replay fun e he => hl e (hp.subset he)
  unfold Life.startRpcServer
  cases hinit : BlockStore.initializeStore L.env.toStoreEnv g (BlockStore.new ⟨c₀, []⟩ L.bucketSize) with
  | error e st =>
    have h := initializeStore_spares L.env.toStoreEnv g c₀ L.bucketSize
    rw [after_error hinit] at h
    exact hof h
  | ok u st =>
    have hnew := new_spares (W := L.warranter) (v := L.epochStates) hinit
    dsimp only
    cases h : new L.env L.warranter st L.epochStates with
    | mk r w =>
      rw [h] at hnew
      cases r with
      | error e => exact hof hnew
      | ok s =>
        dsimp only
        obtain ⟨hstarts, hw⟩ := new_starts h
        obtain ⟨pre, -, hrun⟩ := run_steps L.env s L.triggers
        obtain ⟨o, -, hI, hP⟩ := hstarts.placed (initializeStore_ok hinit).cache
          (initializeStore_booted ha hH hK hinit) hrec (Accepted L.env s pre)
        rw [hw] at hnew
        rw [hrun]
        exact (acts_complete hcheck hverify (run_acts hI fun _ hb => hb)
          ⟨hP.journal.chain, hof hnew⟩).always

theorem history_complete {lives : List Life} (hrec : ∀ L ∈ lives, RecordsGiven L.env)
    (hverify : ∀ L ∈ lives, ∃ skip, L.env.verify = BlockVerifier.verify V skip)
    (ha : Anchored g (fun _ => True) H c₀) (hH : Chained g (fun _ => True) H) (hK : Kept H c₀)
    (hc : Complete batchOf c₀) :
    Complete batchOf (c₀.replay (history g c₀ lives).flatten) := by
  induction lives generalizing H c₀ with
  | nil => exact hc
  | cons L lives ih =>
    obtain ⟨skip, hv⟩ := hverify L List.mem_cons_self
    have hp := life_lived (hrec L List.mem_cons_self) (fun _ _ _ => trivial) ha hH hK _ List.nil_prefix
      (List.take_prefix L.stop _)
    have hlife := life_complete hcheck hv (hrec L List.mem_cons_self) ha hH hK hc _ List.nil_prefix
      (List.take_prefix L.stop _)
    rw [history, List.flatten_cons, ChainStore.replay_append]
    exact ih (fun L' hL' => hrec L' (List.mem_cons_of_mem L hL'))
      (fun L' hL' => hverify L' (List.mem_cons_of_mem L hL')) hp.store hp.chain hp.kept hlife

/-- The store after all lives: its blocks are complete, and the blocks handed over are in it. -/
theorem lives_served {lives : List Life} (hrec : ∀ L ∈ lives, RecordsGiven L.env)
    (hverify : ∀ L ∈ lives, ∃ skip, L.env.verify = BlockVerifier.verify V skip) :
    Complete batchOf (storeAfter g lives) ∧
      ∀ b ∈ handed (history g ChainStore.empty lives).flatten,
        (storeAfter g lives).certifiedBlock b.height = some b :=
  ⟨history_complete hcheck hrec hverify (.fresh (.inl rfl) rfl rfl) .nil (.nil nofun)
    ⟨nofun, nofun⟩,
    (lives_chained (G := fun _ => True) hrec fun _ _ _ _ _ => trivial).2.1.stored⟩

/-- **What has been executed is served from then on.** After any number of lives of a node, each
stopped at any point and with its own inputs, failures and settings, the API serves every certified
block of the store with the bytes of all its batches, and at a height executed in any of these lives
it serves the block executed there. -/
theorem executed_blocks_stay_served (g : CertifiedBlock) (lives : List Life) (P : StoreEnv)
    (hrec : ∀ L ∈ lives, RecordsGiven L.env)
    (hverify : ∀ L ∈ lives, ∃ skip, L.env.verify = BlockVerifier.verify V skip) :
    (∀ h b, (storeAfter g lives).certifiedBlock h = some b →
      Rest.getCertifiedBlock P.reliable ⟨storeAfter g lives, []⟩ h true =
        .ok (some ⟨b, some (b.block.payload.map fun item =>
          ⟨item.storeKey, batchOf item.storeKey⟩)⟩)) ∧
    ∀ b ∈ handed (history g ChainStore.empty lives).flatten,
      Rest.getCertifiedBlock P.reliable ⟨storeAfter g lives, []⟩ b.height true =
        .ok (some ⟨b, some (b.block.payload.map fun item =>
          ⟨item.storeKey, batchOf item.storeKey⟩)⟩) := by
  have hrel : P.reliable.Reliable := fun _ _ => rfl
  obtain ⟨hcomplete, hstored⟩ := lives_served (g := g) hcheck hrec hverify
  exact ⟨fun h b hb => Rest.getCertifiedBlock_reliable hrel hb (hcomplete.blocks h b hb),
    fun b hb => Rest.getCertifiedBlock_reliable hrel (hstored b hb)
      (hcomplete.blocks _ b (hstored b hb))⟩

end

namespace Small

def verifyingLife (ts : List Trigger) (stop : Nat) : Life where
  env := verifyingEnv
  warranter := Warranter.standard _
  bucketSize := 1
  epochStates := ⟨epochState 1 0⟩
  triggers := ts
  stop := stop

theorem verifyingEnv_recordsGiven : RecordsGiven verifyingEnv :=
  ⟨fun _ _ _ _ _ => rfl, fun _ _ _ _ h => nomatch h⟩

end Small

/-- A block with a batch is executed in the first life, which stops before its execution is
recorded, and served in the second. -/
theorem executed_blocks_stay_served_small :
    handed (history (Small.block 1 0) ChainStore.empty
        [Small.verifyingLife [.incomingBlock (.newBlock Small.blockWithBatch)] 6,
          Small.verifyingLife [] 20]).flatten =
        [Small.blockWithBatch.base, Small.blockWithBatch.base] ∧
      Rest.getCertifiedBlock Small.verifyingEnv.reliable ⟨storeAfter (Small.block 1 0)
          [Small.verifyingLife [.incomingBlock (.newBlock Small.blockWithBatch)] 6,
            Small.verifyingLife [] 20], []⟩ 1 true =
        .ok (some ⟨Small.blockWithBatch.base, some [⟨7, Small.batchOf 7⟩]⟩) := by
  have hhanded : handed (history (Small.block 1 0) ChainStore.empty
      [Small.verifyingLife [.incomingBlock (.newBlock Small.blockWithBatch)] 6,
        Small.verifyingLife [] 20]).flatten =
      [Small.blockWithBatch.base, Small.blockWithBatch.base] := by decide
  refine ⟨hhanded, (executed_blocks_stay_served Small.checkConsistency_ok (Small.block 1 0)
    [Small.verifyingLife [.incomingBlock (.newBlock Small.blockWithBatch)] 6,
      Small.verifyingLife [] 20] _ (fun L hL => ?_) fun L hL => ⟨false, ?_⟩).2
    Small.blockWithBatch.base (by rw [hhanded]; exact List.mem_cons_self)⟩
  · simp only [List.mem_cons, List.not_mem_nil, or_false] at hL
    rcases hL with rfl | rfl <;> exact Small.verifyingEnv_recordsGiven
  · simp only [List.mem_cons, List.not_mem_nil, or_false] at hL
    rcases hL with rfl | rfl <;> rfl

end Consensus.Proof
