import SupraL1.Consensus.Proof.Restart

/-!
# Repeating the first initialization

On an empty store `initialize` makes two writes, the genesis block as the last committed block and
as the last executed block, and a store that has one of them only is refused. `FirstRun` lists what
a first run can leave in the log, and `Left` what survives of it at any point: nothing, the
committed block alone, or both. The second run succeeds unless the first has stopped between its
writes (`initialize_repeatable_iff`).
-/

namespace Consensus.Proof

open EState BlockStore Journal

variable {E : StoreEnv} {g : CertifiedBlock} {size : Nat} {st : BlockStore} {pre : List Event}

/-! ## The first run -/

abbrev commitWrite (g : CertifiedBlock) : Event := .write (.committedBlock g)

abbrev executeWrite (g : CertifiedBlock) : Event := .write (.executedBlock ⟨g⟩)

/-- The events of a first run: a read fails, the first write fails, the genesis block is not
finalized, the second write fails, or both writes are made. -/
inductive FirstRun (E : StoreEnv) (g : CertifiedBlock) : List Event → Prop
  | unread : FirstRun E g []
  | commitFault (e : StoreError) : FirstRun E g [.writeFault (.committedBlock g) e]
  | unfinalized : FirstRun E g [commitWrite g]
  | executeFault (e : StoreError) :
      FirstRun E g [commitWrite g, .writeFault (.executedBlock ⟨g⟩) e]
  | done (hfin : E.finalizes ⟨g⟩ = true) : FirstRun E g [commitWrite g, executeWrite g]

theorem initializeStore_firstRun :
    FirstRun E g (after (initializeStore E g) (BlockStore.new ⟨ChainStore.empty, []⟩ size)).store.log := by
  unfold after initializeStore lastCommittedBlock lastExecutedBlock updateLastCommittedBlockInfo
  simp only [bind_apply, BlockStore.read, BlockStore.new]
  cases E.fails .readCommittedBlock [] with
  | some e => exact .unread
  | none =>
    dsimp only
    cases E.fails .readExecutedBlock [] with
    | some e => exact .unread
    | none =>
      simp only [ChainStore.empty, bind_apply, modify_apply, BlockStore.write]
      cases E.fails (.write (.committedBlock g)) [] with
      | some e => exact .commitFault e
      | none =>
        dsimp only
        cases hfin : E.finalizes ⟨g⟩ with
        | false => exact .unfinalized
        | true =>
          simp only [World.write, BlockStore.write, if_true, List.nil_append]
          cases E.fails (.write (.executedBlock ⟨g⟩)) [commitWrite g] with
          | some e => exact .executeFault e
          | none => exact .done hfin

/-- What a run that has stopped after the events `pre` leaves in the store. -/
inductive Left (E : StoreEnv) (g : CertifiedBlock) (pre : List Event) : ChainStore → Prop
  | nothing {c : ChainStore} (hno : commitWrite g ∉ pre) (hc : c.committedBlock = none)
      (hx : c.executedBlock = none) : Left E g pre c
  | committed {c : ChainStore} (hmem : commitWrite g ∈ pre) (hno : executeWrite g ∉ pre)
      (hc : c.committedBlock = some g) (hx : c.executedBlock = none) : Left E g pre c
  | both {c : ChainStore} (hfin : E.finalizes ⟨g⟩ = true) (hmem : executeWrite g ∈ pre)
      (hc : c.committedBlock = some g) (hx : c.executedBlock = some ⟨g⟩) : Left E g pre c

theorem FirstRun.left {l : List Event} (h : FirstRun E g l) :
    Always (fun pre => Left E g pre (ChainStore.empty.replay pre)) [] l := by
  have hnil : Always (fun pre => Left E g pre (ChainStore.empty.replay pre)) [] [] :=
    always_start (.nothing List.not_mem_nil rfl rfl)
  have hone := hnil.snoc (a := commitWrite g) (.committed List.mem_cons_self (by simp) rfl rfl)
  cases h with
  | unread => exact hnil
  | commitFault e => exact hnil.snoc (.nothing (by simp) rfl rfl)
  | unfinalized => exact hone
  | executeFault e => exact hone.snoc (.committed List.mem_cons_self (by simp) rfl rfl)
  | done hfin => exact hone.snoc (.both hfin (by simp) rfl rfl)

/-! ## The second run -/

/-- The store has the genesis block as both last committed and last executed block. -/
def AtGenesis (g : CertifiedBlock) (st : BlockStore) : Prop :=
  st.store.chain.committedBlock = some g ∧ st.store.chain.executedBlock = some ⟨g⟩

/-- The branch of `initialize` that the two records select, when the store can be read. -/
theorem initializeStore_read (E : StoreEnv) (g : CertifiedBlock) (st : BlockStore) :
    initializeStore E.reliable g st =
      match st.store.chain.committedBlock, st.store.chain.executedBlock with
      | none, none => if E.finalizes ⟨g⟩ then .ok () (genesisStore g st)
          else .error .genesisNotFinalized
            { st with lastCommittedBlockHeight := g.height, store := st.store.write (.committedBlock g) }
      | some c, some x =>
        if c ≠ x.certifiedBlock ∧ E.correctlyExtends c.block x.certifiedBlock.qc = false then
          .error (.doesNotExtend c x.certifiedBlock) st
        else .ok () { st with lastCommittedBlockHeight := c.height }
      | c, x => .error (.inconsistent c x) st := by
  unfold initializeStore lastCommittedBlock lastExecutedBlock
  simp only [bind_apply, BlockStore.read, StoreEnv.reliable_fails]
  cases st.store.chain.committedBlock with
  | none =>
    cases st.store.chain.executedBlock with
    | none =>
      show (updateLastCommittedBlockInfo E.reliable g >>= fun _ =>
        if E.finalizes ⟨g⟩ then BlockStore.write E.reliable .persistentStore (.executedBlock ⟨g⟩)
        else throw .genesisNotFinalized : StoreM Unit) st = _
      cases E.finalizes ⟨g⟩ <;> rfl
    | some x => rfl
  | some c =>
    cases st.store.chain.executedBlock with
    | none => rfl
    | some x =>
      show (if c ≠ x.certifiedBlock ∧ E.correctlyExtends c.block x.certifiedBlock.qc = false
        then throw (.doesNotExtend c x.certifiedBlock)
        else modify fun st => { st with lastCommittedBlockHeight := c.height } : StoreM Unit) st = _
      dsimp only
      split_ifs <;> rfl

/-- **When the second run succeeds**: `pre` are the events of the first run up to the point where
it has stopped. -/
theorem initialize_repeatable_iff
    (hpre : pre <+: (after (initializeStore E g)
      (BlockStore.new ⟨ChainStore.empty, []⟩ size)).store.log)
    (hst : st.store.chain = ChainStore.empty.replay pre) :
    (∃ st', initializeStore E.reliable g st = .ok () st' ∧ AtGenesis g st') ↔
      E.finalizes ⟨g⟩ = true ∧ (commitWrite g ∈ pre → executeWrite g ∈ pre) := by
  have hleft : Left E g pre st.store.chain := by
    rw [hst]
    exact initializeStore_firstRun.left pre List.nil_prefix hpre
  rw [initializeStore_read]
  cases hleft with
  | nothing hno hc hx =>
    rw [hc, hx]
    dsimp only
    cases hfin : E.finalizes ⟨g⟩ with
    | true => exact ⟨fun _ => ⟨rfl, fun h => absurd h hno⟩, fun _ => ⟨_, rfl, rfl, rfl⟩⟩
    | false =>
      constructor
      · rintro ⟨st', h, -⟩
        cases h
      · intro h
        cases h.1
  | committed hmem hno hc hx =>
    rw [hc, hx]
    constructor
    · rintro ⟨st', h, -⟩
      cases h
    · intro h
      exact absurd (h.2 hmem) hno
  | both hfin hmem hc hx =>
    rw [hc, hx]
    dsimp only
    rw [if_neg fun h => h.1 rfl]
    exact ⟨fun _ => ⟨hfin, fun _ => hmem⟩, fun _ => ⟨_, rfl, hc, hx⟩⟩

/-- A first run that is stopped after both of its writes, and one whose first write fails. -/
theorem initialize_repeatable_small :
    let E := (Small.env fun _ => .ok false).toStoreEnv
    let full : StoreEnv := { E with
      fails := fun op _ =>
        if op = .write (.committedBlock (Small.block 1 0)) then some ⟨"full"⟩ else none }
    let first (F : StoreEnv) :=
      (after (initializeStore F (Small.block 1 0)) (BlockStore.new ⟨ChainStore.empty, []⟩ 1)).store
    (first E).log = [commitWrite (Small.block 1 0), executeWrite (Small.block 1 0)] ∧
    (first full).log = [.writeFault (.committedBlock (Small.block 1 0)) ⟨"full"⟩] ∧
    (∃ st', initializeStore E.reliable (Small.block 1 0) (BlockStore.new (first E) 1) = .ok () st' ∧
      AtGenesis (Small.block 1 0) st') ∧
    ∃ st', initializeStore full.reliable (Small.block 1 0) (BlockStore.new (first full) 1) =
      .ok () st' ∧ AtGenesis (Small.block 1 0) st' := by
  intro E full first
  have hfull : commitWrite (Small.block 1 0) ∉ (first full).log := by decide
  have hend : ∀ F, (first F).log <+: (after (initializeStore F (Small.block 1 0))
      (BlockStore.new ⟨ChainStore.empty, []⟩ 1)).store.log := fun _ => List.prefix_rfl
  exact ⟨rfl, rfl, (initialize_repeatable_iff (hend E) rfl).2 ⟨rfl, fun _ => by decide⟩,
    (initialize_repeatable_iff (hend full) rfl).2 ⟨rfl, fun h => absurd h hfull⟩⟩

/-- The process stops between the two writes. The second run finds the committed block without the
executed one and refuses the store, and so does every later run. -/
theorem initialize_refuses_own_first_write :
    let E := (Small.env fun _ => .ok false).toStoreEnv
    let g := Small.block 1 0
    let pre := [commitWrite g]
    let st := BlockStore.new ⟨ChainStore.empty.replay pre, []⟩ 1
    pre <+: (after (initializeStore E g) (BlockStore.new ⟨ChainStore.empty, []⟩ 1)).store.log ∧
      initializeStore E.reliable g st = .error (.inconsistent (some g) none) st := by
  intro E g pre st
  exact ⟨⟨[executeWrite g], rfl⟩, rfl⟩

end Consensus.Proof
