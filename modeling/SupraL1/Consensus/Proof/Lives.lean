import SupraL1.Lib.Stutter
import SupraL1.Consensus.Node
import SupraL1.Consensus.Proof.Chain
import SupraL1.Consensus.Proof.Initialize

/-!
# One chain over all lives of a node

A life resumes from the two records in the store, the last committed and the last executed block.
`Resumable` says where these stand against the blocks that all lives so far have handed to the
executor: both are the last block handed over, or the committed block is the next one, handed over
already or not. Every action keeps this (`Act.placed`), and so does the creation of an assembler, in
which the warranter may hand over the committed block once more. Since it then is the last block or
the one after it, the blocks of all lives are one chain, but for these repetitions.
-/

namespace Consensus.Proof

open EState ChainStateAssembler SynchronizationContext Relation Journal

variable {E : Env} {A G : CertifiedBlock → Prop} {o : Origin} {g b : CertifiedBlock}
  {x : ExecutedBlock} {H : List CertifiedBlock} {c c₀ c' : ChainStore} {size : Nat}
  {st : BlockStore} {v : EpochStates} {s s' : ChainStateAssembler} {w : World} {p : List Event}

/-- The executor's record of a block is that block; a failed execution may leave none. -/
structure RecordsGiven (E : Env) : Prop where
  ok : ∀ log b c flag, (E.executeBlock log b c).result = .ok flag →
    (E.executeBlock log b c).record = some ⟨b⟩
  error : ∀ log b c e, (E.executeBlock log b c).result = .error e →
    (E.executeBlock log b c).record = none ∨ (E.executeBlock log b c).record = some ⟨b⟩

theorem RecordsGiven.eq (hrec : RecordsGiven E) {log : List Event} {com : ValidatorCommittee}
    (h : (E.executeBlock log b com).record = some x) : x = ⟨b⟩ :=
  record_eq hrec.ok hrec.error h

/-! ## The blocks handed over -/

/-- The blocks handed over so far, but for repetitions, are a chain of good blocks. -/
structure Chained (g : CertifiedBlock) (G : CertifiedBlock → Prop) (H : List CertifiedBlock) :
    Prop where
  linked : Linked.From Extends CertifiedBlock.info g.info (H.destutter (· ≠ ·))
  good : ∀ b ∈ H, G b

abbrev lastHanded (g : CertifiedBlock) (H : List CertifiedBlock) : BlockInfo :=
  Linked.tip CertifiedBlock.info g.info H

theorem Chained.nil : Chained g G [] := ⟨trivial, nofun⟩

theorem Chained.next (h : Chained g G H) (he : Extends (lastHanded g H) b) (hb : G b) :
    Chained g G (H ++ [b]) := by
  have hne : H.getLast? ≠ some b := by
    intro hlast
    have htip : lastHanded g H = b.info := Linked.tip_of_getLast? _ hlast
    rw [htip] at he
    exact absurd he.1 (Nat.ne_of_lt (Nat.lt_succ_self _))
  refine ⟨?_, fun b' hb' => ?_⟩
  · rw [Linked.destutter_snoc_next hne, Linked.from_snoc, Linked.tip_destutter]
    exact ⟨h.linked, he⟩
  · rcases List.mem_append.1 hb' with hb' | hb'
    · exact h.good b' hb'
    · cases List.mem_singleton.1 hb'; exact hb

theorem Chained.again (h : Chained g G H) (hb : H.getLast? = some b) : Chained g G (H ++ [b]) := by
  refine ⟨?_, fun b' hb' => ?_⟩
  · rw [Linked.destutter_snoc_again hb]
    exact h.linked
  · rcases List.mem_append.1 hb' with hb' | hb'
    · exact h.good b' hb'
    · cases List.mem_singleton.1 hb'
      exact h.good b (List.mem_of_getLast? hb)

/-! ## What a life resumes from -/

/-- The two records against the blocks handed over. -/
inductive Resumable (g : CertifiedBlock) (G : CertifiedBlock → Prop) (H : List CertifiedBlock)
    (c : ChainStore) : Prop
  /-- The last block handed over has been executed. -/
  | settled {x : ExecutedBlock} (hc : c.committedBlock = some x.certifiedBlock)
      (hx : c.executedBlock = some x) (ht : lastHanded g H = x.certifiedBlock.info) :
      Resumable g G H c
  /-- The next block has been committed, and perhaps handed over. -/
  | opened {b : CertifiedBlock} {x : ExecutedBlock} (hc : c.committedBlock = some b)
      (hx : c.executedBlock = some x) (he : Extends x.certifiedBlock.info b) (hb : G b)
      (ht : lastHanded g H = x.certifiedBlock.info ∨ H.getLast? = some b) : Resumable g G H c

theorem Resumable.congr (h : Resumable g G H c) (h1 : c'.committedBlock = c.committedBlock)
    (h2 : c'.executedBlock = c.executedBlock) : Resumable g G H c' := by
  cases h with
  | settled hc hx ht => exact .settled (h1.trans hc) (h2.trans hx) ht
  | opened hc hx he hb ht => exact .opened (h1.trans hc) (h2.trans hx) he hb ht

theorem Resumable.handOver (h : Resumable g G H c) (hb : c.committedBlock = some b) :
    Resumable g G (H ++ [b]) c := by
  cases h with
  | settled hc hx ht =>
    cases hb.symm.trans hc
    exact .settled hc hx (Linked.tip_snoc _ _ _)
  | opened hc hx he hG ht =>
    cases hb.symm.trans hc
    exact .opened hc hx he hG (.inr (by simp))

theorem Resumable.committed (h : Resumable g G H c) : ∃ d, c.committedBlock = some d := by
  cases h with
  | settled hc _ _ => exact ⟨_, hc⟩
  | opened hc _ _ _ _ => exact ⟨_, hc⟩

/-- The blocks handed over are in the store, up to the committed height, and so is a committed block
that is not executed. -/
structure Kept (H : List CertifiedBlock) (c : ChainStore) : Prop where
  stored : ∀ b ∈ H, c.certifiedBlock b.height = some b
  bounded : ∀ d, c.committedBlock = some d → ∀ b ∈ H, b.height ≤ d.height
  next : ∀ d x, c.committedBlock = some d → c.executedBlock = some x → d ≠ x.certifiedBlock →
    c.certifiedBlock d.height = some d

theorem Kept.congr (h : Kept H c) (h0 : c'.certifiedBlock = c.certifiedBlock)
    (h1 : c'.committedBlock = c.committedBlock) (h2 : c'.executedBlock = c.executedBlock) :
    Kept H c' := by
  obtain ⟨hs, hb, hn⟩ := h
  refine ⟨?_, ?_, ?_⟩
  · rw [h0]; exact hs
  · rw [h1]; exact hb
  · rw [h0, h1, h2]; exact hn

theorem Kept.nil (h : ∀ d x, c.committedBlock = some d → c.executedBlock = some x →
    d = x.certifiedBlock) : Kept [] c :=
  ⟨nofun, nofun, fun d x hd hx hne => absurd (h d x hd hx) hne⟩

theorem Kept.handOver (h : Kept H c) (hb : c.committedBlock = some b)
    (hs : c.certifiedBlock b.height = some b) : Kept (H ++ [b]) c := by
  refine ⟨fun b' hb' => ?_, fun d hd b' hb' => ?_, h.next⟩
  · rcases List.mem_append.1 hb' with hb' | hb'
    · exact h.stored b' hb'
    · cases List.mem_singleton.1 hb'; exact hs
  · rcases List.mem_append.1 hb' with hb' | hb'
    · exact h.bounded d hd b' hb'
    · cases List.mem_singleton.1 hb'
      cases hb.symm.trans hd
      exact Nat.le_refl _

theorem Kept.record (h : Kept H c) (hb : c.committedBlock = some b) :
    Kept H (c.apply (.executedBlock ⟨b⟩)) :=
  ⟨h.stored, h.bounded, fun d x hd hx hne => by
    cases hx
    exact absurd (Option.some.inj (hd.symm.trans hb)) hne⟩

/-- What a store holds between two lives: nothing or one record of an interrupted first
initialization, or what a life resumes from. -/
inductive Anchored (g : CertifiedBlock) (G : CertifiedBlock → Prop) (H : List CertifiedBlock)
    (c : ChainStore) : Prop
  | fresh (hc : c.committedBlock = none ∨ c.committedBlock = some g) (hx : c.executedBlock = none)
      (hH : H = []) : Anchored g G H c
  | resumable (h : Resumable g G H c) : Anchored g G H c

/-- A life that stops after the events `p`. The blocks of this life alone do not repeat. -/
structure Lived (g : CertifiedBlock) (G : CertifiedBlock → Prop) (H : List CertifiedBlock)
    (c₀ : ChainStore) (p : List Event) : Prop where
  store : Anchored g G (H ++ handed p) (c₀.replay p)
  chain : Chained g G (H ++ handed p)
  kept : Kept (H ++ handed p) (c₀.replay p)
  own : ∃ i, Linked.From Extends CertifiedBlock.info i (handed p)

section
variable {P : List Event → Prop} {base : List Event}

theorem Journaled.emitted (h : Journaled c₀ base P w) {e : Event} (he : ∀ x, e ≠ .write x)
    (hP : P (w.log ++ [e])) : Journaled c₀ base P (w.emit e) :=
  ⟨h.chain.trans (ChainStore.replay_other c₀ w.log he).symm, h.always.snoc hP⟩

theorem Journaled.written (h : Journaled c₀ base P w) {x : Write}
    (hP : P (w.log ++ [.write x])) : Journaled c₀ base P (w.write x) := by
  refine ⟨?_, h.always.snoc hP⟩
  rw [World.write_log, ChainStore.replay_write, ← h.chain]
  rfl

end

/-! ## Runs -/

/-- A state of a life that has handed over the blocks of `o.since s`, from the start `o` of its
log. -/
structure Placed (g : CertifiedBlock) (G : CertifiedBlock → Prop) (H : List CertifiedBlock)
    (c₀ : ChainStore) (o : Origin) (s : ChainStateAssembler) : Prop where
  journal : Journaled c₀ [] (Lived g G H c₀) s.store.store
  resumable : Resumable g G (H ++ handed (o.since s)) s.chain
  kept : Kept (H ++ handed (o.since s)) s.chain
  height : ∀ d, s.chain.committedBlock = some d → d.height ≤ committed s
  aligned : lastHanded g (H ++ handed (o.since s)) = o.tip s
  settled : committed s < s.nextBlockHeight →
    ∃ x, s.chain.executedBlock = some x ∧ x.certifiedBlock.info = executed s

section
variable (hrec : RecordsGiven E) (hG : ∀ b, A b → G b) (hm : o.mark = 0)
include hrec

/-- The record of the last executed block, over an action. -/
theorem Act.settled (ha : Act E A o s s')
    (h : committed s < s.nextBlockHeight →
      ∃ x, s.chain.executedBlock = some x ∧ x.certifiedBlock.info = executed s) :
    committed s' < s'.nextBlockHeight →
      ∃ x, s'.chain.executedBlock = some x ∧ x.certifiedBlock.info = executed s' := by
  cases ha with
  | commitFault e hr hc => exact fun hlt => absurd hr.follows.1 (Nat.ne_of_lt hlt)
  | commit hr hc => exact fun hlt => absurd hr.follows.1 (Nat.ne_of_lt hlt)
  | @record b log com r hh hr =>
    intro hlt
    have h1 := hh.atHeight
    have h2 : b.height = s.nextBlockHeight := hh.follows.1
    exact absurd hlt (by show ¬ committed s < s.nextBlockHeight; omega)
  | @advance b log com flag hh hres hw =>
    exact fun _ => ⟨⟨b⟩, hw _ (hrec.ok _ _ _ _ hres), rfl⟩
  | _ => exact h

include hG

theorem Act.resumable (hI : Inv A o s) (ha : Act E A o s s') (h : Placed g G H c₀ o s) :
    Resumable g G (H ++ handed (o.since s')) s'.chain := by
  have hm := hI.mark
  cases ha with
  | handOver hc =>
    rw [handed_execute hm, ← List.append_assoc]
    exact h.resumable.handOver hc.recorded
  | @commit b hr hc =>
    -- the chain check has been made against the block that is recorded as executed
    have hlt : committed s < s.nextBlockHeight := Nat.lt_of_lt_of_eq hc hr.follows.1
    obtain ⟨x, hx, hinfo⟩ := h.settled hlt
    have ht := h.aligned.trans (hI.settled hlt)
    rw [handed_write (s := withCommitted b.height s) hm]
    refine .opened rfl hx ?_ (hG b hr.accepted) (.inl (ht.trans hinfo.symm))
    rw [hinfo]
    exact hr.follows
  | record hh hr =>
    cases hrec.eq hr
    rw [handed_write hm]
    exact .settled hh.recorded rfl (h.aligned.trans hh.atTip)
  | batch _ _ | certified _ _ _ | boundary _ _ =>
    rw [handed_write hm]
    exact h.resumable.congr rfl rfl
  | emit he =>
    rw [handed_emit hm he.ne_execute]
    exact h.resumable
  | @post n _ =>
    rw [handed_emit hm (e := .request n) nofun]
    exact h.resumable
  | @commitFault b e _ _ =>
    rw [handed_emit (s := withCommitted b.height s) hm (e := .writeFault (.committedBlock b) e) nofun]
    exact h.resumable
  | @advance b _ _ flag _ _ _ =>
    have hr := h.resumable
    rw [← handed_emit hm (e := .executed b flag) nofun] at hr
    exact hr
  | _ => exact h.resumable

omit hrec hG in
theorem Act.height (ha : Act E A o s s')
    (h : ∀ d, s.chain.committedBlock = some d → d.height ≤ committed s) :
    ∀ d, s'.chain.committedBlock = some d → d.height ≤ committed s' := by
  cases ha with
  | commit hr hc =>
    intro d hd
    cases hd
    exact Nat.le_refl _
  | commitFault e hr hc => exact fun d hd => Nat.le_trans (h d hd) (Nat.le_of_lt hc)
  | _ => exact h

omit hG in
theorem Act.kept (hI : Inv A o s) (ha : Act E A o s s') (h : Placed g G H c₀ o s) :
    Kept (H ++ handed (o.since s')) s'.chain := by
  have hm := hI.mark
  have hk := h.kept
  cases ha with
  | handOver hc =>
    rw [handed_execute hm, ← List.append_assoc]
    exact hk.handOver hc.recorded hc.stored
  | @commit b hr hc =>
    rw [handed_write (s := withCommitted b.height s) hm]
    refine ⟨hk.stored, fun d hd b' hb' => ?_, fun d x hd _ _ => by cases hd; exact hr.stored⟩
    cases hd
    -- the blocks handed over are below the block committed before
    obtain ⟨d, hd⟩ := h.resumable.committed
    exact Nat.le_trans (hk.bounded d hd b' hb') (Nat.le_trans (h.height d hd) (Nat.le_of_lt hc))
  | record hh hr =>
    cases hrec.eq hr
    rw [handed_write hm]
    exact hk.record hh.recorded
  | @certified fb ha _ _ =>
    rw [handed_write hm]
    -- the block is above the committed height
    have hsame : ∀ n, n ≤ committed s → stored (s.write (.certifiedBlock fb.base)) n = stored s n := by
      intro n hn
      rw [stored_write_block, if_neg]
      rintro rfl
      exact absurd ha.uncommitted (Nat.not_lt.2 hn)
    obtain ⟨d, hd⟩ := h.resumable.committed
    refine ⟨fun b hb => ?_, hk.bounded, fun d' x hd' hx hne => ?_⟩
    · exact (hsame _ (Nat.le_trans (hk.bounded d hd b hb) (h.height d hd))).trans (hk.stored b hb)
    · exact (hsame _ (h.height d' hd')).trans (hk.next d' x hd' hx hne)
  | batch _ _ | boundary _ _ =>
    rw [handed_write hm]
    exact hk.congr rfl rfl rfl
  | emit he =>
    rw [handed_emit hm he.ne_execute]
    exact hk
  | @post n _ =>
    rw [handed_emit hm (e := .request n) nofun]
    exact hk
  | @commitFault b e _ _ =>
    rw [handed_emit (s := withCommitted b.height s) hm (e := .writeFault (.committedBlock b) e) nofun]
    exact hk
  | @advance b _ _ flag _ _ _ =>
    rw [← handed_emit hm (e := .executed b flag) nofun] at hk
    exact hk
  | _ => exact hk

include hm

theorem Act.placed (hI : Inv A o s) (ha : Act E A o s s') (h : Placed g G H c₀ o s) :
    Placed g G H c₀ o s' := by
  have hsince : ∀ s : ChainStateAssembler, o.since s = s.log := fun s => by
    unfold Origin.since
    rw [hm, List.drop_zero]
  have hres := ha.resumable hrec hG hI h
  have hkept := ha.kept hrec hI h
  have hchain : Chained g G (H ++ handed (o.since s)) := by
    rw [hsince]
    exact (h.journal.always s.log List.nil_prefix List.prefix_rfl).chain
  have hstep : Chained g G (H ++ handed (o.since s')) ∧
      lastHanded g (H ++ handed (o.since s')) = o.tip s' := by
    rcases ha.handed_cases hI.mark with heq | ⟨b, hc, rfl⟩
    · unfold Origin.tip
      rw [heq]
      exact ⟨hchain, h.aligned⟩
    · have hext : Extends (lastHanded g (H ++ handed (o.since s))) b := by
        rw [h.aligned, hc.atTip]
        exact hc.follows
      rw [Origin.tip_execute hI.mark, handed_execute hI.mark, ← List.append_assoc]
      exact ⟨hchain.next hext (hG b hc.accepted), Linked.tip_snoc _ _ _⟩
  refine ⟨ha.journaled h.journal ⟨?_, ?_, ?_, ?_⟩, hres, hkept, ha.height h.height, hstep.2,
    ha.settled hrec h.settled⟩
  · rw [← ha.replay h.journal.chain, ← hsince]
    exact .resumable hres
  · rw [← hsince]
    exact hstep.1
  · rw [← ha.replay h.journal.chain, ← hsince]
    exact hkept
  · rw [← hsince]
    exact ⟨_, (ha.inv hI).linked⟩

theorem acts_placed (hI : Inv A o s) (hacts : ReflTransGen (Act E A o) s s')
    (h : Placed g G H c₀ o s) : Placed g G H c₀ o s' := by
  induction hacts with
  | refl => exact h
  | tail hstar ha ih => exact ha.placed hrec hG hm (hI.star hstar) ih

end

/-! ## Initialization -/

/-- What `initialize` does to the log: it writes only on a store with neither record. -/
theorem initializeStore_log (E : StoreEnv) (g : CertifiedBlock) (c : ChainStore) (size : Nat) :
    (after (BlockStore.initializeStore E g) (BlockStore.new ⟨c, []⟩ size)).store.log = [] ∨
      c.committedBlock = none ∧ c.executedBlock = none ∧
        FirstRun E g
          (after (BlockStore.initializeStore E g) (BlockStore.new ⟨c, []⟩ size)).store.log := by
  unfold after BlockStore.initializeStore BlockStore.lastCommittedBlock BlockStore.lastExecutedBlock
    BlockStore.updateLastCommittedBlockInfo
  simp only [bind_apply, BlockStore.read, BlockStore.new]
  cases E.fails .readCommittedBlock [] with
  | some e => exact .inl rfl
  | none =>
    dsimp only
    cases E.fails .readExecutedBlock [] with
    | some e => exact .inl rfl
    | none =>
      dsimp only
      cases c.committedBlock with
      | some b =>
        cases c.executedBlock with
        | none => exact .inl rfl
        | some x =>
          dsimp only
          by_cases hno : b ≠ x.certifiedBlock ∧
              E.correctlyExtends b.block x.certifiedBlock.qc = false
          · rw [if_pos hno]
            exact .inl rfl
          · rw [if_neg hno]
            exact .inl rfl
      | none =>
        cases c.executedBlock with
        | some x => exact .inl rfl
        | none =>
          refine .inr ⟨rfl, rfl, ?_⟩
          simp only [bind_apply, modify_apply, BlockStore.write]
          cases E.fails (.write (.committedBlock g)) [] with
          | some e => exact .commitFault e
          | none =>
            dsimp only
            cases hfin : E.finalizes ⟨g⟩ with
            | false => exact .unfinalized
            | true =>
              simp only [World.write, BlockStore.write, if_true, List.nil_append]
              cases E.fails (.write (.executedBlock ⟨g⟩)) [commitWrite g] with
              | some e => exact .executeFault e
              | none => exact .done hfin

theorem FirstRun.lived {E : StoreEnv} {l : List Event} (h : FirstRun E g l)
    (hc : c₀.committedBlock = none) (hx : c₀.executedBlock = none) :
    Always (Lived g G [] c₀) [] l := by
  have hfresh : ∀ {p}, handed p = [] →
      ((c₀.replay p).committedBlock = none ∨ (c₀.replay p).committedBlock = some g) →
      (c₀.replay p).executedBlock = none → Lived g G [] c₀ p := by
    intro p hp hc hx
    refine ⟨?_, ?_, ?_, ?_⟩ <;> rw [hp]
    · exact .fresh hc hx rfl
    · exact .nil
    · exact .nil fun d x _ hx' => nomatch hx.symm.trans hx'
    · exact ⟨g.info, trivial⟩
  have hnil : Always (Lived g G [] c₀) [] [] := always_start (hfresh rfl (.inl hc) hx)
  have hone := hnil.snoc (a := commitWrite g) (hfresh rfl (.inr rfl) hx)
  cases h with
  | unread => exact hnil
  | commitFault e => exact hnil.snoc (hfresh rfl (.inl hc) hx)
  | unfinalized => exact hone
  | executeFault e => exact hone.snoc (hfresh rfl (.inr rfl) hx)
  | done hfin =>
    refine hone.snoc ⟨.resumable (.settled rfl rfl rfl), .nil, .nil fun d x hd hx => ?_, g.info, trivial⟩
    cases hd
    cases hx
    rfl

theorem initializeStore_lived (E : StoreEnv) (size : Nat) (ha : Anchored g G H c₀)
    (hH : Chained g G H) (hK : Kept H c₀) :
    Always (Lived g G H c₀) []
      (after (BlockStore.initializeStore E g) (BlockStore.new ⟨c₀, []⟩ size)).store.log := by
  have hstart : Lived g G H c₀ [] := by
    refine ⟨?_, ?_, ?_, g.info, trivial⟩ <;> rw [show handed [] = [] from rfl, List.append_nil]
    · exact ha
    · exact hH
    · exact hK
  rcases initializeStore_log E g c₀ size with hlog | ⟨hc, hx, hfirst⟩
  · rw [hlog]
    exact always_start hstart
  · cases ha with
    | fresh _ _ hnil =>
      subst hnil
      exact hfirst.lived hc hx
    | resumable h =>
      obtain ⟨d, hd⟩ := h.committed
      rw [hc] at hd; cases hd

/-- The block store with which the assembler is created. -/
structure Booted (g : CertifiedBlock) (G : CertifiedBlock → Prop) (H : List CertifiedBlock)
    (c₀ : ChainStore) (st : BlockStore) : Prop where
  journal : Journaled c₀ [] (Lived g G H c₀) st.store
  resumable : Resumable g G H st.store.chain
  chain : Chained g G H
  kept : Kept H st.store.chain
  height : ∀ d, st.store.chain.committedBlock = some d → d.height ≤ st.lastCommittedBlockHeight
  unhanded : handed st.store.log = []

theorem handed_writes {l : List Event} (h : ∀ e ∈ l, ∃ w, e = .write w) : handed l = [] := by
  refine List.filterMap_eq_nil_iff.2 fun e he => ?_
  obtain ⟨w, rfl⟩ := h e he
  rfl

theorem initializeStore_booted {E : StoreEnv} (ha : Anchored g G H c₀) (hH : Chained g G H)
    (hK : Kept H c₀)
    (hinit : BlockStore.initializeStore E g (BlockStore.new ⟨c₀, []⟩ size) = .ok () st) :
    Booted g G H c₀ st := by
  have hI := initializeStore_ok hinit
  obtain ⟨l, hlog, hchain, hl⟩ := hI.log
  have hlog : st.store.log = l := hlog
  have hun : handed st.store.log = [] := by rw [hlog]; exact handed_writes hl
  have hc : st.store.chain = c₀.replay st.store.log := by rw [hlog]; exact hchain
  have halways := initializeStore_lived E size ha hH hK
  rw [after_ok hinit] at halways
  have hend := halways _ List.nil_prefix List.prefix_rfl
  have hstore := hend.store
  have hkept := hend.kept
  rw [hun, List.append_nil, ← hc] at hstore hkept
  refine ⟨⟨hc, halways⟩, ?_, hH, hkept, fun d hd => Nat.le_of_eq (hI.height d hd).symm, hun⟩
  cases hstore with
  | fresh _ hx _ =>
    obtain ⟨b, x, -, hx', -⟩ := hI.restartable
    rw [hx] at hx'; cases hx'
  | resumable h => exact h

/-! ## Creation -/

theorem Lived.of {l : List CertifiedBlock} (hl : handed p = l)
    (hr : Resumable g G (H ++ l) (c₀.replay p)) (hc : Chained g G (H ++ l))
    (hk : Kept (H ++ l) (c₀.replay p))
    (ho : ∃ i, Linked.From Extends CertifiedBlock.info i l) : Lived g G H c₀ p := by
  subst hl
  exact ⟨.resumable hr, hc, hk, ho⟩

/-- What the restoring execution of the committed block leaves. -/
structure Repeated (g : CertifiedBlock) (G : CertifiedBlock → Prop) (H : List CertifiedBlock)
    (c₀ : ChainStore) (b : CertifiedBlock) (w : World) : Prop where
  journal : Journaled c₀ [] (Lived g G H c₀) w
  resumable : Resumable g G (H ++ [b]) w.chain
  chain : Chained g G (H ++ [b])
  kept : Kept (H ++ [b]) w.chain
  handedOver : handed w.log = [b]

section
variable (hB : Booted g G H c₀ st) (hb : st.store.chain.committedBlock = some b)
  (hx : st.store.chain.executedBlock = some x) (hne : b ≠ x.certifiedBlock)
include hB hb hx hne

theorem Booted.opened : Extends x.certifiedBlock.info b ∧ G b ∧
    (lastHanded g H = x.certifiedBlock.info ∨ H.getLast? = some b) := by
  cases hB.resumable with
  | settled hc hx' _ =>
    cases hx.symm.trans hx'
    exact absurd (Option.some.inj (hb.symm.trans hc)) hne
  | opened hc hx' he hG ht =>
    cases hx.symm.trans hx'
    cases hb.symm.trans hc
    exact ⟨he, hG, ht⟩

theorem returned_repeated (hrec : RecordsGiven E) (v : EpochStates) :
    Repeated g G H c₀ b (returned E b (created x st v)).store.store := by
  obtain ⟨he, hG, ht⟩ := hB.opened hb hx hne
  have hchain : Chained g G (H ++ [b]) := by
    rcases ht with ht | ht
    · exact hB.chain.next (by rw [ht]; exact he) hG
    · exact hB.chain.again ht
  have hown : ∃ i, Linked.From Extends CertifiedBlock.info i [b] := ⟨_, he, trivial⟩
  -- the commit writes the block that is there
  have hcommit : Resumable g G H (st.store.chain.apply (.committedBlock b)) :=
    hB.resumable.congr hb.symm rfl
  have hkept : Kept H (st.store.chain.apply (.committedBlock b)) := hB.kept.congr rfl hb.symm rfl
  have h1 : Journaled c₀ [] (Lived g G H c₀) (st.store.write (.committedBlock b)) := by
    refine hB.journal.written (.of (l := []) ?_ ?_ ?_ ?_ ⟨g.info, trivial⟩)
    · rw [handed_append, hB.unhanded]; rfl
    · rw [ChainStore.replay_write, ← hB.journal.chain, List.append_nil]
      exact hcommit
    · rw [List.append_nil]; exact hB.chain
    · rw [ChainStore.replay_write, ← hB.journal.chain, List.append_nil]
      exact hkept
  have hkeep : Kept (H ++ [b]) (st.store.chain.apply (.committedBlock b)) :=
    hkept.handOver rfl (hB.kept.next b x hb hx hne)
  have hnow : Resumable g G (H ++ [b]) (st.store.chain.apply (.committedBlock b)) :=
    hcommit.handOver rfl
  have hh2 : handed ((st.store.write (.committedBlock b)).log ++ [.execute b v.current.committee]) =
      [b] := by
    rw [handed_append, World.write_log, handed_append, hB.unhanded]; rfl
  have h2 : Journaled c₀ [] (Lived g G H c₀)
      ((st.store.write (.committedBlock b)).emit (.execute b v.current.committee)) := by
    have hreplay := ChainStore.replay_other c₀ (st.store.write (.committedBlock b)).log
      (e := .execute b v.current.committee) nofun
    rw [← h1.chain] at hreplay
    exact h1.emitted nofun (.of hh2 (hreplay ▸ hnow) hchain (hreplay ▸ hkeep) hown)
  unfold returned
  cases hr : (answer E b (created x st v)).record with
  | none => exact ⟨h2, hnow, hchain, hkeep, hh2⟩
  | some r =>
    cases hrec.eq hr
    have hlast : Resumable g G (H ++ [b])
        ((st.store.chain.apply (.committedBlock b)).apply (.executedBlock ⟨b⟩)) :=
      .settled rfl rfl (Linked.tip_snoc _ _ _)
    have hh3 : handed (((st.store.write (.committedBlock b)).emit
        (.execute b v.current.committee)).log ++ [.write (.executedBlock ⟨b⟩)]) = [b] := by
      rw [handed_append]
      exact (congrArg (· ++ []) hh2).trans (List.append_nil _)
    have hkeep₃ := hkeep.record (b := b) rfl
    refine ⟨h2.written (.of hh3 ?_ hchain ?_ hown), hlast, hchain, hkeep₃, hh3⟩
    · rw [ChainStore.replay_write, ← h2.chain]
      exact hlast
    · rw [ChainStore.replay_write, ← h2.chain]
      exact hkeep₃

theorem Repeated.executed {w : World} (h : Repeated g G H c₀ b w) (flag : Bool) :
    Repeated g G H c₀ b (w.emit (.executed b flag)) := by
  obtain ⟨he, -, -⟩ := hB.opened hb hx hne
  have hh : handed (w.log ++ [.executed b flag]) = [b] := by
    rw [handed_append, h.handedOver]; rfl
  have hreplay := ChainStore.replay_other c₀ w.log (e := .executed b flag) nofun
  rw [← h.journal.chain] at hreplay
  exact ⟨h.journal.emitted nofun
    (.of hh (hreplay ▸ h.resumable) h.chain (hreplay ▸ h.kept) ⟨_, he, trivial⟩),
    h.resumable, h.chain, h.kept, hh⟩

/-- The restoring execution, whichever way it ends. -/
theorem execute_lived (hrec : RecordsGiven E) (v : EpochStates) :
    Always (Lived g G H c₀) [] (after (execute E b) (created x st v)).log := by
  have hret := returned_repeated hB hb hx hne hrec v
  have heq := execute_eq E b (created x st v)
  cases hf : E.fails (.write (.committedBlock b)) (created x st v).log with
  | some e =>
    rw [hf] at heq
    rw [after_error heq]
    have hreplay := ChainStore.replay_other c₀ st.store.log (e := .writeFault (.committedBlock b) e) nofun
    rw [← hB.journal.chain] at hreplay
    refine (hB.journal.emitted (e := .writeFault (.committedBlock b) e) nofun
      (.of (l := []) ?_ ?_ ?_ ?_ ⟨g.info, trivial⟩)).always
    · rw [handed_append, hB.unhanded]; rfl
    · rw [hreplay, List.append_nil]; exact hB.resumable
    · rw [List.append_nil]; exact hB.chain
    · rw [hreplay, List.append_nil]; exact hB.kept
  | none =>
    rw [hf] at heq
    cases hres : (answer E b (created x st v)).result with
    | error e => rw [hres] at heq; rw [after_error heq]; exact hret.journal.always
    | ok flag =>
      rw [hres] at heq
      rw [after_ok heq]
      exact (hret.executed hB hb hx hne flag).journal.always

end

theorem new_world_settled (W : Warranter E) (v : EpochStates)
    (hc : st.store.chain.committedBlock = some x.certifiedBlock)
    (hx : st.store.chain.executedBlock = some x) : (new E W st v).2 = st.store := by
  rw [new_eq]
  cases E.fails .readExecutedBlock st.store.log with
  | some e => rfl
  | none =>
    rw [hx]
    dsimp only
    have hw := W.warranted (created x st v)
    generalize W.ensureConsistent (created x st v) = r at hw ⊢
    cases hw with
    | unread e _ => rfl
    | consistent _ _ _ => rfl
    | restored hc' hx' hne _ | duplicate hc' hx' hne _ _ | failed hc' hx' hne _ _ =>
      cases hc.symm.trans hc'
      cases hx.symm.trans hx'
      exact absurd rfl hne

theorem new_lived (hB : Booted g G H c₀ st) (hrec : RecordsGiven E) (W : Warranter E)
    (v : EpochStates) : Always (Lived g G H c₀) [] (new E W st v).2.log := by
  cases hB.resumable with
  | settled hc hx ht =>
    rw [new_world_settled W v hc hx]
    exact hB.journal.always
  | @opened b x hc hx he hG ht =>
    by_cases hne : b = x.certifiedBlock
    · rw [new_world_settled W v (hne ▸ hc) hx]
      exact hB.journal.always
    · rcases new_world W v hc hx with h | h
      · rw [h]; exact hB.journal.always
      · rw [h]; exact execute_lived hB hc hx hne hrec v

/-! ## The start of a run -/

theorem Clean.placed {l : List CertifiedBlock} {i : BlockInfo} (h : Clean s)
    (hj : Journaled c₀ [] (Lived g G H c₀) s.store.store) (hl : handed s.log = l)
    (hr : Resumable g G (H ++ l) s.chain) (hk : Kept (H ++ l) s.chain)
    (hd : ∀ d, s.chain.committedBlock = some d → d.height ≤ committed s) (hi : Linked.From Extends CertifiedBlock.info i l)
    (ht : lastHanded g (H ++ l) = Linked.tip CertifiedBlock.info i l)
    (hset : committed s < s.nextBlockHeight → Linked.tip CertifiedBlock.info i l = executed s ∧
      ∃ x, s.chain.executedBlock = some x ∧ x.certifiedBlock.info = executed s)
    (A : CertifiedBlock → Prop) : Inv A ⟨i, 0⟩ s ∧ Placed g G H c₀ ⟨i, 0⟩ s := by
  have hsince : handed (Origin.since ⟨i, 0⟩ s) = l := hl
  refine ⟨{ h.inv A with
      mark := Nat.zero_le _
      linked := by rw [hsince]; exact hi
      settled := fun hlt => by unfold Origin.tip; rw [hsince]; exact (hset hlt).1 },
    hj, ?_, ?_, hd, ?_, fun hlt => (hset hlt).2⟩
  · rw [hsince]; exact hr
  · rw [hsince]; exact hk
  · unfold Origin.tip; rw [hsince]; exact ht

theorem returned_height (E : Env) (b : CertifiedBlock) (x : ExecutedBlock) (st : BlockStore)
    (v : EpochStates) :
    ∀ d, (returned E b (created x st v)).chain.committedBlock = some d →
      d.height ≤ committed (returned E b (created x st v)) := by
  unfold returned
  cases (answer E b (created x st v)).record <;> (intro d hd; cases hd; exact Nat.le_refl _)

/-- **The assembler is created in place**, in each of the three ways. -/
theorem Starts.placed (h : Starts E st v s) (hf : Fresh st) (hB : Booted g G H c₀ st)
    (hrec : RecordsGiven E) (A : CertifiedBlock → Prop) :
    ∃ o, o.mark = 0 ∧ Inv A o s ∧ Placed g G H c₀ o s := by
  have hclean := h.clean hf
  cases h with
  | @consistent x hc hx =>
    refine ⟨⟨x.certifiedBlock.info, 0⟩, rfl, hclean.placed (l := []) hB.journal hB.unhanded ?_ ?_
      hB.height trivial ?_ (fun _ => ⟨rfl, x, hx, rfl⟩) A⟩
    · rw [List.append_nil]; exact hB.resumable
    · rw [List.append_nil]; exact hB.kept
    · rw [List.append_nil]
      cases hB.resumable with
      | settled _ hx' ht => cases hx.symm.trans hx'; exact ht
      | opened hc' hx' he _ _ =>
        cases hx.symm.trans hx'
        cases hc.symm.trans hc'
        exact absurd he.1 (Nat.ne_of_lt (Nat.lt_succ_self _))
  | @restored b x flag hc hx hne hok =>
    obtain ⟨he, -, -⟩ := hB.opened hc hx hne
    have hret := (returned_repeated hB hc hx hne hrec v).executed hB hc hx hne flag
    have hheight := returned_height E b x st v
    have hrecord : (answer E b (created x st v)).record = some ⟨b⟩ := hrec.ok _ _ _ _ hok
    have hx' : (Proof.restored E b flag (created x st v)).chain.executedBlock = some ⟨b⟩ := by
      unfold Proof.restored returned
      rw [hrecord]
      rfl
    exact ⟨⟨x.certifiedBlock.info, 0⟩, rfl, hclean.placed hret.journal hret.handedOver hret.resumable
      hret.kept hheight ⟨he, trivial⟩ (Linked.tip_snoc _ _ _) (fun _ => ⟨rfl, ⟨b⟩, hx', rfl⟩) A⟩
  | @duplicate b x e hc hx hne herr hd =>
    obtain ⟨he, -, -⟩ := hB.opened hc hx hne
    have hret := returned_repeated hB hc hx hne hrec v
    -- the next block has been committed, and nothing more will be
    have hcommitted : committed (returned E b (created x st v)) = b.height :=
      congrArg committed (returned_core E b (created x st v))
    have hnext : (returned E b (created x st v)).nextBlockHeight = x.certifiedBlock.height + 1 :=
      congrArg ChainStateAssembler.nextBlockHeight (returned_core E b (created x st v))
    refine ⟨⟨x.certifiedBlock.info, 0⟩, rfl, hclean.placed hret.journal hret.handedOver hret.resumable
      hret.kept (returned_height E b x st v) ⟨he, trivial⟩ (Linked.tip_snoc _ _ _) (fun hlt => ?_) A⟩
    rw [hcommitted, hnext, he.1] at hlt
    exact absurd hlt (Nat.lt_irrefl _)

/-! ## Lives -/

/-- **Wherever a life stops.** -/
theorem life_lived {L : Life} (hrec : RecordsGiven L.env)
    (hG : ∀ v fb, L.env.verify v fb = .success → G fb.base) (ha : Anchored g G H c₀)
    (hH : Chained g G H) (hK : Kept H c₀) : Always (Lived g G H c₀) [] (L.startRpcServer g c₀) := by
  unfold Life.startRpcServer
  cases hinit : BlockStore.initializeStore L.env.toStoreEnv g (BlockStore.new ⟨c₀, []⟩ L.bucketSize) with
  | error e st =>
    have h := initializeStore_lived L.env.toStoreEnv L.bucketSize ha hH hK
    rw [after_error hinit] at h
    exact h
  | ok u st =>
    have hB := initializeStore_booted ha hH hK hinit
    have hnew := new_lived hB hrec L.warranter L.epochStates
    dsimp only
    cases h : new L.env L.warranter st L.epochStates with
    | mk r w =>
      cases r with
      | error e => rw [h] at hnew; exact hnew
      | ok s =>
        dsimp only
        obtain ⟨pre, -, hrun⟩ := run_steps L.env s L.triggers
        obtain ⟨o, hm, hI, hP⟩ := (new_starts h).1.placed (initializeStore_ok hinit).cache hB hrec
          (Accepted L.env s pre)
        have hacc : ∀ b, Accepted L.env s pre b → G b := by
          rintro b ⟨_, _, _, -, msg, -, rfl, hv⟩
          exact hG _ _ hv
        rw [hrun]
        exact (acts_placed hrec hacc hm hI (run_acts hI fun _ hb => hb) hP).journal.always

theorem history_chained {lives : List Life} (hrec : ∀ L ∈ lives, RecordsGiven L.env)
    (hG : ∀ L ∈ lives, ∀ v fb, L.env.verify v fb = .success → G fb.base)
    (ha : Anchored g G H c₀) (hH : Chained g G H) (hK : Kept H c₀) :
    Chained g G (H ++ handed (history g c₀ lives).flatten) ∧
      Kept (H ++ handed (history g c₀ lives).flatten) (c₀.replay (history g c₀ lives).flatten) ∧
      ∀ es ∈ history g c₀ lives, ∃ i, Linked.From Extends CertifiedBlock.info i (handed es) := by
  induction lives generalizing H c₀ with
  | nil =>
    have hnil : H ++ handed (history g c₀ []).flatten = H := List.append_nil H
    rw [hnil]
    exact ⟨hH, hK, nofun⟩
  | cons L lives ih =>
    have hlife := life_lived (hrec L List.mem_cons_self) (hG L List.mem_cons_self) ha hH hK
    have hp := hlife _ List.nil_prefix (List.take_prefix L.stop _)
    obtain ⟨hchain, hkept, hown⟩ := ih (fun L' hL' => hrec L' (List.mem_cons_of_mem L hL'))
      (fun L' hL' => hG L' (List.mem_cons_of_mem L hL')) hp.store hp.chain hp.kept
    rw [history, List.flatten_cons, handed_append, ← List.append_assoc, ChainStore.replay_append]
    refine ⟨hchain, hkept, fun es hes => ?_⟩
    rcases List.mem_cons.1 hes with rfl | hes
    · exact hp.own
    · exact hown es hes

/-- The blocks executed over all lives of a node, from its first start on; a block that is handed
over again right after itself counts once. -/
def executedBlocks (g : CertifiedBlock) (lives : List Life) : List CertifiedBlock :=
  (handed (history g ChainStore.empty lives).flatten).destutter (· ≠ ·)

theorem lives_chained {lives : List Life} (hrec : ∀ L ∈ lives, RecordsGiven L.env)
    (hG : ∀ L ∈ lives, ∀ v fb, L.env.verify v fb = .success → G fb.base) :
    Chained g G (handed (history g ChainStore.empty lives).flatten) ∧
      Kept (handed (history g ChainStore.empty lives).flatten)
        (ChainStore.empty.replay (history g ChainStore.empty lives).flatten) ∧
      ∀ es ∈ history g ChainStore.empty lives,
        ∃ i, Linked.From Extends CertifiedBlock.info i (handed es) :=
  history_chained (H := []) hrec hG (.fresh (.inl rfl) rfl rfl) .nil (.nil nofun)

/-- **Crashes do not break the chain.** A node may be stopped after any event and started again, any
number of times, each time with other inputs, failures and settings, and in the middle of its first
initialization. What it hands to its executor over all its lives is one gap-free chain of verified
blocks from the genesis block on, in which only the last block of a life may come once more at the
start of a later one; within a life no height comes twice. -/
theorem lives_execute_one_chain (g : CertifiedBlock) (lives : List Life)
    (hrec : ∀ L ∈ lives, RecordsGiven L.env) :
    Linked.From Extends CertifiedBlock.info g.info (executedBlocks g lives) ∧
      (∀ es ∈ history g ChainStore.empty lives, ((handed es).map CertifiedBlock.height).Nodup) ∧
      ∀ b ∈ handed (history g ChainStore.empty lives).flatten,
        ∃ L ∈ lives, ∃ v fb, fb.base = b ∧ L.env.verify v fb = .success := by
  obtain ⟨hchain, -, hown⟩ := lives_chained (g := g)
    (G := fun b => ∃ L ∈ lives, ∃ v fb, fb.base = b ∧ L.env.verify v fb = .success) hrec
    fun L hL v fb hv => ⟨L, hL, v, fb, rfl, hv⟩
  refine ⟨hchain.linked, fun es hes => ?_, hchain.good⟩
  obtain ⟨i, hi⟩ := hown es hes
  exact linked_heights_nodup hi

namespace Small

/-- The small environment with a verifier that accepts one block at each height. -/
def certifyingEnv : Env :=
  { env (fun _ => .ok false) with
    verify := fun _ fb => if fb.base = block 1 fb.base.height then .success else .futureEpochBlock }

theorem certifyingEnv_recordsGiven : RecordsGiven certifyingEnv :=
  ⟨fun _ _ _ _ _ => rfl, fun _ _ _ _ h => nomatch h⟩

theorem certifyingEnv_verify {v : EpochStates} {fb : FullBlock}
    (h : certifyingEnv.verify v fb = .success) : fb.base = block 1 fb.base.height := by
  by_contra hne
  have hno : certifyingEnv.verify v fb = .futureEpochBlock := if_neg hne
  rw [hno] at h
  cases h

def life (ts : List Trigger) (stop : Nat) : Life where
  env := certifyingEnv
  warranter := Warranter.standard _
  bucketSize := 1
  epochStates := ⟨epochState 1 0⟩
  triggers := ts
  stop := stop

end Small

/-- The first life is stopped while block 1 is with the executor. The second hands it over again,
and goes on with block 2. -/
theorem lives_execute_one_chain_small :
    handed (history (Small.block 1 0) ChainStore.empty
        [Small.life [.incomingBlock (.newBlock (Small.fullBlock 1 1))] 5,
          Small.life [.incomingBlock (.newBlock (Small.fullBlock 1 2))] 20]).flatten =
        [Small.block 1 1, Small.block 1 1, Small.block 1 2] ∧
      Linked.From Extends CertifiedBlock.info (Small.block 1 0).info (executedBlocks (Small.block 1 0)
        [Small.life [.incomingBlock (.newBlock (Small.fullBlock 1 1))] 5,
          Small.life [.incomingBlock (.newBlock (Small.fullBlock 1 2))] 20]) := by
  refine ⟨by decide, (lives_execute_one_chain (Small.block 1 0) _ fun L hL => ?_).1⟩
  simp only [List.mem_cons, List.not_mem_nil, or_false] at hL
  rcases hL with rfl | rfl <;> exact Small.certifyingEnv_recordsGiven

end Consensus.Proof
