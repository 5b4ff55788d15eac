import SupraL1.Consensus.Proof.Creation

/-!
# What is executed is a verified chain

The results that hold in every run from a successful creation, with no assumption on the inputs,
the executor, the verifier or on which operations of the store fail: the blocks handed to the
executor are a gap-free chain of verified blocks, and none of the branches that guard against
regressions is ever taken.
-/

namespace Consensus.Proof

open EState ChainStateAssembler SynchronizationContext Relation

variable {E : Env} {A : CertifiedBlock → Prop} {o : Origin} {st : BlockStore} {v : EpochStates}
  {s s' : ChainStateAssembler} {w : World}

/-! ## The main loop -/

theorem run_cons_go {t : Trigger} (ts : List Trigger)
    (hc : canDoAStep (outcome (doStep E t) s) = true) :
    after (run E (t :: ts)) s = after (run E ts) (after (doStep E t) s) := by
  rw [run, after_bind_ok (attempt_apply (doStep E t) s), if_pos hc]

theorem run_cons_stop {t : Trigger} (ts : List Trigger)
    (hc : ¬ canDoAStep (outcome (doStep E t) s) = true) :
    after (run E (t :: ts)) s = after (doStep E t) s := by
  rw [run, after_bind_ok (attempt_apply (doStep E t) s), if_neg hc]
  cases outcome (doStep E t) s <;> rfl

theorem run_steps (E : Env) (s : ChainStateAssembler) (ts : List Trigger) :
    ∃ pre, pre <+: ts ∧ after (run E ts) s = steps (doStep E) s pre := by
  induction ts generalizing s with
  | nil => exact ⟨[], List.prefix_rfl, rfl⟩
  | cons t ts ih =>
    by_cases hc : canDoAStep (outcome (doStep E t) s) = true
    · obtain ⟨pre, hpre, hafter⟩ := ih (after (doStep E t) s)
      refine ⟨t :: pre, List.cons_prefix_cons.2 ⟨rfl, hpre⟩, ?_⟩
      rw [steps_cons, ← hafter, run_cons_go ts hc]
    · exact ⟨[t], ⟨ts, rfl⟩, run_cons_stop ts hc⟩

/-! ## The executed blocks -/

theorem Act.handed_cases (ha : Act E A o s s') (hm : o.mark ≤ s.log.length) :
    handed (o.since s') = handed (o.since s) ∨
      ∃ b, Committed E A o s b ∧ s' = s.emit (.execute b s.blockVerifier.current.committee) := by
  cases ha with
  | handOver hc => exact .inr ⟨_, hc, rfl⟩
  | emit he => exact .inl (handed_emit hm he.ne_execute)
  | post _ => exact .inl (handed_emit hm nofun)
  | batch _ _ | certified _ _ _ | record _ _ | boundary _ _ => exact .inl (handed_write hm _)
  | @commitFault b e _ _ => exact .inl (handed_emit (s := withCommitted b.height s) hm nofun)
  | @commit b _ _ => exact .inl (handed_write (s := withCommitted b.height s) hm _)
  | advance _ _ _ => exact .inl (handed_emit hm nofun)
  | _ => exact .inl rfl

theorem Act.handed_accepted (ha : Act E A o s s') (hm : o.mark ≤ s.log.length)
    (h : ∀ b ∈ handed (o.since s), A b) : ∀ b ∈ handed (o.since s'), A b := by
  rcases ha.handed_cases hm with heq | ⟨b, hc, rfl⟩
  · rwa [heq]
  · rw [handed_execute hm]
    intro b' hb'
    rcases List.mem_append.1 hb' with hb' | hb'
    · exact h b' hb'
    · cases List.mem_singleton.1 hb'; exact hc.accepted

/-- The events of a run, and what is said of the blocks it hands over. -/
theorem acts_events {s : ChainStateAssembler} (h : ReflTransGen (Act E A (Origin.of s)) s s')
    (hI : Inv A (Origin.of s) s) :
    ∃ events, s'.log = s.log ++ events ∧ (Origin.of s).since s' = events ∧
      ∀ b ∈ handed events, A b := by
  obtain ⟨events, hlog⟩ := log_prefix_of_acts h
  have hsince : (Origin.of s).since s' = events := by
    unfold Origin.since Origin.of
    rw [← hlog]
    exact List.drop_left
  refine ⟨events, hlog.symm, hsince, ?_⟩
  rw [← hsince]
  have h0 : ∀ b ∈ handed ((Origin.of s).since s), A b := by
    rw [show (Origin.of s).since s = [] from List.drop_length]
    nofun
  clear hsince hlog
  induction h with
  | refl => exact h0
  | tail hstar ha ih => exact ha.handed_accepted (hI.star hstar).mark ih

theorem linked_heights_nodup {i : BlockInfo} {bs : List CertifiedBlock}
    (h : Linked.From Extends CertifiedBlock.info i bs) : (bs.map CertifiedBlock.height).Nodup := by
  have hr : bs.map CertifiedBlock.height = List.range' (i.height + 1) bs.length :=
    @Linked.ranks _ _ Extends CertifiedBlock.info BlockInfo.height Extends.rank i bs h
  rw [hr]
  exact List.nodup_range'

/-- **Only a verified, gap-free chain is ever executed.** The blocks the steps of a run hand to
the executor extend each other, starting from the last executed block; no height comes twice; and
each is the block of an incoming message that the verifier accepted when the message arrived. -/
theorem executed_blocks_form_verified_chain {W : Warranter E} (hf : Fresh st)
    (hnew : new E W st v = (.ok s, w)) (ts : List Trigger) :
    ∃ events, (steps (doStep E) s ts).log = s.log ++ events ∧
      Linked.From Extends CertifiedBlock.info s.lastExecutedBlockInfo (handed events) ∧
      ((handed events).map CertifiedBlock.height).Nodup ∧
      ∀ b ∈ handed events, ∃ pre msg post, ts = pre ++ .incomingBlock msg :: post ∧
        b = msg.fullBlock.base ∧
        E.verify (steps (doStep E) s pre).blockVerifier msg.fullBlock = .success := by
  have hI := new_inv hf hnew (Accepted E s ts)
  have hacts := run_acts hI fun _ hb => hb
  obtain ⟨events, hlog, hsince, hacc⟩ := acts_events hacts hI
  have hlinked := (hI.star hacts).linked
  rw [hsince] at hlinked
  refine ⟨events, hlog, hlinked, linked_heights_nodup hlinked, fun b hb => ?_⟩
  obtain ⟨pre, t, post, hts, msg, rfl, rfl, hv⟩ := hacc b hb
  exact ⟨pre, msg, post, hts, rfl, hv⟩

/-- Block 2 arrives first and is cached; block 1 is executed and block 2 after it. -/
theorem executed_blocks_form_verified_chain_small :
    (∃ events, (steps (doStep (Small.env fun _ => .ok false)) (Small.assembler 1)
        [.incomingBlock (.newBlock (Small.fullBlock 1 2)),
          .incomingBlock (.syncBlock (Small.fullBlock 1 1)), .readyToExecute]).log =
          (Small.assembler 1).log ++ events ∧
        Linked.From Extends CertifiedBlock.info (Small.block 1 0).info (handed events)) ∧
      handed (steps (doStep (Small.env fun _ => .ok false)) (Small.assembler 1)
        [.incomingBlock (.newBlock (Small.fullBlock 1 2)),
          .incomingBlock (.syncBlock (Small.fullBlock 1 1)), .readyToExecute]).log =
        [Small.block 1 1, Small.block 1 2] := by
  refine ⟨?_, by decide⟩
  obtain ⟨events, h1, h2, -⟩ := executed_blocks_form_verified_chain (Small.fresh _ _ 1)
    (Small.new_assembler (fun _ => .ok false) 1)
    [.incomingBlock (.newBlock (Small.fullBlock 1 2)),
      .incomingBlock (.syncBlock (Small.fullBlock 1 1)), .readyToExecute]
  exact ⟨events, h1, h2⟩

/-! ## The defensive branches -/

/-- **The defensive branches are unreachable.** Whatever the inputs and their order, no step
finds the feedback channel full, a pending sync request for another height, a block that it must
not process, a block that cannot be cached, or an entry of the cache without its block. -/
theorem no_step_takes_defensive_branch {W : Warranter E} (hf : Fresh st)
    (hnew : new E W st v = (.ok s, w)) (ts : List Trigger) :
    ∀ e, .error e ∈ results (doStep E) s ts → ¬ Defensive e := by
  intro e he
  obtain ⟨pre, t, post, rfl, hout⟩ := mem_results.1 he
  have hI : Inv (Accepted E s (pre ++ t :: post)) (Origin.of s) (steps (doStep E) s pre) :=
    new_run_inv hf hnew fun _ hb => hb.mono
  have hend := doStep_ends (t := t) hI fun b hb => ⟨pre, t, post, rfl, hb⟩
  cases hstep : doStep E t (steps (doStep E) s pre) with
  | ok a s' => rw [outcome_ok hstep] at hout; cases hout
  | error e' s' =>
    rw [outcome_error hstep] at hout
    cases hout
    rw [hstep] at hend
    exact hend.2

/-- Block 2 arrives first and the sync request for block 1 cannot be sent: the step fails, with an
error of the environment. -/
theorem no_step_takes_defensive_branch_small :
    let E : Env := { Small.env fun _ => .ok false with sendFails := fun _ _ => some ⟨"closed"⟩ }
    .error (.rpcInternalError ⟨"closed"⟩) ∈ results (doStep E) (Small.assembler 0)
        [.incomingBlock (.newBlock (Small.fullBlock 1 2)), .syncTimer,
          .incomingBlock (.syncBlock (Small.fullBlock 1 1)), .readyToExecute] ∧
      ¬ Defensive (.rpcInternalError ⟨"closed"⟩) := by
  intro E
  have hfail : .error (.rpcInternalError ⟨"closed"⟩) ∈ results (doStep E) (Small.assembler 0)
      [.incomingBlock (.newBlock (Small.fullBlock 1 2)), .syncTimer,
        .incomingBlock (.syncBlock (Small.fullBlock 1 1)), .readyToExecute] := List.mem_cons_self
  have hnew : new E (Warranter.standard E) (Small.store (Small.block 1 0) (Small.block 1 0) 0)
      ⟨Small.epochState 1 0⟩ = (.ok (Small.assembler 0), (Small.assembler 0).store.store) := rfl
  exact ⟨hfail, no_step_takes_defensive_branch (Small.fresh _ _ 0) hnew _ _ hfail⟩

end Consensus.Proof
