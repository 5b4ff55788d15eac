import Mathlib.Data.List.Chain
import Mathlib.Data.List.Range
import SupraL1.Client.AwaitFinalized

/-!
# The pace of the requests

A poll that finds the transaction pending is followed by a sleep, one that fails is not. So the
requests are `retry_delay` apart exactly if every poll that fails and is repeated takes that long by
itself (`requests_paced_iff`). Whatever the pace, the wait returns what a poll has reported as final,
and gives up when the time is over; it panics if the end of the time is not a `u64`.

The outcomes determine the wait: poll `i` is repeated if it `GoesOn`, its request is made at
`requestedAt i`, and the loop is in `stateAt i` when it gets there. A wait over some polls goes
through these states and ends in one of the ways of `EndsAt` (`awaitLoop_cases`).
-/

namespace Client.Proof

open EState

/-- A poll with this outcome is repeated while there is time. -/
def repeats : Except CliError RpcResponse → Bool
  | .ok (.transactionInfo txInfo) => !isFinal txInfo.status
  | .ok _ => false
  | .error _ => true

theorem not_final_of_repeats {txInfo : CliTransactionInfo}
    (h : repeats (.ok (.transactionInfo txInfo)) = true) : ¬ isFinal txInfo.status = true := by
  simpa [repeats] using h

theorem final_of_not_repeats {txInfo : CliTransactionInfo}
    (h : repeats (.ok (.transactionInfo txInfo)) = false) : isFinal txInfo.status = true := by
  simpa [repeats] using h

section
variable (C : Call)

/-- The time from the request of a poll that is repeated until the timeout check. -/
def gap (i : Nat) : Nat :=
  C.latency i + match C.poll i with
    | .ok _ => C.retryDelay + C.oversleep i
    | .error _ => 0

/-- When the request of poll `i` is made, if it is. -/
def requestedAt : Nat → Nat
  | 0 => C.start
  | i + 1 => requestedAt i + gap C i

/-- After poll `i` comes the next one: it is to be repeated, and there is time. -/
def GoesOn (i : Nat) : Prop :=
  repeats (C.poll i) = true ∧ C.deadlineSecs < 2 ^ 64 ∧
    asSecs (C.clock (requestedAt C (i + 1))) ≤ C.deadlineSecs

def Reached (i : Nat) : Prop := ∀ j < i, C.newPoll j = .ok () ∧ GoesOn C j

def Requested (i : Nat) : Prop := Reached C i ∧ C.newPoll i = .ok ()

def stateAt (i : Nat) : Wait where
  now := requestedAt C i
  requests := (List.range i).map (requestedAt C)

def answeredAt (i : Nat) : Wait where
  now := requestedAt C i + C.latency i
  requests := (List.range (i + 1)).map (requestedAt C)

/-- How a wait ends at poll `i`. -/
inductive EndsAt (i : Nat) : EStateM.Result Stop Wait CliTransactionInfo → Prop
  | notMade (e : CliError) (hnew : C.newPoll i = .error e) :
    EndsAt i (.error (.failed e) (stateAt C i))
  | final (txInfo : CliTransactionInfo) (hnew : C.newPoll i = .ok ())
    (hpoll : C.poll i = .ok (.transactionInfo txInfo)) (hfinal : isFinal txInfo.status = true) :
    EndsAt i (.ok txInfo (answeredAt C i))
  | unexpected (response : RpcResponse) (hnew : C.newPoll i = .ok ())
    (hpoll : C.poll i = .ok response) (hother : ∀ txInfo, response ≠ .transactionInfo txInfo) :
    EndsAt i (.error (.failed (.unexpectedResponse (C.debugTransactionInfo C.txHash) response))
      (answeredAt C i))
  | overflow (hnew : C.newPoll i = .ok ()) (hrep : repeats (C.poll i) = true)
    (hu64 : 2 ^ 64 ≤ C.deadlineSecs) : EndsAt i (.error .overflow (stateAt C (i + 1)))
  | timeout (hnew : C.newPoll i = .ok ()) (hrep : repeats (C.poll i) = true)
    (hover : C.deadlineSecs < asSecs (C.clock (requestedAt C (i + 1)))) :
    EndsAt i (.error (.failed (notFinalized C)) (stateAt C (i + 1)))

end

section
variable {C : Call} {i n : Nat}

/-! ## One poll -/

theorem requestedAt_succ : requestedAt C (i + 1) = requestedAt C i + gap C i := rfl

theorem gap_of_ok {response : RpcResponse} (h : C.poll i = .ok response) :
    gap C i = C.latency i + (C.retryDelay + C.oversleep i) := by
  rw [gap, h]

theorem gap_of_error {e : CliError} (h : C.poll i = .error e) : gap C i = C.latency i := by
  rw [gap, h]
  rfl

theorem request_stateAt : request (stateAt C i) =
    .ok () ⟨requestedAt C i, (List.range (i + 1)).map (requestedAt C)⟩ := by
  rw [List.range_succ, List.map_append]
  rfl

theorem pollStatus_answered (hnew : C.newPoll i = .ok ()) :
    pollStatus C i (stateAt C i) = handleOutcome C i (C.poll i) (answeredAt C i) := by
  unfold pollStatus
  rw [hnew, show lift (.ok ()) = (pure () : Timed Unit) from rfl, pure_bind, bind_ok request_stateAt]
  rfl

theorem pollStatus_repeats (hnew : C.newPoll i = .ok ()) (hrep : repeats (C.poll i) = true) :
    pollStatus C i (stateAt C i) = .ok none (stateAt C (i + 1)) := by
  rw [pollStatus_answered hnew, stateAt, requestedAt_succ]
  cases hpoll : C.poll i with
  | error e =>
    rw [gap_of_error hpoll]
    rfl
  | ok response =>
    rw [gap_of_ok hpoll]
    rw [hpoll] at hrep
    cases response with
    | transactionInfo txInfo =>
      dsimp only [handleOutcome]
      rw [if_neg (not_final_of_repeats hrep), ← Nat.add_assoc]
      rfl
    | sendTransaction hash expiration => cases hrep
    | unexpected encoded => cases hrep

theorem checkTimeout_overflow (s : Wait) (h : 2 ^ 64 ≤ C.deadlineSecs) :
    checkTimeout C s = .error .overflow s := by
  rw [checkTimeout, get_bind, if_pos h]
  rfl

theorem checkTimeout_past {s : Wait} (h : C.deadlineSecs < 2 ^ 64)
    (hpast : C.deadlineSecs < asSecs (C.clock s.now)) :
    checkTimeout C s = .error (.failed (notFinalized C)) s := by
  rw [checkTimeout, get_bind, if_neg (Nat.not_le.2 h), if_pos hpast]
  rfl

theorem checkTimeout_ok {s : Wait} (h : C.deadlineSecs < 2 ^ 64)
    (htime : asSecs (C.clock s.now) ≤ C.deadlineSecs) : checkTimeout C s = .ok () s := by
  rw [checkTimeout, get_bind, if_neg (Nat.not_le.2 h), if_neg (Nat.not_lt.2 htime)]
  rfl

theorem awaitLoop_succ_of_none {s s' : Wait} (h : pollStatus C i s = .ok none s') :
    awaitLoop C (n + 1) i s = (checkTimeout C >>= fun _ => awaitLoop C n (i + 1)) s' := by
  rw [awaitLoop, bind_ok h]

theorem awaitLoop_of_goesOn (hnew : C.newPoll i = .ok ()) (h : GoesOn C i) :
    awaitLoop C (n + 1) i (stateAt C i) = awaitLoop C n (i + 1) (stateAt C (i + 1)) := by
  obtain ⟨hrep, hu64, htime⟩ := h
  rw [awaitLoop_succ_of_none (pollStatus_repeats hnew hrep), bind_ok (checkTimeout_ok hu64 htime)]

theorem awaitLoop_endsAt (h : ¬ (C.newPoll i = .ok () ∧ GoesOn C i)) :
    EndsAt C i (awaitLoop C (n + 1) i (stateAt C i)) := by
  cases hnew : C.newPoll i with
  | error e =>
    rw [awaitLoop, pollStatus, hnew]
    exact .notMade e hnew
  | ok u =>
    cases hrep : repeats (C.poll i) with
    | false =>
      have hanswered : pollStatus C i (stateAt C i) = _ := pollStatus_answered hnew
      cases hpoll : C.poll i with
      | error e =>
        rw [hpoll] at hrep
        cases hrep
      | ok response =>
        rw [hpoll] at hrep hanswered
        cases response with
        | transactionInfo txInfo =>
          have hfinal := final_of_not_repeats hrep
          dsimp only [handleOutcome] at hanswered
          rw [if_pos hfinal] at hanswered
          rw [awaitLoop, bind_ok hanswered]
          exact .final txInfo hnew hpoll hfinal
        | sendTransaction hash expiration =>
          rw [awaitLoop, bind_error hanswered]
          exact .unexpected _ hnew hpoll fun _ h => by cases h
        | unexpected encoded =>
          rw [awaitLoop, bind_error hanswered]
          exact .unexpected _ hnew hpoll fun _ h => by cases h
    | true =>
      rw [awaitLoop_succ_of_none (pollStatus_repeats hnew hrep)]
      by_cases hu64 : C.deadlineSecs < 2 ^ 64
      · have hpast : C.deadlineSecs < asSecs (C.clock (requestedAt C (i + 1))) := by
          apply Nat.lt_of_not_le
          intro htime
          exact h ⟨hnew, hrep, hu64, htime⟩
        rw [bind_error (checkTimeout_past hu64 hpast)]
        exact .timeout hnew hrep hpast
      · rw [bind_error (checkTimeout_overflow _ (Nat.le_of_not_lt hu64))]
        exact .overflow hnew hrep (Nat.le_of_not_lt hu64)

/-! ## The wait -/

theorem reached_zero : Reached C 0 := fun j hj => absurd hj (Nat.not_lt_zero j)

theorem Reached.succ (h : Reached C i) (hi : C.newPoll i = .ok () ∧ GoesOn C i) :
    Reached C (i + 1) := by
  intro j hj
  rcases Nat.lt_succ_iff_lt_or_eq.1 hj with hlt | rfl
  · exact h j hlt
  · exact hi

/-- **A wait over some polls**: either all of them are repeated, or it ends at one. -/
theorem awaitLoop_cases (hi : Reached C i) :
    (Reached C (i + n) ∧ awaitLoop C n i (stateAt C i) = .error .waiting (stateAt C (i + n))) ∨
    ∃ k < i + n, Reached C k ∧ ¬ (C.newPoll k = .ok () ∧ GoesOn C k) ∧
      EndsAt C k (awaitLoop C n i (stateAt C i)) := by
  induction n generalizing i with
  | zero => exact .inl ⟨hi, rfl⟩
  | succ n ih =>
    by_cases h : C.newPoll i = .ok () ∧ GoesOn C i
    · rw [awaitLoop_of_goesOn h.1 h.2, show i + (n + 1) = i + 1 + n by omega]
      exact ih (hi.succ h)
    · exact .inr ⟨i, by omega, hi, h, awaitLoop_endsAt h⟩

theorem awaitFinalized_cases (C : Call) (n : Nat) :
    (Reached C n ∧ awaitFinalized C n ⟨C.start, []⟩ = .error .waiting (stateAt C n)) ∨
    ∃ k < n, Reached C k ∧ ¬ (C.newPoll k = .ok () ∧ GoesOn C k) ∧
      EndsAt C k (awaitFinalized C n ⟨C.start, []⟩) := by
  have hcases := @awaitLoop_cases C 0 n reached_zero
  rw [Nat.zero_add] at hcases
  exact hcases

theorem Reached.le_of_not {k i : Nat} (h : Reached C i)
    (hk : ¬ (C.newPoll k = .ok () ∧ GoesOn C k)) : i ≤ k := by
  apply Nat.le_of_not_lt
  intro hlt
  exact hk (h k hlt)

/-- **The wait returns** what the first poll that is not repeated has found, if this is final. -/
theorem awaitFinalized_ok_iff {txInfo : CliTransactionInfo} {w : Wait} :
    awaitFinalized C n ⟨C.start, []⟩ = .ok txInfo w ↔
      ∃ k < n, Requested C k ∧ C.poll k = .ok (.transactionInfo txInfo) ∧
        isFinal txInfo.status = true ∧ w = answeredAt C k := by
  constructor
  · intro hok
    rcases awaitFinalized_cases C n with ⟨-, hrun⟩ | ⟨k, hk, hreached, -, hrun⟩
    · rw [hok] at hrun
      cases hrun
    · rw [hok] at hrun
      cases hrun with
      | final _ hnew hpoll hfinal => exact ⟨k, hk, ⟨hreached, hnew⟩, hpoll, hfinal, rfl⟩
  · rintro ⟨k, hk, ⟨hreached, hnew⟩, hpoll, hfinal, rfl⟩
    have hstop : ¬ repeats (C.poll k) = true := by
      rw [hpoll]
      exact fun h => not_final_of_repeats h hfinal
    have hend : ¬ (C.newPoll k = .ok () ∧ GoesOn C k) := fun h => hstop h.2.1
    rcases awaitFinalized_cases C n with ⟨hn, -⟩ | ⟨k', -, hreached', hend', hrun⟩
    · exact absurd (hn.le_of_not hend) (Nat.not_le.2 hk)
    · have hk' : k' = k := Nat.le_antisymm (hreached'.le_of_not hend) (hreached.le_of_not hend')
      subst hk'
      generalize awaitFinalized C n ⟨C.start, []⟩ = result at hrun
      cases hrun with
      | notMade e hnew' => rw [hnew] at hnew'; cases hnew'
      | final txInfo' _ hpoll' _ => rw [hpoll] at hpoll'; cases hpoll'; rfl
      | unexpected response _ hpoll' hother =>
        rw [hpoll] at hpoll'
        cases hpoll'
        exact absurd rfl (hother txInfo)
      | overflow _ hrep _ => exact absurd hrep hstop
      | timeout _ hrep _ => exact absurd hrep hstop

/-! ## The requests -/

/-- The requests of a wait over `n` polls are those of the first `k`, and no more are made. -/
def Made (C : Call) (n k : Nat) (w : Wait) : Prop :=
  (∀ i < k, Requested C i) ∧
  (∀ i < n, Requested C i → i < k) ∧
  w.requests = (List.range k).map (requestedAt C) ∧
  ∀ i < k, requestedAt C i ≤ w.now

theorem requestedAt_mono {i j : Nat} (h : i ≤ j) : requestedAt C i ≤ requestedAt C j := by
  induction h with
  | refl => exact Nat.le_refl _
  | step _ ih => exact Nat.le_trans ih (Nat.le_add_right _ _)

theorem Reached.requested {k i : Nat} (h : Reached C k) (hi : i < k) : Requested C i :=
  ⟨fun j hj => h j (Nat.lt_trans hj hi), (h i hi).1⟩

theorem Requested.le_of_not {k i : Nat} (h : Requested C i)
    (hk : ¬ (C.newPoll k = .ok () ∧ GoesOn C k)) : i ≤ k := h.1.le_of_not hk

theorem made_stateAt (h : Reached C n) : Made C n n (stateAt C n) :=
  ⟨fun _ hi => h.requested hi, fun _ hi _ => hi, rfl, fun _ hi => requestedAt_mono (Nat.le_of_lt hi)⟩

theorem made_of_end {k : Nat} {w : Wait} (hk : Reached C k)
    (hend : ¬ (C.newPoll k = .ok () ∧ GoesOn C k)) (hnew : C.newPoll k = .ok ())
    (hw : w.requests = (List.range (k + 1)).map (requestedAt C))
    (hnow : requestedAt C k ≤ w.now) : Made C n (k + 1) w := by
  refine ⟨fun i hi => ?_, fun i _ h => Nat.lt_succ_of_le (h.le_of_not hend), hw, fun i hi => ?_⟩
  · rcases Nat.lt_succ_iff_lt_or_eq.1 hi with hlt | rfl
    · exact hk.requested hlt
    · exact ⟨hk, hnew⟩
  · exact Nat.le_trans (requestedAt_mono (Nat.le_of_lt_succ hi)) hnow

theorem exists_made (C : Call) (n : Nat) : ∃ k, Made C n k (C.waited n) := by
  unfold Call.waited
  rcases awaitFinalized_cases C n with ⟨hn, hrun⟩ | ⟨k, -, hk, hend, hrun⟩
  · rw [after_error hrun]
    exact ⟨n, made_stateAt hn⟩
  · generalize hresult : awaitFinalized C n ⟨C.start, []⟩ = result at hrun
    cases hrun with
    | notMade e hnew =>
      rw [after_error hresult]
      refine ⟨k, fun i hi => hk.requested hi, fun i _ h => ?_, rfl,
        fun i hi => requestedAt_mono (Nat.le_of_lt hi)⟩
      apply Nat.lt_of_le_of_ne (h.le_of_not hend)
      rintro rfl
      rw [h.2] at hnew
      cases hnew
    | final txInfo hnew hpoll hfinal =>
      rw [after_ok hresult]
      exact ⟨k + 1, made_of_end hk hend hnew rfl (Nat.le_add_right _ _)⟩
    | unexpected response hnew hpoll hother =>
      rw [after_error hresult]
      exact ⟨k + 1, made_of_end hk hend hnew rfl (Nat.le_add_right _ _)⟩
    | overflow hnew hrep hu64 =>
      rw [after_error hresult]
      exact ⟨k + 1, made_of_end hk hend hnew rfl (requestedAt_mono (Nat.le_succ k))⟩
    | timeout hnew hrep hover =>
      rw [after_error hresult]
      exact ⟨k + 1, made_of_end hk hend hnew rfl (requestedAt_mono (Nat.le_succ k))⟩

/-! ## The pace -/

/-- A poll that fails and is followed by another one takes the delay by itself. -/
def FailuresSlow (C : Call) : Prop :=
  ∀ i, Requested C (i + 1) → (∃ e, C.poll i = .error e) → C.retryDelay ≤ C.latency i

theorem requestedAt_add_le (h : FailuresSlow C) (hi : Requested C (i + 1)) :
    requestedAt C i + C.retryDelay ≤ requestedAt C (i + 1) := by
  rw [requestedAt_succ]
  cases hpoll : C.poll i with
  | error e =>
    have hslow := h i hi ⟨e, hpoll⟩
    rw [gap_of_error hpoll]
    omega
  | ok response =>
    rw [gap_of_ok hpoll]
    omega

theorem start_add_le (h : FailuresSlow C) (hi : Requested C i) :
    C.start + i * C.retryDelay ≤ requestedAt C i := by
  induction i with
  | zero => rw [Nat.zero_mul]; exact Nat.le_refl _
  | succ i ih =>
    have hbefore := ih (hi.1.requested (Nat.lt_succ_self i))
    have hstep := requestedAt_add_le h hi
    rw [Nat.succ_mul]
    omega

theorem isChain_requestedAt_iff {k : Nat} :
    ((List.range k).map (requestedAt C)).IsChain (fun t t' => t + C.retryDelay ≤ t') ↔
      ∀ i, i + 1 < k → requestedAt C i + C.retryDelay ≤ requestedAt C (i + 1) := by
  rw [List.isChain_map, List.isChain_range]
  constructor
  · intro h i hi
    exact h i (by omega)
  · intro h i hi
    exact h i (by omega)

/-- A wait over `n` polls as it should be. -/
structure WellPaced (C : Call) (n : Nat) : Prop where
  /-- Consecutive requests are the delay apart. -/
  apart : (C.waited n).requests.IsChain fun t t' => t + C.retryDelay ≤ t'
  /-- There are as many as the delay fits into the waiting time, and one. -/
  few : 0 < C.retryDelay →
    (C.waited n).requests.length ≤ ((C.waited n).now - C.start) / C.retryDelay + 1
  /-- What it returns is what a poll has reported as final. -/
  answered : ∀ txInfo, C.result n = .ok txInfo →
    ∃ i, Requested C i ∧ C.poll i = .ok (.transactionInfo txInfo) ∧
      (txInfo.status = .success ∨ txInfo.status = .fail ∨ txInfo.status = .invalid)
  /-- Unless a poll cannot be made or has a response of another kind, it fails only when the
  expiration is past by the margin. -/
  patient : ∀ e, C.result n = .error (.failed e) →
    (∃ i, C.newPoll i = .error e) ∨
    (∃ i response, C.poll i = .ok response ∧ ∀ txInfo, response ≠ .transactionInfo txInfo) ∨
    C.txExpirationTimestampSecs + txFinalizationMarginSecs < asSecs (C.clock (C.waited n).now)
  /-- It does not end in a panic. -/
  total : C.result n ≠ .error .overflow

theorem answered_by_poll {txInfo : CliTransactionInfo} (h : C.result n = .ok txInfo) :
    ∃ i, Requested C i ∧ C.poll i = .ok (.transactionInfo txInfo) ∧
      (txInfo.status = .success ∨ txInfo.status = .fail ∨ txInfo.status = .invalid) := by
  cases hrun : awaitFinalized C n ⟨C.start, []⟩ with
  | error e w =>
    rw [Call.result, outcome_error hrun] at h
    cases h
  | ok txInfo' w =>
    rw [Call.result, outcome_ok hrun] at h
    cases h
    obtain ⟨k, -, hk, hpoll, hfinal, -⟩ := awaitFinalized_ok_iff.1 hrun
    refine ⟨k, hk, hpoll, ?_⟩
    cases hstatus : txInfo.status <;> simp [hstatus, isFinal] at hfinal ⊢

theorem failed_in_time {e : CliError} (h : C.result n = .error (.failed e)) :
    (∃ i, C.newPoll i = .error e) ∨
    (∃ i response, C.poll i = .ok response ∧ ∀ txInfo, response ≠ .transactionInfo txInfo) ∨
    C.txExpirationTimestampSecs + txFinalizationMarginSecs < asSecs (C.clock (C.waited n).now) := by
  unfold Call.result at h
  unfold Call.waited
  rcases awaitFinalized_cases C n with ⟨-, hrun⟩ | ⟨k, -, hk, -, hrun⟩
  · rw [outcome_error hrun] at h
    cases h
  · generalize hresult : awaitFinalized C n ⟨C.start, []⟩ = result at hrun
    cases hrun with
    | notMade e' hnew =>
      rw [outcome_error hresult] at h
      cases h
      exact .inl ⟨k, hnew⟩
    | final txInfo hnew hpoll hfinal =>
      rw [outcome_ok hresult] at h
      cases h
    | unexpected response hnew hpoll hother => exact .inr (.inl ⟨k, response, hpoll, hother⟩)
    | overflow hnew hrep hu64 =>
      rw [outcome_error hresult] at h
      cases h
    | timeout hnew hrep hover =>
      rw [after_error hresult]
      exact .inr (.inr hover)

/-- The end of the time is a `u64`, unless the first poll is the last. -/
def DeadlineFits (C : Call) : Prop :=
  C.newPoll 0 = .ok () → repeats (C.poll 0) = true → C.deadlineSecs < 2 ^ 64

theorem overflow_iff : (∃ n, C.result n = .error .overflow) ↔ ¬ DeadlineFits C := by
  constructor
  · rintro ⟨n, h⟩ hfits
    unfold Call.result at h
    rcases awaitFinalized_cases C n with ⟨-, hrun⟩ | ⟨k, -, hk, -, hrun⟩
    · rw [outcome_error hrun] at h
      cases h
    · generalize hresult : awaitFinalized C n ⟨C.start, []⟩ = result at hrun
      cases hrun with
      | overflow hnew hrep hu64 =>
        -- the first poll has made the same sum
        rcases Nat.eq_zero_or_pos k with rfl | hpos
        · exact absurd (hfits hnew hrep) (Nat.not_lt.2 hu64)
        · exact absurd (hk 0 hpos).2.2.1 (Nat.not_lt.2 hu64)
      | final txInfo hnew hpoll hfinal => rw [outcome_ok hresult] at h; cases h
      | _ => rw [outcome_error hresult] at h; cases h
  · intro h
    unfold DeadlineFits at h
    push Not at h
    obtain ⟨hnew, hrep, hu64⟩ := h
    refine ⟨1, ?_⟩
    have hloop : awaitLoop C 1 0 (stateAt C 0) = .error .overflow (stateAt C 1) := by
      rw [awaitLoop_succ_of_none (pollStatus_repeats hnew hrep),
        bind_error (checkTimeout_overflow _ hu64)]
    exact outcome_error hloop

/-- **The wait is paced if failing polls are**: every wait is as it should be exactly if no poll that
fails and is repeated is over before the delay, and the end of the time is a `u64`. -/
theorem requests_paced_iff (C : Call) : (∀ n, WellPaced C n) ↔ FailuresSlow C ∧ DeadlineFits C := by
  constructor
  · intro h
    constructor
    · intro i hi hfail
      -- the wait over the polls up to the one after `i` has both requests
      obtain ⟨k, -, hmade, hrequests, -⟩ := exists_made C (i + 2)
      have hchain := (h (i + 2)).apart
      rw [hrequests, isChain_requestedAt_iff] at hchain
      have hapart := hchain i (hmade (i + 1) (Nat.lt_succ_self _) hi)
      obtain ⟨e, hpoll⟩ := hfail
      rw [requestedAt_succ, gap_of_error hpoll] at hapart
      omega
    · by_contra hfits
      obtain ⟨n, hover⟩ := overflow_iff.2 hfits
      exact (h n).total hover
  · rintro ⟨h, hfits⟩ n
    obtain ⟨k, hrequested, -, hrequests, hnow⟩ := exists_made C n
    refine ⟨?_, fun hpos => ?_, fun _ => answered_by_poll, fun _ => failed_in_time,
      fun hover => overflow_iff.1 ⟨n, hover⟩ hfits⟩
    · rw [hrequests, isChain_requestedAt_iff]
      intro i hi
      exact requestedAt_add_le h (hrequested (i + 1) hi)
    · rw [hrequests, List.length_map, List.length_range]
      cases k with
      | zero => exact Nat.zero_le _
      | succ k =>
        have hlast := start_add_le h (hrequested k (Nat.lt_succ_self k))
        have hend := hnow k (Nat.lt_succ_self k)
        apply Nat.succ_le_succ
        rw [Nat.le_div_iff_mul_le hpos]
        omega

/-- A server that refuses every request at once. The delay is one second. -/
def refused : Call where
  newPoll _ := .ok ()
  poll _ := .error (.other "connection refused")
  latency _ := 0
  oversleep _ := 0
  clock t := t
  showHash _ := "hash"
  debugTransactionInfo _ := "TransactionInfo(hash)"
  txHash := 0
  txExpirationTimestampSecs := 100
  retryDelay := 1000000000
  start := 0

/-- Three requests are made in the same instant. -/
theorem requests_not_paced : (refused.waited 3).requests = [0, 0, 0] ∧ ¬ WellPaced refused 3 := by
  have hrun : (refused.waited 3).requests = [0, 0, 0] := by decide +kernel
  refine ⟨hrun, fun h => ?_⟩
  have hchain := h.apart
  rw [hrun] at hchain
  exact absurd hchain (by decide)

/-! ## The end of the wait -/

/-- A paced wait ends: on a clock that runs with the time, the polls between now and the end of the
margin are enough. -/
theorem awaitFinalized_ends (h : FailuresSlow C)
    (hclock : ∀ t, C.start ≤ t → C.clock C.start + (t - C.start) ≤ C.clock t)
    (hn : (C.deadlineSecs + 1) * 1000000000 ≤ C.clock C.start + n * C.retryDelay) :
    C.result (n + 1) ≠ .error .waiting := by
  intro hwaiting
  unfold Call.result at hwaiting
  rcases awaitFinalized_cases C (n + 1) with ⟨hreached, -⟩ | ⟨k, -, -, -, hrun⟩
  · obtain ⟨-, -, -, htime⟩ := hreached n (Nat.lt_succ_self n)
    have hlast := start_add_le h (hreached.requested (Nat.lt_succ_self n))
    have hnext : requestedAt C n ≤ requestedAt C (n + 1) := requestedAt_mono (Nat.le_succ n)
    have hpast := hclock (requestedAt C (n + 1)) (by omega)
    rw [asSecs] at htime
    omega
  · generalize hresult : awaitFinalized C (n + 1) ⟨C.start, []⟩ = result at hrun
    cases hrun with
    | final txInfo hnew hpoll hfinal =>
      rw [outcome_ok hresult] at hwaiting
      cases hwaiting
    | _ =>
      rw [outcome_error hresult] at hwaiting
      cases hwaiting

end

end Client.Proof
