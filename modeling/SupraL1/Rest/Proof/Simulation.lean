import Mathlib.Tactic.Common
import SupraL1.Rest.Simulation

/-!
# The gauge of the simulations

The gauge is meant to be the number of calls between their increment and their return. A call whose
task fails returns without the decrement: at any time the gauge is the number of calls in flight
and of tasks that have failed, modulo its width (`gauge_eq`). So it is what it is meant to be along
a run exactly when no task of the run fails and the gauge does not wrap (`gauge_accurate_iff`), and
it refuses every call for good after enough failed tasks (`refused_of_leaked`).
-/

namespace Rest.Simulation.Proof

open Pool

variable {T V O P A : Type} {E : Env T V O P A}

/-! ## The task -/

section
variable (E)

/-- The task of a transaction completes: it has no valid signature, its payload and its output can
be converted, and the task does not panic. -/
structure Completes (input : Input V) (txn : T) : Prop where
  joins : input.joinError = none
  unsigned : E.verifySignature txn = false
  payload : ∃ p, E.tryIntoTransactionPayload input.stateView txn = .ok p
  output : ∃ a, E.convertToApiMoveTransactionOutput input.stateView
    (E.simulateSignedTransaction txn input.stateView) = .ok a

end

theorem blockingTask_of_completes {input : Input V} {txn : T} (h : Completes E input txn) :
    ∃ info, blockingTask E input txn = .ok (.ok info) := by
  obtain ⟨hjoin, hsig, ⟨p, hp⟩, ⟨a, ha⟩⟩ := h
  refine ⟨⟨txn, p, some a⟩, ?_⟩
  simp [blockingTask, hjoin, hsig, moveTransactionInfo, hp, apiMoveTransactionOutput, ha]

theorem completes_of_blockingTask {input : Input V} {txn : T} {info : TransactionInfoV2 T P A}
    (h : blockingTask E input txn = .ok (.ok info)) : Completes E input txn := by
  unfold blockingTask at h
  split at h
  · cases h
  rename_i hjoin
  split at h
  · cases h
  rename_i hsig
  unfold moveTransactionInfo at h
  split at h
  · cases h
  rename_i payload hp
  unfold apiMoveTransactionOutput at h
  dsimp only at h
  split at h
  · cases h
  rename_i output ho
  exact ⟨hjoin, by simpa using hsig, ⟨_, hp⟩, ⟨_, ho⟩⟩

theorem blockingTask_ne_tooMany {input : Input V} {txn : T} {e : ApiServerError}
    (h : blockingTask E input txn = .ok (.error e)) : e ≠ .tooManyConcurrentSimulations := by
  unfold blockingTask at h
  split at h
  · cases h
  split at h
  · cases h; nofun
  unfold moveTransactionInfo at h
  split at h
  · cases h; nofun
  unfold apiMoveTransactionOutput at h
  dsimp only at h
  split at h <;> cases h
  nofun

/-! ## What the gauge counts -/

section
variable {I : Type}

/-- The call is between its increment and its return. -/
def isInFlight : Call T I → Bool
  | .running _ | .simulated _ => true
  | .called _ | .admitted _ | .returned _ => false

/-- The call has returned with the error of its task. -/
def hasLeaked : Call T I → Bool
  | .returned (.error e) => e ≠ .tooManyConcurrentSimulations
  | .returned (.ok _) | .called _ | .admitted _ | .running _ | .simulated _ => false

def inFlight (c : Config UInt16 (Call T I)) : Nat := c.procs.countP isInFlight

def leaked (c : Config UInt16 (Call T I)) : Nat := c.procs.countP hasLeaked

def flying (p : Call T I) : Nat := if isInFlight p then 1 else 0

/-- What a call has added to the gauge. -/
def share (p : Call T I) : Nat := flying p + if hasLeaked p then 1 else 0

theorem inFlight_eq (s s' : UInt16) (l r : List (Call T I)) (p : Call T I) :
    inFlight ⟨s, l ++ p :: r⟩ = inFlight ⟨s', l ++ r⟩ + flying p :=
  countP_split isInFlight l r p

theorem leaked_eq (s s' : UInt16) (l r : List (Call T I)) (p : Call T I) :
    leaked ⟨s, l ++ p :: r⟩ = leaked ⟨s', l ++ r⟩ + if hasLeaked p then 1 else 0 :=
  countP_split hasLeaked l r p

end

/-- **One turn** moves the gauge by what it changes of the call's share. -/
theorem step_gauge {input : Input V} {g g' : UInt16} {p p' : Call T (TransactionInfoV2 T P A)}
    {new : List (Call T (TransactionInfoV2 T P A))} (h : step E input g p = some (g', p', new)) :
    new = [] ∧ ∀ k, g.toNat = (k + share p) % 2 ^ 16 → g'.toNat = (k + share p') % 2 ^ 16 := by
  cases p with
  | called txn =>
    unfold step at h
    dsimp only at h
    split at h <;> cases h <;> exact ⟨rfl, fun k hk => hk⟩
  | admitted txn =>
    cases h
    refine ⟨rfl, fun k hk => ?_⟩
    simp only [share, flying, isInFlight, hasLeaked] at hk ⊢
    rw [UInt16.toNat_add, hk]
    simp
  | running txn =>
    unfold step at h
    dsimp only at h
    split at h
    · cases h
      exact ⟨rfl, fun k hk => by simpa [share, flying, isInFlight, hasLeaked] using hk⟩
    · rename_i e he
      cases h
      refine ⟨rfl, fun k hk => ?_⟩
      simpa [share, flying, isInFlight, hasLeaked, blockingTask_ne_tooMany he] using hk
    · cases h
      exact ⟨rfl, fun k hk => hk⟩
  | simulated info =>
    cases h
    refine ⟨rfl, fun k hk => ?_⟩
    simp only [share, flying, isInFlight, hasLeaked] at hk ⊢
    have hlt : k % 2 ^ 16 < 2 ^ 16 := Nat.mod_lt _ (by decide)
    rw [UInt16.toNat_sub, hk]
    simp
    omega
  | returned r => cases h

theorem total_eq {I : Type} (s s' : UInt16) (l r : List (Call T I)) (p : Call T I) :
    inFlight ⟨s, l ++ p :: r⟩ + leaked ⟨s, l ++ p :: r⟩ =
      inFlight ⟨s', l ++ r⟩ + leaked ⟨s', l ++ r⟩ + share p := by
  rw [inFlight_eq s s', leaked_eq s s', share]
  omega

/-- **The gauge** is the number of calls in flight and of failed tasks. -/
theorem gauge_eq (E : Env T V O P A) (acts : List (Act T (Input V))) :
    let c := run (runMoveTransactionSimulation E) start acts
    c.shared.toNat = (inFlight c + leaked c) % 2 ^ 16 := by
  refine run_inv (P := fun _ _ => True) (I := fun c =>
    c.shared.toNat = (inFlight c + leaked c) % 2 ^ 16) ?_ rfl fun _ _ _ _ => trivial
  intro c a c' hc _ hstep
  cases hstep with
  | start txn =>
    rw [total_eq _ c.shared, List.append_nil]
    exact hc
  | idle => exact hc
  | @turn l r new p p' s input hprocs h =>
    obtain ⟨rfl, hg⟩ := step_gauge h
    obtain ⟨g, procs⟩ := c
    subst hprocs
    rw [total_eq _ g] at hc ⊢
    rw [List.append_nil]
    exact hg _ hc

/-! ## What the gauge is for -/

section
variable (E)

structure Accurate (c : Config UInt16 (Call T (TransactionInfoV2 T P A))) : Prop where
  counts : c.shared.toNat = inFlight c
  idle : inFlight c = 0 → c.shared = 0
  /-- A call is refused only while that many simulations are running. -/
  refuses : ∀ input txn gauge new,
    step E input c.shared (.called txn) =
      some (gauge, .returned (.error .tooManyConcurrentSimulations), new) →
    maxConcurrency.toNat ≤ inFlight c

theorem Accurate.of_counts {c : Config UInt16 (Call T (TransactionInfoV2 T P A))}
    (h : c.shared.toNat = inFlight c) : Accurate E c where
  counts := h
  idle h0 := UInt16.toNat_inj.1 (h.trans h0)
  refuses input txn gauge new hstep := by
    rw [← h]
    unfold step at hstep
    dsimp only at hstep
    split at hstep
    · assumption
    · cases hstep

/-- A turn in which no task fails and the gauge does not wrap, of a call among `n` in flight. -/
def CleanTurn (n : Nat) (input : Input V) : Call T (TransactionInfoV2 T P A) → Prop
  | .admitted _ => n + 1 < 2 ^ 16
  | .running txn => Completes E input txn
  | .called _ | .simulated _ | .returned _ => True

def Clean (c : Config UInt16 (Call T (TransactionInfoV2 T P A))) : Act T (Input V) → Prop
  | .start _ => True
  | .turn i input => ∀ p, c.procs[i]? = some p → CleanTurn E (inFlight c) input p

end

section
variable {input : Input V} {g g' : UInt16} {p p' : Call T (TransactionInfoV2 T P A)}
  {new : List (Call T (TransactionInfoV2 T P A))} {k : Nat}

theorem step_clean (h : step E input g p = some (g', p', new))
    (hclean : CleanTurn E (k + flying p) input p) :
    hasLeaked p' = hasLeaked p ∧ (k + flying p < 2 ^ 16 → k + flying p' < 2 ^ 16) := by
  cases p with
  | called txn =>
    unfold step at h
    dsimp only at h
    split at h <;> cases h <;> exact ⟨rfl, id⟩
  | admitted txn =>
    cases h
    exact ⟨rfl, fun _ => hclean⟩
  | running txn =>
    obtain ⟨info, hinfo⟩ := blockingTask_of_completes hclean
    unfold step at h
    dsimp only at h
    rw [hinfo] at h
    cases h
    exact ⟨rfl, id⟩
  | simulated info =>
    cases h
    exact ⟨rfl, fun hk => Nat.lt_of_le_of_lt (Nat.le_add_right k _) hk⟩
  | returned r => cases h

theorem clean_of_counts (h : step E input g p = some (g', p', new)) (hg : g.toNat = k + flying p)
    (hg' : g'.toNat = k + flying p') : CleanTurn E (k + flying p) input p := by
  cases p with
  | admitted txn =>
    cases h
    have hlt : (g + 1).toNat < 2 ^ 16 := UInt16.toNat_lt _
    rw [hg'] at hlt
    exact hlt
  | running txn =>
    unfold step at h
    dsimp only at h
    split at h
    · cases h
      have : k + 1 = k + 0 := hg.symm.trans hg'
      omega
    · cases h
      have : k + 1 = k + 0 := hg.symm.trans hg'
      omega
    · rename_i hinfo
      exact completes_of_blockingTask hinfo
  | called txn | simulated info | returned r => trivial

end

theorem leaked_eq_zero {acts : List (Act T (Input V))}
    (h : Along (runMoveTransactionSimulation E) (Clean E) start acts) :
    let c := run (runMoveTransactionSimulation E) start acts
    leaked c = 0 ∧ inFlight c < 2 ^ 16 := by
  refine run_inv (P := Clean E) (I := fun c => leaked c = 0 ∧ inFlight c < 2 ^ 16) ?_
    ⟨rfl, Nat.two_pow_pos 16⟩ h
  intro c a c' hc hclean hstep
  cases hstep with
  | start txn =>
    rw [leaked_eq _ c.shared, inFlight_eq _ c.shared, List.append_nil]
    exact hc
  | idle => exact hc
  | @turn l r new p p' s input hprocs h =>
    obtain ⟨rfl, -⟩ := step_gauge h
    obtain ⟨g, procs⟩ := c
    subst hprocs
    have hturn := hclean p (by simp)
    rw [leaked_eq _ g, inFlight_eq _ g] at hc
    rw [inFlight_eq _ g] at hturn
    obtain ⟨hleak, hlt⟩ := step_clean h hturn
    rw [leaked_eq _ g, inFlight_eq _ g, List.append_nil, hleak]
    exact ⟨hc.1, hlt hc.2⟩

theorem returned_of_step_eq_none {input : Input V} {g : UInt16}
    {p : Call T (TransactionInfoV2 T P A)} (h : step E input g p = none) : ∃ r, p = .returned r := by
  unfold step at h
  split at h
  · split at h <;> cases h
  · cases h
  · split at h <;> cases h
  · cases h
  · exact ⟨_, rfl⟩

theorem clean_of_accurate {c : Config UInt16 (Call T (TransactionInfoV2 T P A))}
    {a : Act T (Input V)} (h : Accurate E c)
    (h' : Accurate E (act (runMoveTransactionSimulation E) c a)) : Clean E c a := by
  generalize hc' : act (runMoveTransactionSimulation E) c a = c' at h'
  have hstep : Step (runMoveTransactionSimulation E) c a c' := hc' ▸ act_step a
  cases hstep with
  | start txn => trivial
  | idle hidle =>
    intro p hp
    obtain ⟨r, rfl⟩ := returned_of_step_eq_none (hidle p hp)
    trivial
  | @turn l r new p p' s input hprocs hs =>
    obtain ⟨rfl, -⟩ := step_gauge hs
    obtain ⟨g, procs⟩ := c
    subst hprocs
    intro q hq
    have hpq : p = q := by simpa using hq
    subst hpq
    have hg := h.counts
    have hg' := h'.counts
    rw [inFlight_eq _ g] at hg hg' ⊢
    rw [List.append_nil] at hg'
    exact clean_of_counts hs hg hg'

/-- **The gauge is accurate exactly in the runs without a failed task** (and without a wrap). -/
theorem gauge_accurate_iff (E : Env T V O P A) (acts : List (Act T (Input V))) :
    (∀ pre post, acts = pre ++ post →
      Accurate E (run (runMoveTransactionSimulation E) start pre)) ↔
    Along (runMoveTransactionSimulation E) (Clean E) start acts := by
  constructor
  · intro h pre a post hacts
    refine clean_of_accurate (h pre (a :: post) hacts) ?_
    rw [← run_snoc]
    exact h (pre ++ [a]) post (by rw [hacts]; simp)
  · rintro h pre post rfl
    obtain ⟨hleak, hlt⟩ := leaked_eq_zero h.of_append
    refine .of_counts E ?_
    rw [gauge_eq E pre, hleak, Nat.add_zero, Nat.mod_eq_of_lt hlt]

/-- A crate below in which every signature is valid. -/
def signedEnv : Env Unit Unit Unit Unit Unit where
  verifySignature _ := true
  simulateSignedTransaction _ _ := ()
  tryIntoTransactionPayload _ _ := .ok ()
  convertToApiMoveTransactionOutput _ _ := .ok ()

/-- One call with a signed transaction leaves the gauge at one. -/
theorem signed_transaction_leaks :
    let c := run (runMoveTransactionSimulation signedEnv) start
      [.start (), .turn 0 ⟨(), none⟩, .turn 0 ⟨(), none⟩, .turn 0 ⟨(), none⟩]
    c.shared = 1 ∧ inFlight c = 0 ∧ ¬ Accurate signedEnv c := by
  refine ⟨by decide, by decide, fun h => ?_⟩
  have hcounts := h.counts
  revert hcounts
  decide

/-- After enough failed tasks every call is refused. -/
theorem refused_of_leaked (E : Env T V O P A) (acts : List (Act T (Input V))) (input : Input V)
    (txn : T) :
    let c := run (runMoveTransactionSimulation E) start acts
    maxConcurrency.toNat ≤ leaked c → inFlight c + leaked c < 2 ^ 16 →
    step E input c.shared (.called txn) =
      some (c.shared, .returned (.error .tooManyConcurrentSimulations), []) := by
  intro c hleak hlt
  have hge : maxConcurrency ≤ c.shared := by
    rw [UInt16.le_iff_toNat_le, gauge_eq E acts, Nat.mod_eq_of_lt hlt]
    omega
  unfold step
  dsimp only
  rw [if_pos hge]

end Rest.Simulation.Proof
