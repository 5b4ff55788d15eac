import SupraL1.Rest.Delegates

/-!
# Exclusive use of the minters

A delegate is busy while one process holds it: the call that waits for its dispatch, or that is about
to free it after a failure, and then the waiter (`holds`). Each step passes the hold on, takes a free
delegate or gives one back (`step_spec`), so a busy delegate is held by one process and a free one by
none. The waiter that gets its delegate free finds it busy, as it holds it itself.
-/

namespace Rest.Delegates

open Consensus (Hash)
open Move Pool

/-! ## Holds -/

/-- The funding attempts and waiters that use delegate `j`. -/
def holds (j : Nat) : Process → Bool
  | .dispatching _ i _ | .releasing _ i _ | .waiting i _ _ _ | .gettingFree i _ => decide (i = j)
  | .assessing .. | .requesting .. | .processing .. | .returned .. | .ended | .panicked _ => false

def isBusy (s : List DelegateState) (j : Nat) : Bool :=
  match s[j]? with
  | some (some (.busy ..)) => true
  | some (some (.free _)) | some none | none => false

/-- The hashes that a call has dispatched. -/
def Process.dispatched : Process → List Hash
  | .assessing call _ _ | .requesting call _ | .dispatching call _ _ | .releasing call _ _
  | .processing call _ _ _ | .returned call _ => call.dispatched
  | .waiting .. | .gettingFree .. | .ended | .panicked _ => []

/-- A process uses the minter of the delegate that it holds, and its call has dispatched what it is
going to return. -/
def Sound (minters : List MinterAccount) : Process → Prop
  | .assessing call _ _ | .requesting call _ => call.dispatched = []
  | .dispatching call i minter | .releasing call i minter =>
    call.dispatched = [] ∧ minters[i]? = some minter
  | .processing call txHash _ _ => call.dispatched = [txHash]
  | .returned call result => call.dispatched = result.toList
  | .waiting i minter _ _ | .gettingFree i minter => minters[i]? = some minter
  | .ended => True
  | .panicked _ => False

theorem Sound.length_dispatched_le {minters : List MinterAccount} {p : Process} (h : Sound minters p) :
    p.dispatched.length ≤ 1 := by
  have hcall : ∀ call : Call, call.dispatched = [] → call.dispatched.length ≤ 1 := by
    intro call hnil
    rw [hnil]
    exact Nat.zero_le 1
  cases p with
  | assessing call i freeDelegates => exact hcall call h
  | requesting call i => exact hcall call h
  | dispatching call i minter => exact hcall call h.1
  | releasing call i minter => exact hcall call h.1
  | processing call txHash i freeDelegates => exact Nat.le_of_eq (congrArg List.length h)
  | returned call result =>
    have hlen : call.dispatched.length = result.toList.length := congrArg List.length h
    rw [Process.dispatched, hlen]
    cases result <;> simp
  | waiting i minter account txHash => exact Nat.zero_le 1
  | gettingFree i minter => exact Nat.zero_le 1
  | ended => exact Nat.zero_le 1
  | panicked message => exact Nat.zero_le 1

/-- Every state holds a delegate, with its minter. -/
def Filled (minters : List MinterAccount) (s : List DelegateState) : Prop :=
  s.map (·.map Delegate.minter) = minters.map some

variable {minters : List MinterAccount} {s s' : List DelegateState} {p p' : Process}
  {forked : List Process} {input : Input} {i j : Nat}

theorem Filled.get (h : Filled minters s) {state : DelegateState} (hi : s[i]? = some state) :
    ∃ d, state = some d ∧ minters[i]? = some d.minter := by
  have heq := congrArg (·[i]?) h
  simp only [List.getElem?_map, hi, Option.map_some] at heq
  cases hm : minters[i]? with
  | none =>
    rw [hm] at heq
    cases heq
  | some m =>
    rw [hm] at heq
    cases state with
    | none => cases heq
    | some d =>
      cases heq
      exact ⟨d, rfl, rfl⟩

theorem Filled.of_minter (h : Filled minters s) {m : MinterAccount} (hm : minters[i]? = some m) :
    ∃ d, s[i]? = some (some d) ∧ d.minter = m := by
  have hlen : s.length = minters.length := by simpa using congrArg List.length h
  have hlt : i < s.length := by
    rw [hlen]
    exact (List.getElem?_eq_some_iff.1 hm).1
  obtain ⟨d, hd, hminter⟩ := h.get (List.getElem?_eq_getElem hlt)
  rw [hm] at hminter
  cases hminter
  exact ⟨d, by rw [List.getElem?_eq_getElem hlt, hd], rfl⟩

theorem Filled.set (h : Filled minters s) {d : Delegate} (hd : minters[i]? = some d.minter) :
    Filled minters (s.set i (some d)) := by
  unfold Filled at h ⊢
  rw [List.map_set, h]
  refine List.ext_getElem? fun k => ?_
  rw [List.getElem?_set]
  split
  · rename_i hik
    subst hik
    have hlt := (List.getElem?_eq_some_iff.1 hd).1
    rw [List.getElem?_map, hd, if_pos (by simpa using hlt)]
    rfl
  · rfl

theorem exists_of_isBusy (h : isBusy s i = true) : ∃ m target, s[i]? = some (some (.busy m target)) := by
  unfold isBusy at h
  split at h
  · rename_i m target hi
    exact ⟨m, target, hi⟩
  · cases h
  · cases h
  · cases h

theorem isBusy_take {m : MinterAccount} {target : AccountAddress}
    (hi : s[i]? = some (some (.free m))) (k : Nat) :
    (if i = k then 1 else 0) + (isBusy s k).toNat =
      (isBusy (s.set i (some (.busy m target))) k).toNat := by
  have hlt : i < s.length := (List.getElem?_eq_some_iff.1 hi).1
  by_cases hik : i = k
  · subst hik
    have hold : isBusy s i = false := by rw [isBusy, hi]
    have hnew : isBusy (s.set i (some (.busy m target))) i = true := by
      rw [isBusy, List.getElem?_set_self hlt]
    simp [hold, hnew]
  · simp [isBusy, hik]

theorem isBusy_giveBack {m : MinterAccount} (hi : isBusy s i = true) (k : Nat) :
    (isBusy s k).toNat =
      (if i = k then 1 else 0) + (isBusy (s.set i (some (.free m))) k).toNat := by
  obtain ⟨m', target, hget⟩ := exists_of_isBusy hi
  have hlt : i < s.length := (List.getElem?_eq_some_iff.1 hget).1
  by_cases hik : i = k
  · subst hik
    have hnew : isBusy (s.set i (some (.free m))) i = false := by
      rw [isBusy, List.getElem?_set_self hlt]
    simp [hi, hnew]
  · simp [isBusy, hik]

/-! ## A step -/

theorem countFree_ok (h : Filled minters s) {state : DelegateState} (hi : s[i]? = some state)
    (freeDelegates : Nat) : ∃ n, countFree freeDelegates state = .ok n := by
  obtain ⟨d, rfl, -⟩ := h.get hi
  exact ⟨_, rfl⟩

/-- **What a step can do**, when the delegate that its process holds is busy: it passes the hold on,
takes a free delegate or gives one back, and the states stay filled. -/
theorem step_spec (hfilled : Filled minters s) (hsound : Sound minters p)
    (hbusy : ∀ k, holds k p = true → isBusy s k = true) (hwake : input.wake ≠ .shutdown)
    (h : step input s p = some (s', p', forked)) :
    Filled minters s' ∧ (∀ q ∈ p' :: forked, Sound minters q) ∧
      ∀ k, (p' :: forked).countP (holds k) + (isBusy s k).toNat =
        [p].countP (holds k) + (isBusy s' k).toNat := by
  cases p with
  | assessing call i freeDelegates =>
    simp only [step] at h
    split at h
    · rename_i state hi
      obtain ⟨n, hn⟩ := countFree_ok hfilled hi freeDelegates
      rw [hn] at h
      cases h
      exact ⟨hfilled, by simpa [Sound] using hsound, fun k => rfl⟩
    · split at h
      · cases h
        exact ⟨hfilled, by simpa [Sound] using hsound, fun k => rfl⟩
      · cases h
        exact ⟨hfilled, by simpa [Sound] using hsound, fun k => rfl⟩
  | requesting call i =>
    simp only [step] at h
    split at h
    · cases h
      exact ⟨hfilled, by simpa [Sound] using hsound, fun k => rfl⟩
    · rename_i hi
      obtain ⟨d, hd, -⟩ := hfilled.get hi
      cases hd
    · cases h
      exact ⟨hfilled, by simpa [Sound] using hsound, fun k => rfl⟩
    · rename_i minter hi
      cases h
      obtain ⟨d, hd, hminter⟩ := hfilled.get hi
      cases hd
      refine ⟨hfilled.set hminter, ?_, fun k => ?_⟩
      · simpa [Sound] using ⟨hsound, hminter⟩
      · simpa [holds] using isBusy_take hi k
  | dispatching call i minter =>
    simp only [step] at h
    split at h
    · cases h
      exact ⟨hfilled, by simpa [Sound] using hsound, fun k => rfl⟩
    · cases h
      refine ⟨hfilled, ?_, fun k => rfl⟩
      simpa [Sound] using hsound
  | releasing call i minter =>
    cases h
    obtain ⟨hcall, hminter⟩ := hsound
    refine ⟨hfilled.set hminter, by simpa [Sound] using hcall, fun k => ?_⟩
    simpa [holds] using isBusy_giveBack (hbusy i (by simp [holds])) k
  | processing call txHash i freeDelegates =>
    simp only [step] at h
    split at h
    · rename_i state hi
      obtain ⟨n, hn⟩ := countFree_ok hfilled hi freeDelegates
      rw [hn] at h
      cases h
      exact ⟨hfilled, by simpa [Sound] using hsound, fun k => rfl⟩
    · cases h
      exact ⟨hfilled, by simpa [Sound] using hsound, fun k => rfl⟩
  | waiting i minter account txHash =>
    simp only [step] at h
    split at h
    · cases h
      exact ⟨hfilled, by simpa [Sound] using hsound, fun k => rfl⟩
    · rename_i hshutdown
      exact absurd hshutdown hwake
  | gettingFree i minter =>
    -- the delegate is busy, as this process holds it
    have hi := hbusy i (by simp [holds])
    obtain ⟨m, target, hget⟩ := exists_of_isBusy hi
    simp only [step, hget] at h
    cases h
    refine ⟨hfilled.set hsound, by simp [Sound], fun k => ?_⟩
    simpa [holds] using isBusy_giveBack hi k
  | returned call result => cases h
  | ended => cases h
  | panicked message => cases h

/-! ## A run -/

structure Inv (minters : List MinterAccount) (c : Config (List DelegateState) Process) : Prop where
  filled : Filled minters c.shared
  exclusive : Exclusive isBusy holds c
  sound : ∀ p ∈ c.procs, Sound minters p

theorem inv_new (minters : List MinterAccount) : Inv minters (new minters) := by
  refine ⟨?_, fun k => ?_, fun p hp => by cases hp⟩
  · simp only [Filled, Delegates.new, List.map_map]
    rfl
  · simp only [Delegates.new, isBusy, List.getElem?_map]
    cases minters[k]? <;> rfl

/-- No waiter is woken by the shutdown of the node. -/
def KeepsRunning : Act AccountAddress Input → Prop
  | .start _ => True
  | .turn _ input => input.wake ≠ .shutdown

theorem inv_run {acts : List (Act AccountAddress Input)} (hacts : ∀ a ∈ acts, KeepsRunning a) :
    Inv minters (run tryFund (new minters) acts) := by
  refine run_inv (P := fun _ a => KeepsRunning a) ?_ (inv_new minters) ?_
  · intro c a c' h hkeeps hstep
    cases hstep with
    | start account =>
      refine ⟨h.filled, h.exclusive.start fun k => rfl, fun p hp => ?_⟩
      rcases List.mem_append.1 hp with hp | hp
      · exact h.sound p hp
      · rw [List.mem_singleton.1 hp]
        rfl
    | idle => exact h
    | @turn l r forked p p' s input hprocs hstep =>
      have hp : p ∈ c.procs := by simp [hprocs]
      obtain ⟨hfilled, hsound, hcount⟩ := step_spec h.filled (h.sound p hp)
        (fun k hk => h.exclusive.taken_of_holds hp hk) hkeeps hstep
      refine ⟨hfilled, h.exclusive.turn hprocs hcount, fun q hq => ?_⟩
      have hold := h.sound
      simp only [List.mem_append, List.mem_cons] at hq
      rcases hq with hq | hq | hq | hq
      · exact hold q (by simp [hprocs, hq])
      · exact hsound q (by simp [hq])
      · exact hold q (by simp [hprocs, hq])
      · exact hsound q (by simp [hq])
  · intro pre a post heq
    exact hacts a (by simp [heq])

/-- The number of funding attempts and waiters that use the minter of delegate `j`. -/
def users (c : Config (List DelegateState) Process) (j : Nat) : Nat := c.procs.countP (holds j)

/-- **Minters are used exclusively.** In every interleaving of the calls, their dispatches and their
waiters, each state holds its delegate, each minter has at most one user and is free exactly when it
has none, no assertion fails, and a call has dispatched at most one transaction, the one it returns. -/
theorem minters_used_exclusively (minters : List MinterAccount)
    (acts : List (Act AccountAddress Input)) (hacts : ∀ a ∈ acts, KeepsRunning a) :
    let c := run tryFund (new minters) acts
    c.shared.length = minters.length ∧
    (∀ j m, minters[j]? = some m → ∃ d, c.shared[j]? = some (some d) ∧ d.minter = m ∧
      users c j ≤ 1 ∧ (d.isFree = true ↔ users c j = 0)) ∧
    (∀ message, .panicked message ∉ c.procs) ∧
    (∀ p ∈ c.procs, p.dispatched.length ≤ 1) ∧
    ∀ call result, .returned call result ∈ c.procs →
      ∀ txHash, result = some txHash ↔ call.dispatched = [txHash] := by
  intro c
  have hinv : Inv minters c := inv_run hacts
  refine ⟨by simpa using congrArg List.length hinv.filled, fun j m hm => ?_, fun message hp => ?_,
    fun p hp => ?_, fun call result hp txHash => ?_⟩
  · obtain ⟨d, hd, hminter⟩ := hinv.filled.of_minter hm
    have husers : users c j = (isBusy c.shared j).toNat := hinv.exclusive j
    refine ⟨d, hd, hminter, ?_, ?_⟩
    · rw [husers]
      exact Bool.toNat_le _
    · rw [husers, isBusy, hd]
      cases d <;> simp [Delegate.isFree]
  · exact hinv.sound _ hp
  · exact (hinv.sound p hp).length_dispatched_le
  · have hsound : call.dispatched = result.toList := hinv.sound _ hp
    rw [hsound]
    cases result <;> simp

/-- Two calls and one minter: the second call finds it busy and returns without a hash. -/
theorem minters_used_exclusively_two_calls :
    let c := run tryFund (new [10]) (Act.start 1 :: Act.start 2 ::
      [0, 0, 1, 1, 0, 1, 1, 0, 0, 0].map (Act.turn · ⟨.ok 5, .txResult (.ok (.ok 5))⟩))
    c.procs = [.returned ⟨1, [5]⟩ (some 5), .returned ⟨2, []⟩ none, .waiting 0 10 1 5] ∧
      ∃ d, c.shared[0]? = some (some d) ∧ d.minter = 10 ∧ users c 0 ≤ 1 ∧
        (d.isFree = true ↔ users c 0 = 0) := by
  intro c
  have hacts : ∀ a ∈ (Act.start 1 :: Act.start 2 :: [0, 0, 1, 1, 0, 1, 1, 0, 0, 0].map
      (Act.turn · ⟨.ok 5, .txResult (.ok (.ok 5))⟩) : List (Act AccountAddress Input)),
      KeepsRunning a := by
    intro a ha
    rw [List.mem_cons, List.mem_cons, List.mem_map] at ha
    rcases ha with rfl | rfl | ⟨i, -, rfl⟩
    · trivial
    · trivial
    · intro hshutdown
      cases hshutdown
  exact ⟨rfl, (minters_used_exclusively [10] _ hacts).2.1 0 10 rfl⟩

end Rest.Delegates
