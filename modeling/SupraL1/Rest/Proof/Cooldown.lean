import SupraL1.Rest.Proof.Faucet

/-!
# The cooldown of the faucet

Requests are handled one after the other. An accepted request leaves its time in the account's
entry, and until the cache is reset the next one is registered only when the cooldown is over
(`Inv`). The reset at the first registration of a day forgets the times together with the counts, so
the cooldown is kept between requests that are registered on one day (`cooldown_on_one_day`) and not
across a change of the day (`accepted_after_reset`).
-/

namespace Rest.Faucet.Proof

open Move Pool

def isAccepted : Except Failure FaucetStatus → Bool
  | .ok (.accepted _) => true
  | .ok .tryLater | .error _ => false

/-! ## One request -/

section
variable (L : FaucetCallLimiter) (r : Request)

/-- What handling a request does to the limiter, beside the reset: if it is accepted, the cooldown is
over at its registration and the entry has its time, and else the entries stay. -/
structure Handled (L' : FaucetCallLimiter) (accepted : Bool) : Prop where
  maxDailyRequest : L'.maxDailyRequest = L.maxDailyRequest
  cooldownPeriodSecs : L'.cooldownPeriodSecs = L.cooldownPeriodSecs
  lastResetSecs : L'.lastResetSecs = (L.resetCacheIfNeeded r.registered).lastResetSecs
  entry_of_ne : ∀ a, a ≠ r.account → L'.entry a = (L.resetCacheIfNeeded r.registered).entry a
  entry_of_refused : accepted = false →
    L'.entry r.account = (L.resetCacheIfNeeded r.registered).entry r.account
  entry_of_accepted : accepted = true → (L'.entry r.account).lastUsedTime = r.incremented
  elapsed : accepted = true →
    Elapsed L.cooldownPeriodSecs ((L.resetCacheIfNeeded r.registered).entry r.account) r.registered

theorem handle_handled (horder : r.registered ≤ r.incremented) :
    Handled L r (L.handle r).1 (isAccepted (L.handle r).2) := by
  obtain ⟨hmax, hcooldown, -⟩ := resetCacheIfNeeded_spec L r.registered
  obtain ⟨result, hregister, hok⟩ := FaucetCallLimiter.registerAccount_spec L r.registered r.account
  have hself := FaucetCallLimiter.entry_setEntry_self (L.resetCacheIfNeeded r.registered)
  have hrefused : Handled L r ((L.resetCacheIfNeeded r.registered).setEntry r.account
      ((L.resetCacheIfNeeded r.registered).entry r.account)) false :=
    ⟨hmax, hcooldown, rfl, fun a _ => hself a r.account, fun _ => hself r.account r.account,
      fun h => (by cases h), fun h => (by cases h)⟩
  unfold FaucetCallLimiter.handle
  rw [hregister]
  cases result with
  | error e => exact hrefused
  | ok u =>
    cases hfunded : r.funded with
    | none => exact hrefused
    | some hash =>
      obtain ⟨hcount, helapsed⟩ := hok rfl
      have hnow := helapsed.mono horder
      rw [hcooldown] at helapsed
      generalize hL₀ : L.resetCacheIfNeeded r.registered = L₀ at *
      rcases FaucetCallLimiter.increment_spec (L₀.setEntry r.account (L₀.entry r.account))
        r.incremented r.account with hinc | ⟨hnot, -⟩
      · dsimp only
        rw [hinc]
        refine ⟨hmax, hcooldown, by rw [hL₀]; rfl, fun a ha => ?_, fun h => (by cases h), fun _ => ?_,
          fun _ => hL₀ ▸ helapsed⟩
        · rw [FaucetCallLimiter.entry_setEntry, if_neg ha, FaucetCallLimiter.entry_setEntry_self,
            hself, hL₀]
        · rw [FaucetCallLimiter.entry_setEntry, if_pos rfl]
      · -- what allowed the registration still holds when the use is counted
        refine absurd ⟨?_, ?_⟩ hnot
        · rw [hself]; exact hcount
        · rw [hself]; exact hnow

end

/-- The reset forgets when an account was last funded: the first request of a day is accepted if it
is funded at all, whenever the one before it was. -/
theorem accepted_after_reset {L : FaucetCallLimiter} {r : Request} {hash : Consensus.Hash}
    (hday : day L.lastResetSecs < day r.registered) (hlimit : 0 < L.maxDailyRequest)
    (hcooldown : L.cooldownPeriodSecs ≤ r.registered) (hclock : r.registered < 2 ^ 64)
    (horder : r.registered ≤ r.incremented) (hfunded : r.funded = some hash) :
    (L.handle r).2 = .ok (.accepted hash) := by
  have hadd : addU64 0 L.cooldownPeriodSecs = some L.cooldownPeriodSecs := by
    unfold addU64
    rw [Nat.zero_add, if_pos (by omega)]
  have hreset : L.resetCacheIfNeeded r.registered =
      { L with cache := fun _ => none, lastResetSecs := r.registered } := if_pos hday
  simp [FaucetCallLimiter.handle, FaucetCallLimiter.registerAccount,
    FaucetCallLimiter.incrementAccountUseCounterIfUnderLimit, hreset, FaucetCallLimiter.entry,
    FaucetCallLimiter.setEntry, hlimit, hadd, hcooldown, hfunded, Nat.le_trans hcooldown horder]

/-! ## Requests of the server -/

/-- A request has its turns while no other process has one. -/
abbrev Uninterrupted : Shared → Process → Shared → Process → List Process → Prop :=
  Alone faucet fun _ _ => True

def answer : Process → Option (Except Failure FaucetStatus)
  | .refused _ e => some (.error e)
  | .answered _ _ result => some result
  | .received _ | .funding .. | .waiter _ => none

section
variable {s s' : Shared} {a : AccountAddress} {time : Nat} {p q : Process} {call : Delegates.Process}
  {new : List Process} {result : Except Failure FaucetStatus}

theorem eq_of_answer (h : Uninterrupted s p s' q new) (hp : answer p ≠ none) : s' = s ∧ q = p := by
  cases h with
  | here => exact ⟨rfl, rfl⟩
  | next _ hstep _ => cases p <;> first | exact absurd rfl hp | cases hstep

theorem uninterrupted_funding (h : Uninterrupted s (.funding a time call) s' q new)
    (hq : answer q = some result) :
    ∃ funded now, s.clock ≤ now ∧ now ≤ s'.clock ∧
      ((funded = none ∧ s'.limiter = s.limiter ∧ result = .ok .tryLater) ∨
        ∃ hash outcome, funded = some hash ∧
          s.limiter.incrementAccountUseCounterIfUnderLimit now a = (s'.limiter, outcome) ∧
          result = outcome.map fun _ => .accepted hash) := by
  generalize hp : Process.funding a time call = p at h
  induction h generalizing call with
  | here => cases hp; cases hq
  | next _ hstep hrest ih =>
    cases hp
    cases step_funding hstep with
    | tryLater call =>
      obtain ⟨rfl, rfl⟩ := eq_of_answer hrest (by simp [answer])
      cases hq
      exact ⟨none, _, Nat.le_add_right .., Nat.le_refl _, .inl ⟨rfl, rfl, rfl⟩⟩
    | count call hash hinc =>
      obtain ⟨rfl, rfl⟩ := eq_of_answer hrest (by simp [answer])
      cases hq
      exact ⟨some hash, _, Nat.le_add_right .., Nat.le_refl _, .inr ⟨hash, _, rfl, hinc, rfl⟩⟩
    | call hcall =>
      obtain ⟨funded, now, hnow, hend, hcases⟩ := ih hq rfl
      exact ⟨funded, now, Nat.le_trans (Nat.le_add_right ..) hnow, hend, hcases⟩

/-- **A request that no other interrupts is handled as by `handle`.** -/
theorem uninterrupted_handle (h : Uninterrupted s (.received a) s' q new)
    (hq : answer q = some result) :
    ∃ r : Request, r.account = a ∧ s.clock ≤ r.registered ∧ r.registered ≤ r.incremented ∧
      r.incremented ≤ s'.clock ∧ s.limiter.handle r = (s'.limiter, result) := by
  cases h with
  | here => cases hq
  | @next _ s₁ _ _ p₁ _ _ _ input _ hstep hrest =>
    replace hstep : step input s (.received a) = _ := hstep
    unfold step at hstep
    dsimp only at hstep
    generalize hnow : s.clock + input.elapsed = now at hstep
    have hle : s.clock ≤ now := hnow ▸ Nat.le_add_right ..
    cases hreg : s.limiter.registerAccount now a with
    | mk L outcome =>
      rw [hreg] at hstep
      cases outcome with
      | error e =>
        cases hstep
        obtain ⟨rfl, rfl⟩ := eq_of_answer hrest (by simp [answer])
        cases hq
        refine ⟨⟨a, now, none, now⟩, rfl, hle, Nat.le_refl _, Nat.le_refl _, ?_⟩
        simp [FaucetCallLimiter.handle, hreg]
      | ok u =>
        cases hstep
        obtain ⟨funded, counted, hcounted, hend, hcases⟩ := uninterrupted_funding hrest hq
        refine ⟨⟨a, now, funded, counted⟩, rfl, hle, hcounted, hend, ?_⟩
        rcases hcases with ⟨rfl, hlimiter, rfl⟩ | ⟨hash, outcome, rfl, hinc, rfl⟩
        · simp [FaucetCallLimiter.handle, hreg, hlimiter]
        · dsimp only at hinc
          simp only [FaucetCallLimiter.handle, hreg, hinc]
          cases outcome <;> rfl

end

/-! ## The log -/

/-- Of two requests in the log, the later one first. -/
def Spaced (cooldown : Nat) (later earlier : Request × Except Failure FaucetStatus) : Prop :=
  isAccepted later.2 = true → isAccepted earlier.2 = true →
    later.1.account = earlier.1.account → day earlier.1.registered = day later.1.registered →
    earlier.1.incremented + cooldown ≤ later.1.registered

/-- The invariant of requests handled one after the other, the last one until `now`. -/
structure CooldownInv (L : FaucetCallLimiter) (log : List (Request × Except Failure FaucetStatus))
    (now : Nat) : Prop where
  reset_le : L.lastResetSecs ≤ now
  past : ∀ e ∈ log, e.1.incremented ≤ now
  day_le : ∀ e ∈ log, day e.1.registered ≤ day L.lastResetSecs
  /-- The entry has the time of every request that was accepted since the reset. -/
  used : ∀ e ∈ log, isAccepted e.2 = true → day e.1.registered = day L.lastResetSecs →
    e.1.incremented ≤ (L.entry e.1.account).lastUsedTime
  spaced : log.Pairwise (Spaced L.cooldownPeriodSecs)

section
variable {L : FaucetCallLimiter} {log : List (Request × Except Failure FaucetStatus)} {now : Nat}

theorem CooldownInv.reset (h : CooldownInv L log now) {t : Nat} (ht : now ≤ t) :
    CooldownInv (L.resetCacheIfNeeded t) log t ∧ day t = day (L.resetCacheIfNeeded t).lastResetSecs := by
  unfold FaucetCallLimiter.resetCacheIfNeeded
  split
  · rename_i hlt
    refine ⟨⟨Nat.le_refl _, fun e he => Nat.le_trans (h.past e he) ht, fun e he => ?_,
      fun e he _ hday => ?_, h.spaced⟩, rfl⟩
    · exact Nat.le_trans (h.day_le e he) (Nat.le_of_lt hlt)
    · -- nothing in the log was registered on the new day
      have hle := h.day_le e he
      dsimp only at hday
      omega
  · rename_i hge
    have hle := Account.day_mono (Nat.le_trans h.reset_le ht)
    exact ⟨⟨Nat.le_trans h.reset_le ht, fun e he => Nat.le_trans (h.past e he) ht, h.day_le, h.used,
      h.spaced⟩, by omega⟩

theorem CooldownInv.handle (h : CooldownInv L log now) {r : Request} (hnow : now ≤ r.registered)
    (horder : r.registered ≤ r.incremented) :
    CooldownInv (L.handle r).1 ((r, (L.handle r).2) :: log) r.incremented := by
  have hhandled := handle_handled L r horder
  obtain ⟨hreset, hday⟩ := h.reset hnow
  have hcooldown := (resetCacheIfNeeded_spec L r.registered).2.1
  generalize (L.handle r).2 = result at hhandled ⊢
  generalize (L.handle r).1 = L' at hhandled ⊢
  have hlast := hhandled.lastResetSecs
  have hused : ∀ e ∈ log, isAccepted e.2 = true → day e.1.registered = day L'.lastResetSecs →
      e.1.incremented ≤ (L'.entry e.1.account).lastUsedTime := by
    intro e he hacc hsame
    have hold := hreset.used e he hacc (hlast ▸ hsame)
    by_cases hne : e.1.account = r.account
    · rw [hne] at hold ⊢
      cases hb : isAccepted result with
      | false => rw [hhandled.entry_of_refused hb]; exact hold
      | true =>
        rw [hhandled.entry_of_accepted hb]
        exact Nat.le_trans (hreset.past e he) horder
    · rw [hhandled.entry_of_ne _ hne]
      exact hold
  refine ⟨?_, fun e he => ?_, fun e he => ?_, fun e he => ?_, ?_⟩
  · rw [hlast]
    exact Nat.le_trans hreset.reset_le horder
  · rcases List.mem_cons.1 he with rfl | he
    · exact Nat.le_refl _
    · exact Nat.le_trans (hreset.past e he) horder
  · rw [hlast]
    rcases List.mem_cons.1 he with rfl | he
    · exact Nat.le_of_eq hday
    · exact hreset.day_le e he
  · rcases List.mem_cons.1 he with rfl | he
    · intro hacc _
      exact Nat.le_of_eq (hhandled.entry_of_accepted hacc).symm
    · exact hused e he
  · rw [hhandled.cooldownPeriodSecs, List.pairwise_cons]
    refine ⟨fun e he hacc hearlier haccount hsame => ?_, hcooldown ▸ hreset.spaced⟩
    -- registered on one day, so without a reset in between
    obtain ⟨next, hnext, hle⟩ := hhandled.elapsed hacc
    have htime := hreset.used e he hearlier (hsame.trans hday)
    dsimp only at haccount hle ⊢
    rw [← haccount] at htime
    unfold addU64 at hnext
    split at hnext
    · cases hnext
      omega
    · cases hnext

theorem handle_cooldownPeriodSecs {r : Request} (horder : r.registered ≤ r.incremented) :
    (L.handle r).1.cooldownPeriodSecs = L.cooldownPeriodSecs :=
  (handle_handled L r horder).cooldownPeriodSecs

theorem cooldownInv_foldl (h : CooldownInv L log now) {requests : List Request}
    (horder : InOrder now requests) :
    ∃ last, CooldownInv (requests.foldl handleNext (L, log)).1
        (requests.foldl handleNext (L, log)).2 last ∧
      (requests.foldl handleNext (L, log)).1.cooldownPeriodSecs = L.cooldownPeriodSecs := by
  induction requests generalizing L log now with
  | nil => exact ⟨now, h, rfl⟩
  | cons r requests ih =>
    obtain ⟨hnow, hr, hrest⟩ := horder
    obtain ⟨last, hinv, hcooldown⟩ := ih (h.handle hnow hr) hrest
    exact ⟨last, hinv, hcooldown.trans (handle_cooldownPeriodSecs hr)⟩

end

/-- **The cooldown between requests of one day.** Of two accepted requests of an account that are
registered on the same day, the later one is registered at least the cooldown after the use of the
earlier one was counted. -/
theorem cooldown_on_one_day (now maxDailyRequest cooldownPeriodSecs : Nat) (requests : List Request)
    (horder : InOrder now requests) :
    (handleAll (.new now maxDailyRequest cooldownPeriodSecs) requests).2.Pairwise
      fun later earlier => isAccepted later.2 = true → isAccepted earlier.2 = true →
        later.1.account = earlier.1.account → day earlier.1.registered = day later.1.registered →
        earlier.1.incremented + cooldownPeriodSecs ≤ later.1.registered := by
  have hstart : CooldownInv (.new now maxDailyRequest cooldownPeriodSecs) [] now :=
    ⟨Nat.le_refl _, fun e he => (by cases he), fun e he => (by cases he), fun e he => (by cases he),
      .nil⟩
  obtain ⟨last, hinv, hcooldown⟩ := cooldownInv_foldl hstart horder
  have hspaced := hinv.spaced
  rw [hcooldown] at hspaced
  exact hspaced

/-- The request of account 7 on the first day, and one on the same day or later. -/
def requestAt (registered : Nat) : Request := ⟨7, registered, some 1, registered + 1⟩

theorem cooldown_on_one_day_twice :
    (handleAll (.new 86000 2 30) [requestAt 86010, requestAt 86050]).2.Pairwise
      fun later earlier => isAccepted later.2 = true → isAccepted earlier.2 = true →
        later.1.account = earlier.1.account → day earlier.1.registered = day later.1.registered →
        earlier.1.incremented + 30 ≤ later.1.registered :=
  cooldown_on_one_day 86000 2 30 [requestAt 86010, requestAt 86050]
    ⟨by decide, by decide, by decide, by decide, trivial⟩

/-- A request ten seconds before midnight and one at midnight are both accepted, with a cooldown of
an hour. -/
theorem cooldown_forgotten_at_midnight :
    ¬ ∀ (now maxDailyRequest cooldownPeriodSecs : Nat) (requests : List Request),
      InOrder now requests →
      (handleAll (.new now maxDailyRequest cooldownPeriodSecs) requests).2.Pairwise
        fun later earlier => isAccepted later.2 = true → isAccepted earlier.2 = true →
          later.1.account = earlier.1.account →
          earlier.1.incremented + cooldownPeriodSecs ≤ later.1.registered := by
  intro h
  have hpair := h 86000 1 3600 [requestAt 86390, requestAt 86400]
    ⟨by decide, by decide, by decide, by decide, trivial⟩
  have hlog : (handleAll (.new 86000 1 3600) [requestAt 86390, requestAt 86400]).2 =
      [(requestAt 86400, .ok (.accepted 1)), (requestAt 86390, .ok (.accepted 1))] := rfl
  rw [hlog, List.pairwise_cons] at hpair
  exact absurd (hpair.1 _ List.mem_cons_self rfl rfl rfl) (by decide)

end Rest.Faucet.Proof
