import Mathlib.Logic.Relation
import Mathlib.Tactic.Common
import SupraL1.Rest.Faucet

/-!
# The daily limit of the faucet

`Account` is what the limiter is to one account: the account's entry, the day of the last reset and
how each request of the account stands. `Move` lists what can happen to it, with the condition that
a request registers only while no other request of the account is between its registration and its
answer. Under the condition an accepted request has always been counted, unless the day has changed,
so the limit holds (`Account.Inv`). A step of the server is a sequence of such moves (`step_moves`).

Without the condition the limit does not hold: all requests that register before the first of them
is counted are funded (`two_accepted_on_one_day`).
-/

namespace Rest.Faucet.Proof

open Move Pool

/-! ## One account at the limiter -/

/-- How a request stands with the account; a request of another account stands at `none`. -/
inductive Standing where
  | none
  | pending (time : Nat)
  | accepted (time : Nat)
  deriving DecidableEq, Repr

namespace Standing

def isPending : Standing → Bool
  | .pending _ => true
  | .none | .accepted _ => false

def isAcceptedOn (d : Nat) : Standing → Bool
  | .accepted time => day time = d
  | .none | .pending _ => false

/-- The request is accepted or may still be, and was registered on the day. -/
def isChargedTo (d : Nat) : Standing → Bool
  | .accepted time | .pending time => day time = d
  | .none => false

end Standing

structure Account where
  clock : Nat
  lastReset : Nat
  value : FaucetLimiterValue
  requests : List Standing

/-- The cooldown after the last use is over. -/
def Elapsed (cooldown : Nat) (v : FaucetLimiterValue) (now : Nat) : Prop :=
  ∃ next, addU64 v.lastUsedTime cooldown = some next ∧ next ≤ now

theorem Elapsed.mono {cooldown now now' : Nat} {v : FaucetLimiterValue} (h : Elapsed cooldown v now)
    (hle : now ≤ now') : Elapsed cooldown v now' := by
  obtain ⟨next, hnext, hnow⟩ := h
  exact ⟨next, hnext, Nat.le_trans hnow hle⟩

namespace Account

/-- What can happen to the account. -/
inductive Move (limit cooldown : Nat) (A : Account) : Account → Prop where
  | tick {now : Nat} (h : A.clock ≤ now) : Move limit cooldown A { A with clock := now }
  | reset (h : day A.lastReset < day A.clock) :
      Move limit cooldown A { A with lastReset := A.clock, value := {} }
  | arrive : Move limit cooldown A { A with requests := A.requests ++ [.none] }
  | register {l r : List Standing} (hreq : A.requests = l ++ .none :: r)
      (hserial : (l ++ r).countP Standing.isPending = 0) (hday : day A.clock ≤ day A.lastReset)
      (hcount : A.value.countOfUsage < limit) (hcool : Elapsed cooldown A.value A.clock) :
      Move limit cooldown A { A with requests := l ++ .pending A.clock :: r }
  | drop {l r : List Standing} {time : Nat} (hreq : A.requests = l ++ .pending time :: r) :
      Move limit cooldown A { A with requests := l ++ .none :: r }
  | count {l r : List Standing} {time : Nat} (hreq : A.requests = l ++ .pending time :: r) :
      Move limit cooldown A { A with
        value := ⟨A.value.countOfUsage + 1, A.clock⟩
        requests := l ++ .accepted time :: r }
  /-- A use that is not counted. -/
  | waive {l r : List Standing} {time : Nat} (hreq : A.requests = l ++ .pending time :: r)
      (h : ¬ (A.value.countOfUsage < limit ∧ Elapsed cooldown A.value A.clock)) :
      Move limit cooldown A { A with requests := l ++ .accepted time :: r }

/-- The invariant of a limited account. -/
structure Inv (limit cooldown : Nat) (A : Account) : Prop where
  clock : A.lastReset ≤ A.clock
  bound : ∀ d, A.requests.countP (·.isChargedTo d) ≤ limit
  later : ∀ d, day A.lastReset < d → A.requests.countP (·.isChargedTo d) = 0
  single : A.requests.countP Standing.isPending ≤ 1
  counted : A.requests.countP (·.isAcceptedOn (day A.lastReset)) ≤ A.value.countOfUsage
  /-- A request that was registered since the last reset will be counted. -/
  fresh : ∀ time, .pending time ∈ A.requests → time ≤ A.clock ∧
    (day time = day A.lastReset → A.value.countOfUsage < limit ∧ Elapsed cooldown A.value time)

variable {limit cooldown : Nat} {A B : Account}

theorem day_mono {t u : Nat} (h : t ≤ u) : day t ≤ day u := Nat.div_le_div_right h

theorem countP_pos_of_pending {requests : List Standing} {time : Nat}
    (h : .pending time ∈ requests) : 0 < requests.countP (·.isChargedTo (day time)) :=
  List.countP_pos_iff.2 ⟨_, h, by simp [Standing.isChargedTo]⟩

theorem not_pending_of_countP_eq_zero {requests : List Standing}
    (h : requests.countP Standing.isPending = 0) (time : Nat) : .pending time ∉ requests :=
  fun hmem => List.countP_eq_zero.1 h _ hmem rfl

theorem acceptedOn_le_chargedTo (requests : List Standing) (d : Nat) :
    requests.countP (·.isAcceptedOn d) ≤ requests.countP (·.isChargedTo d) := by
  refine List.countP_mono_left fun x _ hx => ?_
  cases x with
  | accepted time => exact hx
  | none | pending time => cases hx

theorem chargedTo_eq_acceptedOn {requests : List Standing}
    (h : requests.countP Standing.isPending = 0) (d : Nat) :
    requests.countP (·.isChargedTo d) = requests.countP (·.isAcceptedOn d) := by
  refine List.countP_congr fun x hx => ?_
  cases x with
  | pending time => exact absurd hx (not_pending_of_countP_eq_zero h time)
  | none | accepted time => exact Iff.rfl

theorem Inv.others (hA : A.Inv limit cooldown) {l r : List Standing} {time : Nat}
    (hreq : A.requests = l ++ .pending time :: r) : (l ++ r).countP Standing.isPending = 0 := by
  have h : (l ++ r).countP Standing.isPending + 1 ≤ 1 := by
    have h := hA.single
    rwa [hreq, countP_split] at h
  omega

theorem Inv.tick (hA : A.Inv limit cooldown) {now : Nat} (h : A.clock ≤ now) :
    Inv limit cooldown { A with clock := now } where
  clock := Nat.le_trans hA.clock h
  bound := hA.bound
  later := hA.later
  single := hA.single
  counted := hA.counted
  fresh time hmem := ⟨Nat.le_trans (hA.fresh time hmem).1 h, (hA.fresh time hmem).2⟩

theorem Inv.reset (hA : A.Inv limit cooldown) (h : day A.lastReset < day A.clock) :
    Inv limit cooldown { A with lastReset := A.clock, value := {} } where
  clock := Nat.le_refl _
  bound := hA.bound
  later d hd := hA.later d (Nat.lt_trans h hd)
  single := hA.single
  counted := Nat.le_trans (acceptedOn_le_chargedTo _ _) (Nat.le_of_eq (hA.later _ h))
  fresh time hmem := by
    refine ⟨(hA.fresh time hmem).1, fun hday => ?_⟩
    have hpos := countP_pos_of_pending hmem
    rw [hday, hA.later _ h] at hpos
    omega

theorem Inv.arrive (hA : A.Inv limit cooldown) :
    Inv limit cooldown { A with requests := A.requests ++ [.none] } where
  clock := hA.clock
  bound d := by rw [countP_split, List.append_nil]; exact hA.bound d
  later d hd := by rw [countP_split, List.append_nil]; exact hA.later d hd
  single := by rw [countP_split, List.append_nil]; exact hA.single
  counted := by rw [countP_split, List.append_nil]; exact hA.counted
  fresh time hmem := hA.fresh time (by simpa using hmem)

theorem Inv.register (hA : A.Inv limit cooldown) {l r : List Standing}
    (hreq : A.requests = l ++ .none :: r) (hserial : (l ++ r).countP Standing.isPending = 0)
    (hday : day A.clock ≤ day A.lastReset) (hcount : A.value.countOfUsage < limit)
    (hcool : Elapsed cooldown A.value A.clock) :
    Inv limit cooldown { A with requests := l ++ .pending A.clock :: r } := by
  have heq : day A.clock = day A.lastReset := Nat.le_antisymm hday (day_mono hA.clock)
  have hcharged : ∀ d, A.requests.countP (·.isChargedTo d) = (l ++ r).countP (·.isChargedTo d) :=
    fun d => by rw [hreq, countP_split]; rfl
  have haccepted : (l ++ r).countP (·.isAcceptedOn (day A.lastReset)) ≤ A.value.countOfUsage := by
    have h := hA.counted
    rwa [hreq, countP_split] at h
  refine ⟨hA.clock, fun d => ?_, fun d hd => ?_, ?_, ?_, fun time hmem => ?_⟩
  · rw [countP_split]
    by_cases hd : day A.clock = d
    · -- everything charged to this day so far has been counted
      rw [← hd, heq, chargedTo_eq_acceptedOn hserial]
      split <;> omega
    · rw [if_neg (by simpa [Standing.isChargedTo] using hd), ← hcharged]
      exact hA.bound d
  · have hne : day A.clock ≠ d := by
      dsimp only at hd
      omega
    rw [countP_split, if_neg (by simpa [Standing.isChargedTo] using hne), ← hcharged]
    exact hA.later d hd
  · rw [countP_split, hserial]
    exact Nat.le_refl 1
  · rw [countP_split]
    exact haccepted
  · have htime : time = A.clock := by
      rcases List.mem_append.1 hmem with hm | hm
      · exact absurd (List.mem_append_left r hm) (not_pending_of_countP_eq_zero hserial time)
      · rcases List.mem_cons.1 hm with hm | hm
        · cases hm; rfl
        · exact absurd (List.mem_append_right l hm) (not_pending_of_countP_eq_zero hserial time)
    subst htime
    exact ⟨Nat.le_refl _, fun _ => ⟨hcount, hcool⟩⟩

theorem Inv.drop (hA : A.Inv limit cooldown) {l r : List Standing} {time : Nat}
    (hreq : A.requests = l ++ .pending time :: r) :
    Inv limit cooldown { A with requests := l ++ .none :: r } := by
  have hle : ∀ q : Standing → Bool, q .none = false →
      (l ++ .none :: r).countP q ≤ A.requests.countP q := fun q hq => by
    rw [hreq, countP_split, countP_split, hq]
    exact Nat.le_add_right _ _
  refine ⟨hA.clock, fun d => Nat.le_trans (hle _ rfl) (hA.bound d), fun d hd => ?_,
    Nat.le_trans (hle _ rfl) hA.single, Nat.le_trans (hle _ rfl) hA.counted, fun t hmem => ?_⟩
  · exact Nat.le_zero.1 (Nat.le_trans (hle _ rfl) (Nat.le_of_eq (hA.later d hd)))
  · refine hA.fresh t ?_
    rw [hreq]
    simp only [List.mem_append, List.mem_cons, reduceCtorEq, false_or] at hmem ⊢
    exact hmem.imp_right .inr

theorem Inv.accept (hA : A.Inv limit cooldown) {l r : List Standing} {time : Nat}
    (hreq : A.requests = l ++ .pending time :: r) {v : FaucetLimiterValue}
    (hle : A.value.countOfUsage ≤ v.countOfUsage)
    (hv : day time = day A.lastReset → A.value.countOfUsage < v.countOfUsage) :
    Inv limit cooldown { A with value := v, requests := l ++ .accepted time :: r } := by
  have hsame : ∀ d, (l ++ .accepted time :: r).countP (·.isChargedTo d) =
      A.requests.countP (·.isChargedTo d) := fun d => by
    rw [hreq, countP_split, countP_split]
    rfl
  refine ⟨hA.clock, fun d => hsame d ▸ hA.bound d, fun d hd => hsame d ▸ hA.later d hd, ?_, ?_,
    fun t hmem => ?_⟩
  · rw [countP_split, hA.others hreq]
    exact Nat.zero_le 1
  · have hcounted : (l ++ r).countP (·.isAcceptedOn (day A.lastReset)) ≤ A.value.countOfUsage := by
      have h := hA.counted
      rwa [hreq, countP_split] at h
    rw [countP_split]
    dsimp only
    by_cases hd : day time = day A.lastReset
    · have := hv hd
      split <;> omega
    · rw [if_neg (by simpa [Standing.isAcceptedOn] using hd)]
      omega
  · refine absurd ?_ (not_pending_of_countP_eq_zero (hA.others hreq) t)
    simpa using hmem

/-- **Every move keeps the invariant.** -/
theorem Move.inv (h : Move limit cooldown A B) (hA : A.Inv limit cooldown) :
    B.Inv limit cooldown := by
  cases h with
  | tick h => exact hA.tick h
  | reset h => exact hA.reset h
  | arrive => exact hA.arrive
  | register hreq hserial hday hcount hcool => exact hA.register hreq hserial hday hcount hcool
  | drop hreq => exact hA.drop hreq
  | count hreq => exact hA.accept hreq (Nat.le_succ _) fun _ => Nat.lt_succ_self _
  | @waive l r time hreq h =>
    refine hA.accept hreq (Nat.le_refl _) fun hday => absurd ?_ h
    obtain ⟨htime, hfresh⟩ := hA.fresh time (by rw [hreq]; simp)
    exact ⟨(hfresh hday).1, (hfresh hday).2.mono htime⟩

theorem moves_inv (h : Relation.ReflTransGen (Move limit cooldown) A B) (hA : A.Inv limit cooldown) :
    B.Inv limit cooldown := by
  induction h with
  | refl => exact hA
  | tail _ hmove ih => exact hmove.inv ih

end Account

/-! ## The limiter -/

namespace FaucetCallLimiter

variable (L : FaucetCallLimiter) (now : Nat) (a b : AccountAddress)

theorem entry_setEntry (v : FaucetLimiterValue) :
    (L.setEntry b v).entry a = if a = b then v else L.entry a := by
  unfold FaucetCallLimiter.entry FaucetCallLimiter.setEntry
  dsimp only
  rw [Function.update_apply]
  split <;> rfl

theorem entry_setEntry_self : (L.setEntry b (L.entry b)).entry a = L.entry a := by
  rw [entry_setEntry]
  split
  · rename_i h; rw [h]
  · rfl

theorem registerAccount_spec : ∃ r,
    L.registerAccount now b =
      ((L.resetCacheIfNeeded now).setEntry b ((L.resetCacheIfNeeded now).entry b), r) ∧
    (r = .ok () →
      ((L.resetCacheIfNeeded now).entry b).countOfUsage < (L.resetCacheIfNeeded now).maxDailyRequest ∧
      Elapsed (L.resetCacheIfNeeded now).cooldownPeriodSecs ((L.resetCacheIfNeeded now).entry b) now) := by
  unfold FaucetCallLimiter.registerAccount
  generalize L.resetCacheIfNeeded now = L
  dsimp only
  split
  · rename_i hcount
    split
    · exact ⟨_, rfl, nofun⟩
    · rename_i next hnext
      split
      · rename_i hnow
        exact ⟨_, rfl, fun _ => ⟨hcount, next, hnext, hnow⟩⟩
      · exact ⟨_, rfl, nofun⟩
  · exact ⟨_, rfl, nofun⟩

theorem increment_spec :
    L.incrementAccountUseCounterIfUnderLimit now b =
      ((L.setEntry b (L.entry b)).setEntry b ⟨(L.entry b).countOfUsage + 1, now⟩, .ok ()) ∨
    (¬ ((L.entry b).countOfUsage < L.maxDailyRequest ∧
        Elapsed L.cooldownPeriodSecs (L.entry b) now) ∧
      ∃ r, L.incrementAccountUseCounterIfUnderLimit now b = (L.setEntry b (L.entry b), r)) := by
  have hfalse : ∀ {next}, addU64 (L.entry b).lastUsedTime L.cooldownPeriodSecs = next →
      (∀ t, next = some t → ¬ t ≤ now) → ¬ Elapsed L.cooldownPeriodSecs (L.entry b) now := by
    rintro next hnext hlt ⟨t, ht, hle⟩
    exact hlt t (hnext ▸ ht) hle
  unfold FaucetCallLimiter.incrementAccountUseCounterIfUnderLimit
  dsimp only
  split
  · split
    · rename_i hnext
      exact .inr ⟨fun h => hfalse hnext nofun h.2, _, rfl⟩
    · rename_i next hnext
      split
      · exact .inl rfl
      · rename_i hnow
        exact .inr ⟨fun h => hfalse hnext (fun t ht => by cases ht; exact hnow) h.2, _, rfl⟩
  · rename_i hcount
    exact .inr ⟨fun h => hcount h.1, _, rfl⟩

end FaucetCallLimiter

/-! ## The server -/

/-- The call has ended in a panic, and its request with it. -/
def isPanicked : Delegates.Process → Bool
  | .panicked _ => true
  | _ => false

def standing (a : AccountAddress) : Process → Standing
  | .funding b time call => if b = a ∧ isPanicked call = false then .pending time else .none
  | .answered b time (.ok (.accepted _)) => if b = a then .accepted time else .none
  | .answered _ _ (.ok .tryLater) | .answered _ _ (.error _) => .none
  | .received _ | .refused _ _ | .waiter _ => .none

def account (a : AccountAddress) (c : Config Shared Process) : Account where
  clock := c.shared.clock
  lastReset := c.shared.limiter.lastResetSecs
  value := c.shared.limiter.entry a
  requests := c.procs.map (standing a)

/-- A request registers only while no other request of its account is between its registration and
its answer. -/
def Serial (c : Config Shared Process) : Act AccountAddress Input → Prop
  | .start _ => True
  | .turn i _ => ∀ a, c.procs[i]? = some (.received a) →
      ∀ p ∈ c.procs, (standing a p).isPending = false

/-- At the turn of a request that is not yet registered, `Serial` is a look at all processes. -/
instance Serial.decidable (c : Config Shared Process) (x : Act AccountAddress Input) :
    Decidable (Serial c x) :=
  match x with
  | .start _ => .isTrue trivial
  | .turn i _ =>
    match h : c.procs[i]? with
    | some (.received a) => decidable_of_iff (∀ p ∈ c.procs, (standing a p).isPending = false)
        ⟨fun hp b hb => by cases h.symm.trans hb; exact hp, fun hs => hs a h⟩
    | none | some (.refused ..) | some (.funding ..) | some (.answered ..) | some (.waiter _) =>
      .isTrue fun b hb => by cases h.symm.trans hb

open Account Relation

section
variable {limit cooldown : Nat} {a b : AccountAddress} {input : Input} {s s' : Shared}
  {l r new : List Process} {p' : Process} {time : Nat} {hash : Consensus.Hash} {call : Delegates.Call}
  {p : Delegates.Process}

theorem standing_running (hp : isPanicked p = false) :
    standing a (.funding b time p) = if b = a then .pending time else .none := by
  simp [standing, hp]

theorem isPanicked_of_step {input : Delegates.Input} {delegates delegates' : List Delegates.DelegateState}
    {q : Delegates.Process} {waiters : List Delegates.Process}
    (h : Delegates.step input delegates p = some (delegates', q, waiters)) : isPanicked p = false := by
  cases p with
  | panicked message => cases h
  | _ => rfl

theorem standing_waiters (waiters : List Delegates.Process) :
    (waiters.map Process.waiter).map (standing a) = List.replicate waiters.length .none := by
  rw [List.map_map]
  exact List.map_const ..

theorem account_at (p : Process) : account a ⟨s, l ++ p :: r⟩ =
    ⟨s.clock, s.limiter.lastResetSecs, s.limiter.entry a,
      l.map (standing a) ++ standing a p :: r.map (standing a)⟩ := by
  unfold account
  rw [List.map_append, List.map_cons]

theorem account_turn (p : Process) : account a ⟨s, l ++ p :: (r ++ new)⟩ =
    ⟨s.clock, s.limiter.lastResetSecs, s.limiter.entry a,
      l.map (standing a) ++ standing a p :: (r.map (standing a) ++ new.map (standing a))⟩ := by
  rw [account_at, List.map_append]

theorem tick_moves {clock now : Nat} (hnow : clock ≤ now) (last : Nat) (v : FaucetLimiterValue)
    (requests : List Standing) : ReflTransGen (Account.Move limit cooldown)
      ⟨clock, last, v, requests⟩ ⟨now, last, v, requests⟩ :=
  .single (.tick hnow)

theorem reset_moves (L : FaucetCallLimiter) (requests : List Standing) {clock now : Nat}
    (hnow : clock ≤ now) :
    ReflTransGen (Account.Move limit cooldown) ⟨clock, L.lastResetSecs, L.entry a, requests⟩
      ⟨now, (L.resetCacheIfNeeded now).lastResetSecs, (L.resetCacheIfNeeded now).entry a,
        requests⟩ := by
  unfold FaucetCallLimiter.resetCacheIfNeeded
  split
  · rename_i hday
    exact (tick_moves hnow _ _ _).tail (.reset hday)
  · exact tick_moves hnow _ _ _

theorem resetCacheIfNeeded_spec (L : FaucetCallLimiter) (now : Nat) :
    (L.resetCacheIfNeeded now).maxDailyRequest = L.maxDailyRequest ∧
      (L.resetCacheIfNeeded now).cooldownPeriodSecs = L.cooldownPeriodSecs ∧
      day now ≤ day (L.resetCacheIfNeeded now).lastResetSecs := by
  unfold FaucetCallLimiter.resetCacheIfNeeded
  split
  · exact ⟨rfl, rfl, Nat.le_refl _⟩
  · rename_i hday
    exact ⟨rfl, rfl, Nat.le_of_not_lt hday⟩

theorem received_moves (hserial : b = a → ∀ p ∈ l ++ r, (standing a p).isPending = false)
    (h : step input s (.received b) = some (s', p', new)) :
    ReflTransGen (Account.Move s.limiter.maxDailyRequest s.limiter.cooldownPeriodSecs)
      (account a ⟨s, l ++ .received b :: r⟩) (account a ⟨s', l ++ p' :: (r ++ new)⟩) := by
  have hnow : s.clock ≤ s.clock + input.elapsed := Nat.le_add_right ..
  unfold step at h
  dsimp only at h
  generalize s.clock + input.elapsed = now at h hnow
  obtain ⟨result, hreg, hok⟩ := FaucetCallLimiter.registerAccount_spec s.limiter now b
  obtain ⟨hmax, hcooldown, hday⟩ := resetCacheIfNeeded_spec s.limiter now
  rw [hmax, hcooldown] at hok
  have hmoves : ReflTransGen (Account.Move s.limiter.maxDailyRequest s.limiter.cooldownPeriodSecs)
      _ _ := reset_moves (a := a) s.limiter
        (l.map (standing a) ++ .none :: r.map (standing a)) hnow
  rw [hreg] at h
  generalize s.limiter.resetCacheIfNeeded now = L at hok hday hmoves h
  rw [← FaucetCallLimiter.entry_setEntry_self L a b] at hmoves
  cases result with
  | error e =>
    cases h
    rw [account_at, account_turn, List.map_nil, List.append_nil]
    exact hmoves
  | ok u =>
    cases h
    rw [account_at, account_turn, List.map_nil, List.append_nil]
    by_cases hb : b = a
    · subst hb
      obtain ⟨hcount, helapsed⟩ := hok rfl
      have hpending : (l.map (standing b) ++ r.map (standing b)).countP Standing.isPending = 0 := by
        rw [← List.map_append, List.countP_map, List.countP_eq_zero]
        intro p hp
        simp [hserial rfl p hp]
      rw [← FaucetCallLimiter.entry_setEntry_self L b b] at hcount helapsed
      rw [standing_running rfl, if_pos rfl]
      exact hmoves.tail (.register rfl hpending hday hcount helapsed)
    · rw [standing_running rfl, if_neg hb]
      exact hmoves

/-- What a request in its call of `Faucet::try_fund` can do. -/
inductive Funding (input : Input) (s : Shared) (b : AccountAddress) (time : Nat) :
    Delegates.Process → Shared → Process → List Process → Prop where
  | tryLater (call : Delegates.Call) : Funding input s b time (.returned call none)
      ⟨s.clock + input.elapsed, s.limiter, s.delegates⟩ (.answered b time (.ok .tryLater)) []
  | count {L : FaucetCallLimiter} {outcome : Except Failure Unit} (call : Delegates.Call)
      (hash : Consensus.Hash)
      (hinc : s.limiter.incrementAccountUseCounterIfUnderLimit (s.clock + input.elapsed) b =
        (L, outcome)) : Funding input s b time (.returned call (some hash))
      ⟨s.clock + input.elapsed, L, s.delegates⟩
      (.answered b time (outcome.map fun _ => .accepted hash)) []
  | call {p q : Delegates.Process} {delegates : List Delegates.DelegateState}
      {waiters : List Delegates.Process}
      (h : Delegates.step input.call s.delegates p = some (delegates, q, waiters)) :
      Funding input s b time p ⟨s.clock + input.elapsed, s.limiter, delegates⟩
        (.funding b time q) (waiters.map .waiter)

theorem step_funding (h : step input s (.funding b time p) = some (s', p', new)) :
    Funding input s b time p s' p' new := by
  unfold step at h
  split at h
  case h_1 heq | h_5 heq | h_6 heq | h_7 heq => cases heq
  case h_2 heq =>
    cases heq
    cases h
    exact .tryLater _
  case h_3 heq =>
    cases heq
    dsimp only at h
    split at h
    · rename_i hinc
      cases h
      exact .count _ _ hinc
    · rename_i hinc
      cases h
      exact .count _ _ hinc
  case h_4 heq =>
    cases heq
    obtain ⟨⟨delegates, q, waiters⟩, hcall, heq⟩ := Option.map_eq_some_iff.1 h
    cases heq
    exact .call hcall

theorem arrivals_moves (A : Account) (n : Nat) : ReflTransGen (Account.Move limit cooldown) A
    { A with requests := A.requests ++ List.replicate n .none } := by
  induction n with
  | zero => rw [List.replicate_zero, List.append_nil]
  | succ n ih =>
    rw [List.replicate_succ', ← List.append_assoc]
    exact ih.tail .arrive

/-- A request in its call stays pending unless the call panics. -/
theorem call_moves {A : Account} {l r : List Standing}
    (hreq : A.requests = l ++ (if b = a then .pending time else .none) :: r) (q : Delegates.Process) :
    ReflTransGen (Account.Move limit cooldown) A
      { A with requests := l ++ standing a (.funding b time q) :: r } := by
  simp only [standing]
  by_cases hb : b = a
  · rw [if_pos hb] at hreq
    cases isPanicked q with
    | false => rw [if_pos ⟨hb, rfl⟩, ← hreq]
    | true =>
      rw [if_neg fun h => Bool.noConfusion h.2]
      exact .single (.drop hreq)
  · rw [if_neg hb] at hreq
    rw [if_neg fun h => hb h.1, ← hreq]

theorem count_moves {now : Nat} (hnow : s.clock ≤ now) {L : FaucetCallLimiter}
    {outcome : Except Failure Unit}
    (hinc : s.limiter.incrementAccountUseCounterIfUnderLimit now b = (L, outcome)) :
    ReflTransGen (Account.Move s.limiter.maxDailyRequest s.limiter.cooldownPeriodSecs)
      (account a ⟨s, l ++ .funding b time (.returned call (some hash)) :: r⟩)
      (account a ⟨⟨now, L, s.delegates⟩,
        l ++ .answered b time (outcome.map fun _ => .accepted hash) :: (r ++ [])⟩) := by
  rw [account_at, account_turn, List.map_nil, List.append_nil, standing_running rfl]
  rcases FaucetCallLimiter.increment_spec s.limiter now b with hspec | ⟨hwaive, result, hspec⟩
  · cases hspec.symm.trans hinc
    by_cases hb : b = a
    · subst hb
      simp only [Except.map, standing, if_true, FaucetCallLimiter.entry_setEntry]
      exact (tick_moves hnow _ _ _).tail (.count rfl)
    · simp only [Except.map, standing, if_neg hb, FaucetCallLimiter.entry_setEntry,
        if_neg (Ne.symm hb)]
      exact tick_moves hnow _ _ _
  · cases hspec.symm.trans hinc
    cases outcome with
    | error e =>
      by_cases hb : b = a
      · simp only [Except.map, standing, if_pos hb, FaucetCallLimiter.entry_setEntry_self]
        exact (tick_moves hnow _ _ _).tail (.drop rfl)
      · simp only [Except.map, standing, if_neg hb, FaucetCallLimiter.entry_setEntry_self]
        exact tick_moves hnow _ _ _
    | ok u =>
      by_cases hb : b = a
      · subst hb
        simp only [Except.map, standing, if_true, FaucetCallLimiter.entry_setEntry_self]
        exact (tick_moves hnow _ _ _).tail (.waive rfl hwaive)
      · simp only [Except.map, standing, if_neg hb, FaucetCallLimiter.entry_setEntry_self]
        exact tick_moves hnow _ _ _

theorem funding_moves (h : step input s (.funding b time p) = some (s', p', new)) :
    ReflTransGen (Account.Move s.limiter.maxDailyRequest s.limiter.cooldownPeriodSecs)
      (account a ⟨s, l ++ .funding b time p :: r⟩) (account a ⟨s', l ++ p' :: (r ++ new)⟩) := by
  have hnow : s.clock ≤ s.clock + input.elapsed := Nat.le_add_right ..
  cases step_funding h with
  | count call hash hinc => exact count_moves hnow hinc
  | tryLater call =>
    rw [account_at, account_turn, List.map_nil, List.append_nil, standing_running rfl]
    by_cases hb : b = a
    · rw [if_pos hb]
      exact (tick_moves hnow _ _ _).tail (.drop rfl)
    · rw [if_neg hb]
      exact tick_moves hnow _ _ _
  | @call _ q delegates waiters hcall =>
    rw [account_at, account_turn, standing_waiters, standing_running (isPanicked_of_step hcall)]
    refine (tick_moves hnow _ _ _).trans ((call_moves rfl q).trans ?_)
    rw [← List.cons_append, ← List.append_assoc]
    exact arrivals_moves _ waiters.length

theorem step_params {p : Process} (h : step input s p = some (s', p', new)) :
    s'.limiter.maxDailyRequest = s.limiter.maxDailyRequest ∧
      s'.limiter.cooldownPeriodSecs = s.limiter.cooldownPeriodSecs := by
  cases p with
  | received b =>
    unfold step at h
    obtain ⟨hmax, hcooldown, -⟩ := resetCacheIfNeeded_spec s.limiter (s.clock + input.elapsed)
    obtain ⟨result, hreg, -⟩ :=
      FaucetCallLimiter.registerAccount_spec s.limiter (s.clock + input.elapsed) b
    dsimp only at h
    rw [hreg] at h
    cases result <;> cases h <;> exact ⟨hmax, hcooldown⟩
  | funding b time p =>
    cases step_funding h with
    | tryLater call => exact ⟨rfl, rfl⟩
    | count call hash hinc =>
      rcases FaucetCallLimiter.increment_spec s.limiter (s.clock + input.elapsed) b with
        hspec | ⟨-, result, hspec⟩ <;>
      · cases hspec.symm.trans hinc
        exact ⟨rfl, rfl⟩
    | call hcall => exact ⟨rfl, rfl⟩
  | waiter p =>
    obtain ⟨⟨delegates, q, waiters⟩, -, heq⟩ := Option.map_eq_some_iff.1 h
    cases heq
    exact ⟨rfl, rfl⟩
  | refused b e | answered b time result => cases h

/-- **A step of the server is a sequence of moves of each account.** -/
theorem step_moves {c c' : Config Shared Process} {x : Act AccountAddress Input}
    (hserial : Serial c x) (h : Step faucet c x c') (a : AccountAddress) :
    ReflTransGen (Account.Move c.shared.limiter.maxDailyRequest c.shared.limiter.cooldownPeriodSecs)
      (account a c) (account a c') := by
  cases h with
  | start b =>
    have harrive : ReflTransGen (Account.Move c.shared.limiter.maxDailyRequest
      c.shared.limiter.cooldownPeriodSecs) _ _ := .single (.arrive (A := account a c))
    simpa [account, standing, faucet] using harrive
  | idle => exact .refl
  | @turn l r new p p' s input hprocs h =>
    obtain ⟨s0, procs⟩ := c
    subst hprocs
    have hnow : s0.clock ≤ s0.clock + input.elapsed := Nat.le_add_right ..
    cases p with
    | received b =>
      refine received_moves (fun hb p hp => ?_) h
      subst hb
      refine hserial b (by simp) p ?_
      simp only [List.mem_append, List.mem_cons] at hp ⊢
      exact hp.imp_right .inr
    | funding b time p => exact funding_moves h
    | waiter p =>
      obtain ⟨⟨delegates, q, waiters⟩, -, heq⟩ := Option.map_eq_some_iff.1 h
      cases heq
      rw [account_at, account_turn, standing_waiters, ← List.cons_append, ← List.append_assoc]
      exact (tick_moves hnow _ _ _).trans (arrivals_moves _ waiters.length)
    | refused b e | answered b time result => cases h

end

/-! ## The limit -/

/-- The number of requests of an account that were registered on a day and answered with
`Accepted`. -/
def accepted (a : AccountAddress) (d : Nat) (c : Config Shared Process) : Nat :=
  c.procs.countP fun
    | .answered b time (.ok (.accepted _)) => b = a ∧ day time = d
    | _ => false

theorem accepted_eq (a : AccountAddress) (d : Nat) (c : Config Shared Process) :
    accepted a d c = (account a c).requests.countP (·.isAcceptedOn d) := by
  show _ = (c.procs.map (standing a)).countP _
  rw [List.countP_map]
  refine List.countP_congr fun p _ => ?_
  cases p with
  | answered b time result =>
    rcases result with e | _ | _
    · simp [standing, Standing.isAcceptedOn]
    · by_cases hb : b = a <;> simp [standing, Standing.isAcceptedOn, hb]
    · simp [standing, Standing.isAcceptedOn]
  | funding b time p =>
    by_cases h : b = a ∧ isPanicked p = false <;> simp [standing, Standing.isAcceptedOn, h]
  | received b | refused b e | waiter p => simp [standing, Standing.isAcceptedOn]

theorem inv_start (now limit cooldown : Nat) (delegates : List Delegates.DelegateState) (a : AccountAddress) :
    (account a (start now limit cooldown delegates)).Inv limit cooldown where
  clock := Nat.le_refl _
  bound _ := Nat.zero_le _
  later _ _ := rfl
  single := Nat.zero_le _
  counted := Nat.zero_le _
  fresh _ h := absurd h (by simp [account, start])

/-- **The daily limit**, in every run in which a request registers only while no other request of
its account is between its registration and its answer. -/
theorem accepted_le_max_of_serial (now limit cooldown : Nat) (delegates : List Delegates.DelegateState)
    (acts : List (Act AccountAddress Input))
    (h : Along faucet Serial (start now limit cooldown delegates) acts) (a : AccountAddress) (d : Nat) :
    accepted a d (run faucet (start now limit cooldown delegates) acts) ≤ limit := by
  have hinv : let c := run faucet (start now limit cooldown delegates) acts
      (c.shared.limiter.maxDailyRequest = limit ∧ c.shared.limiter.cooldownPeriodSecs = cooldown) ∧
        (account a c).Inv limit cooldown := by
    refine run_inv (P := Serial) (I := fun c =>
      (c.shared.limiter.maxDailyRequest = limit ∧ c.shared.limiter.cooldownPeriodSecs = cooldown) ∧
        (account a c).Inv limit cooldown) ?_ ⟨⟨rfl, rfl⟩, inv_start ..⟩ h
    rintro c x c' ⟨⟨rfl, rfl⟩, hA⟩ hserial hstep
    refine ⟨?_, ?_⟩
    · cases hstep with
      | start b | idle => exact ⟨rfl, rfl⟩
      | turn hprocs h => exact step_params h
    · exact moves_inv (step_moves hserial hstep a) hA
  rw [accepted_eq]
  exact Nat.le_trans (acceptedOn_le_chargedTo _ d) (hinv.2.bound d)

/-- A minter dispatches its transaction at once. -/
def ready : Input := ⟨0, .ok 7, .shutdown⟩

/-- Two requests of an account, one after the other: the first is accepted and the second refused. -/
theorem accepted_le_max_of_serial_two_requests :
    let acts : List (Act AccountAddress Input) :=
      .start 1 :: List.replicate 8 (.turn 0 ready) ++ [.start 1, .turn 2 ready]
    let c := run faucet (start 0 1 0 [some (.free 5)]) acts
    accepted 1 0 c = 1 ∧ c.procs.length = 3 ∧
      c.procs[2]? = some (.refused 1 (.limiter (.dailyLimitExceeded 1 1 "24h : 00m :00s"))) ∧
      accepted 1 0 c ≤ 1 := by
  exact ⟨by decide, by decide, by rfl, accepted_le_max_of_serial 0 1 0 [some (.free 5)] _
    (along_of_holdsAlong (by decide)) 1 0⟩

/-- Two requests that both register before the first is counted are both accepted, under a limit of
one. -/
theorem two_accepted_on_one_day :
    let c := run faucet (start 0 1 0 [some (.free 5), some (.free 6)])
      ([.start 1, .start 1, .turn 0 ready, .turn 1 ready] ++ List.replicate 9 (.turn 0 ready) ++
        List.replicate 10 (.turn 1 ready))
    ¬ accepted 1 0 c ≤ 1 := by
  decide

end Rest.Faucet.Proof
