import SupraL1.Rest.Delegates

/-!
# The faucet (`rest/faucet_call_limiter.rs`, `faucet` in `api/v1/wallet.rs`)

A request registers its account with the call limiter, calls `Faucet::try_fund`, and counts the use of
the account when a transaction was dispatched. The limiter is behind a lock that the request takes
twice; between the two it goes through the steps of its call (`Delegates.step`), and at each of them
other requests and waiters may run. A step reads the clock once. The build keeps overflow checks on,
so an addition of two `u64` that overflows is a panic.
-/

namespace Rest.Faucet

open Consensus (Hash)
open Delegates (DelegateState)
open Move

/-! ## The call limiter -/

/-- `SECONDS_IN_A_DAY`. -/
def secondsInADay : Nat := 86400

/-- The UTC day of a time in seconds since the epoch. -/
def day (secs : Nat) : Nat := secs / secondsInADay

/-- An addition of two `u64`. -/
def addU64 (a b : Nat) : Option Nat := if a + b < 2 ^ 64 then some (a + b) else none

structure FaucetLimiterValue where
  countOfUsage : Nat := 0
  lastUsedTime : Nat := 0
  deriving DecidableEq, Repr

structure FaucetCallLimiter where
  cache : AccountAddress → Option FaucetLimiterValue
  maxDailyRequest : Nat
  cooldownPeriodSecs : Nat
  lastResetSecs : Nat

inductive FaucetLimiterError where
  | cooldown (account : AccountAddress) (period : Nat)
  | dailyLimitExceeded (account : AccountAddress) (dailyRequestLimit : Nat) (retryIn : String)
  deriving DecidableEq, Repr

/-- What a request can fail with: an error of the limiter, or a panic. -/
inductive Failure where
  | limiter (e : FaucetLimiterError)
  | overflow
  deriving DecidableEq, Repr

namespace FaucetCallLimiter

/-- `FaucetCallLimiter::new`. -/
def new (now maxDailyRequest cooldownPeriodSecs : Nat) : FaucetCallLimiter :=
  ⟨fun _ => none, maxDailyRequest, cooldownPeriodSecs, now⟩

/-- `{:02}`. -/
def twoDigits (n : Nat) : String := if n < 10 then "0" ++ toString n else toString n

/-- `time_left_for_the_day`. -/
def timeLeftForTheDay (now : Nat) : String :=
  let secondsLeft := secondsInADay - now % secondsInADay
  twoDigits (secondsLeft / 3600) ++ "h : " ++ twoDigits (secondsLeft % 3600 / 60) ++ "m :" ++
    twoDigits (secondsLeft % 60) ++ "s"

/-- `reset_cache_if_needed`. -/
def resetCacheIfNeeded (L : FaucetCallLimiter) (now : Nat) : FaucetCallLimiter :=
  if day L.lastResetSecs < day now then { L with cache := fun _ => none, lastResetSecs := now } else L

/-- What `cache.entry(account).or_default()` refers to. -/
def entry (L : FaucetCallLimiter) (account : AccountAddress) : FaucetLimiterValue :=
  (L.cache account).getD {}

def setEntry (L : FaucetCallLimiter) (account : AccountAddress) (v : FaucetLimiterValue) :
    FaucetCallLimiter :=
  { L with cache := Function.update L.cache account (some v) }

/-- `register_account`. -/
def registerAccount (L : FaucetCallLimiter) (now : Nat) (account : AccountAddress) :
    FaucetCallLimiter × Except Failure Unit :=
  let L := L.resetCacheIfNeeded now
  let cacheItem := L.entry account
  let L := L.setEntry account cacheItem
  if cacheItem.countOfUsage < L.maxDailyRequest then
    match addU64 cacheItem.lastUsedTime L.cooldownPeriodSecs with
    | none => (L, .error .overflow)
    | some next =>
      if next ≤ now then (L, .ok ())
      else (L, .error (.limiter (.cooldown account (next - now))))
  else
    (L, .error (.limiter
      (.dailyLimitExceeded account L.maxDailyRequest (timeLeftForTheDay now))))

/-- `increment_account_use_counter_if_under_limit`. -/
def incrementAccountUseCounterIfUnderLimit (L : FaucetCallLimiter) (now : Nat)
    (account : AccountAddress) : FaucetCallLimiter × Except Failure Unit :=
  let cacheItem := L.entry account
  let L := L.setEntry account cacheItem
  if cacheItem.countOfUsage < L.maxDailyRequest then
    match addU64 cacheItem.lastUsedTime L.cooldownPeriodSecs with
    | none => (L, .error .overflow)
    | some next =>
      if next ≤ now then (L.setEntry account ⟨cacheItem.countOfUsage + 1, now⟩, .ok ())
      else (L, .ok ())
  else (L, .ok ())

end FaucetCallLimiter

/-! ## Requests -/

/-- `FaucetStatus`. -/
inductive FaucetStatus where
  | accepted (hash : Hash)
  | tryLater
  deriving DecidableEq, Repr

structure Shared where
  /-- The system time in seconds since the epoch. -/
  clock : Nat
  limiter : FaucetCallLimiter
  delegates : List DelegateState

/-- A request, by what it does next, or a waiter that its call has spawned. A request keeps the time at
which its account was registered. -/
inductive Process where
  | received (account : AccountAddress)
  | refused (account : AccountAddress) (e : Failure)
  | funding (account : AccountAddress) (time : Nat) (call : Delegates.Process)
  | answered (account : AccountAddress) (time : Nat) (result : Except Failure FaucetStatus)
  | waiter (p : Delegates.Process)

/-- What a step finds: the time that has passed since the step before it, and what a call or a waiter
finds. -/
structure Input where
  elapsed : Nat
  call : Delegates.Input

def step (input : Input) (s : Shared) : Process → Option (Shared × Process × List Process)
  | .received account =>
    let now := s.clock + input.elapsed
    match s.limiter.registerAccount now account with
    | (limiter, .ok ()) =>
      some (⟨now, limiter, s.delegates⟩, .funding account now (Delegates.tryFund.init account), [])
    | (limiter, .error e) => some (⟨now, limiter, s.delegates⟩, .refused account e, [])
  | .funding account time (.returned _ none) =>
    some (⟨s.clock + input.elapsed, s.limiter, s.delegates⟩, .answered account time (.ok .tryLater), [])
  | .funding account time (.returned _ (some hash)) =>
    let now := s.clock + input.elapsed
    match s.limiter.incrementAccountUseCounterIfUnderLimit now account with
    | (limiter, .ok ()) =>
      some (⟨now, limiter, s.delegates⟩, .answered account time (.ok (.accepted hash)), [])
    | (limiter, .error e) => some (⟨now, limiter, s.delegates⟩, .answered account time (.error e), [])
  | .funding account time p =>
    (Delegates.step input.call s.delegates p).map fun (delegates, p', waiters) =>
      (⟨s.clock + input.elapsed, s.limiter, delegates⟩, .funding account time p', waiters.map .waiter)
  | .waiter p =>
    (Delegates.step input.call s.delegates p).map fun (delegates, p', waiters) =>
      (⟨s.clock + input.elapsed, s.limiter, delegates⟩, .waiter p', waiters.map .waiter)
  | .refused .. | .answered .. => none

/-- The handler `faucet`, with the faucet enabled. -/
def faucet : Pool.Machine AccountAddress Input Shared Process where
  init := .received
  step := step

/-- The server at its start. -/
def start (now maxDailyRequest cooldownPeriodSecs : Nat) (delegates : List DelegateState) :
    Pool.Config Shared Process :=
  ⟨⟨now, .new now maxDailyRequest cooldownPeriodSecs, delegates⟩, []⟩

/-! ## One request after the other -/

/-- A request that is handled while no other is: the times at which it registers its account and
counts the use, and what `Faucet::try_fund` gives. -/
structure Request where
  account : AccountAddress
  registered : Nat
  funded : Option Hash
  incremented : Nat

def FaucetCallLimiter.handle (L : FaucetCallLimiter) (r : Request) :
    FaucetCallLimiter × Except Failure FaucetStatus :=
  match L.registerAccount r.registered r.account with
  | (L, .error e) => (L, .error e)
  | (L, .ok ()) =>
    match r.funded with
    | none => (L, .ok .tryLater)
    | some hash =>
      match L.incrementAccountUseCounterIfUnderLimit r.incremented r.account with
      | (L, .ok ()) => (L, .ok (.accepted hash))
      | (L, .error e) => (L, .error e)

/-- One more request, with the log of those before it, the latest first. -/
def handleNext (s : FaucetCallLimiter × List (Request × Except Failure FaucetStatus)) (r : Request) :
    FaucetCallLimiter × List (Request × Except Failure FaucetStatus) :=
  let (L, result) := s.1.handle r
  (L, (r, result) :: s.2)

/-- The limiter and its log after some requests. -/
def handleAll (L : FaucetCallLimiter) (requests : List Request) :
    FaucetCallLimiter × List (Request × Except Failure FaucetStatus) :=
  requests.foldl handleNext (L, [])

/-- The times of the requests do not decrease, from `now` on. -/
def InOrder (now : Nat) : List Request → Prop
  | [] => True
  | r :: requests => now ≤ r.registered ∧ r.registered ≤ r.incremented ∧ InOrder r.incremented requests

end Rest.Faucet
