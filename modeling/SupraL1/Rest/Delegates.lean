import SupraL1.Lib.Pool
import SupraL1.MoveCore

/-!
# The delegates of the faucet (`rest/faucet/faucet_impl.rs`, `rest/faucet/minter_account.rs`)

Calls of `Faucet::try_fund` run concurrently. A call locks the state of one delegate at a time and
never holds a lock while it waits, so a step is what a call does under one lock, or what it does when
a transaction has been dispatched. A dispatch that succeeds spawns a waiter, which frees the delegate
when the transaction has been executed, has failed or was waited for too long.
-/

namespace Rest.Delegates

open Consensus (Hash)
open Move

/-- A `MinterAccount`, by its address. -/
abbrev MinterAccount := AccountAddress

inductive Delegate where
  | busy (minter : MinterAccount) (targetAccount : AccountAddress)
  | free (minter : MinterAccount)
  deriving DecidableEq, Repr

namespace Delegate

def isFree : Delegate → Bool
  | .free _ => true
  | .busy .. => false

def minter : Delegate → MinterAccount
  | .free minter => minter
  | .busy minter _ => minter

end Delegate

/-- What the mutex of a `DelegateState` guards. -/
abbrev DelegateState := Option Delegate

/-- `DelegateState::new`. -/
def DelegateState.new (minter : MinterAccount) : DelegateState := some (.free minter)

/-- A call of `Faucet::try_fund`: its argument, and the hashes of the transactions that its minters
have dispatched. -/
structure Call where
  account : AccountAddress
  dispatched : List Hash
  deriving DecidableEq, Repr

/-- A call or a waiter, by what it does next. The index is that of the delegate whose state is to be
locked, or of the one that is held. -/
inductive Process where
  /-- Counts the free delegates, before the first attempt. -/
  | assessing (call : Call) (i freeDelegates : Nat)
  | requesting (call : Call) (i : Nat)
  /-- Waits for `MinterAccount::try_fund`. -/
  | dispatching (call : Call) (i : Nat) (minter : MinterAccount)
  /-- Frees the delegate whose dispatch has failed. -/
  | releasing (call : Call) (i : Nat) (minter : MinterAccount)
  /-- Counts the free delegates, after a dispatch. -/
  | processing (call : Call) (txHash : Hash) (i freeDelegates : Nat)
  | returned (call : Call) (result : Option Hash)
  /-- The task that waits for the execution. -/
  | waiting (i : Nat) (minter : MinterAccount) (account : AccountAddress) (txHash : Hash)
  | gettingFree (i : Nat) (minter : MinterAccount)
  | ended
  | panicked (message : String)
  deriving DecidableEq, Repr

/-- What wakes a waiter. -/
inductive Wake where
  /-- The handle of `MinterAccount::try_fund`: the transaction was executed, it failed, the time budget
  is exhausted, or the task could not be joined. The errors are only logged, by their texts. -/
  | txResult (result : Except String (Except String Hash))
  | shutdown

/-- What a step finds: how the dispatch has ended, and what wakes the waiter. -/
structure Input where
  dispatch : Except String Hash
  wake : Wake

/-- `DelegateState::is_free`, for the count of the free delegates. -/
def countFree (freeDelegates : Nat) : DelegateState → Except String Nat
  | none => .error "[BUG] DelegateState must always contain Delegate"
  | some delegate => .ok (if delegate.isFree then freeDelegates + 1 else freeDelegates)

/-- One lock of a state, or the end of one wait. -/
def step (input : Input) (s : List DelegateState) :
    Process → Option (List DelegateState × Process × List Process)
  | .assessing call i freeDelegates =>
    match s[i]? with
    | some state => match countFree freeDelegates state with
      | .ok freeDelegates => some (s, .assessing call (i + 1) freeDelegates, [])
      | .error e => some (s, .panicked e, [])
    | none =>
      if freeDelegates = 0 then some (s, .returned call none, []) else some (s, .requesting call 0, [])
  | .requesting call i =>
    match s[i]? with
    | none => some (s, .returned call none, [])
    | some none => some (s, .panicked "[BUG] DelegateState must always contain Delegate", [])
    | some (some (.busy ..)) => some (s, .requesting call (i + 1), [])
    | some (some (.free minter)) =>
      some (s.set i (some (.busy minter call.account)), .dispatching call i minter, [])
  | .dispatching call i minter =>
    match input.dispatch with
    | .error _ => some (s, .releasing call i minter, [])
    | .ok txHash =>
      some (s, .processing { call with dispatched := call.dispatched ++ [txHash] } txHash 0 0,
        [.waiting i minter call.account txHash])
  | .releasing call i minter => some (s.set i (some (.free minter)), .requesting call (i + 1), [])
  | .processing call txHash i freeDelegates =>
    match s[i]? with
    | some state => match countFree freeDelegates state with
      | .ok freeDelegates => some (s, .processing call txHash (i + 1) freeDelegates, [])
      | .error e => some (s, .panicked e, [])
    | none => some (s, .returned call (some txHash), [])
  | .waiting i minter _ _ =>
    match input.wake with
    | .txResult _ => some (s, .gettingFree i minter, [])
    | .shutdown => some (s, .ended, [])
  | .gettingFree i minter =>
    match s[i]? with
    | none | some none => some (s, .panicked "[BUG] Delegate state may not be empty", [])
    | some (some (.free _)) => some (s, .panicked "must be Busy", [])
    | some (some (.busy ..)) => some (s.set i (some (.free minter)), .ended, [])
  | .returned .. | .ended | .panicked _ => none

/-- The calls of `Faucet::try_fund` and their waiters. -/
def tryFund : Pool.Machine AccountAddress Input (List DelegateState) Process where
  init account := .assessing ⟨account, []⟩ 0 0
  step := step

/-- `Faucet::new`. -/
def new (minterAccounts : List MinterAccount) : Pool.Config (List DelegateState) Process :=
  ⟨minterAccounts.map .new, []⟩

end Rest.Delegates
