import Mathlib.Algebra.GroupWithZero.Nat
import SupraL1.Lib.EState
import SupraL1.MoveCore

/-!
# Waiting for a transaction (`rest_utils/client`)

`await_finalized` asks for the status of a transaction until it is final, or until the expiration of
the transaction is past by a margin.

Times are natural numbers of nanoseconds. What the loop meets is a `Network`: the outcome of each
poll, how long it takes, and the clock. The build keeps overflow checks on, so the sum of the
expiration and the margin panics if it is not a `u64`.
-/

namespace Client

open EState
open Consensus (Bytes Hash)
open Move (TxExecutionStatus)

/-! ## Responses and errors -/

structure CliTransactionInfo where
  encoded : Bytes
  status : TxExecutionStatus
  deriving DecidableEq, Repr

inductive RpcResponse where
  | sendTransaction (hash : Hash) (expirationTimestampSecs : Nat)
  | transactionInfo (info : CliTransactionInfo)
  /-- Any other response. -/
  | unexpected (encoded : Bytes)
  deriving DecidableEq, Repr

/-- The variants of `CliError` that the commands give themselves, and all others by the message. -/
inductive CliError where
  | aborted (reason action : String)
  | unexpectedResponse (request : String) (response : RpcResponse)
  | restClient
  /-- `IdentityRotationError::ConsensusKey` -/
  | consensusKey (message : String)
  | other (message : String)
  deriving DecidableEq, Repr

/-! ## The wait -/

/-- `TX_FINALIZATION_MARGIN_SECS`. -/
def txFinalizationMarginSecs : Nat := 10

/-- The statuses with which `await_finalized` returns. -/
def isFinal : TxExecutionStatus → Bool
  | .success | .fail | .invalid => true
  | .pending | .pendingAfterExecution => false

structure Network where
  /-- `new_with_action`. -/
  newPoll : Nat → Except CliError Unit
  /-- `execute_action`. -/
  poll : Nat → Except CliError RpcResponse
  /-- The time from the request of a poll until its outcome is handled. A sleep comes on top. -/
  latency : Nat → Nat
  /-- How much longer than asked for the loop sleeps after a poll. -/
  oversleep : Nat → Nat
  /-- `SystemTime::now().duration_since(UNIX_EPOCH)` at a time. -/
  clock : Nat → Nat
  /-- `{}` of a hash, and `{:?}` of the action that asks for a transaction. -/
  showHash : Hash → String
  debugTransactionInfo : Hash → String

/-- A call of `await_finalized`: its arguments, what it meets and when it is made. -/
structure Call extends Network where
  txHash : Hash
  txExpirationTimestampSecs : Nat
  retryDelay : Nat
  start : Nat

/-- The second after which the call gives up. -/
def Call.deadlineSecs (C : Call) : Nat := C.txExpirationTimestampSecs + txFinalizationMarginSecs

/-- The time, and when the requests so far were made. -/
structure Wait where
  now : Nat
  requests : List Nat
  deriving DecidableEq, Repr

/-- How a wait ends without a transaction. -/
inductive Stop where
  | failed (e : CliError)
  | overflow
  /-- It does not end with the polls that are looked at. -/
  | waiting
  deriving DecidableEq, Repr

abbrev Timed := EStateM Stop Wait

/-- `Duration::as_secs`. -/
def asSecs (nanos : Nat) : Nat := nanos / 1000000000

/-- `?` on a result that is there. -/
def lift {α : Type} : Except CliError α → Timed α
  | .ok a => pure a
  | .error e => throw (.failed e)

def request : Timed Unit := modify fun w => { w with requests := w.requests ++ [w.now] }

/-- Time passes. -/
def pass (nanos : Nat) : Timed Unit := modify fun w => { w with now := w.now + nanos }

section
variable (C : Call)

/-- The arms of the `match` of `await_finalized`: the information on a transaction that is final. -/
def handleOutcome (i : Nat) : Except CliError RpcResponse → Timed (Option CliTransactionInfo)
  | .ok (.transactionInfo txInfo) =>
    if isFinal txInfo.status then return some txInfo
    else do
      pass (C.retryDelay + C.oversleep i)
      return none
  | .ok unexpectedResponse =>
    throw (.failed (.unexpectedResponse (C.debugTransactionInfo C.txHash) unexpectedResponse))
  | .error _ => return none

/-- Poll `i`. -/
def pollStatus (i : Nat) : Timed (Option CliTransactionInfo) := do
  lift (C.newPoll i)
  request
  pass (C.latency i)
  handleOutcome C i (C.poll i)

/-- `CliError::Aborted` with the texts of `await_finalized`. -/
def notFinalized : CliError :=
  .aborted ("Tx " ++ C.showHash C.txHash ++ " was not finalized within its expiration timestamp")
    (C.debugTransactionInfo C.txHash)

/-- The timeout check of `await_finalized`. -/
def checkTimeout : Timed Unit := do
  let w ← get
  if 2 ^ 64 ≤ C.deadlineSecs then throw .overflow
  else if C.deadlineSecs < asSecs (C.clock w.now) then throw (.failed (notFinalized C))

/-- The loop of `await_finalized` from poll `i` on, over so many polls. -/
def awaitLoop : Nat → Nat → Timed CliTransactionInfo
  | 0, _ => throw .waiting
  | n + 1, i => do
    match ← pollStatus C i with
    | some txInfo => return txInfo
    | none =>
      checkTimeout C
      awaitLoop n (i + 1)

/-- `await_finalized`, over its first `n` polls. -/
def awaitFinalized (n : Nat) : Timed CliTransactionInfo := awaitLoop C n 0

/-- The end of a call over its first `n` polls: the time and the requests, and the result. -/
def Call.waited (n : Nat) : Wait := after (awaitFinalized C n) ⟨C.start, []⟩

def Call.result (n : Nat) : Except Stop CliTransactionInfo := outcome (awaitFinalized C n) ⟨C.start, []⟩

end

end Client
