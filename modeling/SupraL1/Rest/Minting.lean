import SupraL1.Rest.Delegates
import SupraL1.Rest.Submission

/-!
# The minters of the faucet (`rest/faucet/mod.rs`, `minter_account.rs`, `faucet_impl.rs`,
`transactions/tx_execution_notification.rs`)

When the node starts, the faucet has no delegates. A background task generates the minters one after
the other: the root account funds an account and delegates the capability to mint to it, and the account
claims it. Each of the three is a transaction that is issued again until it succeeds, within a time
budget. When the last minter was generated, or has failed, the faucet gets its delegates. From then on a
call of `Faucet::try_fund` takes a free minter, which issues a transaction, and a waiter gives the minter
back when the transaction was executed or the time budget is exhausted. The calls and their waiters go
through the steps of `Delegates.step`.

The Move store, the dispatcher and the archive are open: a step finds what they answer, and nothing is
said of what becomes of a transaction. What the faucet has done with them is kept in a log.

A step is what a task does between two waits; a call of `Faucet::try_fund` on the faucet without
delegates is over in one. Times are in nanoseconds.
-/

namespace Rest.Minting

open Consensus (Hash)
open Delegates (MinterAccount DelegateState Call)
open Move
open Submission (TransactionDispatchError)

/-! ## Transactions -/

inductive TransactionPayload where
  | supraAccountTransfer (recipient : AccountAddress) (amount : Nat)
  | supraCoinDelegateMintCapability (recipient : AccountAddress)
  | supraCoinClaimMintCapability
  /-- `MINTER_SCRIPT` with its arguments -/
  | minterScript (accountAddress : AccountAddress) (amount : Nat)
  deriving DecidableEq, Repr

structure RawTransaction where
  sender : AccountAddress
  sequenceNumber : Nat
  payload : TransactionPayload
  maxGasAmount : Nat
  gasUnitPrice : Nat
  expirationTimestampSecs : Nat
  chainId : Nat
  deriving DecidableEq, Repr

def second : Nat := 1000000000

/-- `FAUCET_MAX_GAS` -/
def faucetMaxGas : Nat := 500000

/-- `FAUCET_GAS_UNIT_PRICE` -/
def faucetGasUnitPrice : Nat := 100

/-- `FAUCET_TRANSACTION_EXPIRY_SECONDS` -/
def faucetTransactionExpirySeconds : Nat := 60

/-- `MinterAccount::TX_MAX_WAIT` -/
def txMaxWait : Nat := 2 * 60 * second

/-- `MinterAccount::INITIAL_BALANCE` -/
def initialBalance : Nat := 10 * 1000000000

/-- `Faucet::ARCHIVE_POLL_PERIODICITY` -/
def archivePollPeriodicity : Nat := second

/-- `make_smr_move_tx`, at the time `now`. -/
def makeSmrMoveTx (now : Nat) (txPayload : TransactionPayload) (sequenceNumber chainId : Nat)
    (senderAccount : AccountAddress) : RawTransaction where
  sender := senderAccount
  sequenceNumber := sequenceNumber
  payload := txPayload
  maxGasAmount := faucetMaxGas
  gasUnitPrice := faucetGasUnitPrice
  expirationTimestampSecs := now / second + faucetTransactionExpirySeconds
  chainId := chainId

/-- What the faucet has done. -/
inductive Event where
  | generated (minter : MinterAccount)
  /-- A transaction is given to the dispatcher. -/
  | issued (tx : RawTransaction)
  /-- The dispatcher returns the hash of the transaction. -/
  | acknowledged (tx : RawTransaction)
  /-- The wait for the transaction ends with its status, or with an error of the archive. -/
  | reported (tx : RawTransaction) (result : Except String TxExecutionStatus)
  deriving DecidableEq

/-! ## Errors -/

inductive IssuingError where
  | badTransaction (txHash : Hash) (status : TxExecutionStatus)
  | archiveError (message : String)
  deriving DecidableEq, Repr

inductive MinterAccountError where
  | issuing (inner : IssuingError) (account : AccountAddress) (stage : String)
  | waitBudgetExhausted (txDescriptor : String) (budget : Nat)
  | txStatusError (e : TransactionDispatchError)
  | anyHow (message : String)
  deriving DecidableEq, Repr

structure Env where
  digest : RawTransaction → Hash
  /-- `aptos_test_root_address` -/
  rootAccount : AccountAddress
  quantsGrantedPerRequest : Nat
  /-- The texts of the errors, which are logged. -/
  dispatchErrorText : TransactionDispatchError → String
  minterAccountErrorText : MinterAccountError → String
  /-- `tx_descriptor` of `MinterAccount::try_fund` -/
  fundingDescriptor : AccountAddress → Nat → String

/-! ## Tasks -/

/-- The transactions of `MinterAccount::generate`. -/
inductive Stage where
  | fund
  | delegate
  | claim
  deriving DecidableEq, Repr

namespace Stage

def txDescriptor : Stage → String
  | .fund => "[Create/Fund minter account]"
  | .delegate => "[Delegate minting capabilities to minter account]"
  | .claim => "[Claiming minting capabilities by minter account]"

def txPayload (minterAccount : MinterAccount) : Stage → TransactionPayload
  | .fund => .supraAccountTransfer minterAccount initialBalance
  | .delegate => .supraCoinDelegateMintCapability minterAccount
  | .claim => .supraCoinClaimMintCapability

def senderAccount (E : Env) (minterAccount : MinterAccount) : Stage → AccountAddress
  | .fund | .delegate => E.rootAccount
  | .claim => minterAccount

def next : Stage → Option Stage
  | .fund => some .delegate
  | .delegate => some .claim
  | .claim => none

end Stage

/-- The state of `Faucet::prepare`: how many minters are still to be generated, those that are ready, and
the errors of the others, which it logs. -/
structure Preparation where
  left : Nat
  addresses : List MinterAccount
  failures : List MinterAccountError
  deriving DecidableEq, Repr

/-- Where `ensure_tx` is. -/
inductive Ensuring where
  | issuing
  | sending (tx : RawTransaction)
  | waiting (tx : RawTransaction) (wakeAt : Nat)
  deriving DecidableEq, Repr

inductive Process where
  /-- `Faucet::try_fund` and its waiter, at a lock, or about to issue a transaction. -/
  | call (p : Delegates.Process)
  /-- A call that waits for the dispatcher. -/
  | sending (call : Call) (i : Nat) (minter : MinterAccount) (tx : RawTransaction)
  /-- The waiter of a transaction, with the end of its time budget and the time of its next poll. -/
  | waiting (i : Nat) (minter : MinterAccount) (account : AccountAddress) (tx : RawTransaction)
      (deadline wakeAt : Nat)
  /-- `Faucet::prepare`, before the next minter. -/
  | preparing (q : Preparation)
  /-- `Faucet::prepare` in `ensure_tx` for a minter. -/
  | ensuring (q : Preparation) (minter : MinterAccount) (stage : Stage) (deadline : Nat) (e : Ensuring)
  | ended
  | panicked (message : String)
  deriving DecidableEq, Repr

structure Shared where
  clock : Nat
  delegates : List DelegateState
  log : List Event
  deriving DecidableEq

/-- What wakes a task: what it waits for, the end of its time budget, or the shutdown of the node. -/
inductive Wake where
  | ready
  | timer
  | shutdown
  deriving DecidableEq, Repr

/-- What a step finds. -/
structure Input where
  elapsed : Nat
  wake : Wake
  /-- `AccountResource::sequence_number` of the sender, if its account is in the Move store. -/
  sequenceNumber : Option Nat
  /-- `MoveStore::chain_id` -/
  chainId : Option Nat
  /-- The end of `TransactionDispatcher::send`, which returns the hash of the transaction. -/
  dispatch : Except TransactionDispatchError Unit
  /-- `ArchiveReader::get_transaction_status` -/
  status : Except String (Option TxExecutionStatus)
  /-- `ProtectedProfile::generate` -/
  generated : Except String MinterAccount

/-- How `issue_tx` can end before it sends the transaction. -/
inductive IssueFailure where
  | panic (message : String)
  | dispatch (e : TransactionDispatchError)
  deriving DecidableEq, Repr

/-- One poll of `TxExecutionNotification::wait`: how it ends, or none if it goes on. -/
def poll : Except String (Option TxExecutionStatus) → Option (Except String TxExecutionStatus)
  | .error e => some (.error e)
  | .ok (some .pending) | .ok (some .pendingAfterExecution) | .ok none => none
  | .ok (some status) => some (.ok status)

section
variable (E : Env) (input : Input)

/-- `issue_tx`, up to the sending of the transaction. -/
def issueTx (now : Nat) (txPayload : TransactionPayload) (senderAccount : AccountAddress) :
    Except IssueFailure RawTransaction :=
  match input.sequenceNumber with
  | none => .error (.panic "missing sender account")
  | some sequenceNumber =>
    match input.chainId with
    | none => .error (.dispatch (.fatal "Failed to  obtain ChainId from on chain resource"))
    | some chainId => .ok (makeSmrMoveTx now txPayload sequenceNumber chainId senderAccount)

/-- How the task that `issue_tx` spawns ends. -/
def issueResult (tx : RawTransaction) : Except String TxExecutionStatus → Except IssuingError Hash
  | .ok .success => .ok (E.digest tx)
  | .ok status => .error (.badTransaction (E.digest tx) status)
  | .error e => .error (.archiveError e)

def Shared.record (s : Shared) (e : Event) : Shared := { s with log := s.log ++ [e] }

/-! ### The preparation -/

/-- The next minter, after an error that is logged. -/
def Preparation.fail (q : Preparation) (e : MinterAccountError) : Process :=
  .preparing { q with failures := q.failures ++ [e] }

/-- The background task of `start_rpc_server`. -/
def prepare (s : Shared) (q : Preparation) : Shared × Process :=
  match q.left with
  | 0 => ({ s with delegates := q.addresses.map .new }, .ended)
  | left + 1 =>
    match input.generated with
    | .error e => (s, { q with left := left }.fail (.anyHow e))
    | .ok minter =>
      (s.record (.generated minter),
        .ensuring { q with left := left } minter .fund (s.clock + txMaxWait) .issuing)

/-- The end of a stage. -/
def advance (s : Shared) (q : Preparation) (minter : MinterAccount) (stage : Stage) : Process :=
  match stage.next with
  | some stage => .ensuring q minter stage (s.clock + txMaxWait) .issuing
  | none => .preparing { q with addresses := q.addresses ++ [minter] }

/-- `ensure_tx`, up to its next wait. -/
def ensureTx (s : Shared) (q : Preparation) (minter : MinterAccount) (stage : Stage) (deadline : Nat) :
    Ensuring → Shared × Process
  | .issuing =>
    match issueTx input s.clock (stage.txPayload minter) (stage.senderAccount E minter) with
    | .ok tx => (s.record (.issued tx), .ensuring q minter stage deadline (.sending tx))
    | .error (.panic message) => (s, .panicked message)
    | .error (.dispatch e) => (s, q.fail (.txStatusError e))
  | .sending tx =>
    if input.wake = .timer ∧ deadline ≤ s.clock then
      (s, q.fail (.waitBudgetExhausted stage.txDescriptor txMaxWait))
    else
      match input.dispatch with
      | .error e => (s, q.fail (.txStatusError e))
      | .ok () =>
        (s.record (.acknowledged tx),
          .ensuring q minter stage deadline (.waiting tx (s.clock + archivePollPeriodicity)))
  | .waiting tx wakeAt =>
    if input.wake = .timer ∧ deadline ≤ s.clock then
      (s, q.fail (.waitBudgetExhausted stage.txDescriptor txMaxWait))
    else if s.clock < wakeAt then (s, .ensuring q minter stage deadline (.waiting tx wakeAt))
    else
      match poll input.status with
      | none =>
        (s, .ensuring q minter stage deadline (.waiting tx (s.clock + archivePollPeriodicity)))
      | some result =>
        (s.record (.reported tx result),
          match issueResult E tx result with
          | .ok _ => advance s q minter stage
          | .error (.badTransaction ..) => .ensuring q minter stage deadline .issuing
          | .error e => q.fail (.issuing e (stage.senderAccount E minter) stage.txDescriptor))

/-! ### The calls -/

/-- A step of a call or of its waiter; `fork` is what it makes of a waiter that is spawned. -/
def delegate (s : Shared) (found : Delegates.Input) (fork : Delegates.Process → Process)
    (p : Delegates.Process) : Option (Shared × Process × List Process) :=
  (Delegates.step found s.delegates p).map fun (delegates, p', forked) =>
    ({ s with delegates := delegates }, .call p', forked.map fork)

/-- A lock of a delegate finds no transaction or waiter. -/
def locked : Delegates.Input := ⟨.error "", .shutdown⟩

/-- The end of `MinterAccount::try_fund`. -/
def dispatched (result : Except TransactionDispatchError Hash) : Delegates.Input :=
  ⟨result.mapError E.dispatchErrorText, .shutdown⟩

/-- The end of the task that `MinterAccount::try_fund` spawns. -/
def waited (result : Except MinterAccountError Hash) : Delegates.Input :=
  ⟨.error "", .txResult (.ok (result.mapError E.minterAccountErrorText))⟩

/-- The waiter of a transaction. -/
def waiter (tx : RawTransaction) (deadline wakeAt : Nat) : Delegates.Process → Process
  | .waiting i minter account _ => .waiting i minter account tx deadline wakeAt
  | p => .call p

/-- `MinterAccount::try_fund`, up to the sending of its transaction. -/
def tryFund (s : Shared) (call : Call) (i : Nat) (minter : MinterAccount) :
    Option (Shared × Process × List Process) :=
  match issueTx input s.clock (.minterScript call.account E.quantsGrantedPerRequest) minter with
  | .ok tx => some (s.record (.issued tx), .sending call i minter tx, [])
  | .error (.panic message) => some (s, .panicked message, [])
  | .error (.dispatch e) => delegate s (dispatched E (.error e)) .call (.dispatching call i minter)

/-- `MinterAccount::try_fund`, when its transaction was sent. -/
def sent (s : Shared) (call : Call) (i : Nat) (minter : MinterAccount) (tx : RawTransaction) :
    Option (Shared × Process × List Process) :=
  match input.dispatch with
  | .error e => delegate s (dispatched E (.error e)) .call (.dispatching call i minter)
  | .ok () =>
    delegate (s.record (.acknowledged tx)) (dispatched E (.ok (E.digest tx)))
      (waiter tx (s.clock + txMaxWait) (s.clock + archivePollPeriodicity)) (.dispatching call i minter)

/-- The waiter of `DelegateState::try_fund`. -/
def wait (s : Shared) (i : Nat) (minter : MinterAccount) (account : AccountAddress) (tx : RawTransaction)
    (deadline wakeAt : Nat) : Option (Shared × Process × List Process) :=
  match input.wake with
  | .shutdown => delegate s locked .call (.waiting i minter account (E.digest tx))
  | .timer =>
    if deadline ≤ s.clock then
      delegate s (waited E (.error (.waitBudgetExhausted
        (E.fundingDescriptor account E.quantsGrantedPerRequest) txMaxWait))) .call
        (.waiting i minter account (E.digest tx))
    else some (s, .waiting i minter account tx deadline wakeAt, [])
  | .ready =>
    if s.clock < wakeAt then some (s, .waiting i minter account tx deadline wakeAt, [])
    else
      match poll input.status with
      | none => some (s, .waiting i minter account tx deadline (s.clock + archivePollPeriodicity), [])
      | some result =>
        delegate (s.record (.reported tx result)) (waited E ((issueResult E tx result).mapError
          (.issuing · minter "MINTER_SCRIPT"))) .call (.waiting i minter account (E.digest tx))

/-! ### The steps -/

/-- A step, at the time of the clock. -/
def stepAt (s : Shared) : Process → Option (Shared × Process × List Process)
  | .call (.dispatching call i minter) => tryFund E input s call i minter
  | .call p => delegate s locked .call p
  | .sending call i minter tx => sent E input s call i minter tx
  | .waiting i minter account tx deadline wakeAt => wait E input s i minter account tx deadline wakeAt
  | .preparing q =>
    match input.wake with
    | .shutdown => some (s, .ended, [])
    | .ready | .timer =>
      let (s', p) := prepare input s q
      some (s', p, [])
  | .ensuring q minter stage deadline e =>
    match input.wake with
    | .shutdown => some (s, .ended, [])
    | .ready | .timer =>
      let (s', p) := ensureTx E input s q minter stage deadline e
      some (s', p, [])
  | .ended | .panicked _ => none

def step (s : Shared) (p : Process) : Option (Shared × Process × List Process) :=
  stepAt E input { s with clock := s.clock + input.elapsed } p

end

/-- The faucet, with the calls of `Faucet::try_fund`. -/
def faucet (E : Env) : Pool.Machine AccountAddress Input Shared Process where
  init account := .call (Delegates.tryFund.init account)
  step := step E

/-- The faucet at the start of the node. -/
def start (clock numMinters : Nat) : Pool.Config Shared Process :=
  ⟨⟨clock, [], []⟩, [.preparing ⟨numMinters, [], []⟩]⟩

end Rest.Minting
