import SupraL1.Rest.RestCallLimiter
import SupraL1.Rest.RpcStorage

/-!
# Submitting a transaction (`rest/api/v1/transactions.rs`, `transactions/dispatcher.rs`)

A request to submit a transaction registers its sender with the limiter, has the transaction verified
in a blocking task, and gives it to the dispatcher. The dispatcher calls its consumers in the order in
which they were registered, until one fails: first the storage, then the client that sends the
transaction to the consensus. The faucet gives its transactions to the dispatcher directly. What the
client does with a message is its own: one that it reports an error for may have arrived all the same.

Many requests are served at a time, while executed blocks are inserted into the storage. The limiter is
behind a lock, so a registration is one atomic step, and so is the call of a consumer.
-/

namespace Rest.Submission

open Consensus (Hash)
open RestCallLimiter (LimitInstance Registration)
open Storage (ExecutedBlock RpcStorage)

/-! ## Data -/

/-- A transaction as it is submitted. -/
inductive SupraTransaction (M S : Type) where
  | move (txn : M)
  | smr (txn : S)
  deriving DecidableEq

/-- Where a transaction comes from: a request, or the faucet. -/
inductive Source (M S T : Type) where
  | submitted (request : SupraTransaction M S)
  | issued (txn : T)
  deriving DecidableEq

inductive TransactionDispatchError where
  | consumptionError (message : String)
  | fatal (message : String)
  deriving DecidableEq, Repr

/-- `RpcClientError`, with its text. -/
inductive RpcClientError where
  /-- `RpcWsClientError::NotConnected` -/
  | notConnected (message : String)
  | rpcWsClientError (message : String)
  | rpcRestClientError (message : String)
  deriving DecidableEq, Repr

/-- The variants of `crate::error::Error` that a submission can give before it is dispatched. -/
inductive Error where
  | tooManyRequests (allowIn : Nat)
  | badTransactionRequest (message : String)
  | other (message : String)
  deriving DecidableEq, Repr

/-- The types that implement `TTransactionConsumer`. -/
inductive Consumer where
  | rpcStorage
  | rpcClient
  deriving DecidableEq, Repr

/-- The consumers in the order in which `start_rpc_server` registers them. -/
def delegates : List Consumer := [.rpcStorage, .rpcClient]

/-- How the verification of a transaction ends. -/
inductive Verification where
  | verified
  | rejected (message : String)
  /-- the blocking task has panicked or was cancelled -/
  | taskFailed (message : String)
  deriving DecidableEq, Repr

/-- What a step is answered with: the time, whether the lock of the limiter is poisoned, the outcome of
the verification and the error of the client, if any. -/
structure Input where
  now : Nat
  poisoned : Bool
  verification : Verification
  clientError : Option RpcClientError

structure Env (M S T B A O N I : Type) where
  storage : Storage.Env T B A O N I
  sender : M → Move.AccountAddress
  signer : S → BitVec 256
  /-- `SmrTransaction::from` -/
  fromSupra : SupraTransaction M S → T

/-- The state of the server. For the record, there are also the messages that were given to the client,
whatever it made of them, and all registrations, the latest first. -/
structure Server (M S T B A : Type) where
  restCallLimiter : Option RestCallLimiter
  storage : RpcStorage B A
  sent : List (Source M S T)
  registrations : List Registration

inductive Request (M S T : Type) where
  /-- `submit_txn` -/
  | submit (request : SupraTransaction M S)
  /-- `tx_sender.send` of the faucet -/
  | issue (txn : T)
  | insertExecutedBlock (block : ExecutedBlock T)

/-- A call, by what it does next. -/
inductive Process (M S T : Type) where
  | register (request : SupraTransaction M S)
  | verify (request : SupraTransaction M S)
  /-- `TransactionDispatcher::send`, with the consumers that are left -/
  | dispatch (source : Source M S T) (left : List Consumer)
  | answered (source : Source M S T) (result : Except Error Hash)
  /-- answered with `TransactionAcceptStatus`, the error of a consumer -/
  | interrupted (source : Source M S T) (delegate : Consumer) (e : TransactionDispatchError)
  | expire (block : ExecutedBlock T)
  | finalize (block : ExecutedBlock T)
  | archive (block : ExecutedBlock T)
  | inserted (block : ExecutedBlock T)

section
variable {M S T B A O N I : Type} (E : Env M S T B A O N I)

def Env.transaction : Source M S T → T
  | .submitted request => E.fromSupra request
  | .issued txn => txn

/-- What the limiter counts a request for. -/
def Env.limitInstance : SupraTransaction M S → LimitInstance
  | .move txn => .account (E.sender txn)
  | .smr txn => .publicKey (E.signer txn)

/-! ## The steps -/

/-- The error of `RpcClient::consume`. -/
def RpcClientError.toDispatchError : RpcClientError → TransactionDispatchError
  | .notConnected message => .fatal message
  | .rpcWsClientError message | .rpcRestClientError message => .consumptionError message

/-- The registration with the limiter. -/
def register (input : Input) (s : Server M S T B A) (request : SupraTransaction M S) :
    Server M S T B A × Process M S T :=
  match s.restCallLimiter with
  | none => (s, .verify request)
  | some limiter =>
    if input.poisoned then
      (s, .answered (.submitted request)
        (.error (.other "PoisonError while holding lock RootStateCache")))
    else
      let (limiter', result) := limiter.register input.now (E.limitInstance request)
      let s' := { s with
        restCallLimiter := some limiter'
        registrations := ⟨E.limitInstance request, input.now, result.isOk⟩ :: s.registrations }
      match result with
      | .ok () => (s', .verify request)
      | .error (.tooManyRequests allowIn) =>
        (s', .answered (.submitted request) (.error (.tooManyRequests allowIn)))

/-- `RpcStorage::consume` and `RpcClient::consume`. -/
def consume (input : Input) (s : Server M S T B A) (source : Source M S T) :
    Consumer → Server M S T B A × Except TransactionDispatchError Unit
  | .rpcStorage =>
    match E.storage.insert s.storage.backlog (E.transaction source) with
    | .ok backlog => ({ s with storage.backlog := backlog }, .ok ())
    | .error e => (s, .error (.consumptionError e))
  | .rpcClient =>
    ({ s with sent := s.sent ++ [source] },
      match input.clientError with
      | none => .ok ()
      | some e => .error e.toDispatchError)

/-- The next step of a call. -/
def step (input : Input) (s : Server M S T B A) :
    Process M S T → Option (Server M S T B A × Process M S T × List (Process M S T))
  | .register request =>
    let (s', p) := register E input s request
    some (s', p, [])
  | .verify request =>
    match input.verification with
    | .verified => some (s, .dispatch (.submitted request) delegates, [])
    | .rejected e =>
      some (s, .answered (.submitted request) (.error (.badTransactionRequest e)), [])
    | .taskFailed e =>
      some (s, .answered (.submitted request)
        (.error (.other ("Transaction validation task failed: " ++ e))), [])
  | .dispatch source (delegate :: left) =>
    match consume E input s source delegate with
    | (s', .ok ()) => some (s', .dispatch source left, [])
    | (s', .error e) => some (s', .interrupted source delegate e, [])
  | .dispatch source [] =>
    some (s, .answered source (.ok (E.storage.digest (E.transaction source))), [])
  | .expire block =>
    some ({ s with storage.backlog := E.storage.expire s.storage.backlog block.timestamp },
      .finalize block, [])
  | .finalize block =>
    some ({ s with storage.backlog := block.transactions.foldl E.storage.finalize s.storage.backlog },
      .archive block, [])
  | .archive block =>
    some ({ s with storage.archive := E.storage.insertExecutedBlock s.storage.archive block },
      .inserted block, [])
  | .answered .. | .interrupted .. | .inserted .. => none

def server : Pool.Machine (Request M S T) Input (Server M S T B A) (Process M S T) where
  init
    | .submit request => .register request
    | .issue txn => .dispatch (.issued txn) delegates
    | .insertExecutedBlock block => .expire block
  step := step E

end

end Rest.Submission
