import SupraL1.Lib.Pool

/-!
# Simulating a Move transaction (`ApiServerState::run_move_transaction_simulation`)

The number of simulations that run at a time is limited by a gauge that all calls share. A call
reads the gauge, increments it, awaits a blocking task with the simulation and decrements the gauge;
these are the atomic steps of a process. `??` after the `await` returns from the function, with the
error of the task or with an error for a task that panicked.
-/

namespace Rest.Simulation

/-- The variants of `ApiServerError` that a simulation can give. -/
inductive ApiServerError where
  /-- "Too many concurrent simulations" -/
  | tooManyConcurrentSimulations
  /-- "Transaction to be simulated should not have valid signature." -/
  | invalidSimulationTransaction
  | inconsistentArchiveState (message : String)
  | other (message : String)
  deriving DecidableEq, Repr

/-- `SerializedOutput`. -/
inductive SerializedOutput (O : Type) where
  | move (output : O)
  | supra (message : String)

/-- `TransactionInfoV2`, with the parts that the simulation computes. -/
structure TransactionInfoV2 (T P A : Type) where
  transaction : T
  payload : P
  output : Option A
  deriving DecidableEq, Repr

/-- The crates below, with their errors by the message: transactions `T`, views `V` of the Move store, outputs `O` of the VM, payloads
`P` and outputs `A` of the API. -/
structure Env (T V O P A : Type) where
  /-- `verify_signature().is_ok()` -/
  verifySignature : T → Bool
  /-- `AptosSimulationVM::create_vm_and_simulate_signed_transaction` -/
  simulateSignedTransaction : T → V → O
  /-- `Converter::try_into_transaction_payload` -/
  tryIntoTransactionPayload : V → T → Except String P
  /-- `Converter::convert_to_api_move_transaction_output` -/
  convertToApiMoveTransactionOutput : V → O → Except String A

/-- What a turn of a call finds: the state view with which its task ran, and the error of the join
handle when the task has panicked. -/
structure Input (V : Type) where
  stateView : V
  joinError : Option String

section
variable {T V O P A : Type} (E : Env T V O P A)

/-- `api_move_transaction_output`. -/
def apiMoveTransactionOutput (view : V) :
    Option (SerializedOutput O) → Except ApiServerError (Option A)
  | none => .ok none
  | some (.move output) =>
    match E.convertToApiMoveTransactionOutput view output with
    | .error e => .error (.other e)
    | .ok output => .ok (some output)
  | some (.supra _) => .error (.inconsistentArchiveState "Move transaction has non-move output.")

/-- `move_transaction_info`. -/
def moveTransactionInfo (view : V) (txn : T) (output : Option (SerializedOutput O)) :
    Except ApiServerError (TransactionInfoV2 T P A) :=
  match E.tryIntoTransactionPayload view txn with
  | .error e => .error (.other e)
  | .ok payload => do
    let output ← apiMoveTransactionOutput E view output
    return ⟨txn, payload, output⟩

/-- The closure of `spawn_blocking`, as its join handle returns it. -/
def blockingTask (input : Input V) (txn : T) :
    Except String (Except ApiServerError (TransactionInfoV2 T P A)) :=
  match input.joinError with
  | some e => .error e
  | none => .ok <|
    if E.verifySignature txn then .error .invalidSimulationTransaction
    else moveTransactionInfo E input.stateView txn
      (some (.move (E.simulateSignedTransaction txn input.stateView)))

def maxConcurrency : UInt16 := 512

/-- A call of `run_move_transaction_simulation`, by what it does next. -/
inductive Call (T I : Type) where
  /-- It reads the gauge. -/
  | called (txn : T)
  /-- It increments the gauge and spawns the task. -/
  | admitted (txn : T)
  /-- It awaits the task. -/
  | running (txn : T)
  /-- It decrements the gauge and returns. -/
  | simulated (info : I)
  | returned (result : Except ApiServerError I)

/-- The next step of a call; the gauge is `CURRENT_NUM_OF_CONCURRENT_SIMULATION`, which wraps. -/
def step (input : Input V) (gauge : UInt16) : Call T (TransactionInfoV2 T P A) →
    Option (UInt16 × Call T (TransactionInfoV2 T P A) × List (Call T (TransactionInfoV2 T P A)))
  | .called txn =>
    if maxConcurrency ≤ gauge then
      some (gauge, .returned (.error .tooManyConcurrentSimulations), [])
    else some (gauge, .admitted txn, [])
  | .admitted txn => some (gauge + 1, .running txn, [])
  | .running txn =>
    match blockingTask E input txn with
    | .error e =>
      some (gauge, .returned (.error (.other ("Simulation blocking task failure: " ++ e))), [])
    | .ok (.error e) => some (gauge, .returned (.error e), [])
    | .ok (.ok info) => some (gauge, .simulated info, [])
  | .simulated info => some (gauge - 1, .returned (.ok info), [])
  | .returned _ => none

def runMoveTransactionSimulation :
    Pool.Machine T (Input V) UInt16 (Call T (TransactionInfoV2 T P A)) where
  init := .called
  step := step E

end

/-- The server before the first call. -/
def start {T I : Type} : Pool.Config UInt16 (Call T I) := ⟨0, []⟩

end Rest.Simulation
