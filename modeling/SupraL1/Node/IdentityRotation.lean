import SupraL1.Client.AwaitFinalized

/-!
# Rotating the keys of a validator (`node/identity_rotation`, `rest_utils`)

`RotateConsensusKey` and `RotateNetworkAddress` generate a key, send a transaction that installs it
on chain, wait until the transaction is finalized with success, and write the identity file with the
new key. A command is a computation on the node's files; what the network, the file system and the
user answer is given by `Outcomes`. The process can be killed before each of its effects: it has
`effectsLeft` of them. The wait for the transaction is that of `Client.AwaitFinalized`, in which every
request is an effect.
-/

namespace Node.IdentityRotation

open Client (CliError CliTransactionInfo RpcResponse)
open Consensus (Bytes Hash)
open Move (TxExecutionStatus)

/-- How a command ends early. -/
inductive Stop where
  | failed (e : CliError)
  /-- A sum of two `u64` overflows. -/
  | overflow
  | killed
  deriving DecidableEq, Repr

/-! ## The identity of a node -/

/-- A secret key. -/
abbrev Secret := Bytes

/-- Where the network layer of a node is reached. -/
inductive Host where
  | socketAddr (addr : String)
  | dns (name : String) (port : Nat)
  deriving DecidableEq, Repr

structure NodeIdentity where
  consensus : Secret
  networkKey : Secret
  host : Host
  deriving DecidableEq, Repr

/-- The files of a node. -/
structure Files where
  identity : NodeIdentity
  backups : List NodeIdentity
  /-- The identity of which the public part is exported. -/
  publicIdentity : Option NodeIdentity
  deriving DecidableEq, Repr

structure World where
  effectsLeft : Nat
  files : Files
  /-- The network has accepted the transaction of the command. -/
  accepted : Bool
  deriving DecidableEq, Repr

abbrev Cli := EStateM Stop World

/-- What the effects of a command find. -/
structure Outcomes where
  signerProfile : Except CliError Unit
  poolAddress : Except CliError Unit
  /-- `NodeIdentity::from_encrypted_file` -/
  readIdentity : Except CliError Unit
  /-- The secret key that is generated. -/
  newSecret : Secret
  /-- `Ed25519PublicKey::try_from` -/
  newPublicKey : Except String Unit
  /-- `NetworkAddress::encode` -/
  encodeAddress : Except CliError Unit
  /-- `SocketAddr::from_str` and `u16::from_str` -/
  parseSocketAddr : String → Option String
  parsePort : String → Option Nat
  /-- The profile as `send_transaction` reads it once more. -/
  signerProfileToSend : Except CliError Unit
  /-- `confirm_or_modify_gas_parameters` -/
  gasParameters : Except CliError Unit
  /-- Whether the network accepts the transaction, and what it answers: one may happen without the
  other. -/
  accepts : Bool
  sendReply : Except CliError RpcResponse
  /-- What the wait for the transaction meets, when it begins, and the delay of its polls. -/
  network : Client.Network
  sentAt : Nat
  retryDelay : Nat
  transactionInfo : Except CliError RpcResponse
  backup : Except CliError Unit
  writeIdentity : Except CliError Unit
  writePublicIdentity : Except CliError Unit
  /-- `{:?}` of the payload, `{}` of a status -/
  debugPayload : String
  showStatus : TxExecutionStatus → String

/-- `?` on a result that is there. -/
def lift {α : Type} : Except CliError α → Cli α
  | .ok a => pure a
  | .error e => throw (.failed e)

/-- The process gets to its next effect. -/
def tick : Cli Unit := do
  let w ← get
  if w.effectsLeft = 0 then throw .killed
  else modify fun w => { w with effectsLeft := w.effectsLeft - 1 }

/-- An effect, with `?`. -/
def effect {α : Type} (r : Except CliError α) : Cli α := do
  tick
  lift r

/-! ## Sending a transaction -/

/-- The call of `await_finalized` that a command makes. -/
def Outcomes.await (O : Outcomes) (hash : Hash) (expirationTimestampSecs : Nat) : Client.Call :=
  { O.network with
    txHash := hash
    txExpirationTimestampSecs := expirationTimestampSecs
    retryDelay := O.retryDelay
    start := O.sentAt }

section
variable (O : Outcomes)

/-- `await_finalized`, over as many polls as there are effects left. -/
def awaitFinalized (hash : Hash) (expirationTimestampSecs : Nat) : Cli CliTransactionInfo := fun w =>
  let call := O.await hash expirationTimestampSecs
  let requests := (call.waited w.effectsLeft).requests
  let w' := { w with effectsLeft := w.effectsLeft - requests.length }
  match call.result w.effectsLeft with
  | .ok info => .ok info w'
  | .error (.failed e) => .error (.failed e) w'
  | .error .overflow => .error .overflow w'
  | .error .waiting => .error .killed w'

/-- `await_finalized_with_success`. -/
def awaitFinalizedWithSuccess (hash : Hash) (expirationTimestampSecs : Nat) : Cli Unit := do
  let info ← awaitFinalized O hash expirationTimestampSecs
  if info.status ≠ .success then
    throw (.failed (.aborted
      ("Tx " ++ O.network.showHash hash ++
        " was finalized with status different from Success. Status: " ++ O.showStatus info.status)
      (O.network.debugTransactionInfo hash)))

/-- `check_transaction_info`. -/
def checkTransactionInfo : Cli CliTransactionInfo := do
  match ← effect O.transactionInfo with
  | .transactionInfo info => return info
  | .sendTransaction .. | .unexpected _ => throw (.failed .restClient)

/-- `RpcAction::SendTransaction`. -/
def submit : Cli RpcResponse := do
  tick
  modify fun w => { w with accepted := O.accepts }
  lift O.sendReply

/-- `ResolveTransactionHash::UntilSuccess` on the response. -/
def resolveTransactionHash : RpcResponse → Cli Hash
  | .sendTransaction hash expirationTimestampSecs => do
    awaitFinalizedWithSuccess O hash expirationTimestampSecs
    return hash
  | unexpected => throw (.failed (.unexpectedResponse O.debugPayload unexpected))

/-- `send_transaction`. -/
def sendTransaction : Cli CliTransactionInfo := do
  effect O.signerProfileToSend
  effect O.gasParameters
  let response ← submit O
  let _ ← resolveTransactionHash O response
  checkTransactionInfo O

/-! ## The commands -/

/-- `NodeIdentity::from_encrypted_file`. -/
def fromEncryptedFile : Cli NodeIdentity := do
  effect O.readIdentity
  let w ← get
  return w.files.identity

/-- `NodeIdentity::backup`. -/
def backup : Cli Unit := do
  effect O.backup
  modify fun w => { w with files := { w.files with backups := w.files.backups ++ [w.files.identity] } }

/-- `to_encrypted_file`. -/
def toEncryptedFile (identity : NodeIdentity) : Cli Unit := do
  effect O.writeIdentity
  modify fun w => { w with files := { w.files with identity } }

/-- `to_public_identity().write_to_default_path()`. -/
def writePublicIdentity (identity : NodeIdentity) : Cli Unit := do
  effect O.writePublicIdentity
  modify fun w => { w with files := { w.files with publicIdentity := some identity } }

/-- `RotateConsensusKey::execute`. -/
def rotateConsensusKey : Cli CliTransactionInfo := do
  effect O.signerProfile
  lift O.poolAddress
  let validatorIdentity ← fromEncryptedFile O
  lift (O.newPublicKey.mapError .consensusKey)
  let txnInfo ← sendTransaction O
  backup O
  let validatorIdentity := { validatorIdentity with consensus := O.newSecret }
  toEncryptedFile O validatorIdentity
  writePublicIdentity O validatorIdentity
  return txnInfo

/-- The arguments of `RotateNetworkAddress`. -/
structure NetworkArgs where
  socketAddr : Option String
  dns : Option String
  newKey : Bool
  deriving DecidableEq, Repr

/-- The new network identity that the arguments ask for. -/
def newNetworkIdentity (args : NetworkArgs) (identity : NodeIdentity) :
    Except CliError NodeIdentity :=
  let identity := if args.newKey then { identity with networkKey := O.newSecret } else identity
  match args.socketAddr, args.dns with
  | none, none =>
    if args.newKey then .ok identity
    else .error (.aborted "Nothing to rotate"
      "At least one of a new ip address or a dns name or request to generate a new key must be issued.")
  | some _, some _ =>
    .error (.aborted "Conflicting configuration" "Specify either a new socket address or a DNS name")
  | some addr, none =>
    match O.parseSocketAddr addr with
    | some addr => .ok { identity with host := .socketAddr addr }
    | none => .error (.aborted "Invalid socket address" "Please provide a valid socket address")
  | none, some dns =>
    match (dns.splitOn ":").take 2 with
    | [name, port] =>
      match O.parsePort port with
      | some port => .ok { identity with host := .dns name port }
      | none => .error (.aborted "Invalid port in DNS name specification"
          ("Please provide a valid numeric port (received " ++ port ++ "), e.g., example.com:35000"))
    | _ => .error (.aborted "Invalid DNS specification"
        "Please specify DNS name as NAME:PORT, e.g., example.com:35000")

/-- `RotateNetworkAddress::execute`. -/
def rotateNetworkAddress (args : NetworkArgs) : Cli CliTransactionInfo := do
  effect O.signerProfile
  let validatorIdentity ← fromEncryptedFile O
  lift O.poolAddress
  let validatorIdentity ← lift (newNetworkIdentity O args validatorIdentity)
  lift O.encodeAddress
  let txnInfo ← sendTransaction O
  backup O
  toEncryptedFile O validatorIdentity
  writePublicIdentity O validatorIdentity
  return txnInfo

end

end Node.IdentityRotation
