import Std.Data.TreeMap
import SupraL1.Lib.EState
import SupraL1.Genesis.Signatures

/-!
# The genesis ceremony (`genesis/mod.rs`)

The operators of the validators create the genesis together. Each puts its public profile and identity
into a repository. From these each builds the file of the committee, signs the genesis config, which
the committee is a part of, and puts the signature into the repository. With the signatures of all
members each creates the blob of the genesis, and compares it with that of another.

A command of the tool runs on the files of one operator, `Home`. `Env` has what the crates below
compute, the genesis config and the blob included, and `Answers` what the system answers in one run of a
command, where it can fail. What is printed is left out.
-/

namespace Genesis.Ceremony

open EState
open Consensus (Bytes Hash)
open Move (AccountAddress)
open Signatures (DirEntry)

/-! ## Data -/

/-- Types of the crates below whose values are only passed on. -/
structure Types where
  /-- `SmrSettings` -/
  Settings : Type
  /-- `GenesisParameters` -/
  Parameters : Type
  /-- the files of the accounts, which the genesis config has besides the committees -/
  Accounts : Type
  Password : Type
  NodeIdentity : Type
  Signature : Type
  /-- `GenesisTransaction` -/
  Transaction : Type
  GenesisConfig : Type
  GenesisBlob : Type

/-- `socrypto::Identity`. -/
abbrev Identity := BitVec 256

/-- `ValidatorNodePublicIdentity`, as far as it is used. -/
structure ValidatorNodePublicIdentity where
  address : String
  consensusPublicKey : PublicKey
  dkgCgPublicKey : Bytes
  deriving DecidableEq

structure SupraValidator where
  accountAddress : AccountAddress
  nodePublicIdentity : ValidatorNodePublicIdentity
  deriving DecidableEq

inductive SmrDkgCommitteeType where
  | smr
  | other (name : String)
  deriving DecidableEq

variable (T : Types)

/-- `CommitteeConfigV2`, with the members in the order of the map they are in. -/
structure CommitteeConfig where
  committeeType : SmrDkgCommitteeType
  genesisParameters : T.Parameters
  members : List (Identity × SupraValidator)

/-- `SupraCommitteesConfigV2`. -/
abbrev SupraCommittees := List (CommitteeConfig T)

/-- An entry of the operators' directory. -/
structure OperatorEntry where
  path : String
  /-- `is_dir` of the metadata -/
  isDir : Outcome Bool
  /-- the address of the active profile in it -/
  accountAddress : Outcome AccountAddress
  publicIdentity : Outcome ValidatorNodePublicIdentity

/-- What `fs::read_dir` gives. Entries that cannot be listed are left out by `flatten`. -/
abbrev Listing (α : Type) := Except String (List (Option α))

/-- The directory of a release in the repository. -/
structure Release where
  operators : Listing OperatorEntry
  signatures : Listing DirEntry

/-- The files of an operator that the tool reads, as reading them comes out. -/
structure Files where
  settings : Outcome T.Settings
  /-- the extracted release, of the testnet or not -/
  release : (isTestnet : Bool) → Release
  /-- `supra_committees.json` -/
  committees : Outcome (SupraCommittees T)
  accounts : Outcome T.Accounts
  /-- `NodeIdentity::from_encrypted_file` -/
  identity : T.Password → Outcome T.NodeIdentity

/-- An operator: the files, those that the tool has written, and the digests that were signed, each
with the key. -/
structure Home where
  files : Files T
  signatureFile : Option (String × Bytes)
  /-- `genesis.blob` -/
  blob : Option T.GenesisBlob
  /-- blobs of failed comparisons, with the names of their files -/
  otherBlobs : List (String × T.GenesisBlob)
  signed : List (PublicKey × Hash)

/-- What the crates below compute. -/
structure Env extends Signatures.Env T.Signature where
  /-- `SupraValidator::identity` -/
  identity : SupraValidator → Identity
  /-- `SmrSettings::validate` -/
  validate : T.Settings → Except String Unit
  /-- `smr_settings.instance().is_testnet()` -/
  isTestnet : T.Settings → Bool
  /-- `smr_settings.into()` -/
  genesisParameters : T.Settings → T.Parameters
  isTestnetOf : T.Parameters → Bool
  displayIdentity : ValidatorNodePublicIdentity → String
  /-- whether `dkg_cg_public_key.validate()` succeeds -/
  validateKey : Bytes → Bool
  /-- `GenesisConfig::try_from_supra_home`, by what reading the files gives -/
  tryFromSupraHome : Outcome (SupraCommittees T) → Outcome T.Accounts → Outcome T.GenesisConfig
  /-- `GenesisConfig::smr_committee_config` -/
  smrCommitteeConfig : T.GenesisConfig → Outcome (CommitteeConfig T)
  /-- `GenesisConfig::digest` -/
  digest : T.GenesisConfig → Hash
  /-- `GenesisConfig::sign` -/
  sign : T.GenesisConfig → T.NodeIdentity → T.Signature
  displayHash : Hash → String
  displayStatus : (status : Nat) → String
  consensusPublicKey : T.NodeIdentity → PublicKey
  publicKeyToBytes : PublicKey → Bytes
  signatureToBytes : T.Signature → Bytes
  /-- `try_from_bytes` for the version of the config -/
  transactionTryFromBytes : T.GenesisConfig → Bytes → Option T.Transaction
  /-- `GenesisBlob::new` -/
  newBlob : T.GenesisConfig → Finset (PublicKey × T.Signature) → Outcome T.GenesisBlob
  /-- `GenesisBlob::new_with_unverified_transaction` -/
  newWithUnverifiedTransaction :
    T.GenesisConfig → Finset (PublicKey × T.Signature) → T.Transaction → Outcome T.GenesisBlob
  /-- `GenesisBlob::config_digest` -/
  configDigest : T.GenesisBlob → Hash
  /-- `GenesisBlob::transaction_digest` -/
  transactionDigest : T.GenesisBlob → Hash

/-- What the system answers in one run of a command. -/
structure Answers where
  /-- whether the URL can be parsed -/
  url : Except String Unit
  /-- the status that the `k`-th request is answered with -/
  request : (k : Nat) → Outcome Nat
  /-- what unpacking the archive and moving its files makes of the extracted release -/
  unpack : Outcome ((Bool → Release) → Bool → Release)
  writeCommittees : Outcome Unit
  /-- `ProtectedProfileManager::read_or_create` -/
  password : Outcome T.Password
  /-- `signature_output_path` -/
  signatureOutputPath : Outcome String
  createSignature : Outcome Unit
  /-- how many of the bytes `write` writes -/
  writeSignature : Bytes → Outcome Nat
  readTransaction : Outcome Bytes
  writeBlob : Outcome Unit
  /-- `GenesisBlob::try_from_file` on `genesis.blob`, by what is in the file, if there is one -/
  readBlob : Option T.GenesisBlob → Outcome T.GenesisBlob
  writeOtherBlob : Outcome Unit

variable {T}

/-- An error of another kind, with its text. -/
def otherError {α : Type} (message : String) : Outcome α := .error (.error (.other message))

/-- A command of the tool. -/
abbrev Command (T : Types) (α : Type) := EStateM Failure (Home T) α

section
variable (E : Env T) (a : Answers T)

/-! ## The repository -/

/-- `StatusCode::is_success`. -/
def isSuccess (status : Nat) : Bool := 200 ≤ status ∧ status < 300

/-- The requests of `download_directory`, with another one after each that does not succeed: the last
status. -/
def download (request : Nat → Outcome Nat) : (retryCount k : Nat) → Outcome Nat
  | 0, k => request k
  | retryCount + 1, k => do
    let status ← request k
    if isSuccess status then return status else download request retryCount (k + 1)

/-- `RETRY_DOWNLOAD_COUNT`. -/
def retryDownloadCount : Nat := 3

/-- `download_directory`. -/
def downloadDirectory : Command T Unit := do
  ofResult (a.url.mapError fun e => .error (.other ("Parsing URL failure: " ++ e)))
  let status ← ofResult (download a.request retryDownloadCount 0)
  if isSuccess status then
    let extract ← ofResult a.unpack
    modify fun home => { home with files.release := extract home.files.release }
  else ofResult (toolError (.io ("Failed to download: " ++ E.displayStatus status)))

/-- The download if a URL is given. -/
def downloadIfAsked (withUrl : Bool) : Command T Unit :=
  if withUrl then downloadDirectory E a else pure ()

/-- `RefreshRepo::execute`. -/
def refreshRepo : Command T Unit := do
  let _ ← ofResult (← get).files.settings
  downloadDirectory E a

/-! ## The committee -/

/-- The members of a committee by their identities. -/
abbrev Members := Std.TreeMap Identity SupraValidator

/-- The body of the loop over the operators' directory. -/
def addMember (members : Members) (entry : OperatorEntry) : Outcome Members := do
  if ← entry.isDir then
    let accountAddress ← entry.accountAddress
    let validatorPublicIdentity ← entry.publicIdentity
    let newValidator : SupraValidator := ⟨accountAddress, validatorPublicIdentity⟩
    if E.identity newValidator ∈ members then
      panics ("Duplicate member found while building SupraCommitteesConfig " ++
        E.displayIdentity validatorPublicIdentity)
    else return members.insert (E.identity newValidator) newValidator
  else return members

/-- The loop over the operators' directory. If it cannot be read there are no members. -/
def collectMembers : Listing OperatorEntry → Outcome Members
  | .ok entries => entries.reduceOption.foldlM (addMember E) ∅
  | .error _ => .ok ∅

/-- `BuildSupraCommittee::execute`. -/
def buildSupraCommittee (withUrl : Bool) : Command T Unit := do
  let smrSettings ← ofResult (← get).files.settings
  downloadIfAsked E a withUrl
  ofResult ((E.validate smrSettings).mapError fun e => .error (.generalError e))
  let members ← ofResult (collectMembers E ((← get).files.release (E.isTestnet smrSettings)).operators)
  if members.toList.all fun m => E.validateKey m.2.nodePublicIdentity.dkgCgPublicKey then
    ofResult a.writeCommittees
    let config : CommitteeConfig T := ⟨.smr, E.genesisParameters smrSettings, members.toList⟩
    modify fun home => { home with files.committees := .ok [config] }
  else ofResult (otherError "Key error: CG-DKG PublicKey Validation failed ")

/-! ## The signatures -/

/-- The genesis config of the files. -/
def Env.config (files : Files T) : Outcome T.GenesisConfig :=
  E.tryFromSupraHome files.committees files.accounts

/-- The file of a signature is created, and then `write` may write less than all of it. -/
def writeSignatureFile (outputPath : String) (pkAndSignature : Bytes) : Command T Unit := do
  ofResult a.createSignature
  modify fun home => { home with signatureFile := some (outputPath, []) }
  let bytesWritten ← ofResult (a.writeSignature pkAndSignature)
  modify fun home => { home with signatureFile := some (outputPath, pkAndSignature.take bytesWritten) }

/-- `SignSupraCommittee::execute`. -/
def signSupraCommittee : Command T Unit := do
  let files := (← get).files
  let password ← ofResult a.password
  let validatorInfo ← ofResult (files.identity password)
  let outputPath ← ofResult a.signatureOutputPath
  let genesisConfig ← ofResult (E.config files)
  let publicKey := E.consensusPublicKey validatorInfo
  let signature := E.sign genesisConfig validatorInfo
  modify fun home => { home with signed := home.signed ++ [(publicKey, E.digest genesisConfig)] }
  writeSignatureFile a outputPath (E.publicKeyToBytes publicKey ++ E.signatureToBytes signature)

/-! ## The blob -/

/-- The consensus keys of the members of a committee. -/
def CommitteeConfig.consensusPublicKeys (c : CommitteeConfig T) : List PublicKey :=
  c.members.map (·.2.nodePublicIdentity.consensusPublicKey)

/-- What creates the blob from the signatures: with the transaction of a file, or a new one. -/
def createBlob (config : T.GenesisConfig) (genesisTransactionPath : Option String)
    (signatures : Finset (PublicKey × T.Signature)) : Outcome T.GenesisBlob :=
  match genesisTransactionPath with
  | some path => do
    let transactionBytes ← a.readTransaction
    match E.transactionTryFromBytes config transactionBytes with
    | some unverifiedTransaction =>
      E.newWithUnverifiedTransaction config signatures unverifiedTransaction
    | none => otherError ("Failed to deserialize a genesis transaction from " ++ path)
  | none => E.newBlob config signatures

variable [DecidableEq T.Signature]

/-- `generate_genesis_blob_from_supra_home`. -/
def generateGenesisBlobFromSupraHome (files : Files T) (genesisTransactionPath : Option String)
    (genesisSignaturesDir : Option (Listing DirEntry)) : Outcome T.GenesisBlob := do
  let config ← E.config files
  let committeeConfig ← E.smrCommitteeConfig config
  let signaturesDir := genesisSignaturesDir.getD
    (files.release (E.isTestnetOf committeeConfig.genesisParameters)).signatures
  Signatures.generateGenesisBlobFromSupraHome E.toEnv
    (.ok ⟨E.digest config, committeeConfig.consensusPublicKeys⟩) signaturesDir
    fun _ signatures => createBlob E a config genesisTransactionPath signatures

/-- `GenerateGenesisBlob::execute`. -/
def generateGenesisBlob (genesisTransactionPath : Option String)
    (genesisSignaturesDir : Option (Listing DirEntry)) : Command T Unit := do
  let genesisBlob ← ofResult (generateGenesisBlobFromSupraHome E a (← get).files genesisTransactionPath
    genesisSignaturesDir)
  ofResult a.writeBlob
  modify fun home => { home with blob := some genesisBlob }

/-- Whether two blobs are compared equal. -/
def sameDigests (b b' : T.GenesisBlob) : Bool :=
  E.configDigest b == E.configDigest b' && E.transactionDigest b == E.transactionDigest b'

/-- The blob to compare with: that of the home, or one that is generated. -/
def localBlob (home : Home T) (skipRegeneration : Bool)
    (genesisSignaturesDir : Option (Listing DirEntry)) : Outcome T.GenesisBlob :=
  if skipRegeneration then a.readBlob home.blob
  else generateGenesisBlobFromSupraHome E a home.files none genesisSignaturesDir

/-- A blob that was generated for a comparison is kept. -/
def keepBlob (skipRegeneration : Bool) (blob : T.GenesisBlob) : Command T Unit :=
  if skipRegeneration then pure ()
  else do
    ofResult a.writeOtherBlob
    modify fun home => { home with otherBlobs := home.otherBlobs ++
      [(E.displayHash (E.configDigest blob) ++ "_genesis.blob", blob)] }

/-- `VerifyGenesisBlob::execute`, on what is read from the input file. -/
def verifyGenesisBlob (inputGenesisBlob : Outcome T.GenesisBlob) (skipRegeneration : Bool)
    (genesisSignaturesDir : Option (Listing DirEntry)) : Command T Unit := do
  let inputGenesisBlob ← ofResult inputGenesisBlob
  let localGenesisBlob ← ofResult (localBlob E a (← get) skipRegeneration genesisSignaturesDir)
  if sameDigests E localGenesisBlob inputGenesisBlob then return ()
  else
    keepBlob E a skipRegeneration localGenesisBlob
    ofResult (otherError ("Verification failed: The input Genesis Blob does not match the locally " ++
      "generated Genesis Blob"))

end

/-! ## The ceremony -/

/-- A command of `GenesisTool` with its arguments. -/
inductive GenesisTool (T : Types) where
  | refreshRepo
  | buildSupraCommittee (withUrl : Bool)
  | signSupraCommittee
  | generateGenesisBlob (genesisTransactionPath : Option String)
      (genesisSignaturesDir : Option (Listing DirEntry))
  | verifyGenesisBlob (inputGenesisBlob : Outcome T.GenesisBlob) (skipRegeneration : Bool)
      (genesisSignaturesDir : Option (Listing DirEntry))

/-- `GenesisTool::execute`. -/
def GenesisTool.execute [DecidableEq T.Signature] (E : Env T) (a : Answers T) :
    GenesisTool T → Command T Unit
  | .refreshRepo => Ceremony.refreshRepo E a
  | .buildSupraCommittee withUrl => Ceremony.buildSupraCommittee E a withUrl
  | .signSupraCommittee => Ceremony.signSupraCommittee E a
  | .generateGenesisBlob path dir => Ceremony.generateGenesisBlob E a path dir
  | .verifyGenesisBlob input skip dir => Ceremony.verifyGenesisBlob E a input skip dir

/-- What happens in a ceremony: an operator runs a command, or gets other files, by whatever way. -/
inductive Event (T : Types) where
  | run (operator : Nat) (tool : GenesisTool T) (answers : Answers T)
  | edit (operator : Nat) (files : Files T)

/-- The operators by number. -/
abbrev World (T : Types) := Nat → Home T

def step [DecidableEq T.Signature] (E : Env T) : Event T → EStateM Failure (World T) Unit
  | .run i tool a => onPart (· i) (fun home w => Function.update w i home) id (tool.execute E a)
  | .edit i files => modify fun w => Function.update w i { w i with files }

end Genesis.Ceremony
