import Mathlib.Data.Finset.Dedup
import Mathlib.Data.Finset.Insert
import Mathlib.Data.Finset.Erase
import SupraL1.Genesis.Error

/-!
# Signatures of the genesis (`generate_genesis_blob_from_supra_home` in `genesis/mod.rs`)

The blob of the genesis is created once every member of the committee has signed the digest of the
genesis config. The signatures are in files of one directory, each a public key followed by a
signature.
-/

namespace Genesis.Signatures

open Consensus (Bytes Hash)

/-- An entry of a directory. -/
structure DirEntry where
  path : String
  fileName : String
  /-- `is_file` of the metadata. -/
  isFile : Outcome Bool
  /-- What `fs::read` returns. -/
  content : Outcome Bytes

/-- What the tool uses of the crates below, with `S` for a signature. -/
structure Env (S : Type) where
  /-- `PUBLIC_KEY_LENGTH`. -/
  publicKeyLength : Nat
  /-- `GENESIS_SIGNATURE_FILE_NAME_SUFFIX`. -/
  genesisSignatureFileNameSuffix : String
  /-- `PublicKey::try_from`. -/
  publicKeyTryFrom : Bytes → Outcome PublicKey
  /-- `Signature::try_from`. -/
  signatureTryFrom : Bytes → Outcome S
  /-- Whether `Signature::verify` succeeds. -/
  verify : S → Hash → PublicKey → Bool
  /-- The text of keys in an error. -/
  debug : List PublicKey → String

/-- What the tool uses of the genesis config. -/
structure GenesisConfig where
  digest : Hash
  /-- The consensus keys of the SMR committee's members. -/
  consensusPublicKeys : List PublicKey

/-- What the loop over the files keeps. -/
structure Collected (S : Type) where
  /-- The keys of the members who have not signed so far. -/
  allConsensusPks : Finset PublicKey
  allSignaturesAndSigners : Finset (PublicKey × S)
  signersWithInvalidSignatures : List PublicKey

section
variable {S : Type} [DecidableEq S] (E : Env S)

/-- Whether an entry is a file with a signature. -/
def isSignatureFile (entry : DirEntry) : Outcome Bool := do
  return (← entry.isFile) &&
    decide (E.genesisSignatureFileNameSuffix.toList <:+: entry.fileName.toList)

/-- The key and the signature of a file. `split_at` panics on a short file. -/
def readSignature (entry : DirEntry) : Outcome (PublicKey × S) := do
  let pkAndSignature ← entry.content
  if pkAndSignature.length < E.publicKeyLength then panics "mid > len"
  else
    let operatorConsensusPubKey ← E.publicKeyTryFrom (pkAndSignature.take E.publicKeyLength)
    let signature ← E.signatureTryFrom (pkAndSignature.drop E.publicKeyLength)
    return (operatorConsensusPubKey, signature)

/-- A key with its signature is checked and recorded. -/
def record (digest : Hash) (path : String) (c : Collected S) (file : PublicKey × S) :
    Outcome (Collected S) :=
  let (operatorConsensusPubKey, signature) := file
  let signersWithInvalidSignatures :=
    if E.verify signature digest operatorConsensusPubKey then c.signersWithInvalidSignatures
    else c.signersWithInvalidSignatures ++ [operatorConsensusPubKey]
  if operatorConsensusPubKey ∈ c.allConsensusPks then
    if (operatorConsensusPubKey, signature) ∈ c.allSignaturesAndSigners then
      panics "Duplicate signature entry encountered!"
    else .ok {
      allConsensusPks := c.allConsensusPks.erase operatorConsensusPubKey
      allSignaturesAndSigners :=
        insert (operatorConsensusPubKey, signature) c.allSignaturesAndSigners
      signersWithInvalidSignatures }
  else panics ("The node operator in directory " ++ path ++ " has presented unknown PublicKeys")

/-- The body of the loop. -/
def visit (digest : Hash) (c : Collected S) (entry : DirEntry) : Outcome (Collected S) := do
  if ← isSignatureFile E entry then
    let file ← readSignature E entry
    record E digest entry.path c file
  else return c

/-- The loop over the directory. Entries that cannot be listed are left out by `flatten`. -/
def collectSignatures (config : GenesisConfig) (dir : Except String (List (Option DirEntry))) :
    Outcome (Collected S) :=
  match dir with
  | .ok entries =>
    let start : Collected S := ⟨config.consensusPublicKeys.toFinset, ∅, []⟩
    entries.reduceOption.foldlM (visit E config.digest) start
  | .error err => toolError (.io err)

/-- The check of the signatures: the pairs that the blob is created with. -/
def checkSignatures (config : GenesisConfig) (dir : Except String (List (Option DirEntry))) :
    Outcome (Finset (PublicKey × S)) := do
  let c ← collectSignatures E config dir
  if c.allConsensusPks ≠ ∅ then
    toolError (.signatureError "Not all validators have signed the committee file")
  else if c.signersWithInvalidSignatures ≠ [] then
    toolError (.signatureError
      ("Found invalid signatures from: " ++ E.debug c.signersWithInvalidSignatures))
  else return c.allSignaturesAndSigners

/-- `generate_genesis_blob_from_supra_home`, with the creation of the blob from the signatures. -/
def generateGenesisBlobFromSupraHome {B : Type} (config : Outcome GenesisConfig)
    (dir : Except String (List (Option DirEntry)))
    (create : GenesisConfig → Finset (PublicKey × S) → Outcome B) : Outcome B := do
  let config ← config
  let allSignaturesAndSigners ← checkSignatures E config dir
  create config allSignaturesAndSigners

end

end Genesis.Signatures
