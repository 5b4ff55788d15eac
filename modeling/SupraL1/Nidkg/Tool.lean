import Mathlib.Data.List.Basic
import SupraL1.Lib.EState
import SupraL1.Consensus.Types

/-!
# Distributed key generation (`nidkg/tool.rs`)

A node collects the dealings of the others in a transcript. `generate_key` and
`generate_reshare_key` select verified dealings of it and aggregate them to the node's BLS key share;
`generate_committee_key` combines the published shares to the key of the committee. The cryptography
is in other crates: its types are `Types` and its functions are fields of `Env`, as are the files that
the tool reads and the outcomes of its writes. Keys, dealings and proofs are hexadecimal strings in
the files, and a malformed one is an error where it is read.

Indices, the threshold and the number of nodes are `u32` in the source and natural numbers here.
-/

namespace Nidkg

open EState
open Consensus (Bytes)
open Std (TreeMap)

/-! ## Types of the cryptography -/

/-- The types of `sodkg` and `nidkg_helper`. The public keys are in two groups of each of the two
curves. -/
structure Types where
  CGSecretKey : Type
  CGPublicKey : Type
  Dealing : Type
  BlsPrivateKey : Type
  G1Bls12381 : Type
  G2Bls12381 : Type
  G1Bn254 : Type
  G2Bn254 : Type
  NizkBls12381 : Type
  NizkBn254 : Type
  PolyBls12381 : Type
  PolyBn254 : Type
  [decEqPolyBls12381 : DecidableEq PolyBls12381]
  [decEqPolyBn254 : DecidableEq PolyBn254]

attribute [instance] Types.decEqPolyBls12381 Types.decEqPolyBn254

variable (T : Types)

structure PublicKeyBls12381 where
  pubKeyG1 : T.G1Bls12381
  pubKeyG2 : T.G2Bls12381

structure PublicKeyBn254 where
  pubKeyG1 : T.G1Bn254
  pubKeyG2 : T.G2Bn254

structure BlsPublicKey where
  bls12381 : PublicKeyBls12381 T
  bn254 : PublicKeyBn254 T

structure DLEqProof where
  nizk12381 : T.NizkBls12381
  nizk254 : T.NizkBn254

@[ext]
structure PublicPolynomial where
  polynomialBls12381 : T.PolyBls12381
  polynomialBn254 : T.PolyBn254

/-! ## Files -/

structure DkgCGPrivateKey where
  key : String

structure DkgCGPublicKey where
  key : String
  deriving DecidableEq, Repr

structure DkgDealing where
  dealing : String
  deriving DecidableEq, Repr

structure DkgBlsPubKeyShareAndProofBytes where
  blsPubKey : String
  proof : String
  publicPoly : String
  deriving DecidableEq, Repr

structure DkgBlsPubKeyShareAndProof where
  blsPubKey : BlsPublicKey T
  proof : DLEqProof T
  publicPoly : PublicPolynomial T

structure DkgCommitteeBLSPublicKeyBytes where
  blsPubKey : String
  publicPoly : String
  deriving DecidableEq, Repr

structure DkgCommitteeBLSPublicKey where
  blsPubKey : BlsPublicKey T
  publicPoly : PublicPolynomial T

structure DkgConfig where
  threshold : Nat
  nodes : Nat
  cgPublicKeys : TreeMap Nat DkgCGPublicKey

structure DkgTranscript where
  dealings : TreeMap Nat DkgDealing

structure DkgBlsPubKeyTranscript where
  blsPubKeyShares : TreeMap Nat DkgBlsPubKeyShareAndProofBytes

/-- The variants of `CliError` that the tool gives itself, and all others by the message. -/
inductive CliError where
  | hexDecodeError (message : String)
  | dkgError (message : String)
  /-- `DkgError(AggregationError(..))`. -/
  | aggregationError (message : String)
  | dkgTranscriptError (required current : Nat)
  | generalError (message : String)
  | other (message : String)
  deriving DecidableEq, Repr

/-- How a command ends early. -/
inductive Failure where
  | error (e : CliError)
  | panic (message : String)
  deriving DecidableEq, Repr

/-- A file that is written. -/
inductive Write where
  | blsPrivKey (key : T.BlsPrivateKey) (password : String)
  | blsPubKey (share : DkgBlsPubKeyShareAndProofBytes)
  | committeeKey (key : DkgCommitteeBLSPublicKeyBytes)

/-- A command, with the files it has written. -/
abbrev Tool := EStateM Failure (List (Write T))

/-- The key share, public share, proof and polynomial that an aggregation returns. -/
abbrev Aggregated := T.BlsPrivateKey × BlsPublicKey T × DLEqProof T × PublicPolynomial T

/-! ## What the tool uses of the crates below -/

structure Env where
  readConfig : Except CliError DkgConfig
  /-- `DkgTranscript::read`, which makes an empty transcript if there is none. -/
  readTranscript : Except CliError DkgTranscript
  readCGPrivateKey : Except CliError DkgCGPrivateKey
  readCGPublicKey : Except CliError DkgCGPublicKey
  readCommitteeKey : Except CliError DkgCommitteeBLSPublicKeyBytes
  readBlsPubKeyTranscript : Except CliError DkgBlsPubKeyTranscript
  readBlsPubKey : Except CliError DkgBlsPubKeyShareAndProofBytes
  /-- How the writes end. -/
  updateBlsPrivKey : T.BlsPrivateKey → String → Except CliError Unit
  updateBlsPubKey : DkgBlsPubKeyShareAndProofBytes → Except CliError Unit
  updateCommitteeKey : DkgCommitteeBLSPublicKeyBytes → Except CliError Unit
  /-- `new_password_with_policy`. -/
  newPassword : Option String
  hexEncode : Bytes → String
  hexDecode : String → Except String Bytes
  /-- `try_from` of bytes. -/
  cgSecretKey : Bytes → Except String T.CGSecretKey
  cgPublicKey : Bytes → Except String T.CGPublicKey
  /-- `CGPublicKey::try_from` of a secret key. -/
  cgPublicKeyOf : T.CGSecretKey → Except String T.CGPublicKey
  dealing : Bytes → Except String T.Dealing
  blsPublicKey : Bytes → Except String (BlsPublicKey T)
  dleqProof : Bytes → Except String (DLEqProof T)
  publicPolynomial : Bytes → Except String (PublicPolynomial T)
  /-- `to_vec` and `into_bytes`. -/
  blsPublicKeyToVec : BlsPublicKey T → Bytes
  dleqProofToVec : DLEqProof T → Bytes
  publicPolynomialIntoBytes : PublicPolynomial T → Bytes
  verifyDealing : T.Dealing → TreeMap Nat T.CGPublicKey → (nodes threshold : Nat) → Bool
  verifyResharingDealing : T.Dealing → TreeMap Nat T.CGPublicKey → (nodes threshold index : Nat) →
    PublicPolynomial T → Bool
  aggregateDealingsForSelfGroup : List T.Dealing → T.CGSecretKey → (index : Nat) →
    Except String (Aggregated T)
  aggregateResharingDealingsForSelfGroup : TreeMap Nat T.Dealing → T.CGSecretKey →
    (index threshold : Nat) → PublicPolynomial T → Except String (Aggregated T)
  verifyPublicKeysAndProof12381 : Nat → T.G1Bls12381 → T.G2Bls12381 → T.NizkBls12381 →
    T.PolyBls12381 → Bool
  verifyPublicKeysAndProof254 : Nat → T.G1Bn254 → T.G2Bn254 → T.NizkBn254 → T.PolyBn254 → Bool
  combinePublicKeysEcp12381 : List (Option T.G1Bls12381) → (threshold : Nat) →
    Except String T.G1Bls12381
  combinePublicKeysEcp2Bls12381 : List (Option T.G2Bls12381) → (threshold : Nat) →
    Except String T.G2Bls12381
  combinePublicKeysEcp254 : List (Option T.G1Bn254) → (threshold : Nat) → Except String T.G1Bn254
  combinePublicKeysEcp2Bn254 : List (Option T.G2Bn254) → (threshold : Nat) → Except String T.G2Bn254

variable {T}

/-- `?` on a result that is there. -/
def lift {α : Type} : Except CliError α → Tool T α
  | .ok a => pure a
  | .error e => throw (.error e)

/-- `Err(CliError::GeneralError(..))`. -/
def generalError {α : Type} (message : String) : Tool T α := throw (.error (.generalError message))

/-- A failed `expect_err` or an index out of bounds. -/
def panics {α : Type} (message : String) : Tool T α := throw (.panic message)

/-- An `update`: the file is there if it succeeds. -/
def update (result : Except CliError Unit) (w : Write T) : Tool T Unit := do
  lift result
  modify (· ++ [w])

variable (E : Env T)

/-! ## Conversions -/

/-- `hex::decode(..).map_err(CliError::HexDecodeError)`. -/
def decodeHex (s : String) : Except CliError Bytes := (E.hexDecode s).mapError .hexDecodeError

/-- `hex::decode`, and then `try_from(..).map_err(CliError::DkgError)`. -/
def decode {α : Type} (parse : Bytes → Except String α) (s : String) : Except CliError α := do
  (parse (← decodeHex E s)).mapError .dkgError

/-- `CGSecretKey::try_from`. -/
def DkgCGPrivateKey.tryInto (k : DkgCGPrivateKey) : Except CliError T.CGSecretKey :=
  decode E E.cgSecretKey k.key

/-- `CGPublicKey::try_from`. -/
def DkgCGPublicKey.tryInto (k : DkgCGPublicKey) : Except CliError T.CGPublicKey :=
  decode E E.cgPublicKey k.key

/-- `Dealing::try_from`. -/
def DkgDealing.tryInto (d : DkgDealing) : Except CliError T.Dealing := decode E E.dealing d.dealing

/-- `DkgBlsPubKeyShareAndProof::try_from`. -/
def DkgBlsPubKeyShareAndProofBytes.tryInto (b : DkgBlsPubKeyShareAndProofBytes) :
    Except CliError (DkgBlsPubKeyShareAndProof T) := do
  let blsPubKey ← decode E E.blsPublicKey b.blsPubKey
  let proof ← decode E E.dleqProof b.proof
  let publicPoly ← decode E E.publicPolynomial b.publicPoly
  return { blsPubKey, proof, publicPoly }

/-- `DkgCommitteeBLSPublicKey::try_from`. -/
def DkgCommitteeBLSPublicKeyBytes.tryInto (b : DkgCommitteeBLSPublicKeyBytes) :
    Except CliError (DkgCommitteeBLSPublicKey T) := do
  let blsPubKey ← decode E E.blsPublicKey b.blsPubKey
  let publicPoly ← decode E E.publicPolynomial b.publicPoly
  return { blsPubKey, publicPoly }

/-- `DkgBlsPubKeyShareAndProofBytes::from`. -/
def DkgBlsPubKeyShareAndProof.toBytes (s : DkgBlsPubKeyShareAndProof T) :
    DkgBlsPubKeyShareAndProofBytes where
  blsPubKey := E.hexEncode (E.blsPublicKeyToVec s.blsPubKey)
  proof := E.hexEncode (E.dleqProofToVec s.proof)
  publicPoly := E.hexEncode (E.publicPolynomialIntoBytes s.publicPoly)

/-- `DkgCommitteeBLSPublicKeyBytes::from`. -/
def DkgCommitteeBLSPublicKey.toBytes (k : DkgCommitteeBLSPublicKey T) :
    DkgCommitteeBLSPublicKeyBytes where
  blsPubKey := E.hexEncode (E.blsPublicKeyToVec k.blsPubKey)
  publicPoly := E.hexEncode (E.publicPolynomialIntoBytes k.publicPoly)

namespace DkgConfig

/-- `node_index_for_pk`. -/
def nodeIndexForPk (c : DkgConfig) (publicKey : DkgCGPublicKey) : Except CliError Nat :=
  match c.cgPublicKeys.toList.find? fun (_, pk) => publicKey.key == pk.key with
  | some (nodeIndex, _) => .ok nodeIndex
  | none => .error
    (.generalError "Node's CG public key does not correspond to any key in Dkg Config")

/-- `get_pks`. -/
def getPks (c : DkgConfig) : Except CliError (TreeMap Nat T.CGPublicKey) :=
  c.cgPublicKeys.toList.foldlM (fun cgPks (nodeIndex, key) => do
    return cgPks.insert nodeIndex (← key.tryInto E)) ∅

end DkgConfig

/-! ## The node's key -/

/-- The selection loops of `generate_key` and `generate_reshare_key` over the entries of the
transcript: `push` adds a verified dealing to those selected so far, and `len` counts them. -/
def selectDealings {σ : Type} (verifies : Nat → T.Dealing → Bool) (push : σ → Nat → T.Dealing → σ)
    (len : σ → Nat) (threshold : Nat) : List (Nat × DkgDealing) → σ → Except CliError σ
  | [], dealings => .ok dealings
  | (index, dealingSer) :: entries, dealings => do
    let nodeDealing ← dealingSer.tryInto E
    let dealings := if verifies index nodeDealing then push dealings index nodeDealing else dealings
    if len dealings = threshold then return dealings
    else selectDealings verifies push len threshold entries dealings

/-- The loop of `generate_key`: the dealings are pushed to a `Vec`. -/
def keyDealings (config : DkgConfig) (cgPks : TreeMap Nat T.CGPublicKey) (transcript : DkgTranscript) :
    Except CliError (List T.Dealing) :=
  selectDealings E (fun _ d => E.verifyDealing d cgPks config.nodes config.threshold)
    (fun dealings _ d => dealings ++ [d]) List.length config.threshold transcript.dealings.toList []

/-- The loop of `generate_reshare_key`: the dealings are inserted into a `BTreeMap`. -/
def reshareKeyDealings (config : DkgConfig) (cgPks : TreeMap Nat T.CGPublicKey)
    (resharedPublicPoly : PublicPolynomial T) (transcript : DkgTranscript) :
    Except CliError (TreeMap Nat T.Dealing) :=
  selectDealings E (fun index d =>
      E.verifyResharingDealing d cgPks config.nodes config.threshold index resharedPublicPoly)
    (fun dealings index d => dealings.insert index d) TreeMap.size config.threshold
    transcript.dealings.toList ∅

/-- The end of `generate_key` and `generate_reshare_key`: the aggregated keys are written. -/
def writeKeys (result : Except String (Aggregated T)) : Tool T Unit := do
  let (blsKey, blsPubKey, proof, publicPoly) ← lift (result.mapError .aggregationError)
  match E.newPassword with
  | some password =>
    update (E.updateBlsPrivKey blsKey password) (.blsPrivKey blsKey password)
    let share := DkgBlsPubKeyShareAndProof.toBytes E { blsPubKey, proof, publicPoly }
    update (E.updateBlsPubKey share) (.blsPubKey share)
  | none => generalError "Unable to read password"

/-- `generate_key`. -/
def generateKey : Tool T Unit := do
  let dkgConfig ← lift E.readConfig
  let cgPks ← lift (dkgConfig.getPks E)
  let transcript ← lift E.readTranscript
  let cgPrivateKeySer ← lift E.readCGPrivateKey
  let cgPrivateKey ← lift (cgPrivateKeySer.tryInto E)
  let cgPubKey ← lift E.readCGPublicKey
  let nodeIndex ← lift (dkgConfig.nodeIndexForPk cgPubKey)
  let dealings ← lift (keyDealings E dkgConfig cgPks transcript)
  if dealings.length < dkgConfig.threshold then
    throw (.error (.dkgTranscriptError dkgConfig.threshold dealings.length))
  else
    writeKeys E (E.aggregateDealingsForSelfGroup dealings cgPrivateKey nodeIndex)

/-- `generate_reshare_key`. -/
def generateReshareKey : Tool T Unit := do
  let cgPrivateKeySer ← lift E.readCGPrivateKey
  let cgPrivateKey ← lift (cgPrivateKeySer.tryInto E)
  let transcript ← lift E.readTranscript
  let dkgConfig ← lift E.readConfig
  let cgPks ← lift (dkgConfig.getPks E)
  let committeeKeySer ← lift E.readCommitteeKey
  let committeeKey ← lift (committeeKeySer.tryInto E)
  let resharedPublicPoly := committeeKey.publicPoly
  let cgPubKey ← lift E.readCGPublicKey
  let nodeIndex ← lift (dkgConfig.nodeIndexForPk cgPubKey)
  let dealings ← lift (reshareKeyDealings E dkgConfig cgPks resharedPublicPoly transcript)
  if dealings.size < dkgConfig.threshold then
    throw (.error (.dkgTranscriptError dkgConfig.threshold dealings.size))
  else
    writeKeys E (E.aggregateResharingDealingsForSelfGroup dealings cgPrivateKey nodeIndex
      dkgConfig.threshold resharedPublicPoly)

/-! ## The committee's key -/

/-- The six vectors that `generate_committee_key` fills. -/
structure Shares (T : Types) where
  ecp12381 : List (Option T.G1Bls12381)
  ecp254 : List (Option T.G1Bn254)
  ecp2Bls12381 : List (Option T.G2Bls12381)
  ecp2Bn254 : List (Option T.G2Bn254)
  pubPolys12381 : List T.PolyBls12381
  pubPolys254 : List T.PolyBn254

namespace Shares

def empty : Shares T := ⟨[], [], [], [], [], []⟩

/-- The pushes for a valid share. -/
def push (s : Shares T) (share : DkgBlsPubKeyShareAndProof T) : Shares T where
  ecp12381 := s.ecp12381 ++ [some share.blsPubKey.bls12381.pubKeyG1]
  ecp2Bls12381 := s.ecp2Bls12381 ++ [some share.blsPubKey.bls12381.pubKeyG2]
  ecp254 := s.ecp254 ++ [some share.blsPubKey.bn254.pubKeyG1]
  ecp2Bn254 := s.ecp2Bn254 ++ [some share.blsPubKey.bn254.pubKeyG2]
  pubPolys12381 := s.pubPolys12381 ++ [share.publicPoly.polynomialBls12381]
  pubPolys254 := s.pubPolys254 ++ [share.publicPoly.polynomialBn254]

/-- The pushes for a missing or invalid share. -/
def pushNone (s : Shares T) : Shares T :=
  { s with
    ecp12381 := s.ecp12381 ++ [none]
    ecp254 := s.ecp254 ++ [none]
    ecp2Bls12381 := s.ecp2Bls12381 ++ [none]
    ecp2Bn254 := s.ecp2Bn254 ++ [none] }

/-- The number of shares that are there. -/
def held (s : Shares T) : Nat := (s.ecp12381.filter (·.isSome)).length

end Shares

/-- The checks of a share at its index, on both curves. -/
def publicKeyIsValid (i : Nat) (s : DkgBlsPubKeyShareAndProof T) : Bool :=
  E.verifyPublicKeysAndProof12381 i s.blsPubKey.bls12381.pubKeyG1 s.blsPubKey.bls12381.pubKeyG2
    s.proof.nizk12381 s.publicPoly.polynomialBls12381 &&
  E.verifyPublicKeysAndProof254 i s.blsPubKey.bn254.pubKeyG1 s.blsPubKey.bn254.pubKeyG2
    s.proof.nizk254 s.publicPoly.polynomialBn254

/-- The body of the loop of `generate_committee_key`. -/
def collectShare (transcript : DkgBlsPubKeyTranscript) (s : Shares T) (i : Nat) :
    Except CliError (Shares T) :=
  match transcript.blsPubKeyShares[i]? with
  | some bytes => do
    let share ← bytes.tryInto E
    if publicKeyIsValid E i share then return s.push share else return s.pushNone
  | none => return s.pushNone

/-- The loop of `generate_committee_key`. -/
def collectShares (transcript : DkgBlsPubKeyTranscript) (nodes : Nat) : Except CliError (Shares T) :=
  (List.range nodes).foldlM (collectShare E transcript) Shares.empty

/-- `polys.iter().all(|poly| poly == &polys[0])`. -/
def allFirst {α : Type} [DecidableEq α] (polys : List α) : Bool :=
  polys.all fun poly => some poly == polys.head?

/-- `generate_committee_key`. -/
def generateCommitteeKey : Tool T Unit := do
  let dkgConfig ← lift E.readConfig
  let transcript ← lift E.readBlsPubKeyTranscript
  let blsPubKey ← lift E.readBlsPubKey
  if !transcript.blsPubKeyShares.toList.any fun (_, key) => key == blsPubKey then
    generalError
      "Invalid Bls Public Key Transcript file. Make sure you are not using an outdated file."
  else
    let shares ← lift (collectShares E transcript dkgConfig.nodes)
    if shares.held < dkgConfig.threshold then
      generalError ("Not enough valid BLS public key shares present to generate committee key. " ++
        "Expected shares: " ++ toString dkgConfig.threshold ++ ", Found: " ++ toString shares.held)
    else
      match E.combinePublicKeysEcp12381 shares.ecp12381 dkgConfig.threshold,
        E.combinePublicKeysEcp2Bls12381 shares.ecp2Bls12381 dkgConfig.threshold,
        E.combinePublicKeysEcp254 shares.ecp254 dkgConfig.threshold,
        E.combinePublicKeysEcp2Bn254 shares.ecp2Bn254 dkgConfig.threshold with
      | .ok g1Bls12381, .ok g2Bls12381, .ok g1Bn254, .ok g2Bn254 =>
        if !allFirst shares.pubPolys12381 || !allFirst shares.pubPolys254 then
          generalError "Invalid public polynomials."
        else
          match shares.pubPolys12381.head?, shares.pubPolys254.head? with
          | some polynomialBls12381, some polynomialBn254 =>
            let key := DkgCommitteeBLSPublicKey.toBytes E
              { blsPubKey := ⟨⟨g1Bls12381, g2Bls12381⟩, ⟨g1Bn254, g2Bn254⟩⟩
                publicPoly := { polynomialBls12381, polynomialBn254 } }
            update (E.updateCommitteeKey key) (.committeeKey key)
          | _, _ => panics "index out of bounds"
      | .error message, _, _, _ => generalError message
      | .ok _, _, _, _ => panics "committee_pk_ecp_12381_result should fail"

/-! ## Plain numbers

An environment to run the tool in: keys, dealings, proofs and polynomials are numbers of one byte,
and those that are not zero verify. -/

abbrev plainTypes : Types where
  CGSecretKey := Nat
  CGPublicKey := Nat
  Dealing := Nat
  BlsPrivateKey := Nat
  G1Bls12381 := Nat
  G2Bls12381 := Nat
  G1Bn254 := Nat
  G2Bn254 := Nat
  NizkBls12381 := Nat
  NizkBn254 := Nat
  PolyBls12381 := Nat
  PolyBn254 := Nat

/-- The byte of a string of two digits, here zero or one. -/
def plainDecode (s : String) : Except String Bytes :=
  if s = "00" then .ok [0] else if s = "01" then .ok [1] else .error "Invalid character"

/-- The number of one byte. -/
def plainParse : Bytes → Except String Nat
  | [b] => .ok b.toNat
  | _ => .error "Invalid length"

/-- The sum of the numbers that are there. -/
def plainCombine (keys : List (Option Nat)) (_ : Nat) : Except String Nat :=
  .ok ((keys.filterMap id).foldl (· + ·) 0)

def plainEnv (config : DkgConfig) (transcript : DkgTranscript) (shares : DkgBlsPubKeyTranscript) :
    Env plainTypes where
  readConfig := .ok config
  readTranscript := .ok transcript
  readCGPrivateKey := .ok ⟨"01"⟩
  readCGPublicKey := .ok ⟨"01"⟩
  readCommitteeKey := .ok ⟨"01", "01"⟩
  readBlsPubKeyTranscript := .ok shares
  readBlsPubKey := .ok ⟨"01", "01", "01"⟩
  updateBlsPrivKey _ _ := .ok ()
  updateBlsPubKey _ := .ok ()
  updateCommitteeKey _ := .ok ()
  newPassword := some "password"
  hexEncode bytes := if bytes = [0] then "00" else "01"
  hexDecode := plainDecode
  cgSecretKey := plainParse
  cgPublicKey := plainParse
  cgPublicKeyOf := .ok
  dealing := plainParse
  blsPublicKey bytes := (plainParse bytes).map fun n => ⟨⟨n, n⟩, ⟨n, n⟩⟩
  dleqProof bytes := (plainParse bytes).map fun n => ⟨n, n⟩
  publicPolynomial bytes := (plainParse bytes).map fun n => ⟨n, n⟩
  blsPublicKeyToVec key := [UInt8.ofNat key.bls12381.pubKeyG1]
  dleqProofToVec proof := [UInt8.ofNat proof.nizk12381]
  publicPolynomialIntoBytes poly := [UInt8.ofNat poly.polynomialBls12381]
  verifyDealing dealing _ _ _ := dealing != 0
  verifyResharingDealing dealing _ _ _ _ _ := dealing != 0
  aggregateDealingsForSelfGroup dealings _ _ := .ok (dealings.length, ⟨⟨1, 1⟩, ⟨1, 1⟩⟩, ⟨1, 1⟩, ⟨1, 1⟩)
  aggregateResharingDealingsForSelfGroup dealings _ _ _ _ :=
    .ok (dealings.size, ⟨⟨1, 1⟩, ⟨1, 1⟩⟩, ⟨1, 1⟩, ⟨1, 1⟩)
  verifyPublicKeysAndProof12381 _ _ _ nizk _ := nizk != 0
  verifyPublicKeysAndProof254 _ _ _ nizk _ := nizk != 0
  combinePublicKeysEcp12381 := plainCombine
  combinePublicKeysEcp2Bls12381 := plainCombine
  combinePublicKeysEcp254 := plainCombine
  combinePublicKeysEcp2Bn254 := plainCombine

end Nidkg
