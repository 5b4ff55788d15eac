import SupraL1.Lib.Shamir
import SupraL1.Nidkg.Tool

/-!
# The ceremonies of a committee

The commands of `nidkg/tool.rs` are run by many nodes, each on its own files, and the operators carry
the files that are public from one to the other: the configuration, the dealings, and the shares that
`generate_key` or `generate_reshare_key` publish. A committee has its key when a node has run
`generate_committee_key` on the shares it was given (`Completes`), and hands it to the next committee
by a resharing (`Lineage`). Nothing is assumed of the other shares a node was given.

What the ceremonies are for rests on the crates below. `Laws` says what these promise: a public
polynomial commits to a secret one on each curve, a share that verifies is its value at the point of
the share's index, and public keys are combined by interpolation at zero.
-/

namespace Nidkg

open EState Polynomial
open Std (TreeMap)

variable {T : Types}

/-! ## The nodes -/

/-- What is a node's own: its files, how its writes end, and the password it gives. -/
structure Node (T : Types) where
  readConfig : Except CliError DkgConfig
  readTranscript : Except CliError DkgTranscript
  readCGPrivateKey : Except CliError DkgCGPrivateKey
  readCGPublicKey : Except CliError DkgCGPublicKey
  readCommitteeKey : Except CliError DkgCommitteeBLSPublicKeyBytes
  readBlsPubKeyTranscript : Except CliError DkgBlsPubKeyTranscript
  readBlsPubKey : Except CliError DkgBlsPubKeyShareAndProofBytes
  updateBlsPrivKey : T.BlsPrivateKey → String → Except CliError Unit
  updateBlsPubKey : DkgBlsPubKeyShareAndProofBytes → Except CliError Unit
  updateCommitteeKey : DkgCommitteeBLSPublicKeyBytes → Except CliError Unit
  newPassword : Option String

/-- The environment of the tool on a node: the cryptography is that of `E`. -/
def Node.env (n : Node T) (E : Env T) : Env T :=
  { E with
    readConfig := n.readConfig
    readTranscript := n.readTranscript
    readCGPrivateKey := n.readCGPrivateKey
    readCGPublicKey := n.readCGPublicKey
    readCommitteeKey := n.readCommitteeKey
    readBlsPubKeyTranscript := n.readBlsPubKeyTranscript
    readBlsPubKey := n.readBlsPubKey
    updateBlsPrivKey := n.updateBlsPrivKey
    updateBlsPubKey := n.updateBlsPubKey
    updateCommitteeKey := n.updateCommitteeKey
    newPassword := n.newPassword }

section
variable (E : Env T)

/-- The files of node `n` hold a secret key and its public key `pk`, as
`generate_cg_encryption_key_pair` writes them. -/
def Node.HasKeyPair (n : Node T) (pk : DkgCGPublicKey) : Prop :=
  ∃ secret sk key, n.readCGPrivateKey = .ok secret ∧ secret.tryInto E = .ok sk ∧
    n.readCGPublicKey = .ok pk ∧ pk.tryInto E = .ok key ∧ E.cgPublicKeyOf sk = .ok key

/-- Node `n` takes part in the ceremony of `config` and `transcript` with index `i`. -/
structure Node.TakesPart (n : Node T) (config : DkgConfig) (transcript : DkgTranscript) (i : Nat) :
    Prop where
  readsConfig : n.readConfig = .ok config
  readsTranscript : n.readTranscript = .ok transcript
  hasIndex : ∃ pk, n.HasKeyPair E pk ∧ config.nodeIndexForPk pk = .ok i

/-- A node with index `i` got `share` of `generate_key`. -/
def Published (config : DkgConfig) (transcript : DkgTranscript) (i : Nat)
    (share : DkgBlsPubKeyShareAndProofBytes) : Prop :=
  ∃ n : Node T, n.TakesPart E config transcript i ∧ .blsPubKey share ∈ after (generateKey (n.env E)) []

/-- A node with index `i` got `share` of `generate_reshare_key`, from the key `old` of the committee
before. -/
def Reshared (old : DkgCommitteeBLSPublicKeyBytes) (config : DkgConfig) (transcript : DkgTranscript)
    (i : Nat) (share : DkgBlsPubKeyShareAndProofBytes) : Prop :=
  ∃ n : Node T, n.TakesPart E config transcript i ∧ n.readCommitteeKey = .ok old ∧
    .blsPubKey share ∈ after (generateReshareKey (n.env E)) []

/-- A node wrote `key` with `generate_committee_key`. Of the shares it was given, at least one is
`honest` and stands at its index. -/
def Completes (honest : Nat → DkgBlsPubKeyShareAndProofBytes → Prop) (config : DkgConfig)
    (key : DkgCommitteeBLSPublicKeyBytes) : Prop :=
  ∃ (n : Node T) (given : DkgBlsPubKeyTranscript) (i : Nat) (share : DkgBlsPubKeyShareAndProofBytes),
    n.readConfig = .ok config ∧ n.readBlsPubKeyTranscript = .ok given ∧
    i < config.nodes ∧ given.blsPubKeyShares[i]? = some share ∧ honest i share ∧
    .committeeKey key ∈ after (generateCommitteeKey (n.env E)) []

/-- Node `n` was given enough shares in `honest`, with its own among those given. All can be read, and
one that verifies is on the polynomial of an honest one. -/
structure Ready (honest : Nat → DkgBlsPubKeyShareAndProofBytes → Prop) (config : DkgConfig)
    (given : DkgBlsPubKeyTranscript) (n : Node T) : Prop where
  readsConfig : n.readConfig = .ok config
  readsGiven : n.readBlsPubKeyTranscript = .ok given
  own : ∃ share, n.readBlsPubKey = .ok share ∧ ∃ i, (i, share) ∈ given.blsPubKeyShares.toList
  enough : ∃ is : List Nat, is.Nodup ∧ config.threshold ≤ is.length ∧
    ∀ i ∈ is, i < config.nodes ∧ ∃ share, given.blsPubKeyShares[i]? = some share ∧ honest i share
  others : ∀ i < config.nodes, ∀ bytes, given.blsPubKeyShares[i]? = some bytes →
    ∃ share, bytes.tryInto E = .ok share ∧ (publicKeyIsValid E i share = true →
      ∃ j bytes' share', honest j bytes' ∧ bytes'.tryInto E = .ok share' ∧
        share'.publicPoly = share.publicPoly)
  writes : ∀ key, n.updateCommitteeKey key = .ok ()

/-- The keys of the committees that come from the key generation of `config₀` and `transcript₀` by
resharing. A threshold is never lowered. Indices are below `size`, which is `2 ^ 32` in the source. -/
inductive Lineage (size : Nat) (config₀ : DkgConfig) (transcript₀ : DkgTranscript) :
    DkgConfig → DkgCommitteeBLSPublicKeyBytes → Prop
  | generated {key : DkgCommitteeBLSPublicKeyBytes} (nodes : config₀.nodes ≤ size)
      (completes : Completes E (Published E config₀ transcript₀) config₀ key) :
      Lineage size config₀ transcript₀ config₀ key
  | reshared {config config' : DkgConfig} {key key' : DkgCommitteeBLSPublicKeyBytes}
      {transcript : DkgTranscript} (before : Lineage size config₀ transcript₀ config key)
      (threshold : config.threshold ≤ config'.threshold) (nodes : config'.nodes ≤ size)
      (dealers : ∀ i ∈ transcript.dealings, i < size)
      (completes : Completes E (Reshared E key config' transcript) config' key') :
      Lineage size config₀ transcript₀ config' key'

end

/-! ## The cryptography -/

/-- One of the two curves, over the field `F`: the generators of its groups, the points at which
shares are taken, the secret polynomials behind a public one and behind a dealing, and the public
polynomials of the two aggregations. -/
structure Curve (F G₁ G₂ Poly Dealing : Type) [Field F] where
  g₁ : G₁
  g₂ : G₂
  point : Nat → F
  secret : Poly → F[X]
  dealt : Dealing → F[X]
  sum : List Dealing → Poly
  reshare : List (Nat × Dealing) → Poly

/-- `combine_public_keys`: of enough keys, `threshold` are interpolated at zero. -/
def Interpolates {F G : Type} [Field F] [DecidableEq F] [AddCommGroup G] [Module F G]
    (point : Nat → F) (combine : List (Option G) → Nat → Except String G) : Prop :=
  ∀ keys threshold, threshold ≤ (keys.filter (·.isSome)).length →
    ∃ held : List (Nat × G), held.length = threshold ∧ (held.map Prod.fst).Nodup ∧
      (∀ k ∈ held, keys[k.1]? = some (some k.2)) ∧
      combine keys threshold = .ok (Shamir.combine (held.map fun k => (point k.1, k.2)))

section
variable {F G₁ G₂ Poly Nizk Dealing : Type} [Field F] [DecidableEq F] [AddCommGroup G₁] [Module F G₁]
  [AddCommGroup G₂] [Module F G₂]

/-- The laws of one curve. -/
structure Curve.Laws (c : Curve F G₁ G₂ Poly Dealing) (size : Nat)
    (verify : Nat → G₁ → G₂ → Nizk → Poly → Bool)
    (combine₁ : List (Option G₁) → Nat → Except String G₁)
    (combine₂ : List (Option G₂) → Nat → Except String G₂) : Prop where
  points : Set.InjOn c.point {i | i < size}
  verified : ∀ {i k₁ k₂ nizk poly}, verify i k₁ k₂ nizk poly = true →
    k₁ = (c.secret poly).eval (c.point i) • c.g₁ ∧ k₂ = (c.secret poly).eval (c.point i) • c.g₂
  combine₁ : Interpolates c.point combine₁
  combine₂ : Interpolates c.point combine₂
  sum : ∀ dealings, c.secret (c.sum dealings) = (dealings.map c.dealt).sum
  reshare : ∀ dealings, c.secret (c.reshare dealings) =
    Shamir.combine (dealings.map fun d => (c.point d.1, c.dealt d.2))

end

section
variable {F F' : Type} [Field F] [DecidableEq F] [Field F'] [DecidableEq F']
  [AddCommGroup T.G1Bls12381] [Module F T.G1Bls12381] [AddCommGroup T.G2Bls12381]
  [Module F T.G2Bls12381] [AddCommGroup T.G1Bn254] [Module F' T.G1Bn254] [AddCommGroup T.G2Bn254]
  [Module F' T.G2Bn254]

/-- What `sodkg` and `nidkg_helper` promise. -/
structure Laws (E : Env T) (c : Curve F T.G1Bls12381 T.G2Bls12381 T.PolyBls12381 T.Dealing)
    (c' : Curve F' T.G1Bn254 T.G2Bn254 T.PolyBn254 T.Dealing) (size : Nat) : Prop where
  hex : ∀ bytes, E.hexDecode (E.hexEncode bytes) = .ok bytes
  blsPublicKey : ∀ key, E.blsPublicKey (E.blsPublicKeyToVec key) = .ok key
  dleqProof : ∀ proof, E.dleqProof (E.dleqProofToVec proof) = .ok proof
  publicPolynomial : ∀ poly, E.publicPolynomial (E.publicPolynomialIntoBytes poly) = .ok poly
  bls12381 : c.Laws size E.verifyPublicKeysAndProof12381 E.combinePublicKeysEcp12381
    E.combinePublicKeysEcp2Bls12381
  bn254 : c'.Laws size E.verifyPublicKeysAndProof254 E.combinePublicKeysEcp254
    E.combinePublicKeysEcp2Bn254
  /-- A dealing shares polynomials of the right degree. -/
  verifyDealing : ∀ {dealing cgPks nodes threshold},
    E.verifyDealing dealing cgPks nodes threshold = true →
    (c.dealt dealing).degree < threshold ∧ (c'.dealt dealing).degree < threshold
  /-- The share that is aggregated of verified dealings, with the key of its index, verifies against
  the sum of the dealings. -/
  aggregate : ∀ {cgPks nodes threshold dealings sk cgPk i key pk proof poly},
    (∀ d ∈ dealings, E.verifyDealing d cgPks nodes threshold = true) →
    E.cgPublicKeyOf sk = .ok cgPk → cgPks[i]? = some cgPk →
    E.aggregateDealingsForSelfGroup dealings sk i = .ok (key, pk, proof, poly) →
    publicKeyIsValid E i ⟨pk, proof, poly⟩ = true ∧ poly = ⟨c.sum dealings, c'.sum dealings⟩
  /-- A resharing dealing shares the dealer's share of the old polynomial. -/
  verifyResharing : ∀ {dealing cgPks nodes threshold i poly},
    E.verifyResharingDealing dealing cgPks nodes threshold i poly = true →
    ((c.dealt dealing).degree < threshold ∧ (c'.dealt dealing).degree < threshold) ∧
    (c.dealt dealing).eval 0 = (c.secret poly.polynomialBls12381).eval (c.point i) ∧
    (c'.dealt dealing).eval 0 = (c'.secret poly.polynomialBn254).eval (c'.point i)
  aggregateResharing : ∀ {cgPks nodes threshold dealings sk cgPk i old key pk proof poly},
    (∀ d ∈ dealings.toList, E.verifyResharingDealing d.2 cgPks nodes threshold d.1 old = true) →
    E.cgPublicKeyOf sk = .ok cgPk → cgPks[i]? = some cgPk →
    E.aggregateResharingDealingsForSelfGroup dealings sk i threshold old =
      .ok (key, pk, proof, poly) →
    publicKeyIsValid E i ⟨pk, proof, poly⟩ = true ∧
      poly = ⟨c.reshare dealings.toList, c'.reshare dealings.toList⟩

/-- The key of the committee with the public polynomial `poly`. -/
noncomputable def committeeKey (c : Curve F T.G1Bls12381 T.G2Bls12381 T.PolyBls12381 T.Dealing)
    (c' : Curve F' T.G1Bn254 T.G2Bn254 T.PolyBn254 T.Dealing) (poly : PublicPolynomial T) :
    DkgCommitteeBLSPublicKey T where
  blsPubKey :=
    { bls12381 := ⟨(c.secret poly.polynomialBls12381).eval 0 • c.g₁,
        (c.secret poly.polynomialBls12381).eval 0 • c.g₂⟩
      bn254 := ⟨(c'.secret poly.polynomialBn254).eval 0 • c'.g₁,
        (c'.secret poly.polynomialBn254).eval 0 • c'.g₂⟩ }
  publicPoly := poly

end

end Nidkg
