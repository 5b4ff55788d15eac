import Mathlib
import SupraL1.Nidkg.Ceremony

/-!
# Lines

A cryptography that keeps the laws, for ceremonies with a threshold of two: secrets are numbers modulo
five, polynomials are lines with their two coefficients in the clear, and dealings are lines as well.
Hexadecimal digits are characters of one byte.
-/

namespace Nidkg

open EState Polynomial
open Consensus (Bytes)
open Std (TreeMap)

instance fact_prime_five : Fact (Nat.Prime 5) := ⟨by decide⟩

abbrev Line := ZMod 5 × ZMod 5

namespace Line

def line (a b : Nat) : Line := (a, b)

def point (i : Nat) : ZMod 5 := i + 1

def value (l : Line) (i : Nat) : ZMod 5 := l.1 + l.2 * point i

abbrev types : Types where
  CGSecretKey := Unit
  CGPublicKey := Unit
  Dealing := Line
  BlsPrivateKey := Unit
  G1Bls12381 := ZMod 5
  G2Bls12381 := ZMod 5
  G1Bn254 := ZMod 5
  G2Bn254 := ZMod 5
  NizkBls12381 := Unit
  NizkBn254 := Unit
  PolyBls12381 := Line
  PolyBn254 := Line

/-- The public keys of a number. -/
def publicKey (x : ZMod 5) : BlsPublicKey types := ⟨⟨x, x⟩, ⟨x, x⟩⟩

def toByte (x : ZMod 5) : UInt8 := .ofNat x.val

def ofByte (b : UInt8) : ZMod 5 := b.toNat

def digits (bytes : Bytes) : String := .ofList (bytes.map fun b => .ofNat b.toNat)

def ofDigits (s : String) : Bytes := s.toList.map fun c => .ofNat c.toNat

/-- The keys that are there, with their indices. -/
def held (keys : List (Option (ZMod 5))) : List (Nat × ZMod 5) :=
  keys.zipIdx.filterMap fun (key, i) => key.map (i, ·)

def combine (keys : List (Option (ZMod 5))) (threshold : Nat) : Except String (ZMod 5) :=
  .ok (Shamir.combine (((held keys).take threshold).map fun k => (point k.1, k.2)))

def verify (i : Nat) (k₁ k₂ : ZMod 5) (_ : Unit) (l : Line) : Bool := k₁ = value l i ∧ k₂ = value l i

def share (l : Line) (i : Nat) : Aggregated types := ((), publicKey (value l i), ⟨(), ()⟩, ⟨l, l⟩)

def env : Env types where
  readConfig := .error (.other "")
  readTranscript := .error (.other "")
  readCGPrivateKey := .error (.other "")
  readCGPublicKey := .error (.other "")
  readCommitteeKey := .error (.other "")
  readBlsPubKeyTranscript := .error (.other "")
  readBlsPubKey := .error (.other "")
  updateBlsPrivKey _ _ := .ok ()
  updateBlsPubKey _ := .ok ()
  updateCommitteeKey _ := .ok ()
  newPassword := none
  hexEncode := digits
  hexDecode s := .ok (ofDigits s)
  cgSecretKey _ := .ok ()
  cgPublicKey _ := .ok ()
  cgPublicKeyOf _ := .ok ()
  dealing
    | [a, b] => .ok (ofByte a, ofByte b)
    | _ => .error "Invalid length"
  blsPublicKey
    | [a, b, c, d] => .ok ⟨⟨ofByte a, ofByte b⟩, ⟨ofByte c, ofByte d⟩⟩
    | _ => .error "Invalid length"
  dleqProof _ := .ok ⟨(), ()⟩
  publicPolynomial
    | [a, b, c, d] => .ok ⟨(ofByte a, ofByte b), (ofByte c, ofByte d)⟩
    | _ => .error "Invalid length"
  blsPublicKeyToVec key := [toByte key.bls12381.pubKeyG1, toByte key.bls12381.pubKeyG2,
    toByte key.bn254.pubKeyG1, toByte key.bn254.pubKeyG2]
  dleqProofToVec _ := []
  publicPolynomialIntoBytes poly := [toByte poly.polynomialBls12381.1,
    toByte poly.polynomialBls12381.2, toByte poly.polynomialBn254.1, toByte poly.polynomialBn254.2]
  verifyDealing _ _ _ threshold := 2 ≤ threshold
  verifyResharingDealing dealing _ _ threshold i poly := 2 ≤ threshold ∧
    dealing.1 = value poly.polynomialBls12381 i ∧ dealing.1 = value poly.polynomialBn254 i
  aggregateDealingsForSelfGroup dealings _ i := .ok (share dealings.sum i)
  aggregateResharingDealingsForSelfGroup dealings _ i _ _ :=
    .ok (share (Shamir.combine (dealings.toList.map fun d => (point d.1, d.2))) i)
  verifyPublicKeysAndProof12381 := verify
  verifyPublicKeysAndProof254 := verify
  combinePublicKeysEcp12381 := combine
  combinePublicKeysEcp2Bls12381 := combine
  combinePublicKeysEcp254 := combine
  combinePublicKeysEcp2Bn254 := combine

noncomputable def poly : Line →ₗ[ZMod 5] (ZMod 5)[X] :=
  monomial 0 ∘ₗ LinearMap.fst _ _ _ + monomial 1 ∘ₗ LinearMap.snd _ _ _

noncomputable def curve : Curve (ZMod 5) (ZMod 5) (ZMod 5) Line Line where
  g₁ := 1
  g₂ := 1
  point := point
  secret := poly
  dealt := poly
  sum dealings := dealings.sum
  reshare dealings := Shamir.combine (dealings.map fun d => (point d.1, d.2))

/-! ## The laws -/

theorem eval_poly (l : Line) (x : ZMod 5) : (poly l).eval x = l.1 + l.2 * x := by
  simp [poly]

theorem eval_poly_zero (l : Line) : (poly l).eval 0 = l.1 := by
  rw [eval_poly, mul_zero, add_zero]

theorem degree_poly_lt (l : Line) {threshold : Nat} (h : 2 ≤ threshold) :
    (poly l).degree < threshold := by
  have hle : (poly l).degree ≤ 1 :=
    (degree_add_le _ _).trans (max_le ((degree_monomial_le _ _).trans (by decide)) (degree_monomial_le _ _))
  refine hle.trans_lt ?_
  exact_mod_cast h

theorem ofByte_toByte (x : ZMod 5) : ofByte (toByte x) = x := by
  revert x
  decide

theorem ofDigits_digits (bytes : Bytes) : ofDigits (digits bytes) = bytes := by
  rw [ofDigits, digits, String.toList_ofList, List.map_map]
  refine (List.map_congr_left fun b _ => ?_).trans (List.map_id bytes)
  have hvalid : b.toNat.isValidChar := .inl (b.toNat_lt.trans (by decide))
  have hchar : (Char.ofNat b.toNat).toNat = b.toNat := by
    rw [Char.ofNat, dif_pos hvalid]
    exact UInt32.toNat_ofNatLT
  rw [Function.comp_apply, hchar]
  exact UInt8.ofNat_toNat

theorem mem_held {keys : List (Option (ZMod 5))} {k : Nat × ZMod 5} (h : k ∈ held keys) :
    keys[k.1]? = some (some k.2) := by
  obtain ⟨⟨key, i⟩, hmem, hkey⟩ := List.mem_filterMap.1 h
  obtain ⟨x, rfl, rfl⟩ := Option.map_eq_some_iff.1 hkey
  exact List.mk_mem_zipIdx_iff_getElem?.1 hmem

theorem nodup_held (keys : List (Option (ZMod 5))) : ((held keys).map Prod.fst).Nodup := by
  have hindices : (keys.zipIdx.map Prod.snd).Nodup := by
    rw [List.zipIdx_map_snd]
    exact List.nodup_range'
  rw [List.Nodup, List.pairwise_map] at hindices ⊢
  refine List.pairwise_filterMap.2 (hindices.imp ?_)
  rintro ⟨key, i⟩ ⟨key', i'⟩ hne k hk k' hk'
  obtain ⟨x, -, rfl⟩ := Option.map_eq_some_iff.1 hk
  obtain ⟨x', -, rfl⟩ := Option.map_eq_some_iff.1 hk'
  exact hne

theorem length_held (keys : List (Option (ZMod 5))) :
    (held keys).length = (keys.filter (·.isSome)).length := by
  rw [held, List.length_filterMap_eq_countP, ← List.countP_eq_length_filter]
  conv_rhs => rw [← List.zipIdx_map_fst 0 keys, List.countP_map]
  refine List.countP_congr fun k _ => ?_
  rw [Function.comp_apply, Option.isSome_map]

theorem interpolates : Interpolates point combine := by
  intro keys threshold h
  refine ⟨(held keys).take threshold, ?_, ?_, ?_, rfl⟩
  · rw [List.length_take, length_held, Nat.min_eq_left h]
  · rw [List.map_take]
    exact (nodup_held keys).sublist (List.take_sublist _ _)
  · exact fun k hk => mem_held (List.mem_of_mem_take hk)

theorem value_eq (l : Line) (i : Nat) : value l i = (poly l).eval (point i) • (1 : ZMod 5) := by
  rw [eval_poly, smul_eq_mul, mul_one]
  rfl

theorem curve_laws : curve.Laws 4 verify combine combine where
  points := by
    have hinj : ∀ i < 4, ∀ j < 4, point i = point j → i = j := by decide
    exact fun i hi j hj => hinj i hi j hj
  verified h := by
    have := of_decide_eq_true h
    exact ⟨this.1.trans (value_eq _ _), this.2.trans (value_eq _ _)⟩
  combine₁ := interpolates
  combine₂ := interpolates
  sum dealings := map_list_sum poly dealings
  reshare dealings := by
    refine (Shamir.combine_map poly _).symm.trans ?_
    rw [List.map_map]
    rfl

theorem laws : Laws env curve curve 4 where
  hex bytes := congrArg Except.ok (ofDigits_digits bytes)
  blsPublicKey key := by
    simp [env, ofByte_toByte]
  dleqProof proof := rfl
  publicPolynomial poly := by
    simp [env, ofByte_toByte]
  bls12381 := curve_laws
  bn254 := curve_laws
  verifyDealing h := ⟨degree_poly_lt _ (of_decide_eq_true h), degree_poly_lt _ (of_decide_eq_true h)⟩
  aggregate _ _ _ h := by
    cases h
    refine ⟨?_, rfl⟩
    simp [publicKeyIsValid, env, verify, publicKey]
  verifyResharing h := by
    obtain ⟨ht, h1, h2⟩ := of_decide_eq_true h
    refine ⟨⟨degree_poly_lt _ ht, degree_poly_lt _ ht⟩, ?_, ?_⟩
    · exact (eval_poly_zero _).trans (h1.trans (eval_poly _ _).symm)
    · exact (eval_poly_zero _).trans (h2.trans (eval_poly _ _).symm)
  aggregateResharing _ _ _ h := by
    cases h
    refine ⟨?_, rfl⟩
    simp [publicKeyIsValid, env, verify, publicKey]

/-! ## Two committees -/

def published (l : Line) (i : Nat) : DkgBlsPubKeyShareAndProofBytes :=
  DkgBlsPubKeyShareAndProof.toBytes env ⟨publicKey (value l i), ⟨(), ()⟩, ⟨l, l⟩⟩

/-- A share that does not verify: its keys are not those of its polynomial. -/
def forged (l : Line) (i : Nat) : DkgBlsPubKeyShareAndProofBytes :=
  DkgBlsPubKeyShareAndProof.toBytes env ⟨publicKey (value l i + point 0), ⟨(), ()⟩, ⟨l, l⟩⟩

def config (keys : List String) : DkgConfig where
  threshold := 2
  nodes := 3
  cgPublicKeys := TreeMap.ofList (keys.zipIdx.map fun (key, i) => (i, DkgCGPublicKey.mk key))

def transcript (dealings : List (Nat × List UInt8)) : DkgTranscript where
  dealings := TreeMap.ofList (dealings.map fun (i, bytes) => (i, DkgDealing.mk (digits bytes)))

/-- The transcript of the shares of a line at two indices, and a forged one at the third. -/
def given (l : Line) (i j k : Nat) : DkgBlsPubKeyTranscript where
  blsPubKeyShares := TreeMap.ofList [(i, published l i), (j, published l j), (k, forged l k)]

def node (config : DkgConfig) (key : String) (transcript : DkgTranscript)
    (old : Except CliError DkgCommitteeBLSPublicKeyBytes) (shares : DkgBlsPubKeyTranscript)
    (own : DkgBlsPubKeyShareAndProofBytes) : Node types where
  readConfig := .ok config
  readTranscript := .ok transcript
  readCGPrivateKey := .ok ⟨""⟩
  readCGPublicKey := .ok ⟨key⟩
  readCommitteeKey := old
  readBlsPubKeyTranscript := .ok shares
  readBlsPubKey := .ok own
  updateBlsPrivKey _ _ := .ok ()
  updateBlsPubKey _ := .ok ()
  updateCommitteeKey _ := .ok ()
  newPassword := some "password"

def keyOf (l : Line) : DkgCommitteeBLSPublicKeyBytes :=
  DkgCommitteeBLSPublicKey.toBytes env ⟨publicKey l.1, ⟨l, l⟩⟩

theorem given_getElem? {l : Line} {i j k m : Nat} :
    (given l i j k).blsPubKeyShares[m]? =
      if m = k then some (forged l m) else if m = i ∨ m = j then some (published l m) else none := by
  simp only [given, TreeMap.ofList_cons, TreeMap.insertMany_cons, TreeMap.insertMany_nil,
    TreeMap.getElem?_insert, TreeMap.getElem?_emptyc, Nat.compare_eq_eq]
  by_cases hk : k = m
  · simp [hk]
  · by_cases hj : j = m
    · simp [hj, hk, eq_comm]
    · by_cases hi : i = m
      · simp [hi, hj, hk, eq_comm]
      · simp [hi, hj, hk, eq_comm]

/-! Three nodes generate a key, and three others take it over. Two dealings are needed each time. -/

def first : DkgConfig := config ["a", "b", "c"]

def dealt : DkgTranscript := transcript [(0, [1, 2]), (2, [3, 1])]

def second : DkgConfig := config ["d", "e", "f"]

def redealt : DkgTranscript := transcript [(0, [2, 0]), (1, [0, 4])]

/-- The line of the second committee. -/
def reshared : Line := Shamir.combine [(point 0, line 2 0), (point 1, line 0 4)]

/-- The node with index `i` of the first committee. -/
def member (i : Nat) : Node types :=
  node first (["a", "b", "c"].getD i "") dealt (.error (.other "")) ⟨∅⟩ (published (line 4 3) i)

def successor (i : Nat) : Node types :=
  node second (["d", "e", "f"].getD i "") redealt (.ok (keyOf (line 4 3))) ⟨∅⟩ (published reshared i)

theorem member_published {i : Nat} (hi : i < 3) :
    Published env first dealt i (published (line 4 3) i) := by
  have hrun : after (generateKey ((member i).env env)) [] =
      [.blsPrivKey () "password", .blsPubKey (published (line 4 3) i)] := by
    obtain rfl | rfl | rfl : i = 0 ∨ i = 1 ∨ i = 2 := by omega
    all_goals rfl
  refine ⟨member i, ⟨rfl, rfl, ⟨["a", "b", "c"].getD i ""⟩,
    ⟨_, (), (), rfl, rfl, rfl, rfl, rfl⟩, ?_⟩, ?_⟩
  · obtain rfl | rfl | rfl : i = 0 ∨ i = 1 ∨ i = 2 := by omega
    all_goals rfl
  · rw [hrun]
    exact List.mem_cons_of_mem _ List.mem_cons_self

theorem successor_reshared {i : Nat} (hi : i < 3) :
    Reshared env (keyOf (line 4 3)) second redealt i (published reshared i) := by
  have hrun : after (generateReshareKey ((successor i).env env)) [] =
      [.blsPrivKey () "password", .blsPubKey (published reshared i)] := by
    obtain rfl | rfl | rfl : i = 0 ∨ i = 1 ∨ i = 2 := by omega
    all_goals rfl
  refine ⟨successor i, ⟨rfl, rfl, ⟨["d", "e", "f"].getD i ""⟩,
    ⟨_, (), (), rfl, rfl, rfl, rfl, rfl⟩, ?_⟩, rfl, ?_⟩
  · obtain rfl | rfl | rfl : i = 0 ∨ i = 1 ∨ i = 2 := by omega
    all_goals rfl
  · rw [hrun]
    exact List.mem_cons_of_mem _ List.mem_cons_self

end Line

end Nidkg
