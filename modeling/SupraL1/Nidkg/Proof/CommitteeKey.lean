import Mathlib.Data.List.ReduceOption
import SupraL1.Lib.Fallible
import SupraL1.Nidkg.Tool

/-!
# The key of the committee

`generate_committee_key` goes through the indices of the nodes and fills four vectors of public keys
and two of polynomials. The vectors are what the verified shares of the transcript make of them
(`collectShares_eq`): the keys at every index, with a gap where there is no verified share, and the
polynomials of the verified shares one after the other. As the polynomials have to be equal before
the key is written, every key that went into it was checked against the polynomials that are written
with it (`committee_key_of_verified_shares`).
-/

namespace Nidkg.Proof

open EState Fallible

variable {T : Types} {E : Env T} {transcript : DkgBlsPubKeyTranscript}

section
variable (E : Env T) (transcript : DkgBlsPubKeyTranscript)

/-- `share` is the entry of the transcript at index `i`, and passes the checks on both curves. -/
structure Verified (i : Nat) (share : DkgBlsPubKeyShareAndProof T) : Prop where
  entry : ∃ bytes, transcript.blsPubKeyShares[i]? = some bytes ∧ bytes.tryInto E = .ok share
  bls12381 : E.verifyPublicKeysAndProof12381 i share.blsPubKey.bls12381.pubKeyG1
    share.blsPubKey.bls12381.pubKeyG2 share.proof.nizk12381 share.publicPoly.polynomialBls12381 = true
  bn254 : E.verifyPublicKeysAndProof254 i share.blsPubKey.bn254.pubKeyG1
    share.blsPubKey.bn254.pubKeyG2 share.proof.nizk254 share.publicPoly.polynomialBn254 = true

def shareAt (i : Nat) : Option (DkgBlsPubKeyShareAndProof T) :=
  (transcript.blsPubKeyShares[i]?).bind fun bytes =>
    match bytes.tryInto E with
    | .ok share => if publicKeyIsValid E i share then some share else none
    | .error _ => none

end

/-- The six vectors that verified shares make, with `none` where one is missing. -/
def sharesOf (held : List (Option (DkgBlsPubKeyShareAndProof T))) : Shares T where
  ecp12381 := held.map (·.map fun share => share.blsPubKey.bls12381.pubKeyG1)
  ecp2Bls12381 := held.map (·.map fun share => share.blsPubKey.bls12381.pubKeyG2)
  ecp254 := held.map (·.map fun share => share.blsPubKey.bn254.pubKeyG1)
  ecp2Bn254 := held.map (·.map fun share => share.blsPubKey.bn254.pubKeyG2)
  pubPolys12381 := held.reduceOption.map fun share => share.publicPoly.polynomialBls12381
  pubPolys254 := held.reduceOption.map fun share => share.publicPoly.polynomialBn254

/-- The four vectors of keys hold `share` at index `i`, or nothing. -/
def HoldsAt (s : Shares T) (i : Nat) (share : Option (DkgBlsPubKeyShareAndProof T)) : Prop :=
  s.ecp12381[i]? = some (share.map fun share => share.blsPubKey.bls12381.pubKeyG1) ∧
  s.ecp2Bls12381[i]? = some (share.map fun share => share.blsPubKey.bls12381.pubKeyG2) ∧
  s.ecp254[i]? = some (share.map fun share => share.blsPubKey.bn254.pubKeyG1) ∧
  s.ecp2Bn254[i]? = some (share.map fun share => share.blsPubKey.bn254.pubKeyG2)

/-! ## The loop -/

theorem sharesOf_concat_some (held : List (Option (DkgBlsPubKeyShareAndProof T)))
    (share : DkgBlsPubKeyShareAndProof T) :
    sharesOf (held ++ [some share]) = (sharesOf held).push share := by
  simp [sharesOf, Shares.push, List.reduceOption_append]

theorem sharesOf_concat_none (held : List (Option (DkgBlsPubKeyShareAndProof T))) :
    sharesOf (held ++ [none]) = (sharesOf held).pushNone := by
  simp [sharesOf, Shares.pushNone, List.reduceOption_append]

theorem collectShare_eq {held : List (Option (DkgBlsPubKeyShareAndProof T))} {i : Nat} {s : Shares T}
    (h : collectShare E transcript (sharesOf held) i = .ok s) :
    s = sharesOf (held ++ [shareAt E transcript i]) := by
  unfold collectShare at h
  unfold shareAt
  cases hentry : transcript.blsPubKeyShares[i]? with
  | none =>
    rw [hentry] at h
    rw [Option.bind_none, sharesOf_concat_none]
    exact (Except.ok.inj h).symm
  | some bytes =>
    rw [hentry] at h
    obtain ⟨share, hshare, h⟩ := bind_ok_iff.1 h
    rw [Option.bind_some, hshare]
    dsimp only
    split at h
    · next hvalid =>
      rw [if_pos hvalid, sharesOf_concat_some]
      exact (Except.ok.inj h).symm
    · next hvalid =>
      rw [if_neg hvalid, sharesOf_concat_none]
      exact (Except.ok.inj h).symm

/-- The run of the loop over some indices, from the vectors of those before. -/
theorem collectShares_from {is : List Nat} {held : List (Option (DkgBlsPubKeyShareAndProof T))}
    {s : Shares T} (h : is.foldlM (collectShare E transcript) (sharesOf held) = .ok s) :
    s = sharesOf (held ++ is.map (shareAt E transcript)) := by
  induction is generalizing held with
  | nil =>
    rw [List.map_nil, List.append_nil]
    exact (Except.ok.inj h).symm
  | cons i is ih =>
    obtain ⟨s₁, hstep, hrest⟩ := foldlM_cons_ok_iff.1 h
    rw [collectShare_eq hstep] at hrest
    rw [ih hrest, List.append_assoc, List.map_cons, List.singleton_append]

theorem collectShares_eq {nodes : Nat} {s : Shares T} (h : collectShares E transcript nodes = .ok s) :
    s = sharesOf ((List.range nodes).map (shareAt E transcript)) :=
  @collectShares_from T E transcript (List.range nodes) [] s h

/-! ## What the vectors hold -/

theorem shareAt_eq_some_iff {i : Nat} {share : DkgBlsPubKeyShareAndProof T} :
    shareAt E transcript i = some share ↔ Verified E transcript i share := by
  unfold shareAt
  constructor
  · intro h
    obtain ⟨bytes, hbytes, h⟩ := Option.bind_eq_some_iff.1 h
    split at h
    · next share' hshare =>
      split at h
      · next hvalid =>
        obtain rfl := Option.some.inj h
        obtain ⟨h12381, h254⟩ := Bool.and_eq_true_iff.1 hvalid
        exact ⟨⟨bytes, hbytes, hshare⟩, h12381, h254⟩
      · cases h
    · cases h
  · intro h
    obtain ⟨bytes, hbytes, hshare⟩ := h.entry
    rw [hbytes, Option.bind_some, hshare]
    exact if_pos (Bool.and_eq_true_iff.2 ⟨h.bls12381, h.bn254⟩)

theorem holdsAt_sharesOf {nodes i : Nat} (hi : i < nodes) :
    HoldsAt (sharesOf ((List.range nodes).map (shareAt E transcript))) i (shareAt E transcript i) := by
  have hrange : (List.range nodes)[i]? = some i := List.getElem?_range hi
  simp [HoldsAt, sharesOf, hrange]

theorem mem_pubPolys {nodes i : Nat} {share : DkgBlsPubKeyShareAndProof T} (hi : i < nodes)
    (h : shareAt E transcript i = some share) :
    share.publicPoly.polynomialBls12381 ∈
        (sharesOf ((List.range nodes).map (shareAt E transcript))).pubPolys12381 ∧
      share.publicPoly.polynomialBn254 ∈
        (sharesOf ((List.range nodes).map (shareAt E transcript))).pubPolys254 := by
  have hmem : share ∈ ((List.range nodes).map (shareAt E transcript)).reduceOption := by
    rw [List.reduceOption_mem_iff]
    exact List.mem_map.2 ⟨i, List.mem_range.2 hi, h⟩
  exact ⟨List.mem_map_of_mem hmem, List.mem_map_of_mem hmem⟩

theorem eq_of_allFirst {α : Type} [DecidableEq α] {polys : List α} {first poly : α}
    (h : allFirst polys = true) (hfirst : polys.head? = some first) (hpoly : poly ∈ polys) :
    poly = first := by
  have heq := List.all_eq_true.1 h poly hpoly
  rw [hfirst] at heq
  exact Option.some.inj (beq_iff_eq.1 heq)

/-! ## The command -/

section
variable {α : Type} {w : Write T}

theorem of_mem_lift {r : Except CliError α} {k : α → Tool T Unit} (h : w ∈ after (lift r >>= k) []) :
    ∃ a, r = .ok a ∧ w ∈ after (k a) [] := by
  cases r with
  | error e => cases h
  | ok a => exact ⟨a, rfl, h⟩

theorem notMem_generalError {message : String} :
    w ∉ after (generalError message : Tool T Unit) [] := List.not_mem_nil

theorem notMem_panics {message : String} : w ∉ after (panics message : Tool T Unit) [] :=
  List.not_mem_nil

theorem eq_of_mem_update {r : Except CliError Unit} {w' : Write T} (h : w ∈ after (update r w') []) :
    w = w' := by
  obtain ⟨_, _, h⟩ := of_mem_lift h
  exact List.mem_singleton.1 h

end

theorem generateCommitteeKey_inv {key : DkgCommitteeBLSPublicKeyBytes}
    (h : .committeeKey key ∈ after (generateCommitteeKey E) []) :
    ∃ config transcript shares pk poly,
      E.readConfig = .ok config ∧ E.readBlsPubKeyTranscript = .ok transcript ∧
      collectShares E transcript config.nodes = .ok shares ∧
      config.threshold ≤ shares.held ∧
      E.combinePublicKeysEcp12381 shares.ecp12381 config.threshold = .ok pk.bls12381.pubKeyG1 ∧
      E.combinePublicKeysEcp2Bls12381 shares.ecp2Bls12381 config.threshold =
        .ok pk.bls12381.pubKeyG2 ∧
      E.combinePublicKeysEcp254 shares.ecp254 config.threshold = .ok pk.bn254.pubKeyG1 ∧
      E.combinePublicKeysEcp2Bn254 shares.ecp2Bn254 config.threshold = .ok pk.bn254.pubKeyG2 ∧
      (∀ p ∈ shares.pubPolys12381, p = poly.polynomialBls12381) ∧
      (∀ p ∈ shares.pubPolys254, p = poly.polynomialBn254) ∧
      key = DkgCommitteeBLSPublicKey.toBytes E ⟨pk, poly⟩ := by
  unfold generateCommitteeKey at h
  obtain ⟨config, hconfig, h⟩ := of_mem_lift h
  obtain ⟨transcript, htranscript, h⟩ := of_mem_lift h
  obtain ⟨blsPubKey, -, h⟩ := of_mem_lift h
  -- each check that fails ends the command before the only write
  split at h
  · exact absurd h notMem_generalError
  obtain ⟨shares, hshares, h⟩ := of_mem_lift h
  split at h
  · exact absurd h notMem_generalError
  next hheld =>
  split at h
  · next g1Bls12381 g2Bls12381 g1Bn254 g2Bn254 h1 h2 h3 h4 =>
    split at h
    · exact absurd h notMem_generalError
    next hall =>
    split at h
    · next poly12381 poly254 hhead12381 hhead254 =>
      simp only [Bool.or_eq_true, Bool.not_eq_true', not_or, Bool.not_eq_false] at hall
      refine ⟨config, transcript, shares, ⟨⟨g1Bls12381, g2Bls12381⟩, ⟨g1Bn254, g2Bn254⟩⟩,
        ⟨poly12381, poly254⟩, hconfig, htranscript, hshares, Nat.le_of_not_lt hheld, h1, h2, h3, h4,
        fun p hp => eq_of_allFirst hall.1 hhead12381 hp, fun p hp => eq_of_allFirst hall.2 hhead254 hp,
        ?_⟩
      injection eq_of_mem_update h
    · exact absurd h notMem_panics
  · exact absurd h notMem_generalError
  · exact absurd h notMem_panics

/-- **The committee's key is made of verified shares**: at each index the four combiners were given
the keys of the share that is verified there, or nothing if there is none. There are `threshold` of
them, and all were checked against the polynomials that are written with the key. -/
theorem committee_key_of_verified_shares (E : Env T) (key : DkgCommitteeBLSPublicKeyBytes)
    (h : .committeeKey key ∈ after (generateCommitteeKey E) []) :
    ∃ config transcript shares pk poly,
      E.readConfig = .ok config ∧ E.readBlsPubKeyTranscript = .ok transcript ∧
      collectShares E transcript config.nodes = .ok shares ∧
      E.combinePublicKeysEcp12381 shares.ecp12381 config.threshold = .ok pk.bls12381.pubKeyG1 ∧
      E.combinePublicKeysEcp2Bls12381 shares.ecp2Bls12381 config.threshold =
        .ok pk.bls12381.pubKeyG2 ∧
      E.combinePublicKeysEcp254 shares.ecp254 config.threshold = .ok pk.bn254.pubKeyG1 ∧
      E.combinePublicKeysEcp2Bn254 shares.ecp2Bn254 config.threshold = .ok pk.bn254.pubKeyG2 ∧
      key = DkgCommitteeBLSPublicKey.toBytes E ⟨pk, poly⟩ ∧
      shares.ecp12381.length = config.nodes ∧ shares.ecp2Bls12381.length = config.nodes ∧
      shares.ecp254.length = config.nodes ∧ shares.ecp2Bn254.length = config.nodes ∧
      (∀ i < config.nodes,
        (∃ share, Verified E transcript i share ∧ HoldsAt shares i (some share) ∧
          share.publicPoly = poly) ∨
        ((∀ share, ¬ Verified E transcript i share) ∧ HoldsAt shares i none)) ∧
      config.threshold ≤ (shares.ecp12381.filter (·.isSome)).length := by
  obtain ⟨config, transcript, shares, pk, poly, hconfig, htranscript, hshares, hheld, h1, h2, h3, h4,
    hpoly12381, hpoly254, hkey⟩ := generateCommitteeKey_inv h
  have hlen : ∀ {β : Type} (f : Option (DkgBlsPubKeyShareAndProof T) → β),
      (((List.range config.nodes).map (shareAt E transcript)).map f).length = config.nodes := by
    intro β f
    rw [List.length_map, List.length_map, List.length_range]
  refine ⟨config, transcript, shares, pk, poly, hconfig, htranscript, hshares, h1, h2, h3, h4, hkey, ?_⟩
  obtain rfl := collectShares_eq hshares
  refine ⟨hlen _, hlen _, hlen _, hlen _, fun i hi => ?_, hheld⟩
  have hholds : HoldsAt _ i (shareAt E transcript i) := holdsAt_sharesOf hi
  cases hshare : shareAt E transcript i with
  | none =>
    rw [hshare] at hholds
    refine .inr ⟨fun share hverified => ?_, hholds⟩
    rw [shareAt_eq_some_iff.2 hverified] at hshare
    cases hshare
  | some share =>
    rw [hshare] at hholds
    obtain ⟨hmem12381, hmem254⟩ := mem_pubPolys hi hshare
    have hpoly : share.publicPoly = poly :=
      PublicPolynomial.ext (hpoly12381 _ hmem12381) (hpoly254 _ hmem254)
    exact .inl ⟨share, shareAt_eq_some_iff.1 hshare, hholds, hpoly⟩

/-- Three nodes, of which one share is needed. The share of the second does not verify, and the third
has not published one. -/
def threeShares : DkgBlsPubKeyTranscript :=
  ⟨Std.TreeMap.ofList
    [(0, DkgBlsPubKeyShareAndProofBytes.mk "01" "01" "01"),
      (1, DkgBlsPubKeyShareAndProofBytes.mk "01" "00" "01")]⟩

def threeNodes : Env plainTypes := plainEnv ⟨1, 3, ∅⟩ ⟨∅⟩ threeShares

theorem committee_key_of_verified_shares_small :
    after (generateCommitteeKey threeNodes) [] = [.committeeKey ⟨"01", "01"⟩] ∧
    ∃ shares poly, collectShares threeNodes threeShares 3 = .ok shares ∧
      shares.ecp12381.length = 3 ∧ shares.ecp2Bls12381.length = 3 ∧ shares.ecp254.length = 3 ∧
      shares.ecp2Bn254.length = 3 ∧
      (∀ i < 3,
        (∃ share, Verified threeNodes threeShares i share ∧ HoldsAt shares i (some share) ∧
          share.publicPoly = poly) ∨
        ((∀ share, ¬ Verified threeNodes threeShares i share) ∧ HoldsAt shares i none)) ∧
      1 ≤ (shares.ecp12381.filter (·.isSome)).length := by
  have hrun : after (generateCommitteeKey threeNodes) [] = [.committeeKey ⟨"01", "01"⟩] := rfl
  obtain ⟨config, transcript, shares, -, poly, hconfig, htranscript, hshares, -, -, -, -, -, h1, h2, h3,
    h4, hall, hheld⟩ := committee_key_of_verified_shares threeNodes ⟨"01", "01"⟩
      (hrun ▸ List.mem_singleton_self _)
  cases hconfig
  cases htranscript
  exact ⟨hrun, shares, poly, hshares, h1, h2, h3, h4, hall, hheld⟩

end Nidkg.Proof
