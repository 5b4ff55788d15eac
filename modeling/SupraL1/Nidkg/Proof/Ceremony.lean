import SupraL1.Nidkg.Proof.CommitteeKey
import SupraL1.Nidkg.Proof.Line

/-!
# What a ceremony gives

The shares that honest nodes publish in one ceremony carry one public polynomial (`published_carry`,
`reshared_carry`), because each node selects the same dealings of the transcript. A node that writes a
committee key has checked that all verified shares carry the same polynomial, so a single honest share
decides which it is, and by interpolation the key is the one of that polynomial (`key_of_completes`).
-/

namespace Nidkg.Proof

open EState Fallible Polynomial
open Std (TreeMap)

/-! ## One curve -/

section
variable {F G : Type} [Field F] [DecidableEq F] [AddCommGroup G] [Module F G] {point : Nat → F}
  {combine : List (Option G) → Nat → Except String G}

theorem interpolates_eval (h : Interpolates point combine) {size : Nat}
    (hpoints : Set.InjOn point {i | i < size}) {keys : List (Option G)} (hsize : keys.length ≤ size)
    {f : F[X]} {threshold : Nat} (hf : f.degree < threshold)
    (hheld : threshold ≤ (keys.filter (·.isSome)).length) {g : G}
    (hkeys : ∀ i k, keys[i]? = some (some k) → k = f.eval (point i) • g) :
    combine keys threshold = .ok (f.eval 0 • g) := by
  obtain ⟨held, hlen, hnodup, hmem, hcombine⟩ := h keys threshold hheld
  have hshares : held.map (fun k => (point k.1, k.2)) =
      ((held.map Prod.fst).map point).map fun x => (x, f.eval x • g) := by
    rw [List.map_map, List.map_map]
    refine List.map_congr_left fun k hk => ?_
    exact congrArg (point k.1, ·) (hkeys k.1 k.2 (hmem k hk))
  have hbelow : ∀ i ∈ held.map Prod.fst, i < size := by
    intro i hi
    obtain ⟨k, hk, rfl⟩ := List.mem_map.1 hi
    obtain ⟨hlt, -⟩ := List.getElem?_eq_some_iff.1 (hmem k hk)
    exact hlt.trans_le hsize
  have hxs : ((held.map Prod.fst).map point).Nodup :=
    (List.nodup_map_iff_inj_on hnodup).2 fun i hi j hj => @hpoints i (hbelow i hi) j (hbelow j hj)
  rw [hcombine, hshares, Shamir.combine_eval hxs (by rwa [List.length_map, List.length_map, hlen])]

end

section
variable {F G₁ G₂ Poly Nizk Dealing : Type} [Field F] [DecidableEq F] [AddCommGroup G₁] [Module F G₁]
  [AddCommGroup G₂] [Module F G₂] {c : Curve F G₁ G₂ Poly Dealing} {size : Nat}
  {verify : Nat → G₁ → G₂ → Nizk → Poly → Bool} {combine₁ : List (Option G₁) → Nat → Except String G₁}
  {combine₂ : List (Option G₂) → Nat → Except String G₂} {threshold : Nat}
  (hc : c.Laws size verify combine₁ combine₂)
include hc

theorem degree_secret_sum {dealings : List Dealing}
    (h : ∀ d ∈ dealings, (c.dealt d).degree < threshold) :
    (c.secret (c.sum dealings)).degree < threshold := by
  rw [hc.sum, ← mem_degreeLT]
  refine list_sum_mem fun f hf => ?_
  obtain ⟨d, hd, rfl⟩ := List.mem_map.1 hf
  exact mem_degreeLT.2 (h d hd)

section
variable {dealings : List (Nat × Dealing)}

theorem degree_secret_reshare (h : ∀ d ∈ dealings, (c.dealt d.2).degree < threshold) :
    (c.secret (c.reshare dealings)).degree < threshold := by
  rw [hc.reshare, ← mem_degreeLT]
  refine Shamir.combine_mem fun s hs => ?_
  obtain ⟨d, hd, rfl⟩ := List.mem_map.1 hs
  exact mem_degreeLT.2 (h d hd)

theorem eval_secret_reshare (hnodup : (dealings.map Prod.fst).Nodup) (hsize : ∀ d ∈ dealings, d.1 < size)
    {f : F[X]} (hf : f.degree < dealings.length)
    (h : ∀ d ∈ dealings, (c.dealt d.2).eval 0 = f.eval (c.point d.1)) :
    (c.secret (c.reshare dealings)).eval 0 = f.eval 0 := by
  have hpoints : ((dealings.map fun d => (c.point d.1, c.dealt d.2)).map Prod.fst).Nodup := by
    have hbelow : ∀ i ∈ dealings.map Prod.fst, i < size := by
      intro i hi
      obtain ⟨d, hd, rfl⟩ := List.mem_map.1 hi
      exact hsize d hd
    have hinj : ((dealings.map Prod.fst).map c.point).Nodup :=
      (List.nodup_map_iff_inj_on hnodup).2 fun i hi j hj =>
        @hc.points i (hbelow i hi) j (hbelow j hj)
    rw [List.map_map] at hinj ⊢
    exact hinj
  rw [hc.reshare]
  refine Shamir.eval_combine hpoints (by rwa [List.length_map]) fun s hs => ?_
  obtain ⟨d, hd, rfl⟩ := List.mem_map.1 hs
  exact h d hd

end

end

variable {T : Types} {E : Env T}

/-! ## The vectors of a transcript -/

section
variable {given : DkgBlsPubKeyTranscript} {nodes : Nat} {α : Type}

def verifiedShares (E : Env T) (given : DkgBlsPubKeyTranscript) (nodes : Nat) :
    List (Option (DkgBlsPubKeyShareAndProof T)) :=
  (List.range nodes).map (shareAt E given)

theorem of_getElem?_verifiedShares {proj : DkgBlsPubKeyShareAndProof T → α} {i : Nat} {k : α}
    (h : ((verifiedShares E given nodes).map (·.map proj))[i]? = some (some k)) :
    i < nodes ∧ ∃ share, shareAt E given i = some share ∧ k = proj share := by
  obtain ⟨hlt, -⟩ := List.getElem?_eq_some_iff.1 h
  rw [verifiedShares, List.length_map, List.length_map, List.length_range] at hlt
  rw [verifiedShares, List.getElem?_map, List.getElem?_map, List.getElem?_range hlt] at h
  obtain ⟨share, hshare, rfl⟩ := Option.map_eq_some_iff.1 (Option.some.inj h)
  exact ⟨hlt, share, hshare, rfl⟩

theorem held_verifiedShares (proj : DkgBlsPubKeyShareAndProof T → α) :
    (((verifiedShares E given nodes).map (·.map proj)).filter (·.isSome)).length =
      ((verifiedShares E given nodes).filter (·.isSome)).length := by
  rw [List.filter_map, List.length_map]
  simp only [Function.comp_def, Option.isSome_map]

end

/-! ## The key of a polynomial -/

/-- The shares in `honest` can be read, verify at their index and carry `poly`. -/
def Carry (E : Env T) (poly : PublicPolynomial T)
    (honest : Nat → DkgBlsPubKeyShareAndProofBytes → Prop) : Prop :=
  ∀ {i bytes}, honest i bytes → ∃ share, bytes.tryInto E = .ok share ∧
    publicKeyIsValid E i share = true ∧ share.publicPoly = poly

theorem shareAt_of_honest {poly : PublicPolynomial T}
    {honest : Nat → DkgBlsPubKeyShareAndProofBytes → Prop} (hcarry : Carry E poly honest)
    {given : DkgBlsPubKeyTranscript} {i : Nat} {bytes : DkgBlsPubKeyShareAndProofBytes}
    (hentry : given.blsPubKeyShares[i]? = some bytes) (hhonest : honest i bytes) :
    ∃ share, shareAt E given i = some share ∧ share.publicPoly = poly := by
  obtain ⟨share, hshare, hvalid, hpoly⟩ := hcarry hhonest
  obtain ⟨h12381, h254⟩ := Bool.and_eq_true_iff.1 hvalid
  exact ⟨share, shareAt_eq_some_iff.2 ⟨⟨bytes, hentry, hshare⟩, h12381, h254⟩, hpoly⟩

section
variable {F F' : Type} [Field F] [Field F']

/-- The secret polynomials have fewer than `threshold` coefficients. -/
def Bounded (c : Curve F T.G1Bls12381 T.G2Bls12381 T.PolyBls12381 T.Dealing)
    (c' : Curve F' T.G1Bn254 T.G2Bn254 T.PolyBn254 T.Dealing) (poly : PublicPolynomial T)
    (threshold : Nat) : Prop :=
  (c.secret poly.polynomialBls12381).degree < threshold ∧
    (c'.secret poly.polynomialBn254).degree < threshold

theorem Bounded.mono {c : Curve F T.G1Bls12381 T.G2Bls12381 T.PolyBls12381 T.Dealing}
    {c' : Curve F' T.G1Bn254 T.G2Bn254 T.PolyBn254 T.Dealing} {poly : PublicPolynomial T} {m n : Nat}
    (h : Bounded c c' poly m) (hmn : m ≤ n) : Bounded c c' poly n :=
  ⟨h.1.trans_le (Nat.cast_le.2 hmn), h.2.trans_le (Nat.cast_le.2 hmn)⟩

end

section
variable {F F' : Type} [Field F] [DecidableEq F] [Field F'] [DecidableEq F']
  [AddCommGroup T.G1Bls12381] [Module F T.G1Bls12381] [AddCommGroup T.G2Bls12381]
  [Module F T.G2Bls12381] [AddCommGroup T.G1Bn254] [Module F' T.G1Bn254] [AddCommGroup T.G2Bn254]
  [Module F' T.G2Bn254] {c : Curve F T.G1Bls12381 T.G2Bls12381 T.PolyBls12381 T.Dealing}
  {c' : Curve F' T.G1Bn254 T.G2Bn254 T.PolyBn254 T.Dealing} {size : Nat}

theorem combined_of_carry (hlaws : Laws E c c' size) {given : DkgBlsPubKeyTranscript}
    {nodes threshold : Nat} {poly : PublicPolynomial T} (hnodes : nodes ≤ size)
    (hbounded : Bounded c c' poly threshold)
    (hpoly : ∀ i < nodes, ∀ share, shareAt E given i = some share → share.publicPoly = poly)
    (hheld : threshold ≤ (sharesOf (verifiedShares E given nodes)).held) :
    E.combinePublicKeysEcp12381 (sharesOf (verifiedShares E given nodes)).ecp12381 threshold =
        .ok (committeeKey c c' poly).blsPubKey.bls12381.pubKeyG1 ∧
      E.combinePublicKeysEcp2Bls12381 (sharesOf (verifiedShares E given nodes)).ecp2Bls12381 threshold =
        .ok (committeeKey c c' poly).blsPubKey.bls12381.pubKeyG2 ∧
      E.combinePublicKeysEcp254 (sharesOf (verifiedShares E given nodes)).ecp254 threshold =
        .ok (committeeKey c c' poly).blsPubKey.bn254.pubKeyG1 ∧
      E.combinePublicKeysEcp2Bn254 (sharesOf (verifiedShares E given nodes)).ecp2Bn254 threshold =
        .ok (committeeKey c c' poly).blsPubKey.bn254.pubKeyG2 := by
  have hlen : ∀ {β : Type} (f : Option (DkgBlsPubKeyShareAndProof T) → β),
      ((verifiedShares E given nodes).map f).length ≤ size := by
    intro β f
    rw [List.length_map, verifiedShares, List.length_map, List.length_range]
    exact hnodes
  have hcount : threshold ≤ ((verifiedShares E given nodes).filter (·.isSome)).length :=
    hheld.trans_eq (held_verifiedShares _)
  -- at each index there is the value of the polynomial, in each of the four groups
  have hvalue : ∀ {α : Type} {proj : DkgBlsPubKeyShareAndProof T → α} {i : Nat} {k : α},
      ((verifiedShares E given nodes).map (·.map proj))[i]? = some (some k) →
      ∃ share, Verified E given i share ∧ share.publicPoly = poly ∧ k = proj share := by
    intro α proj i k h
    obtain ⟨hi, share, hshare, hk⟩ := of_getElem?_verifiedShares h
    exact ⟨share, shareAt_eq_some_iff.1 hshare, hpoly i hi share hshare, hk⟩
  refine ⟨interpolates_eval hlaws.bls12381.combine₁ hlaws.bls12381.points (hlen _) hbounded.1
      (hcount.trans_eq (held_verifiedShares _).symm) fun i k h => ?_,
    interpolates_eval hlaws.bls12381.combine₂ hlaws.bls12381.points (hlen _) hbounded.1
      (hcount.trans_eq (held_verifiedShares _).symm) fun i k h => ?_,
    interpolates_eval hlaws.bn254.combine₁ hlaws.bn254.points (hlen _) hbounded.2
      (hcount.trans_eq (held_verifiedShares _).symm) fun i k h => ?_,
    interpolates_eval hlaws.bn254.combine₂ hlaws.bn254.points (hlen _) hbounded.2
      (hcount.trans_eq (held_verifiedShares _).symm) fun i k h => ?_⟩
  · obtain ⟨share, hverified, rfl, rfl⟩ := hvalue h
    exact (hlaws.bls12381.verified hverified.bls12381).1
  · obtain ⟨share, hverified, rfl, rfl⟩ := hvalue h
    exact (hlaws.bls12381.verified hverified.bls12381).2
  · obtain ⟨share, hverified, rfl, rfl⟩ := hvalue h
    exact (hlaws.bn254.verified hverified.bn254).1
  · obtain ⟨share, hverified, rfl, rfl⟩ := hvalue h
    exact (hlaws.bn254.verified hverified.bn254).2

/-- **One honest share decides the key**: a node that writes a key has compared the polynomials of all
verified shares. -/
theorem key_of_completes (hlaws : Laws E c c' size) {config : DkgConfig}
    {honest : Nat → DkgBlsPubKeyShareAndProofBytes → Prop} {poly : PublicPolynomial T}
    {key : DkgCommitteeBLSPublicKeyBytes} (h : Completes E honest config key)
    (hnodes : config.nodes ≤ size) (hbounded : Bounded c c' poly config.threshold)
    (hcarry : Carry E poly honest) : key = (committeeKey c c' poly).toBytes E := by
  obtain ⟨n, given, i, bytes, hconfig, hgiven, hi, hentry, hhonest, hwrite⟩ := h
  obtain ⟨config', given', shares, pk, poly', hconfig', hgiven', hshares, hheld, h1, h2, h3, h4,
    hpolys, hpolys', rfl⟩ := generateCommitteeKey_inv hwrite
  obtain rfl := Except.ok.inj (hconfig.symm.trans hconfig')
  obtain rfl := Except.ok.inj (hgiven.symm.trans hgiven')
  obtain rfl := collectShares_eq hshares
  have hall : ∀ j < config.nodes, ∀ share, shareAt E given j = some share →
      share.publicPoly = poly' := fun j hj share hshare =>
    PublicPolynomial.ext (hpolys _ (mem_pubPolys hj hshare).1) (hpolys' _ (mem_pubPolys hj hshare).2)
  obtain ⟨share, hshare, rfl⟩ := shareAt_of_honest hcarry hentry hhonest
  obtain rfl := hall i hi share hshare
  obtain ⟨k1, k2, k3, k4⟩ := combined_of_carry hlaws hnodes hbounded hall hheld
  have e1 := Except.ok.inj (h1.symm.trans k1)
  have e2 := Except.ok.inj (h2.symm.trans k2)
  have e3 := Except.ok.inj (h3.symm.trans k3)
  have e4 := Except.ok.inj (h4.symm.trans k4)
  have hpk : pk = (committeeKey c c' share.publicPoly).blsPubKey := by
    rcases pk with ⟨⟨_, _⟩, ⟨_, _⟩⟩
    dsimp only at e1 e2 e3 e4
    rw [e1, e2, e3, e4]
  rw [hpk]
  rfl

end

/-! ## The shares of a ceremony -/

section
variable {w : Write T}

theorem of_mem_update_bind {r : Except CliError Unit} {w' : Write T} {k : Unit → Tool T Unit}
    (h : w ∈ after (update r w' >>= k) []) : w ∈ after (k ()) [w'] := by
  cases r with
  | error e => cases h
  | ok u => exact h

theorem of_mem_update {r : Except CliError Unit} {w' : Write T} {ws : List (Write T)}
    (h : w ∈ after (update r w') ws) : w ∈ ws ∨ w = w' := by
  cases r with
  | error e => exact .inl h
  | ok u =>
    have hmem : w ∈ ws ++ [w'] := h
    rwa [List.mem_append, List.mem_singleton] at hmem

end

theorem of_mem_writeKeys {r : Except String (Aggregated T)} {bytes : DkgBlsPubKeyShareAndProofBytes}
    (h : .blsPubKey bytes ∈ after (writeKeys E r) []) :
    ∃ key pk proof poly, r = .ok (key, pk, proof, poly) ∧
      bytes = DkgBlsPubKeyShareAndProof.toBytes E ⟨pk, proof, poly⟩ := by
  unfold writeKeys at h
  obtain ⟨⟨key, pk, proof, poly⟩, hr, h⟩ := of_mem_lift h
  cases r with
  | error e => cases hr
  | ok a =>
    obtain rfl : a = (key, pk, proof, poly) := Except.ok.inj hr
    refine ⟨key, pk, proof, poly, rfl, ?_⟩
    dsimp only at h
    split at h
    · rcases of_mem_update (of_mem_update_bind h) with hmem | heq
      · cases List.mem_singleton.1 hmem
      · injection heq
    · exact absurd h notMem_generalError

theorem generateKey_inv {bytes : DkgBlsPubKeyShareAndProofBytes}
    (h : .blsPubKey bytes ∈ after (generateKey E) []) :
    ∃ config cgPks transcript secret sk cgPubKey i dealings key pk proof poly,
      E.readConfig = .ok config ∧ config.getPks E = .ok cgPks ∧ E.readTranscript = .ok transcript ∧
      E.readCGPrivateKey = .ok secret ∧ secret.tryInto E = .ok sk ∧
      E.readCGPublicKey = .ok cgPubKey ∧ config.nodeIndexForPk cgPubKey = .ok i ∧
      keyDealings E config cgPks transcript = .ok dealings ∧
      E.aggregateDealingsForSelfGroup dealings sk i = .ok (key, pk, proof, poly) ∧
      bytes = DkgBlsPubKeyShareAndProof.toBytes E ⟨pk, proof, poly⟩ := by
  unfold generateKey at h
  obtain ⟨config, hconfig, h⟩ := of_mem_lift h
  obtain ⟨cgPks, hcgPks, h⟩ := of_mem_lift h
  obtain ⟨transcript, htranscript, h⟩ := of_mem_lift h
  obtain ⟨secret, hsecret, h⟩ := of_mem_lift h
  obtain ⟨sk, hsk, h⟩ := of_mem_lift h
  obtain ⟨cgPubKey, hcgPubKey, h⟩ := of_mem_lift h
  obtain ⟨i, hi, h⟩ := of_mem_lift h
  obtain ⟨dealings, hdealings, h⟩ := of_mem_lift h
  split at h
  · cases h
  · obtain ⟨key, pk, proof, poly, hagg, hbytes⟩ := of_mem_writeKeys h
    exact ⟨config, cgPks, transcript, secret, sk, cgPubKey, i, dealings, key, pk, proof, poly, hconfig,
      hcgPks, htranscript, hsecret, hsk, hcgPubKey, hi, hdealings, hagg, hbytes⟩

theorem generateReshareKey_inv {bytes : DkgBlsPubKeyShareAndProofBytes}
    (h : .blsPubKey bytes ∈ after (generateReshareKey E) []) :
    ∃ config cgPks transcript oldSer old secret sk cgPubKey i dealings key pk proof poly,
      E.readConfig = .ok config ∧ config.getPks E = .ok cgPks ∧ E.readTranscript = .ok transcript ∧
      E.readCommitteeKey = .ok oldSer ∧ oldSer.tryInto E = .ok old ∧
      E.readCGPrivateKey = .ok secret ∧ secret.tryInto E = .ok sk ∧
      E.readCGPublicKey = .ok cgPubKey ∧ config.nodeIndexForPk cgPubKey = .ok i ∧
      reshareKeyDealings E config cgPks old.publicPoly transcript = .ok dealings ∧
      config.threshold ≤ dealings.size ∧
      E.aggregateResharingDealingsForSelfGroup dealings sk i config.threshold old.publicPoly =
        .ok (key, pk, proof, poly) ∧
      bytes = DkgBlsPubKeyShareAndProof.toBytes E ⟨pk, proof, poly⟩ := by
  unfold generateReshareKey at h
  obtain ⟨secret, hsecret, h⟩ := of_mem_lift h
  obtain ⟨sk, hsk, h⟩ := of_mem_lift h
  obtain ⟨transcript, htranscript, h⟩ := of_mem_lift h
  obtain ⟨config, hconfig, h⟩ := of_mem_lift h
  obtain ⟨cgPks, hcgPks, h⟩ := of_mem_lift h
  obtain ⟨oldSer, holdSer, h⟩ := of_mem_lift h
  obtain ⟨old, hold, h⟩ := of_mem_lift h
  obtain ⟨cgPubKey, hcgPubKey, h⟩ := of_mem_lift h
  obtain ⟨i, hi, h⟩ := of_mem_lift h
  obtain ⟨dealings, hdealings, h⟩ := of_mem_lift h
  split at h
  · cases h
  · next hsize =>
    obtain ⟨key, pk, proof, poly, hagg, hbytes⟩ := of_mem_writeKeys h
    exact ⟨config, cgPks, transcript, oldSer, old, secret, sk, cgPubKey, i, dealings, key, pk, proof,
      poly, hconfig, hcgPks, htranscript, holdSer, hold, hsecret, hsk, hcgPubKey, hi, hdealings,
      Nat.le_of_not_lt hsize, hagg, hbytes⟩

theorem selectDealings_inv {σ : Type} {verifies : Nat → T.Dealing → Bool}
    {push : σ → Nat → T.Dealing → σ} {len : σ → Nat} {threshold : Nat} (Inv : σ → Prop)
    {entries : List (Nat × DkgDealing)} {s s' : σ}
    (h : selectDealings E verifies push len threshold entries s = .ok s') (hs : Inv s)
    (hpush : ∀ s, ∀ entry ∈ entries, ∀ d, verifies entry.1 d = true → Inv s → Inv (push s entry.1 d)) :
    Inv s' := by
  induction entries generalizing s with
  | nil =>
    obtain rfl := Except.ok.inj h
    exact hs
  | cons entry entries ih =>
    obtain ⟨index, ser⟩ := entry
    obtain ⟨d, -, h⟩ := bind_ok_iff.1 h
    have hs₁ : Inv (if verifies index d then push s index d else s) := by
      split
      · next hv => exact hpush s _ List.mem_cons_self d hv hs
      · exact hs
    revert h hs₁
    dsimp only
    generalize (if verifies index d = true then push s index d else s) = s₁
    intro h hs₁
    split at h
    · obtain rfl := Except.ok.inj h
      exact hs₁
    · exact ih h hs₁ fun s e he => hpush s e (List.mem_cons_of_mem _ he)

theorem verified_of_keyDealings {config : DkgConfig} {cgPks : TreeMap Nat T.CGPublicKey}
    {transcript : DkgTranscript} {dealings : List T.Dealing}
    (h : keyDealings E config cgPks transcript = .ok dealings) :
    ∀ d ∈ dealings, E.verifyDealing d cgPks config.nodes config.threshold = true := by
  refine selectDealings_inv (fun ds => ∀ d ∈ ds,
    E.verifyDealing d cgPks config.nodes config.threshold = true) h
    (fun d hd => absurd hd List.not_mem_nil) ?_
  intro ds entry _ d hverifies hds d' hd'
  rcases List.mem_append.1 hd' with hd' | hd'
  · exact hds d' hd'
  · obtain rfl := List.mem_singleton.1 hd'
    exact hverifies

theorem verified_of_reshareKeyDealings {config : DkgConfig} {cgPks : TreeMap Nat T.CGPublicKey}
    {old : PublicPolynomial T} {transcript : DkgTranscript} {dealings : TreeMap Nat T.Dealing}
    (h : reshareKeyDealings E config cgPks old transcript = .ok dealings) :
    ∀ d ∈ dealings.toList, d.1 ∈ transcript.dealings ∧
      E.verifyResharingDealing d.2 cgPks config.nodes config.threshold d.1 old = true := by
  unfold reshareKeyDealings at h
  refine selectDealings_inv (fun ds : TreeMap Nat T.Dealing => ∀ d ∈ ds.toList,
    d.1 ∈ transcript.dealings ∧
      E.verifyResharingDealing d.2 cgPks config.nodes config.threshold d.1 old = true) h
    (fun d hd => absurd hd List.not_mem_nil) ?_
  intro ds entry hentry d hverifies hds d' hd'
  have hindex : entry.1 ∈ transcript.dealings := by
    have hget := TreeMap.mem_toList_iff_getElem?_eq_some.1 hentry
    rw [TreeMap.mem_iff_isSome_getElem?, hget, Option.isSome_some]
  have hget : (ds.insert entry.1 d)[d'.1]? = some d'.2 := TreeMap.mem_toList_iff_getElem?_eq_some.1 hd'
  rw [TreeMap.getElem?_insert] at hget
  split at hget
  · next heq =>
    obtain ⟨j, d'⟩ := d'
    obtain rfl : entry.1 = j := Nat.compare_eq_eq.1 heq
    obtain rfl := Option.some.inj hget
    exact ⟨hindex, hverifies⟩
  · exact hds d' (TreeMap.mem_toList_iff_getElem?_eq_some.2 hget)

theorem selectDealings_env (n : Node T) {σ : Type} (verifies : Nat → T.Dealing → Bool)
    (push : σ → Nat → T.Dealing → σ) (len : σ → Nat) (threshold : Nat)
    (entries : List (Nat × DkgDealing)) (s : σ) :
    selectDealings (n.env E) verifies push len threshold entries s =
      selectDealings E verifies push len threshold entries s := by
  induction entries generalizing s with
  | nil => rfl
  | cons entry entries ih =>
    unfold selectDealings
    simp only [ih]
    rfl

section
variable {cgPks cgPks' : TreeMap Nat T.CGPublicKey} {i : Nat} {pk : DkgCGPublicKey}

/-- The loop of `get_pks` over entries with distinct indices: what it inserts stays. -/
theorem getPks_loop {entries : List (Nat × DkgCGPublicKey)}
    (hdistinct : entries.Pairwise fun a b => ¬ a.1 = b.1)
    (h : entries.foldlM (fun cgPks (nodeIndex, key) => do
      return TreeMap.insert cgPks nodeIndex (← key.tryInto E)) cgPks = .ok cgPks') :
    (∀ j, (∀ entry ∈ entries, ¬ entry.1 = j) → cgPks'[j]? = cgPks[j]?) ∧
      ∀ entry ∈ entries, ∃ key, entry.2.tryInto E = .ok key ∧ cgPks'[entry.1]? = some key := by
  induction entries generalizing cgPks with
  | nil =>
    obtain rfl := Except.ok.inj h
    exact ⟨fun _ _ => rfl, fun _ hmem => absurd hmem List.not_mem_nil⟩
  | cons entry entries ih =>
    obtain ⟨cgPks₁, hinsert, hrest⟩ := foldlM_cons_ok_iff.1 h
    obtain ⟨key, hkey, hinsert⟩ := bind_ok_iff.1 hinsert
    obtain rfl := Except.ok.inj hinsert
    rw [List.pairwise_cons] at hdistinct
    obtain ⟨hother, hin⟩ := ih hdistinct.2 hrest
    constructor
    · intro j hj
      rw [hother j fun e he => hj e (List.mem_cons_of_mem _ he), TreeMap.getElem?_insert, if_neg]
      rw [Nat.compare_eq_eq]
      exact hj entry List.mem_cons_self
    · intro e he
      rcases List.mem_cons.1 he with rfl | he
      · refine ⟨key, hkey, ?_⟩
        rw [hother e.1 fun e' he' => Ne.symm (hdistinct.1 e' he'), TreeMap.getElem?_insert_self]
      · exact hin e he

theorem getPks_nodeIndexForPk {config : DkgConfig} (h : config.getPks E = .ok cgPks)
    (hi : config.nodeIndexForPk pk = .ok i) :
    ∃ key, pk.tryInto E = .ok key ∧ cgPks[i]? = some key := by
  unfold DkgConfig.nodeIndexForPk at hi
  split at hi
  · next j pk' hfind =>
    obtain rfl := Except.ok.inj hi
    obtain rfl : pk = pk' := by
      have hkey := List.find?_some hfind
      cases pk
      cases pk'
      exact congrArg DkgCGPublicKey.mk (beq_iff_eq.1 hkey)
    refine (getPks_loop ?_ h).2 (j, pk) (List.mem_of_find?_eq_some hfind)
    exact TreeMap.distinct_keys_toList.imp fun hne heq => hne (Nat.compare_eq_eq.2 heq)
  · cases hi

theorem key_of_takesPart {n : Node T} {config : DkgConfig} {transcript : DkgTranscript}
    {secret : DkgCGPrivateKey} {sk : T.CGSecretKey} (h : n.TakesPart E config transcript i)
    (hcgPks : config.getPks E = .ok cgPks) (hsecret : n.readCGPrivateKey = .ok secret)
    (hsk : secret.tryInto E = .ok sk) (hpk : n.readCGPublicKey = .ok pk) :
    config.nodeIndexForPk pk = .ok i ∧ ∃ key, E.cgPublicKeyOf sk = .ok key ∧ cgPks[i]? = some key := by
  obtain ⟨pk', ⟨secret', sk', key, hsecret', hsk', hpk', hkey, hpair⟩, hi⟩ := h.hasIndex
  obtain rfl := Except.ok.inj (hpk.symm.trans hpk')
  obtain rfl := Except.ok.inj (hsecret.symm.trans hsecret')
  obtain rfl := Except.ok.inj (hsk.symm.trans hsk')
  obtain ⟨key', hkey', hget⟩ := getPks_nodeIndexForPk hcgPks hi
  obtain rfl := Except.ok.inj (hkey.symm.trans hkey')
  exact ⟨hi, key, hpair, hget⟩

end

/-- What a published share was made of: nothing but the index and the key are the node's own. -/
theorem published_inv {config : DkgConfig} {transcript : DkgTranscript} {i : Nat}
    {bytes : DkgBlsPubKeyShareAndProofBytes} (h : Published E config transcript i bytes) :
    ∃ cgPks dealings sk cgPk key pk proof poly,
      config.getPks E = .ok cgPks ∧ keyDealings E config cgPks transcript = .ok dealings ∧
      E.cgPublicKeyOf sk = .ok cgPk ∧ cgPks[i]? = some cgPk ∧
      E.aggregateDealingsForSelfGroup dealings sk i = .ok (key, pk, proof, poly) ∧
      bytes = DkgBlsPubKeyShareAndProof.toBytes E ⟨pk, proof, poly⟩ := by
  obtain ⟨n, hn, hwrite⟩ := h
  obtain ⟨config', cgPks, transcript', secret, sk, cgPubKey, i', dealings, key, pk, proof, poly, hconfig,
    hcgPks, htranscript, hsecret, hsk, hcgPubKey, hindex, hdealings, hagg, hbytes⟩ :=
    generateKey_inv hwrite
  obtain rfl := Except.ok.inj (hn.readsConfig.symm.trans hconfig)
  obtain rfl := Except.ok.inj (hn.readsTranscript.symm.trans htranscript)
  obtain ⟨hindex', cgPk, hpair, hget⟩ := key_of_takesPart hn hcgPks hsecret hsk hcgPubKey
  obtain rfl := Except.ok.inj (hindex'.symm.trans hindex)
  exact ⟨cgPks, dealings, sk, cgPk, key, pk, proof, poly, hcgPks,
    (selectDealings_env n ..).symm.trans hdealings, hpair, hget, hagg, hbytes⟩

theorem reshared_inv {oldSer : DkgCommitteeBLSPublicKeyBytes} {config : DkgConfig}
    {transcript : DkgTranscript} {i : Nat} {bytes : DkgBlsPubKeyShareAndProofBytes}
    (h : Reshared E oldSer config transcript i bytes) :
    ∃ cgPks old dealings sk cgPk key pk proof poly,
      config.getPks E = .ok cgPks ∧ oldSer.tryInto E = .ok old ∧
      reshareKeyDealings E config cgPks old.publicPoly transcript = .ok dealings ∧
      config.threshold ≤ dealings.size ∧ E.cgPublicKeyOf sk = .ok cgPk ∧ cgPks[i]? = some cgPk ∧
      E.aggregateResharingDealingsForSelfGroup dealings sk i config.threshold old.publicPoly =
        .ok (key, pk, proof, poly) ∧
      bytes = DkgBlsPubKeyShareAndProof.toBytes E ⟨pk, proof, poly⟩ := by
  obtain ⟨n, hn, hold, hwrite⟩ := h
  obtain ⟨config', cgPks, transcript', oldSer', old, secret, sk, cgPubKey, i', dealings, key, pk, proof,
    poly, hconfig, hcgPks, htranscript, holdSer, hold', hsecret, hsk, hcgPubKey, hindex, hdealings, hsize,
    hagg, hbytes⟩ := generateReshareKey_inv hwrite
  obtain rfl := Except.ok.inj (hn.readsConfig.symm.trans hconfig)
  obtain rfl := Except.ok.inj (hn.readsTranscript.symm.trans htranscript)
  obtain rfl := Except.ok.inj (hold.symm.trans holdSer)
  obtain ⟨hindex', cgPk, hpair, hget⟩ := key_of_takesPart hn hcgPks hsecret hsk hcgPubKey
  obtain rfl := Except.ok.inj (hindex'.symm.trans hindex)
  exact ⟨cgPks, old, dealings, sk, cgPk, key, pk, proof, poly, hcgPks, hold',
    (selectDealings_env n ..).symm.trans hdealings, hsize, hpair, hget, hagg, hbytes⟩

/-! ## A node that is ready -/

theorem lift_ok_bind {α β : Type} (a : α) (k : α → Tool T β) (ws : List (Write T)) :
    (lift (.ok a) >>= k) ws = k a ws := rfl

theorem generateCommitteeKey_ok {config : DkgConfig} {given : DkgBlsPubKeyTranscript}
    {own : DkgBlsPubKeyShareAndProofBytes} {shares : Shares T} {key : DkgCommitteeBLSPublicKey T}
    (hconfig : E.readConfig = .ok config) (hgiven : E.readBlsPubKeyTranscript = .ok given)
    (hown : E.readBlsPubKey = .ok own) (hmem : ∃ i, (i, own) ∈ given.blsPubKeyShares.toList)
    (hcollect : collectShares E given config.nodes = .ok shares) (hheld : config.threshold ≤ shares.held)
    (h1 : E.combinePublicKeysEcp12381 shares.ecp12381 config.threshold =
      .ok key.blsPubKey.bls12381.pubKeyG1)
    (h2 : E.combinePublicKeysEcp2Bls12381 shares.ecp2Bls12381 config.threshold =
      .ok key.blsPubKey.bls12381.pubKeyG2)
    (h3 : E.combinePublicKeysEcp254 shares.ecp254 config.threshold = .ok key.blsPubKey.bn254.pubKeyG1)
    (h4 : E.combinePublicKeysEcp2Bn254 shares.ecp2Bn254 config.threshold =
      .ok key.blsPubKey.bn254.pubKeyG2)
    (hpolys : allFirst shares.pubPolys12381 = true ∧
      shares.pubPolys12381.head? = some key.publicPoly.polynomialBls12381)
    (hpolys' : allFirst shares.pubPolys254 = true ∧
      shares.pubPolys254.head? = some key.publicPoly.polynomialBn254)
    (hwrite : E.updateCommitteeKey (key.toBytes E) = .ok ()) :
    generateCommitteeKey E [] = .ok () [.committeeKey (key.toBytes E)] := by
  unfold generateCommitteeKey
  rw [hconfig, lift_ok_bind, hgiven, lift_ok_bind, hown, lift_ok_bind, if_neg]
  · rw [hcollect, lift_ok_bind, if_neg (Nat.not_lt.2 hheld), h1, h2, h3, h4]
    dsimp only
    rw [hpolys.1, hpolys'.1, if_neg (by decide), hpolys.2, hpolys'.2]
    dsimp only
    rw [show E.updateCommitteeKey _ = _ from hwrite]
    rfl
  · -- the node's own key is in the transcript
    obtain ⟨i, hi⟩ := hmem
    rw [List.any_eq_true.2 ⟨(i, own), hi, beq_self_eq_true own⟩]
    decide

section
variable {given : DkgBlsPubKeyTranscript}

theorem collectShare_ok {s : Shares T} {i : Nat}
    (h : ∀ bytes, given.blsPubKeyShares[i]? = some bytes → ∃ share, bytes.tryInto E = .ok share) :
    ∃ s', collectShare E given s i = .ok s' := by
  unfold collectShare
  cases hentry : given.blsPubKeyShares[i]? with
  | none => exact ⟨_, rfl⟩
  | some bytes =>
    obtain ⟨share, hshare⟩ := h bytes hentry
    dsimp only
    rw [hshare]
    by_cases hvalid : publicKeyIsValid E i share = true
    · exact ⟨s.push share, if_pos hvalid⟩
    · exact ⟨s.pushNone, if_neg hvalid⟩

/-- The loop fails only at a share that cannot be read. -/
theorem collectShares_ok {nodes : Nat}
    (h : ∀ i < nodes, ∀ bytes, given.blsPubKeyShares[i]? = some bytes →
      ∃ share, bytes.tryInto E = .ok share) :
    collectShares E given nodes = .ok (sharesOf (verifiedShares E given nodes)) := by
  have hrun : ∀ (is : List Nat) (s : Shares T), (∀ i ∈ is, i < nodes) →
      ∃ s', is.foldlM (collectShare E given) s = .ok s' := by
    intro is
    induction is with
    | nil => exact fun s _ => ⟨s, rfl⟩
    | cons i is ih =>
      intro s his
      obtain ⟨s₁, hs₁⟩ := collectShare_ok (s := s) (h i (his i List.mem_cons_self))
      obtain ⟨s', hs'⟩ := ih s₁ fun j hj => his j (List.mem_cons_of_mem i hj)
      exact ⟨s', foldlM_cons_ok_iff.2 ⟨s₁, hs₁, hs'⟩⟩
  obtain ⟨s, hs⟩ := hrun (List.range nodes) Shares.empty fun i => List.mem_range.1
  have hcollect : collectShares E given nodes = .ok s := hs
  rw [hcollect, collectShares_eq hcollect]
  rfl

theorem length_le_held {nodes : Nat} {is : List Nat} (hnodup : is.Nodup)
    (h : ∀ i ∈ is, i < nodes ∧ ∃ share, shareAt E given i = some share) :
    is.length ≤ (sharesOf (verifiedShares E given nodes)).held := by
  have hheld : (sharesOf (verifiedShares E given nodes)).held =
      ((List.range nodes).filter fun i => (shareAt E given i).isSome).length := by
    rw [Shares.held, sharesOf, held_verifiedShares, verifiedShares, List.filter_map, List.length_map]
    rfl
  rw [hheld]
  refine (List.subperm_of_subset hnodup fun i hi => ?_).length_le
  obtain ⟨hlt, share, hshare⟩ := h i hi
  rw [List.mem_filter, List.mem_range, hshare]
  exact ⟨hlt, rfl⟩

theorem pubPolys_of_carry {nodes i : Nat} {poly : PublicPolynomial T}
    (hpoly : ∀ i < nodes, ∀ share, shareAt E given i = some share → share.publicPoly = poly)
    (hi : i < nodes) (hshare : ∃ share, shareAt E given i = some share) :
    ((∀ p ∈ (sharesOf (verifiedShares E given nodes)).pubPolys12381, p = poly.polynomialBls12381) ∧
      poly.polynomialBls12381 ∈ (sharesOf (verifiedShares E given nodes)).pubPolys12381) ∧
    ((∀ p ∈ (sharesOf (verifiedShares E given nodes)).pubPolys254, p = poly.polynomialBn254) ∧
      poly.polynomialBn254 ∈ (sharesOf (verifiedShares E given nodes)).pubPolys254) := by
  have hall : ∀ share ∈ (verifiedShares E given nodes).reduceOption, share.publicPoly = poly := by
    intro share hmem
    obtain ⟨j, hj, hshare⟩ := List.mem_map.1 (List.reduceOption_mem_iff.1 hmem)
    exact hpoly j (List.mem_range.1 hj) share hshare
  obtain ⟨share, hshare⟩ := hshare
  obtain ⟨hmem12381, hmem254⟩ := mem_pubPolys hi hshare
  rw [hpoly i hi share hshare] at hmem12381 hmem254
  refine ⟨⟨fun p hp => ?_, hmem12381⟩, ⟨fun p hp => ?_, hmem254⟩⟩
  · obtain ⟨share, hmem, rfl⟩ := List.mem_map.1 hp
    rw [hall share hmem]
  · obtain ⟨share, hmem, rfl⟩ := List.mem_map.1 hp
    rw [hall share hmem]

end

theorem allFirst_of_forall_eq {α : Type} [DecidableEq α] {polys : List α} {poly : α}
    (h : ∀ p ∈ polys, p = poly) (hmem : poly ∈ polys) :
    allFirst polys = true ∧ polys.head? = some poly := by
  cases polys with
  | nil => cases hmem
  | cons p polys =>
    obtain rfl := h p List.mem_cons_self
    refine ⟨List.all_eq_true.2 fun q hq => ?_, rfl⟩
    rw [h q hq]
    exact beq_self_eq_true _

theorem nodup_dealers (dealings : TreeMap Nat T.Dealing) : (dealings.toList.map Prod.fst).Nodup := by
  rw [List.Nodup, List.pairwise_map]
  exact TreeMap.distinct_keys_toList.imp fun hne heq => hne (Nat.compare_eq_eq.2 heq)

theorem lineage_published {size : Nat} {config₀ config : DkgConfig} {transcript₀ : DkgTranscript}
    {key : DkgCommitteeBLSPublicKeyBytes} (h : Lineage E size config₀ transcript₀ config key) :
    ∃ i bytes, Published E config₀ transcript₀ i bytes := by
  induction h with
  | generated _ hcompletes =>
    obtain ⟨-, -, i, bytes, -, -, -, -, hhonest, -⟩ := hcompletes
    exact ⟨i, bytes, hhonest⟩
  | reshared _ _ _ _ _ ih => exact ih

section
variable {F F' : Type} [Field F] [DecidableEq F] [Field F'] [DecidableEq F']
  [AddCommGroup T.G1Bls12381] [Module F T.G1Bls12381] [AddCommGroup T.G2Bls12381]
  [Module F T.G2Bls12381] [AddCommGroup T.G1Bn254] [Module F' T.G1Bn254] [AddCommGroup T.G2Bn254]
  [Module F' T.G2Bn254] {c : Curve F T.G1Bls12381 T.G2Bls12381 T.PolyBls12381 T.Dealing}
  {c' : Curve F' T.G1Bn254 T.G2Bn254 T.PolyBn254 T.Dealing} {size : Nat}

/-- The dealing of a resharing, with the index of its dealer, deals the dealer's share of `old`. -/
structure Deals (c : Curve F T.G1Bls12381 T.G2Bls12381 T.PolyBls12381 T.Dealing)
    (c' : Curve F' T.G1Bn254 T.G2Bn254 T.PolyBn254 T.Dealing) (size threshold : Nat)
    (old : PublicPolynomial T) (d : Nat × T.Dealing) : Prop where
  index : d.1 < size
  degree : (c.dealt d.2).degree < threshold ∧ (c'.dealt d.2).degree < threshold
  bls12381 : (c.dealt d.2).eval 0 = (c.secret old.polynomialBls12381).eval (c.point d.1)
  bn254 : (c'.dealt d.2).eval 0 = (c'.secret old.polynomialBn254).eval (c'.point d.1)

section
variable (hlaws : Laws E c c' size)
include hlaws

theorem decode_encode {α : Type} {parse : Consensus.Bytes → Except String α}
    {print : α → Consensus.Bytes} (h : ∀ a, parse (print a) = .ok a) (a : α) :
    decode E parse (E.hexEncode (print a)) = .ok a := by
  unfold decode decodeHex
  rw [hlaws.hex]
  change (parse (print a)).mapError _ = _
  rw [h]
  rfl

theorem share_tryInto_toBytes (share : DkgBlsPubKeyShareAndProof T) :
    (share.toBytes E).tryInto E = .ok share := by
  unfold DkgBlsPubKeyShareAndProofBytes.tryInto DkgBlsPubKeyShareAndProof.toBytes
  rw [decode_encode hlaws hlaws.blsPublicKey, decode_encode hlaws hlaws.dleqProof,
    decode_encode hlaws hlaws.publicPolynomial]
  rfl

theorem committeeKey_tryInto_toBytes (key : DkgCommitteeBLSPublicKey T) :
    (key.toBytes E).tryInto E = .ok key := by
  unfold DkgCommitteeBLSPublicKeyBytes.tryInto DkgCommitteeBLSPublicKey.toBytes
  rw [decode_encode hlaws hlaws.blsPublicKey, decode_encode hlaws hlaws.publicPolynomial]
  rfl

/-- The dealings are selected without the node's own files, so all nodes have the same. -/
theorem published_carry {config : DkgConfig} {transcript : DkgTranscript} {i : Nat}
    {bytes : DkgBlsPubKeyShareAndProofBytes} (h : Published E config transcript i bytes) :
    ∃ poly, Bounded c c' poly config.threshold ∧ Carry E poly (Published E config transcript) := by
  obtain ⟨cgPks, dealings, -, -, -, -, -, -, hcgPks, hdealings, -⟩ := published_inv h
  have hverified := verified_of_keyDealings hdealings
  refine ⟨⟨c.sum dealings, c'.sum dealings⟩, ?_, ?_⟩
  · exact ⟨degree_secret_sum hlaws.bls12381 fun d hd => (hlaws.verifyDealing (hverified d hd)).1,
      degree_secret_sum hlaws.bn254 fun d hd => (hlaws.verifyDealing (hverified d hd)).2⟩
  · intro j bytes' h'
    obtain ⟨cgPks', dealings', sk, cgPk, key, pk, proof, poly, hcgPks', hdealings', hpair, hget, hagg,
      rfl⟩ := published_inv h'
    obtain rfl := Except.ok.inj (hcgPks.symm.trans hcgPks')
    obtain rfl := Except.ok.inj (hdealings.symm.trans hdealings')
    obtain ⟨hvalid, hpoly⟩ := hlaws.aggregate hverified hpair hget hagg
    exact ⟨⟨pk, proof, poly⟩, share_tryInto_toBytes hlaws _, hvalid, hpoly⟩

theorem reshareKeyDealings_ok {config : DkgConfig} {cgPks : TreeMap Nat T.CGPublicKey}
    {old : PublicPolynomial T} {transcript : DkgTranscript} {dealings : TreeMap Nat T.Dealing}
    (h : reshareKeyDealings E config cgPks old transcript = .ok dealings)
    (hdealers : ∀ i ∈ transcript.dealings, i < size) :
    ∀ d ∈ dealings.toList, Deals c c' size config.threshold old d := by
  intro d hd
  obtain ⟨hindex, hverified⟩ := verified_of_reshareKeyDealings h d hd
  obtain ⟨hdegree, h12381, h254⟩ := hlaws.verifyResharing hverified
  exact ⟨hdealers _ hindex, hdegree, h12381, h254⟩

end

def SameSecret (c : Curve F T.G1Bls12381 T.G2Bls12381 T.PolyBls12381 T.Dealing)
    (c' : Curve F' T.G1Bn254 T.G2Bn254 T.PolyBn254 T.Dealing) (poly poly' : PublicPolynomial T) :
    Prop :=
  (c.secret poly.polynomialBls12381).eval 0 = (c.secret poly'.polynomialBls12381).eval 0 ∧
    (c'.secret poly.polynomialBn254).eval 0 = (c'.secret poly'.polynomialBn254).eval 0

/-- The shares of a resharing carry one polynomial, which has the secret of the old one. -/
theorem reshared_carry (hlaws : Laws E c c' size) {old : PublicPolynomial T} {config : DkgConfig}
    {transcript : DkgTranscript} {i : Nat} {bytes : DkgBlsPubKeyShareAndProofBytes}
    (h : Reshared E ((committeeKey c c' old).toBytes E) config transcript i bytes)
    (hold : Bounded c c' old config.threshold) (hdealers : ∀ i ∈ transcript.dealings, i < size) :
    ∃ poly, Bounded c c' poly config.threshold ∧ SameSecret c c' poly old ∧
      Carry E poly (Reshared E ((committeeKey c c' old).toBytes E) config transcript) := by
  have htryInto := committeeKey_tryInto_toBytes hlaws (committeeKey c c' old)
  obtain ⟨cgPks, key, dealings, -, -, -, -, -, -, hcgPks, hkey, hdealings, hsize, -⟩ := reshared_inv h
  obtain rfl := Except.ok.inj (htryInto.symm.trans hkey)
  have hall := reshareKeyDealings_ok hlaws hdealings hdealers
  have hlen : config.threshold ≤ dealings.toList.length := by rwa [TreeMap.length_toList]
  refine ⟨⟨c.reshare dealings.toList, c'.reshare dealings.toList⟩, ?_, ?_, ?_⟩
  · exact ⟨degree_secret_reshare hlaws.bls12381 fun d hd => (hall d hd).degree.1,
      degree_secret_reshare hlaws.bn254 fun d hd => (hall d hd).degree.2⟩
  · have hold' := hold.mono hlen
    exact ⟨eval_secret_reshare hlaws.bls12381 (nodup_dealers dealings) (fun d hd => (hall d hd).index)
        hold'.1 fun d hd => (hall d hd).bls12381,
      eval_secret_reshare hlaws.bn254 (nodup_dealers dealings) (fun d hd => (hall d hd).index)
        hold'.2 fun d hd => (hall d hd).bn254⟩
  · intro j bytes' h'
    obtain ⟨cgPks', key', dealings', sk, cgPk, _, pk, proof, poly, hcgPks', hkey', hdealings', -, hpair,
      hget, hagg, rfl⟩ := reshared_inv h'
    obtain rfl := Except.ok.inj (hcgPks.symm.trans hcgPks')
    obtain rfl := Except.ok.inj (htryInto.symm.trans hkey')
    obtain rfl := Except.ok.inj (hdealings.symm.trans hdealings')
    obtain ⟨hvalid, hpoly⟩ := hlaws.aggregateResharing
      (fun d hd => (verified_of_reshareKeyDealings hdealings d hd).2) hpair hget hagg
    exact ⟨⟨pk, proof, poly⟩, share_tryInto_toBytes hlaws _, hvalid, hpoly⟩

theorem generateCommitteeKey_of_ready (hlaws : Laws E c c' size) {config : DkgConfig}
    {honest : Nat → DkgBlsPubKeyShareAndProofBytes → Prop} {given : DkgBlsPubKeyTranscript}
    {n : Node T} {poly : PublicPolynomial T} (h : Ready E honest config given n)
    (hnodes : config.nodes ≤ size) (hpos : 0 < config.threshold)
    (hbounded : Bounded c c' poly config.threshold) (hcarry : Carry E poly honest) :
    generateCommitteeKey (n.env E) [] = .ok () [.committeeKey ((committeeKey c c' poly).toBytes E)] := by
  obtain ⟨own, hown, j, hj⟩ := h.own
  obtain ⟨is, hnodup, hlen, his⟩ := h.enough
  have hread : ∀ i < config.nodes, ∀ bytes, given.blsPubKeyShares[i]? = some bytes →
      ∃ share, bytes.tryInto E = .ok share := by
    intro i hi bytes hentry
    obtain ⟨share, hshare, -⟩ := h.others i hi bytes hentry
    exact ⟨share, hshare⟩
  have hpoly : ∀ i < config.nodes, ∀ share, shareAt E given i = some share →
      share.publicPoly = poly := by
    intro i hi share hshare
    obtain ⟨⟨bytes, hentry, hbytes⟩, h12381, h254⟩ := shareAt_eq_some_iff.1 hshare
    obtain ⟨share', hshare', hsame⟩ := h.others i hi bytes hentry
    obtain rfl := Except.ok.inj (hbytes.symm.trans hshare')
    obtain ⟨j, bytes', share', hhonest, hbytes', hpoly⟩ :=
      hsame (Bool.and_eq_true_iff.2 ⟨h12381, h254⟩)
    obtain ⟨share₁, hshare₁, -, rfl⟩ := hcarry hhonest
    obtain rfl := Except.ok.inj (hbytes'.symm.trans hshare₁)
    exact hpoly.symm
  have hverified : ∀ i ∈ is, i < config.nodes ∧ ∃ share, shareAt E given i = some share := by
    intro i hi
    obtain ⟨hlt, bytes, hentry, hhonest⟩ := his i hi
    obtain ⟨share, hshare, -⟩ := shareAt_of_honest hcarry hentry hhonest
    exact ⟨hlt, share, hshare⟩
  have hheld := hlen.trans (length_le_held hnodup hverified)
  obtain ⟨k1, k2, k3, k4⟩ := combined_of_carry hlaws hnodes hbounded hpoly hheld
  obtain ⟨i, hi⟩ := List.exists_mem_of_length_pos (hpos.trans_le hlen)
  obtain ⟨⟨heq12381, hmem12381⟩, heq254, hmem254⟩ :=
    pubPolys_of_carry hpoly (hverified i hi).1 (hverified i hi).2
  exact generateCommitteeKey_ok (E := n.env E) h.readsConfig h.readsGiven hown ⟨j, hj⟩
    (collectShares_ok hread) hheld k1 k2 k3 k4 (allFirst_of_forall_eq heq12381 hmem12381)
    (allFirst_of_forall_eq heq254 hmem254) (h.writes _)

/-! ## Lines -/

theorem Line.committeeKey_eq (l : Line) :
    (committeeKey Line.curve Line.curve ⟨l, l⟩ : DkgCommitteeBLSPublicKey Line.types) =
      ⟨Line.publicKey l.1, ⟨l, l⟩⟩ := by
  have hsecret : (Line.curve.secret l).eval 0 • (1 : ZMod 5) = l.1 := by
    rw [smul_eq_mul, mul_one]
    exact Line.eval_poly_zero l
  unfold committeeKey Line.publicKey
  simp only [Line.curve] at hsecret ⊢
  simp only [hsecret]

theorem Line.bounded (l : Line) : Bounded Line.curve Line.curve (T := Line.types) ⟨l, l⟩ 2 :=
  ⟨Line.degree_poly_lt l le_rfl, Line.degree_poly_lt l le_rfl⟩

theorem Line.carry (l : Line) :
    Carry Line.env ⟨l, l⟩ fun i bytes => bytes = Line.published l i := by
  rintro i bytes rfl
  refine ⟨_, share_tryInto_toBytes Line.laws _, ?_, rfl⟩
  simp [publicKeyIsValid, Line.env, Line.verify, Line.publicKey]

theorem Line.forged_tryInto (l : Line) (i : Nat) :
    (Line.forged l i).tryInto Line.env =
      .ok ⟨Line.publicKey (Line.value l i + Line.point 0), ⟨(), ()⟩, ⟨l, l⟩⟩ :=
  share_tryInto_toBytes Line.laws _

theorem Line.forged_invalid (l : Line) (i : Nat) :
    publicKeyIsValid Line.env i
      ⟨Line.publicKey (Line.value l i + Line.point 0), ⟨(), ()⟩, ⟨l, l⟩⟩ = false := by
  have hne : ¬ Line.point 0 = 0 := by decide
  simp [publicKeyIsValid, Line.env, Line.verify, Line.publicKey, hne]

section
variable {honest : Nat → DkgBlsPubKeyShareAndProofBytes → Prop} {keys : List String} {key : String}
  {l : Line} {i j k : Nat} {dealt : DkgTranscript}
  {old : Except CliError DkgCommitteeBLSPublicKeyBytes}

/-- The forged share at the third index does not keep a node from being ready. -/
theorem Line.ready (hnodup : [i, j, k].Nodup) (hi : i < 3) (hj : j < 3)
    (hhonest : ∀ m < 3, honest m (Line.published l m)) :
    Ready Line.env honest (Line.config keys) (Line.given l i j k)
      (Line.node (Line.config keys) key dealt old (Line.given l i j k) (Line.published l i)) where
  readsConfig := rfl
  readsGiven := rfl
  own := by
    refine ⟨_, rfl, i, TreeMap.mem_toList_iff_getElem?_eq_some.2 ?_⟩
    have hik : ¬ i = k := by simp_all
    rw [Line.given_getElem?, if_neg hik, if_pos (.inl rfl)]
  enough := by
    refine ⟨[i, j], hnodup.sublist (by simp), le_rfl, fun m hm => ?_⟩
    have hm' : m = i ∨ m = j := by simpa using hm
    have hmk : ¬ m = k := by
      rcases hm' with rfl | rfl
      · simp_all
      · simp_all
    have hlt : m < 3 := by omega
    exact ⟨hlt, _, by rw [Line.given_getElem?, if_neg hmk, if_pos hm'], hhonest m hlt⟩
  others := by
    intro m hm bytes hbytes
    rw [Line.given_getElem?] at hbytes
    split at hbytes
    · obtain rfl := Option.some.inj hbytes
      refine ⟨_, Line.forged_tryInto l m, fun hvalid => ?_⟩
      rw [Line.forged_invalid] at hvalid
      cases hvalid
    · split at hbytes
      · obtain rfl := Option.some.inj hbytes
        obtain ⟨share, hshare, -⟩ := Line.carry l rfl
        exact ⟨share, hshare, fun _ => ⟨m, _, share, hhonest m hm, hshare, rfl⟩⟩
      · cases hbytes
  writes := fun _ => rfl

theorem Line.generateCommitteeKey_eq (hnodup : [i, j, k].Nodup) (hi : i < 3) (hj : j < 3) :
    generateCommitteeKey ((Line.node (Line.config keys) key dealt old (Line.given l i j k)
      (Line.published l i)).env Line.env) [] = .ok () [.committeeKey (Line.keyOf l)] := by
  have hready : Ready Line.env (fun i bytes => bytes = Line.published l i) (Line.config keys) _
      (Line.node (Line.config keys) key dealt old (Line.given l i j k) (Line.published l i)) :=
    Line.ready hnodup hi hj fun _ _ => rfl
  rw [generateCommitteeKey_of_ready Line.laws hready (show 3 ≤ 4 by decide) Nat.two_pos (Line.bounded l)
    (Line.carry l), Line.committeeKey_eq]
  rfl

theorem Line.completes (hnodup : [i, j, k].Nodup) (hi : i < 3) (hj : j < 3)
    (hhonest : honest i (Line.published l i)) :
    Completes Line.env honest (Line.config keys) (Line.keyOf l) := by
  refine ⟨Line.node (Line.config keys) "" ⟨∅⟩ (.error (.other "")) (Line.given l i j k)
    (Line.published l i), Line.given l i j k, i, Line.published l i, rfl, rfl, hi, ?_, hhonest, ?_⟩
  · have hik : ¬ i = k := by simp_all
    rw [Line.given_getElem?, if_neg hik, if_pos (.inl rfl)]
  · rw [after_ok (Line.generateCommitteeKey_eq hnodup hi hj)]
    exact List.mem_singleton_self _

end

/-! ## The committees -/

/-- **All nodes get one key**: whatever else the shares are that two nodes were given, one honest
share each is enough. -/
theorem nodes_agree_on_committee_key (hlaws : Laws E c c' size) {config : DkgConfig}
    {transcript : DkgTranscript} {key key' : DkgCommitteeBLSPublicKeyBytes}
    (hnodes : config.nodes ≤ size)
    (h : Completes E (Published E config transcript) config key)
    (h' : Completes E (Published E config transcript) config key') : key = key' := by
  obtain ⟨-, -, i, bytes, -, -, -, -, hhonest, -⟩ := id h
  obtain ⟨poly, hbounded, hcarry⟩ := published_carry hlaws hhonest
  rw [key_of_completes hlaws h hnodes hbounded hcarry,
    key_of_completes hlaws h' hnodes hbounded hcarry]

/-- Two nodes of three, given different shares of the others and a forged one each: what the one writes
is the key of the polynomial that the other one's shares are on. -/
theorem nodes_agree_on_committee_key_small :
    Line.keyOf (Line.line 4 3) =
      DkgCommitteeBLSPublicKey.toBytes Line.env (committeeKey Line.curve Line.curve ⟨Line.line 4 3, Line.line 4 3⟩) := by
  have h : Completes Line.env (Published Line.env Line.first Line.dealt) Line.first
      (Line.keyOf (Line.line 4 3)) :=
    Line.completes (i := 0) (j := 1) (k := 2) (by decide) (by decide) (by decide)
      (Line.member_published (by decide))
  have h' : Completes Line.env (Published Line.env Line.first Line.dealt) Line.first
      (DkgCommitteeBLSPublicKey.toBytes Line.env
        (committeeKey Line.curve Line.curve ⟨Line.line 4 3, Line.line 4 3⟩)) := by
    rw [Line.committeeKey_eq]
    exact Line.completes (i := 1) (j := 2) (k := 0) (by decide) (by decide) (by decide)
      (Line.member_published (by decide))
  exact nodes_agree_on_committee_key Line.laws (by decide) h h'

/-- **Nodes that are ready all write one key**, whichever of the shares they were given. -/
theorem ready_nodes_write_one_key (hlaws : Laws E c c' size) {config : DkgConfig}
    {transcript : DkgTranscript} (hnodes : config.nodes ≤ size) (hpos : 0 < config.threshold) :
    ∃ key, ∀ n given, Ready E (Published E config transcript) config given n →
      generateCommitteeKey (n.env E) [] = .ok () [.committeeKey key] := by
  by_cases hpublished : ∃ i bytes, Published E config transcript i bytes
  · obtain ⟨i, bytes, hpublished⟩ := hpublished
    obtain ⟨poly, hbounded, hcarry⟩ := published_carry hlaws hpublished
    exact ⟨_, fun n given h => generateCommitteeKey_of_ready hlaws h hnodes hpos hbounded hcarry⟩
  · refine ⟨⟨"", ""⟩, fun n given h => ?_⟩
    obtain ⟨is, -, hlen, his⟩ := h.enough
    obtain ⟨i, hi⟩ := List.exists_mem_of_length_pos (hpos.trans_le hlen)
    obtain ⟨-, bytes, -, hhonest⟩ := his i hi
    exact absurd ⟨i, bytes, hhonest⟩ hpublished

/-- The node with the second key was given its own share, that of the third node and a forged one. -/
theorem ready_nodes_write_one_key_small :
    ∃ key, generateCommitteeKey ((Line.node Line.first "b" Line.dealt (.error (.other ""))
      (Line.given (Line.line 4 3) 1 2 0) (Line.published (Line.line 4 3) 1)).env Line.env) [] =
      .ok () [.committeeKey key] := by
  have hone : ∃ key, ∀ n given, Ready Line.env (Published Line.env Line.first Line.dealt) Line.first
      given n → generateCommitteeKey (n.env Line.env) [] = .ok () [.committeeKey key] :=
    ready_nodes_write_one_key Line.laws (by decide) (by decide)
  obtain ⟨key, hkey⟩ := hone
  exact ⟨key, hkey _ (Line.given (Line.line 4 3) 1 2 0)
    (Line.ready (by decide) (by decide) (by decide) fun _ => Line.member_published)⟩

theorem lineage_sameSecret (hlaws : Laws E c c' size) {config₀ config : DkgConfig}
    {transcript₀ : DkgTranscript} {key : DkgCommitteeBLSPublicKeyBytes} {poly₀ : PublicPolynomial T}
    (hbounded₀ : Bounded c c' poly₀ config₀.threshold)
    (hcarry₀ : Carry E poly₀ (Published E config₀ transcript₀))
    (h : Lineage E size config₀ transcript₀ config key) :
    ∃ poly, key = (committeeKey c c' poly).toBytes E ∧ Bounded c c' poly config.threshold ∧
      SameSecret c c' poly poly₀ := by
  induction h with
  | generated hnodes hcompletes =>
    exact ⟨poly₀, key_of_completes hlaws hcompletes hnodes hbounded₀ hcarry₀, hbounded₀, rfl, rfl⟩
  | reshared _ hthreshold hnodes hdealers hcompletes ih =>
    obtain ⟨old, rfl, hold, hsame⟩ := ih
    obtain ⟨-, -, i, bytes, -, -, -, -, hhonest, -⟩ := id hcompletes
    obtain ⟨poly, hbounded, hsecret, hcarry⟩ :=
      reshared_carry hlaws hhonest (hold.mono hthreshold) hdealers
    exact ⟨poly, key_of_completes hlaws hcompletes hnodes hbounded hcarry, hbounded,
      hsecret.1.trans hsame.1, hsecret.2.trans hsame.2⟩

/-- **A resharing keeps the committee's public key**, as often as it is done. -/
theorem resharing_keeps_committee_key (hlaws : Laws E c c' size) {config₀ config config' : DkgConfig}
    {transcript₀ : DkgTranscript} {key key' : DkgCommitteeBLSPublicKeyBytes}
    (h : Lineage E size config₀ transcript₀ config key)
    (h' : Lineage E size config₀ transcript₀ config' key') : key.blsPubKey = key'.blsPubKey := by
  obtain ⟨i, bytes, hpublished⟩ := lineage_published h
  obtain ⟨poly₀, hbounded₀, hcarry₀⟩ := published_carry hlaws hpublished
  obtain ⟨poly, rfl, -, hsame⟩ := lineage_sameSecret hlaws hbounded₀ hcarry₀ h
  obtain ⟨poly', rfl, -, hsame'⟩ := lineage_sameSecret hlaws hbounded₀ hcarry₀ h'
  have hkeys : (committeeKey c c' poly).blsPubKey = (committeeKey c c' poly').blsPubKey := by
    unfold committeeKey
    rw [hsame.1.trans hsame'.1.symm, hsame.2.trans hsame'.2.symm]
  unfold DkgCommitteeBLSPublicKey.toBytes
  rw [hkeys]

/-- The committee of three nodes, and the one that takes over its key. -/
theorem resharing_keeps_committee_key_small :
    (Line.keyOf (Line.line 4 3)).blsPubKey = (Line.keyOf Line.reshared).blsPubKey := by
  have hfirst : Lineage Line.env 4 Line.first Line.dealt Line.first (Line.keyOf (Line.line 4 3)) :=
    .generated (by decide) (Line.completes (i := 0) (j := 1) (k := 2) (by decide) (by decide)
      (by decide) (Line.member_published (by decide)))
  have hdealers : ∀ i ∈ Line.redealt.dealings, i < 4 := by
    intro i hi
    simp only [Line.redealt, Line.transcript, List.map_cons, List.map_nil, TreeMap.ofList_cons,
      TreeMap.insertMany_cons, TreeMap.insertMany_nil, TreeMap.mem_insert, Nat.compare_eq_eq] at hi
    rcases hi with rfl | rfl | hi
    · decide
    · decide
    · exact absurd hi TreeMap.not_mem_emptyc
  have hsecond : Lineage Line.env 4 Line.first Line.dealt Line.second (Line.keyOf Line.reshared) :=
    .reshared hfirst (by decide) (by decide) hdealers
      (Line.completes (i := 0) (j := 2) (k := 1) (by decide) (by decide) (by decide)
        (Line.successor_reshared (by decide)))
  exact resharing_keeps_committee_key Line.laws hfirst hsecond

end

end Nidkg.Proof
