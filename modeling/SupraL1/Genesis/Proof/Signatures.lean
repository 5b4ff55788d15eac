import Mathlib.Data.Finset.Lattice.Lemmas
import Mathlib.Data.Finset.SDiff
import SupraL1.Lib.Fallible
import SupraL1.Genesis.Signatures

/-!
# The signatures that are accepted

The check takes the files in the order of the directory. What it accepts does not depend on that
order: the keys of the files are distinct, they are those of the members, and every signature is
valid.
-/

namespace Genesis.Signatures.Proof

open Fallible
open Consensus (Bytes Hash)

variable {S : Type} [DecidableEq S] {E : Env S}

/-! ## The files -/

/-- The keys and signatures of the files among the entries. -/
def files (E : Env S) (entries : List DirEntry) : List (PublicKey × S) :=
  entries.filterMap fun entry =>
    match isSignatureFile E entry, readSignature E entry with
    | .ok true, .ok file => some file
    | _, _ => none

/-- Every entry can be read, and every file with a signature can be parsed. -/
def Readable (E : Env S) (entries : List DirEntry) : Prop :=
  ∀ entry ∈ entries, ∃ b, isSignatureFile E entry = .ok b ∧
    (b = true → ∃ file, readSignature E entry = .ok file)

/-! ## The loop -/

/-- What the loop over the files makes of the state. -/
def collect (E : Env S) (digest : Hash) (fs : List (PublicKey × S)) (c : Collected S) : Collected S where
  allConsensusPks := c.allConsensusPks \ (fs.map Prod.fst).toFinset
  allSignaturesAndSigners := c.allSignaturesAndSigners ∪ fs.toFinset
  signersWithInvalidSignatures := c.signersWithInvalidSignatures ++
    (fs.filter fun f => !E.verify f.2 digest f.1).map Prod.fst

/-- Who has signed is not one of those who have not. -/
def Recorded (c : Collected S) : Prop :=
  ∀ p ∈ c.allSignaturesAndSigners, p.1 ∉ c.allConsensusPks

theorem record_ok_iff {digest : Hash} {path : String} {c c' : Collected S} {f : PublicKey × S}
    (hc : Recorded c) :
    record E digest path c f = .ok c' ↔ f.1 ∈ c.allConsensusPks ∧ c' = collect E digest [f] c := by
  have hcollect : collect E digest [f] c = ⟨c.allConsensusPks.erase f.1,
      insert f c.allSignaturesAndSigners, if E.verify f.2 digest f.1 then c.signersWithInvalidSignatures
        else c.signersWithInvalidSignatures ++ [f.1]⟩ := by
    unfold collect
    congr 1
    · ext k
      simp [and_comm]
    · ext p
      simp
    · split <;> simp [*]
  rw [hcollect]
  unfold record
  dsimp only
  split
  · rename_i hmem
    rw [if_neg fun hdup => hc f hdup hmem, Except.ok.injEq]
    exact ⟨fun h => ⟨hmem, h.symm⟩, fun h => h.2.symm⟩
  · rename_i hnot
    simp [hnot, panics]

theorem recorded_collect {digest : Hash} {c : Collected S} (hc : Recorded c)
    (fs : List (PublicKey × S)) : Recorded (collect E digest fs c) := by
  intro p hp hleft
  simp only [collect, Finset.mem_union, Finset.mem_sdiff, List.mem_toFinset, List.mem_map] at hp hleft
  rcases hp with hp | hp
  · exact hc p hp hleft.1
  · exact hleft.2 ⟨p, hp, rfl⟩

theorem collect_cons (digest : Hash) (c : Collected S) (f : PublicKey × S) (fs : List (PublicKey × S)) :
    collect E digest fs (collect E digest [f] c) = collect E digest (f :: fs) c := by
  unfold collect
  congr 1
  · ext k
    simp [and_assoc]
  · ext p
    simp
  · cases h : E.verify f.2 digest f.1 <;> simp [h]

theorem collected_ok_iff {digest : Hash} {entries : List DirEntry} {c c' : Collected S}
    (hreadable : Readable E entries) (hc : Recorded c) :
    entries.foldlM (visit E digest) c = .ok c' ↔
      ((files E entries).map Prod.fst).Nodup ∧
      (∀ f ∈ files E entries, f.1 ∈ c.allConsensusPks) ∧ c' = collect E digest (files E entries) c := by
  induction entries generalizing c with
  | nil =>
    rw [List.foldlM_nil, pure_ok_iff, eq_comm]
    simp [files, collect]
  | cons entry entries ih =>
    obtain ⟨⟨b, hb, hparse⟩, hrest⟩ := List.forall_mem_cons.1 hreadable
    rw [foldlM_cons_ok_iff]
    cases b with
    | false =>
      have hvisit : visit E digest c entry = .ok c := by
        rw [visit, hb]
        rfl
      have hfiles : files E (entry :: entries) = files E entries := by simp [files, hb]
      rw [hvisit, hfiles]
      simp only [Except.ok.injEq, exists_eq_left']
      exact ih hrest hc
    | true =>
      obtain ⟨f, hf⟩ := hparse rfl
      have hvisit : visit E digest c entry = record E digest entry.path c f := by
        rw [visit, hb, hf]
        rfl
      have hfiles : files E (entry :: entries) = f :: files E entries := by simp [files, hb, hf]
      rw [hvisit, hfiles]
      have hleft : ∀ k, k ∈ (collect E digest [f] c).allConsensusPks ↔
          k ∈ c.allConsensusPks ∧ k ≠ f.1 := fun k => by simp [collect]
      simp only [record_ok_iff hc, and_assoc, exists_and_left, exists_eq_left,
        ih hrest (recorded_collect hc [f]), collect_cons, hleft, List.map_cons, List.nodup_cons,
        List.forall_mem_cons, List.mem_map, not_exists, not_and]
      constructor
      · rintro ⟨hf, hnodup, hall, rfl⟩
        exact ⟨fun g hg => (hall g hg).2, hnodup, hf, fun g hg => (hall g hg).1, rfl⟩
      · rintro ⟨hnew, hnodup, hf, hall, rfl⟩
        exact ⟨hf, hnodup, fun g hg => ⟨hall g hg, hnew g hg⟩, rfl⟩

/-! ## The check -/

/-- The files of every member, with one valid signature each. -/
structure Complete (E : Env S) (config : GenesisConfig) (fs : List (PublicKey × S)) : Prop where
  distinct : (fs.map Prod.fst).Nodup
  members : (fs.map Prod.fst).toFinset = config.consensusPublicKeys.toFinset
  valid : ∀ f ∈ fs, E.verify f.2 config.digest f.1 = true

omit [DecidableEq S] in
theorem Complete.perm {config : GenesisConfig} {fs gs : List (PublicKey × S)} (h : Complete E config fs)
    (hperm : fs.Perm gs) : Complete E config gs where
  distinct := (hperm.map Prod.fst).nodup_iff.1 h.distinct
  members := (List.toFinset_eq_of_perm _ _ (hperm.map Prod.fst)).symm.trans h.members
  valid f hf := h.valid f (hperm.mem_iff.2 hf)

/-- The state of the loop at its start. -/
def start (config : GenesisConfig) : Collected S := ⟨config.consensusPublicKeys.toFinset, ∅, []⟩

/-- The files are complete if the loop accepts them, and then no member and no invalid signature is
left. -/
theorem complete_iff {config : GenesisConfig} {fs : List (PublicKey × S)} : Complete E config fs ↔
    ((fs.map Prod.fst).Nodup ∧ ∀ f ∈ fs, f.1 ∈ (start config : Collected S).allConsensusPks) ∧
    (collect E config.digest fs (start config)).allConsensusPks = ∅ ∧
    (collect E config.digest fs (start config)).signersWithInvalidSignatures = [] := by
  have hleft : (collect E config.digest fs (start config)).allConsensusPks = ∅ ↔
      config.consensusPublicKeys.toFinset ⊆ (fs.map Prod.fst).toFinset :=
    Finset.sdiff_eq_empty_iff_subset
  have hvalid : (collect E config.digest fs (start config)).signersWithInvalidSignatures = [] ↔
      ∀ f ∈ fs, E.verify f.2 config.digest f.1 = true := by
    simp [collect, start]
  have hknown : (∀ f ∈ fs, f.1 ∈ (start config : Collected S).allConsensusPks) ↔
      (fs.map Prod.fst).toFinset ⊆ config.consensusPublicKeys.toFinset := by
    simp [start, Finset.subset_iff]
  rw [hleft, hvalid, hknown]
  constructor
  · intro h
    exact ⟨⟨h.distinct, h.members.subset⟩, h.members.superset, h.valid⟩
  · rintro ⟨⟨hdistinct, hsub⟩, hsup, hvalid⟩
    exact ⟨hdistinct, hsub.antisymm hsup, hvalid⟩

theorem checkSignatures_ok_iff {config : GenesisConfig} {entries : List DirEntry}
    {signatures : Finset (PublicKey × S)} (hreadable : Readable E entries) :
    checkSignatures E config (.ok (entries.map some)) = .ok signatures ↔
      Complete E config (files E entries) ∧ signatures = (files E entries).toFinset := by
  have hentries : (entries.map some).reduceOption = entries :=
    List.filterMap_map.trans List.filterMap_some
  have hloop : collectSignatures E config (.ok (entries.map some)) =
      entries.foldlM (visit E config.digest) (start config) := by
    unfold collectSignatures
    dsimp only
    rw [hentries, start]
  have hrecorded : Recorded (start config : Collected S) := fun p hp => absurd hp (Finset.notMem_empty p)
  have hpairs : (collect E config.digest (files E entries) (start config)).allSignaturesAndSigners =
      (files E entries).toFinset := Finset.empty_union _
  rw [checkSignatures, hloop, bind_ok_iff, complete_iff]
  simp only [collected_ok_iff hreadable hrecorded]
  constructor
  · rintro ⟨c, ⟨hnodup, hknown, rfl⟩, h⟩
    split at h
    · cases h
    · rename_i hleft
      split at h
      · cases h
      · rename_i hvalid
        rw [← pure_ok_iff.1 h]
        exact ⟨⟨⟨hnodup, hknown⟩, not_not.1 hleft, not_not.1 hvalid⟩, hpairs⟩
  · rintro ⟨⟨⟨hnodup, hknown⟩, hleft, hvalid⟩, rfl⟩
    refine ⟨_, ⟨hnodup, hknown, rfl⟩, ?_⟩
    rw [if_neg (not_not.2 hleft), if_neg (not_not.2 hvalid), hpairs]
    rfl

/-- **Genesis needs every member's valid signature.** In whatever order the directory is listed, the
check lets the creation of the blob proceed exactly if the keys of the files are distinct, are those
of the members, and verify their signatures. It then passes on one pair for each member's key. -/
theorem genesis_needs_every_signature (E : Env S) (config : GenesisConfig)
    (entries listing : List DirEntry) (hreadable : Readable E entries) (hlisting : listing.Perm entries) :
    ((∃ signatures, checkSignatures E config (.ok (listing.map some)) = .ok signatures) ↔
      Complete E config (files E entries)) ∧
    ∀ signatures, checkSignatures E config (.ok (listing.map some)) = .ok signatures →
      (∀ (B : Type) (create : GenesisConfig → Finset (PublicKey × S) → Outcome B),
        generateGenesisBlobFromSupraHome E (.ok config) (.ok (listing.map some)) create =
          create config signatures) ∧
      (∀ key ∈ config.consensusPublicKeys, ∃! s, (key, s) ∈ signatures) ∧
      ∀ p ∈ signatures, p.1 ∈ config.consensusPublicKeys := by
  have hreadable' : Readable E listing := fun entry h => hreadable entry (hlisting.mem_iff.1 h)
  have hperm : (files E listing).Perm (files E entries) := hlisting.filterMap _
  refine ⟨⟨fun ⟨signatures, h⟩ => ?_, fun h => ?_⟩, fun signatures h => ?_⟩
  · exact ((checkSignatures_ok_iff hreadable').1 h).1.perm hperm
  · exact ⟨_, (checkSignatures_ok_iff hreadable').2 ⟨h.perm hperm.symm, rfl⟩⟩
  · obtain ⟨hcomplete, rfl⟩ := (checkSignatures_ok_iff hreadable').1 h
    refine ⟨fun B create => ?_, fun key hkey => ?_, fun p hp => ?_⟩
    · rw [generateGenesisBlobFromSupraHome]
      show checkSignatures E config _ >>= _ = _
      rw [h]
      rfl
    · have hmem : key ∈ (files E listing).map Prod.fst := by
        rw [← List.mem_toFinset, hcomplete.members]
        exact List.mem_toFinset.2 hkey
      obtain ⟨⟨key, s⟩, hs, rfl⟩ := List.mem_map.1 hmem
      refine ⟨s, List.mem_toFinset.2 hs, fun s' hs' => ?_⟩
      have := List.inj_on_of_nodup_map hcomplete.distinct (List.mem_toFinset.1 hs') hs rfl
      exact (Prod.mk.inj this).2
    · rw [← List.mem_toFinset, ← hcomplete.members]
      exact List.mem_toFinset.2 (List.mem_map_of_mem (List.mem_toFinset.1 hp))

/-- Keys and signatures of one byte, where a key signs with itself. -/
def small : Env Bytes where
  publicKeyLength := 1
  genesisSignatureFileNameSuffix := ".sig"
  publicKeyTryFrom bytes := .ok (BitVec.ofNat 256 (bytes.headD 0).toNat)
  signatureTryFrom bytes := .ok bytes
  verify s _ key := s == [UInt8.ofNat key.toNat]
  debug _ := ""

def smallFiles : List DirEntry :=
  [⟨"dir/one.sig", "one.sig", .ok true, .ok [1, 1]⟩, ⟨"dir/two.sig", "two.sig", .ok true, .ok [2, 2]⟩,
    ⟨"dir/readme", "readme", .ok true, .ok []⟩]

theorem genesis_needs_every_signature_small :
    let config : GenesisConfig := ⟨0, [2, 1]⟩
    Readable small smallFiles ∧
      ∃ signatures, checkSignatures small config (.ok (smallFiles.reverse.map some)) = .ok signatures := by
  have hreadable : Readable small smallFiles := by
    intro entry hentry
    simp only [smallFiles, List.mem_cons, List.not_mem_nil, or_false] at hentry
    rcases hentry with rfl | rfl | rfl
    · exact ⟨true, by decide +kernel, fun _ => ⟨(1, [1]), by decide +kernel⟩⟩
    · exact ⟨true, by decide +kernel, fun _ => ⟨(2, [2]), by decide +kernel⟩⟩
    · exact ⟨false, by decide +kernel, nofun⟩
  have hfiles : files small smallFiles = [(1, [1]), (2, [2])] := by decide +kernel
  refine ⟨hreadable, (genesis_needs_every_signature small _ smallFiles _ hreadable
    smallFiles.reverse_perm).1.2 ?_⟩
  rw [hfiles]
  exact ⟨by decide, by decide, by decide⟩

end Genesis.Signatures.Proof
