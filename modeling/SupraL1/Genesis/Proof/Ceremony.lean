import Mathlib.Data.Finset.Image
import SupraL1.Lib.Run
import SupraL1.Genesis.Ceremony
import SupraL1.Genesis.Proof.Signatures

/-!
# What the genesis ceremony guarantees

Whatever the operators do and whatever files they are given, a blob has only been created if each
honest member of its committee has held its config and signed it. So blobs that have an honest member
in common are of one config.

If all operators take part, the ceremony ends with one blob: whatever order the directories are listed
in, each builds the same committee, and with the signatures of all each creates the same blob.

The genesis config and the blob are types of the crates below. What is assumed of them is in `Contents`
and `Laws`.
-/

namespace Genesis.Ceremony.Proof

open EState Fallible
open Consensus (Bytes Hash)
open Signatures (DirEntry isSignatureFile readSignature checkSignatures visit)
open Signatures.Proof (Complete Readable)

variable {T : Types} {E : Env T} {a : Answers T}

/-! ## What a command changes -/

def outputs (home : Home T) : Option T.GenesisBlob × List (PublicKey × Hash) := (home.blob, home.signed)

theorem keeps_downloadDirectory : Keeps outputs (downloadDirectory E a) := by
  unfold downloadDirectory
  refine .bind (.result _) fun _ => .bind (.result _) fun status => ?_
  exact .ite (.bind (.result _) fun extract => .act fun _ => rfl) (.result _)

theorem keeps_refreshRepo : Keeps outputs (refreshRepo E a) := by
  unfold refreshRepo
  exact .read fun home => .bind (.result _) fun _ => keeps_downloadDirectory

theorem keeps_buildSupraCommittee (withUrl : Bool) : Keeps outputs (buildSupraCommittee E a withUrl) := by
  unfold buildSupraCommittee
  refine .read fun home => .bind (.result _) fun smrSettings => .bind ?_ fun _ => ?_
  · exact .ite keeps_downloadDirectory (.ret ())
  refine .bind (.result _) fun _ => .read fun home => .bind (.result _) fun members => ?_
  exact .ite (.bind (.result _) fun _ => .act fun _ => rfl) (.result _)

theorem keeps_verifyGenesisBlob [DecidableEq T.Signature] (input : Outcome T.GenesisBlob) (skip : Bool)
    (dir : Option (Listing DirEntry)) : Keeps outputs (verifyGenesisBlob E a input skip dir) := by
  unfold verifyGenesisBlob
  refine .bind (.result _) fun input => .read fun home => .bind (.result _) fun blob => ?_
  refine .ite (.ret ()) (.bind ?_ fun _ => .result _)
  exact .ite (.ret ()) (.bind (.result _) fun _ => .act fun _ => rfl)

theorem keeps_writeSignatureFile (path : String) (bytes : Bytes) :
    Keeps outputs (writeSignatureFile a path bytes) := by
  unfold writeSignatureFile
  refine .bind (.result _) fun _ => .bind (.act fun _ => rfl) fun _ => ?_
  exact .bind (.result _) fun _ => .act fun _ => rfl

/-- The command signs the config of the home, with the identity that the password gives. -/
def Signs (E : Env T) (a : Answers T) (home : Home T) (key : PublicKey) (digest : Hash) : Prop :=
  ∃ password info config, a.password = .ok password ∧ home.files.identity password = .ok info ∧
    E.consensusPublicKey info = key ∧ E.config home.files = .ok config ∧ E.digest config = digest ∧
    (after (signSupraCommittee E a) home).signed = home.signed ++ [(key, digest)]

theorem signSupraCommittee_changes (home : Home T) :
    (after (signSupraCommittee E a) home).blob = home.blob ∧
    ((after (signSupraCommittee E a) home).signed = home.signed ∨
      ∃ key digest, Signs E a home key digest) := by
  unfold Signs
  unfold signSupraCommittee
  rw [after_get_bind]
  dsimp only
  cases hpassword : a.password with
  | error e => exact ⟨rfl, .inl rfl⟩
  | ok password =>
    rw [after_bind_ok (ofResult_ok password home)]
    cases hinfo : home.files.identity password with
    | error e => exact ⟨rfl, .inl rfl⟩
    | ok info =>
      rw [after_bind_ok (ofResult_ok info home)]
      cases hpath : a.signatureOutputPath with
      | error e => exact ⟨rfl, .inl rfl⟩
      | ok path =>
        rw [after_bind_ok (ofResult_ok path home)]
        cases hconfig : E.config home.files with
        | error e => exact ⟨rfl, .inl rfl⟩
        | ok config =>
          rw [after_bind_ok (ofResult_ok config home)]
          have hend := keeps_writeSignatureFile (a := a) path (E.publicKeyToBytes (E.consensusPublicKey info) ++
            E.signatureToBytes (E.sign config info)) { home with
              signed := home.signed ++ [(E.consensusPublicKey info, E.digest config)] }
          exact ⟨congrArg Prod.fst hend, .inr ⟨_, _, password, info, config, rfl, hinfo, rfl, rfl, rfl,
            congrArg Prod.snd hend⟩⟩

theorem generateGenesisBlob_changes [DecidableEq T.Signature] (path : Option String)
    (dir : Option (Listing DirEntry)) (home : Home T) :
    (after (generateGenesisBlob E a path dir) home).signed = home.signed ∧
    ((after (generateGenesisBlob E a path dir) home).blob = home.blob ∨
      ∃ b, generateGenesisBlobFromSupraHome E a home.files path dir = .ok b ∧
        (after (generateGenesisBlob E a path dir) home).blob = some b) := by
  unfold generateGenesisBlob
  rw [after_get_bind]
  cases hblob : generateGenesisBlobFromSupraHome E a home.files path dir with
  | error e => exact ⟨rfl, .inl rfl⟩
  | ok b =>
    rw [after_bind_ok (ofResult_ok b home)]
    cases hwrite : a.writeBlob with
    | error e => exact ⟨rfl, .inl rfl⟩
    | ok u => exact ⟨rfl, .inr ⟨b, rfl, rfl⟩⟩

theorem execute_changes [DecidableEq T.Signature] (tool : GenesisTool T) (home : Home T) :
    ((after (tool.execute E a) home).blob = home.blob ∨
      ∃ path dir b, tool = .generateGenesisBlob path dir ∧
        generateGenesisBlobFromSupraHome E a home.files path dir = .ok b ∧
        (after (tool.execute E a) home).blob = some b) ∧
    ((after (tool.execute E a) home).signed = home.signed ∨
      ∃ key digest, tool = .signSupraCommittee ∧ Signs E a home key digest) := by
  have hkept {m : Command T Unit} (h : Keeps outputs m) :
      (after m home).blob = home.blob ∧ (after m home).signed = home.signed :=
    ⟨congrArg Prod.fst (h home), congrArg Prod.snd (h home)⟩
  cases tool with
  | refreshRepo =>
    obtain ⟨hblob, hsigned⟩ := hkept keeps_refreshRepo
    exact ⟨.inl hblob, .inl hsigned⟩
  | buildSupraCommittee withUrl =>
    obtain ⟨hblob, hsigned⟩ := hkept (keeps_buildSupraCommittee withUrl)
    exact ⟨.inl hblob, .inl hsigned⟩
  | verifyGenesisBlob input skip dir =>
    obtain ⟨hblob, hsigned⟩ := hkept (keeps_verifyGenesisBlob input skip dir)
    exact ⟨.inl hblob, .inl hsigned⟩
  | signSupraCommittee =>
    obtain ⟨hblob, hsigned⟩ := signSupraCommittee_changes (E := E) (a := a) home
    refine ⟨.inl hblob, hsigned.imp_right ?_⟩
    rintro ⟨key, digest, hsigns⟩
    exact ⟨key, digest, rfl, hsigns⟩
  | generateGenesisBlob path dir =>
    obtain ⟨hsigned, hblob⟩ := generateGenesisBlob_changes (E := E) (a := a) path dir home
    refine ⟨hblob.imp_right ?_, .inl hsigned⟩
    rintro ⟨b, hb, hblob⟩
    exact ⟨path, dir, b, rfl, hb, hblob⟩

/-! ## What a blob is created from -/

/-- What a blob holds: a blob that is created has the config and the signatures it is created with. -/
structure Contents (E : Env T) where
  /-- `GenesisBlob::config` -/
  config : T.GenesisBlob → T.GenesisConfig
  signatures : T.GenesisBlob → Finset (PublicKey × T.Signature)
  new : ∀ {config' signatures' b}, E.newBlob config' signatures' = .ok b →
    config b = config' ∧ signatures b = signatures'
  newUnverified : ∀ {config' signatures' transaction b},
    E.newWithUnverifiedTransaction config' signatures' transaction = .ok b →
    config b = config' ∧ signatures b = signatures'

section
variable [DecidableEq T.Signature]

theorem readable_of_collected {digest : Hash} {entries : List DirEntry}
    {c c' : Signatures.Collected T.Signature} (h : entries.foldlM (visit E.toEnv digest) c = .ok c') :
    Readable E.toEnv entries := by
  induction entries generalizing c with
  | nil => exact fun entry hentry => absurd hentry List.not_mem_nil
  | cons entry entries ih =>
    obtain ⟨c₁, hvisit, hrest⟩ := foldlM_cons_ok_iff.1 h
    refine List.forall_mem_cons.2 ⟨?_, ih hrest⟩
    unfold visit at hvisit
    obtain ⟨b, hb, hvisit⟩ := bind_ok_iff.1 hvisit
    refine ⟨b, hb, ?_⟩
    rintro rfl
    obtain ⟨file, hfile, _⟩ := bind_ok_iff.1 hvisit
    exact ⟨file, hfile⟩

/-- Entries that cannot be listed do not matter. -/
theorem checkSignatures_reduceOption (config : Signatures.GenesisConfig) (entries : List (Option DirEntry)) :
    checkSignatures E.toEnv config (.ok (entries.reduceOption.map some)) =
      checkSignatures E.toEnv config (.ok entries) := by
  unfold checkSignatures Signatures.collectSignatures
  dsimp only
  rw [show (entries.reduceOption.map some).reduceOption = entries.reduceOption from
    List.filterMap_map.trans List.filterMap_some]

theorem complete_of_checked {config : Signatures.GenesisConfig} {dir : Listing DirEntry}
    {signatures : Finset (PublicKey × T.Signature)}
    (h : checkSignatures E.toEnv config dir = .ok signatures) :
    ∃ entries, dir = .ok entries ∧ Complete E.toEnv config (Signatures.Proof.files E.toEnv entries.reduceOption) := by
  cases dir with
  | error e => cases h
  | ok entries =>
    refine ⟨entries, rfl, ?_⟩
    have hreadable : Readable E.toEnv entries.reduceOption := by
      unfold checkSignatures at h
      obtain ⟨c, hc, _⟩ := bind_ok_iff.1 h
      exact readable_of_collected hc
    rw [← checkSignatures_reduceOption] at h
    exact ((Signatures.Proof.checkSignatures_ok_iff hreadable).1 h).1

def signaturesDir (E : Env T) (files : Files T) (c : CommitteeConfig T)
    (dir : Option (Listing DirEntry)) : Listing DirEntry :=
  dir.getD (files.release (E.isTestnetOf c.genesisParameters)).signatures

omit [DecidableEq T.Signature] in
theorem createBlob_config (B : Contents E) {config : T.GenesisConfig} {path : Option String}
    {signatures : Finset (PublicKey × T.Signature)} {b : T.GenesisBlob}
    (h : createBlob E a config path signatures = .ok b) : B.config b = config := by
  unfold createBlob at h
  cases path with
  | none => exact (B.new h).1
  | some path =>
    obtain ⟨bytes, _, h⟩ := bind_ok_iff.1 h
    cases htransaction : E.transactionTryFromBytes config bytes with
    | none =>
      rw [htransaction] at h
      cases h
    | some transaction =>
      rw [htransaction] at h
      exact (B.newUnverified h).1

/-- A blob is of the config of the home, and the directory has a valid signature of each member. -/
theorem generated_inv (B : Contents E) {files : Files T} {path : Option String}
    {dir : Option (Listing DirEntry)} {b : T.GenesisBlob}
    (h : generateGenesisBlobFromSupraHome E a files path dir = .ok b) :
    E.config files = .ok (B.config b) ∧ ∃ c entries, E.smrCommitteeConfig (B.config b) = .ok c ∧
      signaturesDir E files c dir = .ok entries ∧
      ∀ key ∈ c.consensusPublicKeys, ∃ entry ∈ entries.reduceOption, ∃ s,
        readSignature E.toEnv entry = .ok (key, s) ∧ E.verify s (E.digest (B.config b)) key = true := by
  unfold generateGenesisBlobFromSupraHome at h
  obtain ⟨config, hconfig, h⟩ := bind_ok_iff.1 h
  obtain ⟨c, hc, h⟩ := bind_ok_iff.1 h
  unfold Signatures.generateGenesisBlobFromSupraHome at h
  rw [ok_bind] at h
  obtain ⟨signatures, hchecked, h⟩ := bind_ok_iff.1 h
  obtain rfl := createBlob_config B h
  obtain ⟨entries, hentries, hcomplete⟩ := complete_of_checked hchecked
  refine ⟨hconfig, c, entries, hc, hentries, fun key hkey => ?_⟩
  have hfile : key ∈ (Signatures.Proof.files E.toEnv entries.reduceOption).map Prod.fst := by
    rw [← List.mem_toFinset, hcomplete.members]
    exact List.mem_toFinset.2 hkey
  obtain ⟨⟨key', s⟩, hmem, rfl⟩ := List.mem_map.1 hfile
  obtain ⟨entry, hentry, hread⟩ := List.mem_filterMap.1 hmem
  refine ⟨entry, hentry, s, ?_, hcomplete.valid _ hmem⟩
  split at hread
  · rename_i file _ hfile
    rw [hfile, Option.some.inj hread]
  · cases hread

/-! ## Runs -/

/-- An operator has run the command that signs, when its config had this digest, and the command has
signed it with this key. -/
def HeldAndSigned (E : Env T) (w : World T) (events : List (Event T)) (key : PublicKey) (digest : Hash) :
    Prop :=
  ∃ pre k a post, events = pre ++ .run k .signSupraCommittee a :: post ∧
    Signs E a (steps (step E) w pre k) key digest

theorem HeldAndSigned.append {w : World T} {events : List (Event T)} {key : PublicKey} {digest : Hash}
    (h : HeldAndSigned E w events key digest) (more : List (Event T)) :
    HeldAndSigned E w (events ++ more) key digest := by
  obtain ⟨pre, k, a, post, rfl, hheld⟩ := h
  exact ⟨pre, k, a, post ++ more, by simp, hheld⟩

/-- A valid signature of an honest key on the config, if it is among the files, was made with the
key. -/
def Unforged (E : Env T) (honest : PublicKey → Prop) (w : World T) : Event T → Prop
  | .run i (.generateGenesisBlob _ dir) _ => ∀ config c entries,
    E.config (w i).files = .ok config → E.smrCommitteeConfig config = .ok c →
    signaturesDir E (w i).files c dir = .ok entries →
      ∀ entry ∈ entries.reduceOption, ∀ key s, readSignature E.toEnv entry = .ok (key, s) → honest key →
        E.verify s (E.digest config) key = true → ∃ k, (key, E.digest config) ∈ (w k).signed
  | _ => True

/-- What holds of the operators after the events: what was signed was held, and the config of a blob
was held and signed by the honest members of its committee. -/
structure Agreed (B : Contents E) (honest : PublicKey → Prop) (start : World T) (events : List (Event T))
    (w : World T) : Prop where
  signed : ∀ i key digest, (key, digest) ∈ (w i).signed → HeldAndSigned E start events key digest
  blob : ∀ i b, (w i).blob = some b → ∃ c, E.smrCommitteeConfig (B.config b) = .ok c ∧
    ∀ key ∈ c.consensusPublicKeys, honest key →
      HeldAndSigned E start events key (E.digest (B.config b))

theorem step_run_eq (w : World T) (i : Nat) (tool : GenesisTool T) :
    after (step E (.run i tool a)) w = Function.update w i (after (tool.execute E a) (w i)) := by
  unfold step after onPart
  dsimp only
  cases tool.execute E a (w i) <;> rfl

section
variable {B : Contents E} {honest : PublicKey → Prop} {start w : World T} {events pre : List (Event T)}

theorem Agreed.append (h : Agreed B honest start events w) (more : List (Event T)) :
    Agreed B honest start (events ++ more) w := by
  refine ⟨fun i key digest hmem => (h.signed i key digest hmem).append more, fun i b hb => ?_⟩
  obtain ⟨c, hc, hkeys⟩ := h.blob i b hb
  exact ⟨c, hc, fun key hkey hhonest => (hkeys key hkey hhonest).append more⟩

theorem Agreed.update (h : Agreed B honest start events w) (i : Nat) (home : Home T)
    (hsigned : ∀ key digest, (key, digest) ∈ home.signed → HeldAndSigned E start events key digest)
    (hblob : ∀ b, home.blob = some b → ∃ c, E.smrCommitteeConfig (B.config b) = .ok c ∧
      ∀ key ∈ c.consensusPublicKeys, honest key →
        HeldAndSigned E start events key (E.digest (B.config b))) :
    Agreed B honest start events (Function.update w i home) := by
  refine ⟨fun j key digest hmem => ?_, fun j b hb => ?_⟩
  · rw [Function.update_apply] at hmem
    split at hmem
    · exact hsigned key digest hmem
    · exact h.signed j key digest hmem
  · rw [Function.update_apply] at hb
    split at hb
    · exact hblob b hb
    · exact h.blob j b hb

theorem agreed_run (i : Nat) (tool : GenesisTool T) (a : Answers T)
    (h : Agreed B honest start pre (steps (step E) start pre))
    (hunforged : Unforged E honest (steps (step E) start pre) (.run i tool a)) :
    Agreed B honest start (pre ++ [.run i tool a])
      (after (step E (.run i tool a)) (steps (step E) start pre)) := by
  have hbefore := h.append [.run i tool a]
  obtain ⟨hblob, hsigned⟩ := execute_changes (E := E) (a := a) tool (steps (step E) start pre i)
  rw [step_run_eq]
  refine hbefore.update i _ (fun key digest hmem => ?_) fun b hb => ?_
  · rcases hsigned with heq | ⟨key', digest', rfl, hsigns⟩
    · rw [heq] at hmem
      exact hbefore.signed i key digest hmem
    · obtain ⟨password, info, config, -, -, -, -, -, heq⟩ := id hsigns
      have hmem' : (key, digest) ∈ (steps (step E) start pre i).signed ++ [(key', digest')] := heq ▸ hmem
      rcases List.mem_append.1 hmem' with hmem' | hmem'
      · exact hbefore.signed i key digest hmem'
      · obtain ⟨rfl, rfl⟩ := Prod.mk.inj (List.mem_singleton.1 hmem')
        exact ⟨pre, i, a, [], rfl, hsigns⟩
  · rcases hblob with heq | ⟨path, dir, b', rfl, hgenerated, heq⟩
    · rw [heq] at hb
      exact hbefore.blob i b hb
    · obtain rfl := Option.some.inj (heq.symm.trans hb)
      obtain ⟨hconfig, c, entries, hc, hentries, hvalid⟩ := generated_inv B hgenerated
      refine ⟨c, hc, fun key hkey hhonest => ?_⟩
      -- the signature in the directory was made by the member
      obtain ⟨entry, hentry, s, hread, hverify⟩ := hvalid key hkey
      obtain ⟨k, hk⟩ := hunforged _ c entries hconfig hc hentries entry hentry key s hread
        hhonest hverify
      exact hbefore.signed k key _ hk

theorem agreed_step (e : Event T) (h : Agreed B honest start pre (steps (step E) start pre))
    (hunforged : Unforged E honest (steps (step E) start pre) e) :
    Agreed B honest start (pre ++ [e]) (after (step E e) (steps (step E) start pre)) := by
  cases e with
  | run i tool a => exact agreed_run i tool a h hunforged
  | edit i files =>
    have hbefore := h.append [.edit i files]
    exact hbefore.update i { steps (step E) start pre i with files } (hbefore.signed i) (hbefore.blob i)

end

/-- **The honest members of a committee agree on the genesis.** Whatever commands the operators run, in
whatever order and on whatever files: a blob has only been created if each honest member of its
committee has held its config and signed it. So blobs that have a member in common who is honest and
has signed one config only are of the same config. -/
theorem honest_members_agree (B : Contents E) {honest : PublicKey → Prop} {start : World T}
    (hstart : ∀ i, (start i).blob = none ∧ (start i).signed = []) {events : List (Event T)}
    (hunforged : ∀ pre e post, events = pre ++ e :: post → Unforged E honest (steps (step E) start pre) e) :
    (∀ i b, (steps (step E) start events i).blob = some b →
      ∃ c, E.smrCommitteeConfig (B.config b) = .ok c ∧ ∀ key ∈ c.consensusPublicKeys, honest key →
        HeldAndSigned E start events key (E.digest (B.config b))) ∧
    ∀ i j b b' c c' key, (steps (step E) start events i).blob = some b →
      (steps (step E) start events j).blob = some b' → E.smrCommitteeConfig (B.config b) = .ok c →
      E.smrCommitteeConfig (B.config b') = .ok c' → key ∈ c.consensusPublicKeys →
      key ∈ c'.consensusPublicKeys → honest key →
      (∀ d d', HeldAndSigned E start events key d → HeldAndSigned E start events key d' → d = d') →
      E.digest (B.config b) = E.digest (B.config b') := by
  have hagreed : Agreed B honest start events (steps (step E) start events) := by
    refine steps_inv (I := Agreed B honest start) ⟨?_, ?_⟩ fun pre e post heq hpre =>
      agreed_step e hpre (hunforged pre e post heq)
    · intro i key digest hmem
      rw [(hstart i).2] at hmem
      exact absurd hmem List.not_mem_nil
    · intro i b hb
      rw [(hstart i).1] at hb
      cases hb
  refine ⟨hagreed.blob, fun i j b b' c c' key hb hb' hc hc' hkey hkey' hhonest honce => ?_⟩
  obtain ⟨c₁, hc₁, hheld⟩ := hagreed.blob i b hb
  obtain ⟨c₂, hc₂, hheld'⟩ := hagreed.blob j b' hb'
  obtain rfl := Except.ok.inj (hc.symm.trans hc₁)
  obtain rfl := Except.ok.inj (hc'.symm.trans hc₂)
  exact honce _ _ (hheld key hkey hhonest) (hheld' key hkey' hhonest)

end

/-! ### Small ceremonies

Identities are `false` and `true`, with keys 1 and 2 of one byte. A config is the list of the members of
the first committee, and its digest their number. A signature is the byte of the key and that of the
digest. A blob is a config with its signatures. -/

abbrev smallTypes : Types where
  Settings := Unit
  Parameters := Unit
  Accounts := Unit
  Password := Unit
  NodeIdentity := Bool
  Signature := Bytes
  Transaction := Unit
  GenesisConfig := List (Identity × SupraValidator)
  GenesisBlob := List (Identity × SupraValidator) × Finset (PublicKey × Bytes)

def smallKey (info : Bool) : PublicKey := if info then 2 else 1

def smallEnv : Env smallTypes where
  publicKeyLength := 1
  genesisSignatureFileNameSuffix := ".sig"
  publicKeyTryFrom bytes := .ok (BitVec.ofNat 256 (bytes.headD 0).toNat)
  signatureTryFrom bytes := .ok bytes
  verify s digest key := s == [UInt8.ofNat key.toNat, UInt8.ofNat digest.toNat]
  debug _ := ""
  identity v := v.nodePublicIdentity.consensusPublicKey
  validate _ := .ok ()
  isTestnet _ := true
  genesisParameters := id
  isTestnetOf _ := true
  displayIdentity _ := ""
  validateKey _ := true
  tryFromSupraHome committees _ := committees.map fun cs => (cs.head?.map (·.members)).getD []
  smrCommitteeConfig config := .ok ⟨.smr, (), config⟩
  digest config := BitVec.ofNat 256 config.length
  sign config info :=
    [UInt8.ofNat (smallKey info).toNat, UInt8.ofNat (BitVec.ofNat 256 config.length).toNat]
  displayHash _ := ""
  displayStatus _ := ""
  consensusPublicKey := smallKey
  publicKeyToBytes key := [UInt8.ofNat key.toNat]
  signatureToBytes := id
  transactionTryFromBytes _ _ := none
  newBlob config signatures := .ok (config, signatures)
  newWithUnverifiedTransaction config signatures _ := .ok (config, signatures)
  configDigest blob := BitVec.ofNat 256 blob.1.length
  transactionDigest _ := 0

def smallContents : Contents smallEnv where
  config := Prod.fst
  signatures := Prod.snd
  new h := by
    obtain rfl := Except.ok.inj h
    exact ⟨rfl, rfl⟩
  newUnverified h := by
    obtain rfl := Except.ok.inj h
    exact ⟨rfl, rfl⟩

def smallAnswers : Answers smallTypes where
  url := .ok ()
  request _ := .ok 200
  unpack := .ok id
  writeCommittees := .ok ()
  password := .ok ()
  signatureOutputPath := .ok "out.sig"
  createSignature := .ok ()
  writeSignature bytes := .ok bytes.length
  readTransaction := .ok []
  writeBlob := .ok ()
  readBlob blob := (blob.map Except.ok).getD (otherError "No such file or directory")
  writeOtherBlob := .ok ()

def smallValidator (info : Bool) : SupraValidator := ⟨0, "", smallKey info, []⟩

/-- A committee of the first validator alone, and a directory with signatures. -/
def smallFiles (signatures : List (Option DirEntry)) : Files smallTypes where
  settings := .ok ()
  release _ := ⟨.ok [], .ok signatures⟩
  committees := .ok [⟨.smr, (), [(1, smallValidator false)]⟩]
  accounts := .ok ()
  identity _ := .ok false

/-- The first operator signs, gets the directory with the signature and creates the blob. -/
def smallEvents : List (Event smallTypes) :=
  [.run 0 .signSupraCommittee smallAnswers,
    .edit 0 (smallFiles [some ⟨"one.sig", "one.sig", .ok true, .ok [1, 1, 1]⟩]),
    .run 0 (.generateGenesisBlob none none) smallAnswers]

def smallStart : World smallTypes := fun _ => ⟨smallFiles [], none, none, [], []⟩

theorem small_unforged (pre : List (Event smallTypes)) (e : Event smallTypes)
    (post : List (Event smallTypes)) (h : smallEvents = pre ++ e :: post) :
    Unforged smallEnv (fun _ => True) (steps (step smallEnv) smallStart pre) e := by
  rcases pre with _ | ⟨e₁, _ | ⟨e₂, _ | ⟨e₃, pre⟩⟩⟩
  · obtain ⟨h₁, _⟩ := List.cons.inj h
    subst h₁
    trivial
  · obtain ⟨h₁, htail⟩ := List.cons.inj h
    obtain ⟨h₂, _⟩ := List.cons.inj htail
    subst h₁ h₂
    trivial
  · obtain ⟨h₁, htail⟩ := List.cons.inj h
    obtain ⟨h₂, htail⟩ := List.cons.inj htail
    obtain ⟨h₃, _⟩ := List.cons.inj htail
    subst h₁ h₂ h₃
    intro config c entries hconfig _ hentries entry hentry key s hread _ _
    obtain rfl := Except.ok.inj hconfig
    obtain rfl := Except.ok.inj hentries
    obtain rfl := List.mem_singleton.1 hentry
    obtain ⟨rfl, rfl⟩ := Prod.mk.inj (Except.ok.inj hread)
    exact ⟨0, List.mem_singleton.2 rfl⟩
  · have hlength : 3 = (pre.length + 1 + 1 + 1) + (post.length + 1) := by
      have := congrArg List.length h
      rwa [List.length_append] at this
    omega

theorem honest_members_agree_small : ∃ b c,
    (steps (step smallEnv) smallStart smallEvents 0).blob = some b ∧
      smallEnv.smrCommitteeConfig (smallContents.config b) = .ok c ∧ c.consensusPublicKeys = [1] ∧
      ∀ key ∈ c.consensusPublicKeys, HeldAndSigned smallEnv smallStart smallEvents key 1 := by
  have hstart : ∀ i, (smallStart i).blob = none ∧ (smallStart i).signed = [] := fun _ => ⟨rfl, rfl⟩
  obtain ⟨hblob, -⟩ := honest_members_agree smallContents hstart small_unforged
  obtain ⟨c, hc, hheld⟩ := hblob 0 _ rfl
  refine ⟨_, c, rfl, hc, ?_, fun key hkey => hheld key hkey trivial⟩
  obtain rfl := Except.ok.inj hc
  rfl

/-! ## The committee that is built -/

/-- The validator of an operator's directory. -/
def validatorOf (entry : OperatorEntry) : Option SupraValidator :=
  match entry.isDir, entry.accountAddress, entry.publicIdentity with
  | .ok true, .ok accountAddress, .ok identity => some ⟨accountAddress, identity⟩
  | _, _, _ => none

theorem validatorOf_eq_some {entry : OperatorEntry} {v : SupraValidator} :
    validatorOf entry = some v ↔ entry.isDir = .ok true ∧ entry.accountAddress = .ok v.accountAddress ∧
      entry.publicIdentity = .ok v.nodePublicIdentity := by
  constructor
  · intro h
    unfold validatorOf at h
    split at h
    · rename_i hdir haddress hidentity
      obtain rfl := Option.some.inj h
      exact ⟨hdir, haddress, hidentity⟩
    · cases h
  · rintro ⟨hdir, haddress, hidentity⟩
    unfold validatorOf
    rw [hdir, haddress, hidentity]

def EntryReads (entry : OperatorEntry) : Prop := entry.isDir = .ok false ∨ (validatorOf entry).isSome

def insertAll (E : Env T) (members : Members) (vs : List SupraValidator) : Members :=
  vs.foldl (fun m v => m.insert (E.identity v) v) members

theorem addMember_ok {entry : OperatorEntry} {v : SupraValidator} {members : Members}
    (hv : validatorOf entry = some v) (hnew : E.identity v ∉ members) :
    addMember E members entry = .ok (members.insert (E.identity v) v) := by
  obtain ⟨hdir, haddress, hidentity⟩ := validatorOf_eq_some.1 hv
  unfold addMember
  rw [hdir, ok_bind, if_pos rfl, haddress, ok_bind, hidentity, ok_bind, if_neg hnew]
  rfl

theorem collected_members {entries : List OperatorEntry} {members : Members}
    (hreads : ∀ entry ∈ entries, EntryReads entry)
    (hdistinct : ((entries.filterMap validatorOf).map E.identity).Nodup)
    (hnew : ∀ v ∈ entries.filterMap validatorOf, E.identity v ∉ members) :
    entries.foldlM (addMember E) members = .ok (insertAll E members (entries.filterMap validatorOf)) := by
  induction entries generalizing members with
  | nil => rfl
  | cons entry entries ih =>
    obtain ⟨hentry, hrest⟩ := List.forall_mem_cons.1 hreads
    rw [List.foldlM_cons]
    rcases hentry with hfile | hdir
    · have hskip : addMember E members entry = .ok members := by
        unfold addMember
        rw [hfile]
        rfl
      have hnone : validatorOf entry = none := by
        unfold validatorOf
        rw [hfile]
      rw [hskip, ok_bind]
      rw [List.filterMap_cons_none hnone] at hdistinct hnew ⊢
      exact ih hrest hdistinct hnew
    · obtain ⟨v, hv⟩ := Option.isSome_iff_exists.1 hdir
      rw [List.filterMap_cons_some hv] at hdistinct hnew ⊢
      obtain ⟨hfresh, hnew⟩ := List.forall_mem_cons.1 hnew
      rw [List.map_cons, List.nodup_cons] at hdistinct
      rw [addMember_ok hv hfresh, ok_bind]
      refine ih hrest hdistinct.2 fun v' hv' hmem => ?_
      rcases Std.TreeMap.mem_insert.1 hmem with heq | hmem
      · rw [Std.LawfulEqCmp.eq_of_compare heq] at hdistinct
        exact hdistinct.1 (List.mem_map_of_mem hv')
      · exact hnew v' hv' hmem

theorem getElem?_insertAll {members : Members} {vs : List SupraValidator}
    (hdistinct : (vs.map E.identity).Nodup) {k : Identity} {v : SupraValidator} :
    (insertAll E members vs)[k]? = some v ↔
      (v ∈ vs ∧ E.identity v = k) ∨ (members[k]? = some v ∧ k ∉ vs.map E.identity) := by
  induction vs generalizing members with
  | nil => simp [insertAll]
  | cons v' vs ih =>
    rw [List.map_cons, List.nodup_cons] at hdistinct
    have hstep : insertAll E members (v' :: vs) = insertAll E (members.insert (E.identity v') v') vs := rfl
    rw [hstep, ih hdistinct.2, Std.TreeMap.getElem?_insert, List.map_cons, List.mem_cons, List.mem_cons]
    by_cases hk : E.identity v' = k
    · subst hk
      rw [if_pos (Std.ReflCmp.compare_self)]
      constructor
      · rintro (⟨hv, hid⟩ | ⟨heq, _⟩)
        · exact .inl ⟨.inr hv, hid⟩
        · exact .inl ⟨.inl (Option.some.inj heq).symm, congrArg E.identity (Option.some.inj heq).symm⟩
      · rintro (⟨rfl | hv, hid⟩ | ⟨_, hnot⟩)
        · exact .inr ⟨rfl, hdistinct.1⟩
        · exact .inl ⟨hv, hid⟩
        · exact absurd (.inl rfl) hnot
    · rw [if_neg (fun heq => hk (Std.LawfulEqCmp.eq_of_compare heq))]
      constructor
      · rintro (⟨hv, hid⟩ | ⟨hold, hnot⟩)
        · exact .inl ⟨.inr hv, hid⟩
        · exact .inr ⟨hold, not_or.2 ⟨fun heq => hk heq.symm, hnot⟩⟩
      · rintro (⟨rfl | hv, hid⟩ | ⟨hold, hnot⟩)
        · exact absurd hid hk
        · exact .inl ⟨hv, hid⟩
        · exact .inr ⟨hold, (not_or.1 hnot).2⟩

theorem mem_toList_insertAll {vs : List SupraValidator} (hdistinct : (vs.map E.identity).Nodup)
    {m : Identity × SupraValidator} :
    m ∈ (insertAll E ∅ vs).toList ↔ m.2 ∈ vs ∧ E.identity m.2 = m.1 := by
  obtain ⟨k, v⟩ := m
  rw [Std.TreeMap.mem_toList_iff_getElem?_eq_some, getElem?_insertAll hdistinct]
  simp

/-- The order in which the members are found does not matter. -/
theorem toList_insertAll_perm {vs vs' : List SupraValidator} (hperm : vs.Perm vs')
    (hdistinct : (vs.map E.identity).Nodup) :
    (insertAll E ∅ vs).toList = (insertAll E ∅ vs').toList := by
  have hnodup (m : Members) : m.toList.Nodup := by
    refine Std.TreeMap.distinct_keys_toList.imp ?_
    rintro x _ hne rfl
    exact hne Std.ReflCmp.compare_self
  have hdistinct' : (vs'.map E.identity).Nodup := (hperm.map _).nodup_iff.1 hdistinct
  refine Std.TreeMap.Equiv.toList_eq (.of_toList_perm ?_)
  rw [List.perm_ext_iff_of_nodup (hnodup _) (hnodup _)]
  intro m
  rw [mem_toList_insertAll hdistinct, mem_toList_insertAll hdistinct', hperm.mem_iff]

/-! ## A ceremony in which all take part -/

/-- An operator who takes part: the home, what the system answers, the directory in the repository and
the validator in it, the identity, and the signature's file in the repository. -/
structure Participant (T : Types) where
  home : Home T
  answers : Answers T
  entry : OperatorEntry
  validator : SupraValidator
  identity : T.NodeIdentity
  signatureEntry : DirEntry
  /-- how the operator's system lists the files with the signatures -/
  signatures : List (Option DirEntry)

namespace Participant

variable (p : Participant T)

def publicKey : PublicKey := p.validator.nodePublicIdentity.consensusPublicKey

def built (E : Env T) : Home T := after (buildSupraCommittee E p.answers false) p.home

def signed (E : Env T) : Home T := after (signSupraCommittee E p.answers) (p.built E)

/-- The directory and the identity are the validator's, and the system does what it is asked for. -/
structure Works (E : Env T) : Prop where
  entry : validatorOf p.entry = some p.validator
  validKey : E.validateKey p.validator.nodePublicIdentity.dkgCgPublicKey = true
  publicKey : E.consensusPublicKey p.identity = p.publicKey
  writeCommittees : p.answers.writeCommittees = .ok ()
  identity : ∃ password, p.answers.password = .ok password ∧
    p.home.files.identity password = .ok p.identity
  path : ∃ path, p.answers.signatureOutputPath = .ok path
  createSignature : p.answers.createSignature = .ok ()
  writeSignature : ∀ bytes, p.answers.writeSignature bytes = .ok bytes.length
  writeBlob : p.answers.writeBlob = .ok ()
  readBlob : ∀ blob, p.answers.readBlob (some blob) = .ok blob
  /-- the file with the signature is put into the repository as it is -/
  uploaded : isSignatureFile E.toEnv p.signatureEntry = .ok true ∧
    ∃ path bytes, (p.signed E).signatureFile = some (path, bytes) ∧ p.signatureEntry.content = .ok bytes

end Participant

def committee (E : Env T) (ps : List (Participant T)) (settings : T.Settings) : CommitteeConfig T :=
  ⟨.smr, E.genesisParameters settings, (insertAll E ∅ (ps.map (·.validator))).toList⟩

/-- The participants have the same settings and accounts, from which the genesis config can be loaded,
and in some order the repository's entries in their directories, among others. -/
structure Prepared (E : Env T) (ps : List (Participant T)) (settings : T.Settings)
    (accounts : T.Accounts) (config : T.GenesisConfig) : Prop where
  works : ∀ p ∈ ps, p.Works E
  sameSettings : ∀ p ∈ ps, p.home.files.settings = .ok settings
  valid : E.validate settings = .ok ()
  sameAccounts : ∀ p ∈ ps, p.home.files.accounts = .ok accounts
  operators : ∀ p ∈ ps, ∃ entries others,
    (p.home.files.release (E.isTestnet settings)).operators = .ok entries ∧
    entries.reduceOption.Perm (ps.map (·.entry) ++ others) ∧ ∀ entry ∈ others, entry.isDir = .ok false
  signatures : ∀ p ∈ ps, ∃ others, p.signatures.reduceOption.Perm (ps.map (·.signatureEntry) ++ others) ∧
    ∀ entry ∈ others, isSignatureFile E.toEnv entry = .ok false
  identities : (ps.map fun p => E.identity p.validator).Nodup
  publicKeys : (ps.map (·.publicKey)).Nodup
  loads : E.tryFromSupraHome (.ok [committee E ps settings]) (.ok accounts) = .ok config
  smr : E.smrCommitteeConfig config = .ok (committee E ps settings)

/-- The laws of keys and signatures. -/
structure Laws (E : Env T) : Prop where
  length : ∀ info, (E.publicKeyToBytes (E.consensusPublicKey info)).length = E.publicKeyLength
  publicKey : ∀ info, E.publicKeyTryFrom (E.publicKeyToBytes (E.consensusPublicKey info)) =
    .ok (E.consensusPublicKey info)
  signature : ∀ s, E.signatureTryFrom (E.signatureToBytes s) = .ok s
  verify : ∀ config info,
    E.verify (E.sign config info) (E.digest config) (E.consensusPublicKey info) = true

section
variable {ps : List (Participant T)} {settings : T.Settings} {accounts : T.Accounts}
  {config : T.GenesisConfig} (h : Prepared E ps settings accounts config)
include h

theorem validators_eq : (ps.map (·.entry)).filterMap validatorOf = ps.map (·.validator) := by
  rw [List.filterMap_map, List.filterMap_eq_map_iff_forall_eq_some]
  exact fun p hp => (h.works p hp).entry

theorem collectMembers_eq {p : Participant T} (hp : p ∈ ps) : ∃ members,
    collectMembers E (p.home.files.release (E.isTestnet settings)).operators = .ok members ∧
      members.toList = (committee E ps settings).members := by
  obtain ⟨entries, others, hentries, hperm, hothers⟩ := h.operators p hp
  have hnone : others.filterMap validatorOf = [] := by
    rw [List.filterMap_eq_nil_iff]
    intro entry hentry
    unfold validatorOf
    rw [hothers entry hentry]
  have hfound : (entries.reduceOption.filterMap validatorOf).Perm (ps.map (·.validator)) := by
    have hmap := hperm.filterMap validatorOf
    rwa [List.filterMap_append, hnone, List.append_nil, validators_eq h] at hmap
  have hdistinct : ((entries.reduceOption.filterMap validatorOf).map E.identity).Nodup := by
    rw [(hfound.map E.identity).nodup_iff, List.map_map]
    exact h.identities
  have hreads : ∀ entry ∈ entries.reduceOption, EntryReads entry := by
    intro entry hentry
    rcases List.mem_append.1 (hperm.mem_iff.1 hentry) with hmem | hmem
    · obtain ⟨q, hq, rfl⟩ := List.mem_map.1 hmem
      exact .inr (by rw [(h.works q hq).entry]; rfl)
    · exact .inl (hothers entry hmem)
  refine ⟨_, ?_, toList_insertAll_perm hfound hdistinct⟩
  rw [hentries]
  exact collected_members hreads hdistinct fun v _ => Std.TreeMap.not_mem_emptyc

theorem mem_members {m : Identity × SupraValidator} :
    m ∈ (committee E ps settings).members ↔ (∃ p ∈ ps, p.validator = m.2) ∧ E.identity m.2 = m.1 := by
  have hdistinct : ((ps.map (·.validator)).map E.identity).Nodup := by
    rw [List.map_map]
    exact h.identities
  rw [show (committee E ps settings).members = (insertAll E ∅ (ps.map (·.validator))).toList from rfl,
    mem_toList_insertAll hdistinct, List.mem_map]

theorem built_eq {p : Participant T} (hp : p ∈ ps) :
    p.built E = { p.home with files.committees := .ok [committee E ps settings] } := by
  obtain ⟨members, hmembers, htoList⟩ := collectMembers_eq h hp
  have hvalid : (members.toList.all fun m =>
      E.validateKey m.2.nodePublicIdentity.dkgCgPublicKey) = true := by
    rw [htoList, List.all_eq_true]
    intro m hm
    obtain ⟨⟨q, hq, heq⟩, _⟩ := (mem_members h).1 hm
    rw [← heq]
    exact (h.works q hq).validKey
  have hrun : buildSupraCommittee E p.answers false p.home =
      .ok () { p.home with files.committees := .ok [committee E ps settings] } := by
    unfold buildSupraCommittee downloadIfAsked
    rw [get_bind, h.sameSettings p hp, ofResult_ok_bind, if_neg (by decide), bind_ok (pure_apply _ _),
      h.valid]
    change (ofResult (.ok ()) >>= _) _ = _
    rw [ofResult_ok_bind, get_bind, hmembers, ofResult_ok_bind, if_pos hvalid,
      (h.works p hp).writeCommittees, ofResult_ok_bind, htoList]
    rfl
  exact after_ok hrun

theorem config_built {p : Participant T} (hp : p ∈ ps) : E.config (p.built E).files = .ok config := by
  rw [built_eq h hp]
  unfold Env.config
  rw [show p.home.files.accounts = _ from h.sameAccounts p hp]
  exact h.loads

theorem signed_eq {p : Participant T} (hp : p ∈ ps) : ∃ path, p.signed E = { p.built E with
    signatureFile := some (path, E.publicKeyToBytes p.publicKey ++
      E.signatureToBytes (E.sign config p.identity))
    signed := (p.built E).signed ++ [(p.publicKey, E.digest config)] } := by
  have hworks := h.works p hp
  obtain ⟨password, hpassword, hidentity⟩ := hworks.identity
  obtain ⟨path, hpath⟩ := hworks.path
  have hidentity' : (p.built E).files.identity password = .ok p.identity := by
    rw [built_eq h hp]
    exact hidentity
  refine ⟨path, after_ok (a := ()) ?_⟩
  unfold signSupraCommittee
  rw [get_bind, hpassword]
  dsimp only
  rw [ofResult_ok_bind, hidentity', ofResult_ok_bind, hpath, ofResult_ok_bind, config_built h hp,
    ofResult_ok_bind, modify_bind, hworks.publicKey]
  unfold writeSignatureFile
  rw [hworks.createSignature, ofResult_ok_bind, modify_bind, hworks.writeSignature, ofResult_ok_bind,
    List.take_length]
  rfl

end

theorem readSignature_append (hlaws : Laws E) {entry : DirEntry} {info : T.NodeIdentity}
    {s : T.Signature}
    (h : entry.content = .ok (E.publicKeyToBytes (E.consensusPublicKey info) ++ E.signatureToBytes s)) :
    readSignature E.toEnv entry = .ok (E.consensusPublicKey info, s) := by
  unfold readSignature
  rw [h, ok_bind, ← hlaws.length info, if_neg (by rw [List.length_append]; omega), List.take_left,
    List.drop_left, hlaws.publicKey, ok_bind, hlaws.signature, ok_bind]
  rfl

/-- The key and the signature in a participant's file. -/
def fileOf (E : Env T) (config : T.GenesisConfig) (p : Participant T) : PublicKey × T.Signature :=
  (p.publicKey, E.sign config p.identity)

theorem sameDigests_self (b : T.GenesisBlob) : sameDigests E b b = true := by
  unfold sameDigests
  rw [beq_self_eq_true, beq_self_eq_true]
  rfl

section
variable {ps : List (Participant T)} {settings : T.Settings} {accounts : T.Accounts}
  {config : T.GenesisConfig} (hlaws : Laws E) (h : Prepared E ps settings accounts config)
include hlaws h

theorem readSignature_participant {p : Participant T} (hp : p ∈ ps) :
    readSignature E.toEnv p.signatureEntry = .ok (fileOf E config p) := by
  obtain ⟨path, hsigned⟩ := signed_eq h hp
  obtain ⟨_, path', bytes, hfile, hcontent⟩ := (h.works p hp).uploaded
  rw [hsigned] at hfile
  obtain ⟨rfl, rfl⟩ := Prod.mk.inj (Option.some.inj hfile)
  unfold fileOf
  rw [← (h.works p hp).publicKey] at hcontent ⊢
  exact readSignature_append hlaws hcontent

theorem files_perm {entries others : List DirEntry}
    (hperm : entries.Perm (ps.map (·.signatureEntry) ++ others))
    (hothers : ∀ entry ∈ others, isSignatureFile E.toEnv entry = .ok false) :
    (Signatures.Proof.files E.toEnv entries).Perm
      (ps.map (fileOf E config)) := by
  have hfiles : Signatures.Proof.files E.toEnv (ps.map (·.signatureEntry)) =
      ps.map (fileOf E config) := by
    unfold Signatures.Proof.files
    rw [List.filterMap_map, List.filterMap_eq_map_iff_forall_eq_some]
    intro p hp
    rw [Function.comp_apply, (h.works p hp).uploaded.1, readSignature_participant hlaws h hp]
  have hnone : Signatures.Proof.files E.toEnv others = [] := by
    unfold Signatures.Proof.files
    rw [List.filterMap_eq_nil_iff]
    intro entry hentry
    rw [hothers entry hentry]
  have hmap : (Signatures.Proof.files E.toEnv entries).Perm
      (Signatures.Proof.files E.toEnv (ps.map (·.signatureEntry) ++ others)) := hperm.filterMap _
  rwa [show Signatures.Proof.files E.toEnv (ps.map (·.signatureEntry) ++ others) = _ from
    List.filterMap_append, show List.filterMap _ others = _ from hnone, List.append_nil,
    show List.filterMap _ (ps.map _) = _ from hfiles] at hmap

omit hlaws in
theorem mem_consensusPublicKeys {key : PublicKey} :
    key ∈ (committee E ps settings).consensusPublicKeys ↔ key ∈ ps.map (·.publicKey) := by
  unfold CommitteeConfig.consensusPublicKeys
  rw [List.mem_map, List.mem_map]
  constructor
  · rintro ⟨m, hm, rfl⟩
    obtain ⟨⟨p, hp, heq⟩, _⟩ := (mem_members h).1 hm
    exact ⟨p, hp, congrArg (·.nodePublicIdentity.consensusPublicKey) heq⟩
  · rintro ⟨p, hp, rfl⟩
    exact ⟨(E.identity p.validator, p.validator), (mem_members h).2 ⟨⟨p, hp, rfl⟩, rfl⟩, rfl⟩

theorem complete_participants : Complete E.toEnv ⟨E.digest config,
    (committee E ps settings).consensusPublicKeys⟩
      (ps.map (fileOf E config)) := by
  have hkeys : (ps.map (fileOf E config)).map Prod.fst =
      ps.map (·.publicKey) := List.map_map
  refine ⟨?_, ?_, ?_⟩
  · rw [hkeys]
    exact h.publicKeys
  · rw [hkeys]
    ext key
    rw [List.mem_toFinset, List.mem_toFinset, mem_consensusPublicKeys h]
  · intro f hf
    obtain ⟨p, hp, rfl⟩ := List.mem_map.1 hf
    have hverify := hlaws.verify config p.identity
    rwa [(h.works p hp).publicKey] at hverify

theorem checkSignatures_participants [DecidableEq T.Signature] {p : Participant T} (hp : p ∈ ps) :
    checkSignatures E.toEnv ⟨E.digest config,
      (committee E ps settings).consensusPublicKeys⟩ (.ok p.signatures) =
        .ok (ps.map (fileOf E config)).toFinset := by
  obtain ⟨others, hperm, hothers⟩ := h.signatures p hp
  have hfiles := files_perm hlaws h hperm hothers
  have hreadable : Readable E.toEnv p.signatures.reduceOption := by
    intro entry hentry
    rcases List.mem_append.1 (hperm.mem_iff.1 hentry) with hmem | hmem
    · obtain ⟨q, hq, rfl⟩ := List.mem_map.1 hmem
      exact ⟨true, (h.works q hq).uploaded.1, fun _ => ⟨_, readSignature_participant hlaws h hq⟩⟩
    · exact ⟨false, hothers entry hmem, fun hfalse => absurd hfalse Bool.false_ne_true⟩
  rw [← checkSignatures_reduceOption, Signatures.Proof.checkSignatures_ok_iff hreadable]
  exact ⟨(complete_participants hlaws h).perm hfiles.symm, (List.toFinset_eq_of_perm _ _ hfiles).symm⟩

theorem generated_eq [DecidableEq T.Signature] {p : Participant T} (hp : p ∈ ps) {blob : T.GenesisBlob}
    (hnew : E.newBlob config (ps.map (fileOf E config)).toFinset = .ok blob) :
    generateGenesisBlobFromSupraHome E p.answers (p.signed E).files none (some (.ok p.signatures)) =
      .ok blob := by
  obtain ⟨path, hsigned⟩ := signed_eq h hp
  have hfiles : (p.signed E).files = (p.built E).files := by rw [hsigned]
  unfold generateGenesisBlobFromSupraHome
  rw [hfiles, config_built h hp, ok_bind, h.smr, ok_bind]
  dsimp only [Option.getD_some]
  unfold Signatures.generateGenesisBlobFromSupraHome
  rw [ok_bind, checkSignatures_participants hlaws h hp, ok_bind]
  exact hnew

end

/-- **With all operators taking part the ceremony ends with one blob.** Whatever order the directories
are listed in, and whatever other files are in them: each operator builds the committee of all, each
creates the same blob, with the valid signatures of all members, and each accepts it from the others. -/
theorem ceremony_ends_with_one_blob [DecidableEq T.Signature] {ps : List (Participant T)}
    {settings : T.Settings} {accounts : T.Accounts} {config : T.GenesisConfig} {blob : T.GenesisBlob}
    (hlaws : Laws E) (B : Contents E) (h : Prepared E ps settings accounts config)
    (hnew : E.newBlob config (ps.map (fileOf E config)).toFinset = .ok blob) :
    (∃ c, E.smrCommitteeConfig (B.config blob) = .ok c ∧
      (∀ p ∈ ps, (p.built E).files.committees = .ok [c]) ∧
      (∀ key, key ∈ c.consensusPublicKeys ↔ key ∈ ps.map (·.publicKey)) ∧
      (B.signatures blob).image Prod.fst = c.consensusPublicKeys.toFinset) ∧
    (∀ f ∈ B.signatures blob, E.verify f.2 (E.digest (B.config blob)) f.1 = true) ∧
    ∀ p ∈ ps, ∃ home,
      generateGenesisBlob E p.answers none (some (.ok p.signatures)) (p.signed E) = .ok () home ∧
      home.blob = some blob ∧ ∀ skipRegeneration, verifyGenesisBlob E p.answers (.ok blob)
        skipRegeneration (some (.ok p.signatures)) home = .ok () home := by
  obtain ⟨hconfig, hsignatures⟩ := B.new hnew
  have hcomplete := complete_participants hlaws h
  refine ⟨⟨committee E ps settings, ?_, fun p hp => ?_, fun key => mem_consensusPublicKeys h, ?_⟩,
    fun f hf => ?_, fun p hp => ?_⟩
  · rw [hconfig]
    exact h.smr
  · rw [built_eq h hp]
  · rw [hsignatures, ← hcomplete.members]
    ext key
    simp
  · rw [hsignatures] at hf
    rw [hconfig]
    exact hcomplete.valid f (List.mem_toFinset.1 hf)
  · have hgenerated := generated_eq hlaws h hp hnew
    refine ⟨{ p.signed E with blob := some blob }, ?_, rfl, fun skipRegeneration => ?_⟩
    · unfold generateGenesisBlob
      rw [get_bind, hgenerated, ofResult_ok_bind, (h.works p hp).writeBlob, ofResult_ok_bind]
      rfl
    · unfold verifyGenesisBlob localBlob
      rw [ofResult_ok_bind, get_bind]
      cases skipRegeneration with
      | true =>
        rw [if_pos rfl, (h.works p hp).readBlob, ofResult_ok_bind, if_pos (sameDigests_self _)]
        rfl
      | false =>
        rw [if_neg (by decide), hgenerated, ofResult_ok_bind, if_pos (sameDigests_self _)]
        rfl

def smallEntry (info : Bool) : OperatorEntry :=
  ⟨"", .ok true, .ok 0, .ok (smallValidator info).nodePublicIdentity⟩

def smallSignature (info : Bool) : DirEntry :=
  ⟨"", "out.sig", .ok true, .ok [if info then 2 else 1, if info then 2 else 1, 2]⟩

/-- Two participants whose systems list the directories in opposite orders. -/
def smallParticipant (info : Bool) : Participant smallTypes where
  home := ⟨⟨.ok (), fun _ => ⟨.ok [some (smallEntry info), none, some (smallEntry !info)], .ok []⟩,
    .ok [], .ok (), fun _ => .ok info⟩, none, none, [], []⟩
  answers := smallAnswers
  entry := smallEntry info
  validator := smallValidator info
  identity := info
  signatureEntry := smallSignature info
  signatures := [some (smallSignature info), some (smallSignature !info)]

theorem small_laws : Laws smallEnv where
  length _ := rfl
  publicKey info := by cases info <;> rfl
  signature _ := rfl
  verify _ _ := beq_self_eq_true _

theorem small_works (info : Bool) : (smallParticipant info).Works smallEnv where
  entry := rfl
  validKey := rfl
  publicKey := rfl
  writeCommittees := rfl
  identity := ⟨(), rfl, rfl⟩
  path := ⟨_, rfl⟩
  createSignature := rfl
  writeSignature _ := rfl
  writeBlob := rfl
  readBlob _ := rfl
  uploaded := by
    cases info
    · exact ⟨rfl, "out.sig", [1, 1, 2], rfl, rfl⟩
    · exact ⟨rfl, "out.sig", [2, 2, 2], rfl, rfl⟩

theorem small_prepared :
    Prepared smallEnv [smallParticipant false, smallParticipant true] () ()
      [(1, smallValidator false), (2, smallValidator true)] where
  works p hp := by
    rcases List.mem_pair.1 hp with rfl | rfl
    · exact small_works false
    · exact small_works true
  sameSettings p hp := by
    rcases List.mem_pair.1 hp with rfl | rfl <;> rfl
  valid := rfl
  sameAccounts p hp := by
    rcases List.mem_pair.1 hp with rfl | rfl <;> rfl
  operators p hp := by
    rcases List.mem_pair.1 hp with rfl | rfl
    · exact ⟨_, [], rfl, .refl _, fun _ h => absurd h List.not_mem_nil⟩
    · exact ⟨_, [], rfl, .swap _ _ [], fun _ h => absurd h List.not_mem_nil⟩
  signatures p hp := by
    rcases List.mem_pair.1 hp with rfl | rfl
    · exact ⟨[], .refl _, fun _ h => absurd h List.not_mem_nil⟩
    · exact ⟨[], .swap _ _ [], fun _ h => absurd h List.not_mem_nil⟩
  identities := by decide
  publicKeys := by decide
  loads := rfl
  smr := rfl

theorem ceremony_ends_with_one_blob_small : ∃ blob : smallTypes.GenesisBlob,
    (smallContents.signatures blob).image Prod.fst = {1, 2} ∧ ∀ info, ∃ home,
      generateGenesisBlob smallEnv smallAnswers none (some (.ok (smallParticipant info).signatures))
        ((smallParticipant info).signed smallEnv) = .ok () home ∧ home.blob = some blob := by
  obtain ⟨⟨c, hc, -, -, hsigners⟩, -, hall⟩ :=
    ceremony_ends_with_one_blob small_laws smallContents small_prepared rfl
  refine ⟨_, hsigners.trans ?_, fun info => ?_⟩
  · obtain rfl := Except.ok.inj hc
    decide
  · have hmem : smallParticipant info ∈ [smallParticipant false, smallParticipant true] := by
      cases info
      · exact List.mem_cons_self
      · exact List.mem_cons_of_mem _ List.mem_cons_self
    obtain ⟨home, hrun, hblob, -⟩ := hall _ hmem
    exact ⟨home, hrun, hblob⟩

end Genesis.Ceremony.Proof
