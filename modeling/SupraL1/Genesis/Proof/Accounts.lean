import SupraL1.Lib.Fallible
import SupraL1.Genesis.MainnetAccounts

/-!
# The accounts of the files

`try_from` refuses an address twice in a row in the order of a file's amounts, an address in two
vesting files, and one in a delegation and a vesting file. What is left is an address that is repeated
with other accounts in between, or in several files of the delegation pools: the accounts are distinct
exactly if there is no such address.
-/

namespace Genesis.Proof

open Std Fallible
open Consensus (Bytes)
open Move (AccountAddress)

variable {E : Env}

/-! ## Files of accounts -/

/-- The accounts that a file lists. -/
def listing (E : Env) (path : String) : List AccountBalance :=
  match E.files.accountBalances path with
  | .ok accounts => accounts
  | .error _ => []

def listed (E : Env) (path : String) : List AccountAddress := (listing E path).map (·.address)

/-- Accounts are equal by their addresses. -/
theorem AccountBalance.beq_iff (a b : AccountBalance) : (a == b) = true ↔ a.address = b.address := by
  show (a.address == b.address) = true ↔ a.address = b.address
  rw [beq_iff_eq]

/-- The accounts of an accepted file, in the order of their amounts: no two neighbours in it have one
address. -/
theorem fromFile_ok {path : String} {a : AccountBalances} (h : AccountBalances.fromFile E path = .ok a) :
    a.balances = (listing E path).insertionSort AccountBalance.le ∧
      a.balances.IsChain (·.address ≠ ·.address) := by
  obtain ⟨accounts, hfile, h⟩ := bind_ok_iff.1 h
  dsimp only at h
  split at h
  · rename_i hlength
    obtain rfl := pure_ok_iff.1 h
    have hlisting : listing E path = accounts := by rw [listing, hfile]
    have hsorted := KeySet.collect_eq_of_length hlength
    refine ⟨by rw [hlisting]; exact hsorted, ?_⟩
    dsimp only
    rw [hsorted]
    exact (KeySet.length_collect_eq_iff.1 hlength).imp fun b c hne heq =>
      hne ((AccountBalance.beq_iff b c).2 heq)
  · cases h

theorem fromFile_perm {path : String} {a : AccountBalances}
    (h : AccountBalances.fromFile E path = .ok a) : a.balances.Perm (listing E path) := by
  rw [(fromFile_ok h).1]
  exact List.perm_insertionSort _ _

/-! ## Delegators -/

/-- The accounts that the file of a schedule lists. -/
def scheduleListing (E : Env) (s : DelegationPoolUnlockSchedule) : List AccountBalance :=
  match s.accountsFilePath with
  | some path => listing E path
  | none => []

/-- The accounts of a schedule, as `accounts` returns them. -/
def delegatorsOf (E : Env) (s : DelegationPoolUnlockSchedule) : List AccountBalance :=
  match s.accounts E with
  | .ok (some a) => a.balances
  | .ok none | .error _ => []

theorem accounts_some {s : DelegationPoolUnlockSchedule} {a : AccountBalances}
    (h : s.accounts E = .ok (some a)) :
    ∃ path, s.accountsFilePath = some path ∧ AccountBalances.fromFile E path = .ok a := by
  unfold DelegationPoolUnlockSchedule.accounts at h
  split at h
  · rename_i path hpath
    obtain ⟨a', ha, heq⟩ := map_ok_iff.1 h
    cases heq
    exact ⟨path, hpath, ha⟩
  · cases h

theorem accounts_none {s : DelegationPoolUnlockSchedule} (h : s.accounts E = .ok none) :
    s.accountsFilePath = none := by
  unfold DelegationPoolUnlockSchedule.accounts at h
  split at h
  · obtain ⟨a, -, heq⟩ := map_ok_iff.1 h
    cases heq
  · assumption

theorem delegatorsOf_perm {s : DelegationPoolUnlockSchedule} {o : Option AccountBalances}
    (h : s.accounts E = .ok o) : (delegatorsOf E s).Perm (scheduleListing E s) := by
  rw [delegatorsOf, h, scheduleListing]
  cases o with
  | none => rw [accounts_none h]
  | some a =>
    obtain ⟨path, hpath, ha⟩ := accounts_some h
    rw [hpath]
    exact fromFile_perm ha

theorem accounts_ok {s : DelegationPoolUnlockSchedules} {a : AccountBalances}
    (h : s.accounts E = .ok a) :
    a.balances = s.schedules.flatMap (delegatorsOf E) ∧
      ∀ schedule ∈ s.schedules, ∃ o, schedule.accounts E = .ok o := by
  obtain ⟨balances, hmap, hret⟩ := bind_ok_iff.1 h
  obtain rfl := pure_ok_iff.1 hret
  have hall := mapM_ok_iff.1 hmap
  clear h hmap hret
  rw [List.flatMap]
  generalize s.schedules = schedules at hall
  induction hall with
  | nil => exact ⟨rfl, nofun⟩
  | @cons schedule b schedules bs hb _ ih =>
    obtain ⟨o, ho, hb⟩ := bind_ok_iff.1 hb
    have hhead : b = delegatorsOf E schedule := by
      rw [delegatorsOf, ho]
      cases o <;> exact (pure_ok_iff.1 hb).symm
    refine ⟨by rw [List.map_cons, List.flatten_cons, List.flatten_cons, ← ih.1, hhead], ?_⟩
    rw [List.forall_mem_cons]
    exact ⟨⟨o, ho⟩, ih.2⟩

/-! ## Vesting accounts -/

theorem toChunksAux_append {α : Type} (n : Nat) (l : List α) (i : Nat) :
    (l.toChunksAux n i).1 ++ (l.toChunksAux n i).2.flatten = l := by
  induction l generalizing i with
  | nil => rfl
  | cons a l ih =>
    cases i with
    | zero => simpa [List.toChunksAux] using ih n
    | succ i => simpa [List.toChunksAux] using ih i

theorem flatten_chunks {α : Type} (size : Nat) (l : List α) : (chunks size l).flatten = l := by
  have h := toChunksAux_append (size - 1) l 0
  cases l with
  | nil => rfl
  | cons a l => simpa [List.toChunksAux, chunks] using h

theorem mem_keys_chunkAccounts {s : VestingPoolUnlockSchedule} {chunk : List AccountBalance} {i : Nat}
    {x : AccountAddress} :
    x ∈ KeySet.keys (s.chunkAccounts E chunk i) ↔ x ∈ chunk.map (·.address) := by
  unfold VestingPoolUnlockSchedule.chunkAccounts
  rw [KeySet.mem_keys_ofList]
  simp

theorem mem_keys_extend {s : VestingPoolUnlockSchedule} {x : AccountAddress} (t : VestingBalances)
    (cs : List (List AccountBalance)) (k : Nat) :
    x ∈ KeySet.keys ((cs.zipIdx k).foldl (fun accountsMapped (chunk, i) =>
      accountsMapped.insertMany (s.chunkAccounts E chunk i).toList) t) ↔
    x ∈ KeySet.keys t ∨ x ∈ cs.flatten.map (·.address) := by
  induction cs generalizing t k with
  | nil => simp
  | cons c cs ih =>
    have hchunk : x ∈ (s.chunkAccounts E c k).toList.map (·.address) ↔ x ∈ c.map (·.address) :=
      mem_keys_chunkAccounts
    rw [List.zipIdx_cons, List.foldl_cons, ih]
    dsimp only
    rw [KeySet.mem_keys_insertMany, hchunk, List.flatten_cons, List.map_append, List.mem_append,
      or_assoc]

theorem mem_keys_accounts {s : VestingPoolUnlockSchedule} {t : VestingBalances}
    (h : s.accounts E = .ok t) (x : AccountAddress) :
    x ∈ KeySet.keys t ↔ x ∈ listed E s.accountsFilePath := by
  obtain ⟨a, ha, h⟩ := bind_ok_iff.1 h
  obtain rfl := pure_ok_iff.1 h
  rw [mem_keys_extend, flatten_chunks, listed, ← ((fromFile_perm ha).map _).mem_iff]
  simp [KeySet.keys, KeySet.toList_empty]

theorem accountBalancesFrom_ok {t t' : VestingBalances} {schedules : List VestingPoolUnlockSchedule}
    (h : accountBalancesFrom E t schedules = .ok t') :
    (∀ x, x ∈ KeySet.keys t' ↔
      x ∈ KeySet.keys t ∨ x ∈ schedules.flatMap fun s => listed E s.accountsFilePath) ∧
    (∀ s ∈ schedules, (listed E s.accountsFilePath).Disjoint (KeySet.keys t)) ∧
    schedules.Pairwise fun s s' => (listed E s.accountsFilePath).Disjoint (listed E s'.accountsFilePath) := by
  induction schedules generalizing t with
  | nil =>
    cases h
    simp
  | cons s schedules ih =>
    obtain ⟨accounts, haccounts, h⟩ := bind_ok_iff.1 h
    dsimp only at h
    split at h
    · rename_i hempty
      obtain ⟨hkeys, hfresh, hpair⟩ := ih h
      have hinsert : ∀ x, x ∈ KeySet.keys (t.insertMany accounts.toList) ↔
          x ∈ KeySet.keys t ∨ x ∈ listed E s.accountsFilePath := fun x => by
        rw [KeySet.mem_keys_insertMany, ← mem_keys_accounts haccounts]
        rfl
      have hdisjoint : (listed E s.accountsFilePath).Disjoint (KeySet.keys t) := fun x hx ht =>
        KeySet.isEmpty_inter_iff.1 hempty ((mem_keys_accounts haccounts x).2 hx) ht
      refine ⟨fun x => ?_, List.forall_mem_cons.2 ⟨hdisjoint, fun s' hs' x hx ht => ?_⟩,
        List.pairwise_cons.2 ⟨fun s' hs' x hx hx' => ?_, hpair⟩⟩
      · rw [hkeys, hinsert, List.flatMap_cons, List.mem_append, or_assoc]
      · exact hfresh s' hs' hx ((hinsert x).2 (.inl ht))
      · exact hfresh s' hs' hx' ((hinsert x).2 (.inr hx))
    · cases h

/-! ## The checks of `try_from` -/

open MainnetGenesisAccountsGenerator

variable {gen : MainnetGenesisAccountsGenerator}

theorem verify_ok (h : gen.verify E = .ok ()) :
    (∃ total, gen.allocatedSupra E = .ok total ∧ total ≤ supraMintedAtGenesis) ∧
    ∃ delegators, gen.delegationPoolSchedules.accounts E = .ok delegators ∧
      (delegators.balances.map (·.address)).Disjoint (KeySet.keys gen.vestingAccounts) := by
  obtain ⟨total, htotal, h⟩ := bind_ok_iff.1 h
  split at h
  · cases h
  · rename_i hle
    split at h
    · cases h
    · obtain ⟨delegators, hdelegators, h⟩ := bind_ok_iff.1 h
      refine ⟨⟨total, htotal, Nat.le_of_not_lt hle⟩, delegators, hdelegators, ?_⟩
      dsimp only at h
      split at h
      · rename_i hcommon
        intro x hx hv
        have hnil := List.isEmpty_iff.1 hcommon
        have hmem : x ∈ gen.commonAccounts delegators :=
          List.mem_filter.2 ⟨List.mem_dedup.2 hx, decide_eq_true hv⟩
        rw [hnil] at hmem
        cases hmem
      · cases h

theorem tryFrom_ok {args : GenerateMainnetAccountsConfig} (h : tryFrom E args = .ok gen) :
    accountBalances E gen.vestingPoolSchedules = .ok gen.vestingAccounts ∧
      gen.verify E = .ok () := by
  obtain ⟨config, -, h⟩ := bind_ok_iff.1 h
  obtain ⟨committee, -, h⟩ := bind_ok_iff.1 h
  split at h
  · obtain ⟨multisig, -, h⟩ := bind_ok_iff.1 h
    obtain ⟨keys, -, h⟩ := bind_ok_iff.1 h
    obtain ⟨schedules, -, h⟩ := bind_ok_iff.1 h
    obtain ⟨vesting, -, h⟩ := bind_ok_iff.1 h
    obtain ⟨accounts, haccounts, h⟩ := bind_ok_iff.1 h
    obtain ⟨⟨⟩, hverify, h⟩ := bind_ok_iff.1 h
    obtain rfl := pure_ok_iff.1 h
    exact ⟨haccounts, hverify⟩
  · cases h

def delegatorAddresses (E : Env) (gen : MainnetGenesisAccountsGenerator) : List AccountAddress :=
  gen.delegationPoolSchedules.schedules.flatMap fun s => (scheduleListing E s).map (·.address)

def vestingAddresses (E : Env) (gen : MainnetGenesisAccountsGenerator) : List AccountAddress :=
  gen.vestingPoolSchedules.flatMap fun s => listed E s.accountsFilePath

theorem delegatorAddresses_perm
    (h : ∀ s ∈ gen.delegationPoolSchedules.schedules, ∃ o, s.accounts E = .ok o) :
    ((gen.delegationPoolSchedules.schedules.flatMap (delegatorsOf E)).map (·.address)).Perm
      (delegatorAddresses E gen) := by
  rw [List.map_flatMap, delegatorAddresses]
  refine List.Perm.flatMap_left _ fun s hs => ?_
  obtain ⟨o, ho⟩ := h s hs
  exact (delegatorsOf_perm ho).map _

/-! ## A small genesis -/

/-- A total order of the pool configurations, by their owners first. -/
def ownerFirst : DelegationPoolConfigV1 → DelegationPoolConfigV1 → Ordering :=
  compareLex (compareOn (·.ownerAddress)) <|
  compareLex (compareOn (·.delegationPoolCreationSeed)) <|
  compareLex (compareOn (·.validatorConsensusPublicKey)) <|
  compareLex (compareOn (·.adminAddress)) <|
  compareLex (compareOn (·.unlockScheduleNumerators)) <|
  compareLex (compareOn (·.unlockScheduleDenominator)) <|
  compareLex (compareOn (·.unlockStartupTimeFromNow)) (compareOn (·.unlockPeriodDuration))

/-- A total order of the multisig accounts. -/
def multisigOwnerFirst : MultiSigAccountWithBalance → MultiSigAccountWithBalance → Ordering :=
  compareLex (compareOn (·.owner)) <|
  compareLex (compareOn (·.additionalOwners)) <|
  compareLex (compareOn (·.multisigAddress)) <|
  compareLex (compareOn (·.numSignaturesRequired)) <|
  compareLex (compareOn (·.metadataKeys)) <|
  compareLex (compareOn (·.metadataValues)) <|
  compareLex (compareOn (·.timeoutDuration)) (compareOn (·.balance))

/-- A genesis with nine owners, ten foundation validators with the keys `0` to `9`, and one file each
for delegators and vesting accounts. -/
def small (members : List PublicKey) (schedules : List DelegationPoolUnlockSchedule)
    (delegators vesting : List AccountBalance) (standalone : List ℚ≥0) : Env where
  files := {
    foundationMultisigAccountsConfig := fun _ => .ok {
      owners := (List.range 9).map (BitVec.ofNat 256)
      numSignaturesRequired := 5
      ownerBalancesInSupra := 0
      timeoutDuration := 600
      standaloneAccounts := standalone.map fun balance => ⟨balance, ["name"], ["Treasury"]⟩ }
    foundationValidatorsConsensusPublicKeys := fun _ => .ok ((List.range 10).map (BitVec.ofNat 256))
    delegationPoolSchedules := fun _ => .ok ("default", schedules)
    supraCommittees := fun _ => .ok (some ⟨members, 0⟩)
    vestingPoolSchedules := fun _ => .ok [⟨"vesting", "Treasury", 0, [1], 10, 0, 100⟩]
    accountBalances := fun path => .ok (if path = "vesting" then vesting else delegators) }
  supraCoinsBaseWithDecimals := 100000000
  maximumShareholdersPerVestingPool := 30
  maximumDelegatorsPerDelegationPool := 100
  createMultisigAccountAddress _ i := BitVec.ofNat 256 (1000 + i)
  -- decimal digits, read as hexadecimal ones
  addressFromStr s := some (BitVec.ofNat 256 (s.toList.foldl (fun n c => 16 * n + (c.toNat - 48)) 0))
  toBytes s := s.toUTF8.toList
  poolOrder := ownerFirst
  multisigOrder := multisigOwnerFirst
  display := BitVec.toHex
  debug _ := ""
  writeAsGenesisConfig := .ok ()
  writeToFile := .ok ()

/-- The default schedule, for one pool with the delegators of a file. -/
def oneSchedule : DelegationPoolUnlockSchedule := ⟨some "delegators", "default", 1, [1], 10, 0, 100⟩

/-- A genesis with two schedules of different terms and a file of one account each: the default one for
one pool, and one for the given number of pools. -/
def twoFiles (pools : Nat) : Env :=
  let E := small ((List.range (pools + 1)).map (BitVec.ofNat 256))
    [oneSchedule, ⟨some "more", "more", pools, [2], 20, 0, 50⟩] [] [⟨3, 4⟩] [78999999988]
  { E with files := { E.files with
      accountBalances := fun path => .ok <|
        if path = "vesting" then [⟨3, 4⟩] else if path = "delegators" then [⟨1, 3⟩] else [⟨2, 5⟩] } }

def paths : GenerateMainnetAccountsConfig := ⟨"multisig", "keys", "schedules", "committees", "vesting"⟩

/-- **When the genesis accounts are distinct.** Once `try_from` succeeds, the addresses of all files
together are pairwise distinct exactly if those of the delegation pools are, and each vesting file
lists its addresses once. -/
theorem genesis_accounts_distinct_iff (E : Env) (args : GenerateMainnetAccountsConfig)
    (gen : MainnetGenesisAccountsGenerator) (h : tryFrom E args = .ok gen) :
    (delegatorAddresses E gen ++ vestingAddresses E gen).Nodup ↔
      (delegatorAddresses E gen).Nodup ∧
        ∀ s ∈ gen.vestingPoolSchedules, (listed E s.accountsFilePath).Nodup := by
  obtain ⟨hvesting, hverify⟩ := tryFrom_ok h
  obtain ⟨hkeys, -, hpair⟩ := accountBalancesFrom_ok hvesting
  obtain ⟨-, delegators, hdelegators, hdisjoint⟩ := verify_ok hverify
  obtain ⟨hbalances, hloaded⟩ := accounts_ok hdelegators
  rw [hbalances] at hdisjoint
  have hapart : (delegatorAddresses E gen).Disjoint (vestingAddresses E gen) := fun x hd hv =>
    hdisjoint ((delegatorAddresses_perm hloaded).mem_iff.2 hd) ((hkeys x).2 (.inr hv))
  rw [List.nodup_append', vestingAddresses, List.nodup_flatMap]
  constructor
  · rintro ⟨hd, ⟨hv, -⟩, -⟩
    exact ⟨hd, hv⟩
  · rintro ⟨hd, hv⟩
    exact ⟨hd, ⟨hv, hpair⟩, hapart⟩

/-- Two delegators of one amount. -/
theorem genesis_accounts_distinct_iff_small :
    let E := small [0] [oneSchedule] [⟨1, 3⟩, ⟨2, 3⟩] [⟨3, 4⟩] [78999999990]
    ∃ gen, tryFrom E paths = .ok gen ∧ (delegatorAddresses E gen ++ vestingAddresses E gen).Nodup := by
  intro E
  have hcheck : ∃ gen, tryFrom E paths = .ok gen ∧ (delegatorAddresses E gen).Nodup ∧
      ∀ s ∈ gen.vestingPoolSchedules, (listed E s.accountsFilePath).Nodup := by
    decide +kernel
  obtain ⟨gen, hgen, hnodup⟩ := hcheck
  exact ⟨gen, hgen, (genesis_accounts_distinct_iff E paths gen hgen).2 hnodup⟩

/-- A file of delegators that lists an address twice, with an account between the two in the order of
the amounts, is accepted. -/
theorem repeated_delegator_accepted :
    let E := small [0] [oneSchedule] [⟨1, 3⟩, ⟨2, 4⟩, ⟨1, 5⟩] [⟨3, 4⟩] [78999999984]
    ∃ gen, tryFrom E paths = .ok gen ∧ ¬ (delegatorAddresses E gen ++ vestingAddresses E gen).Nodup := by
  decide +kernel

end Genesis.Proof
