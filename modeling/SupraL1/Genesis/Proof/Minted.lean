import Mathlib.Algebra.BigOperators.Group.Finset.Basic
import Mathlib.Algebra.Order.BigOperators.Group.List
import Mathlib.Algebra.Order.Floor.Semifield
import Mathlib.Data.Finset.Card
import SupraL1.Genesis.Proof.Assign

/-!
# How much the genesis mints

`verify` adds up what is allocated in whole SUPRA: it truncates the stake of each validator, the sum
for the delegators, each standalone account and the sum for the vesting accounts. `generate` mints
these parts with their fractions. So the cap holds for what is minted exactly if the fractions fit
into what the truncated total leaves of it.
-/

namespace Genesis.Proof

open Std Fallible
open Move (AccountAddress)
open MainnetGenesisAccountsGenerator

variable {E : Env} {gen : MainnetGenesisAccountsGenerator}

/-- What a configuration mints, in Quants. -/
def minted (config : GenesisAccountsV1 E) : Nat :=
  ∑ d ∈ config.delegatorAccounts, d.balance + (config.vestingAccounts.toList.map (·.amount)).sum +
    (config.multisigAccounts.toList.map (·.balance)).sum + ∑ a ∈ config.accounts, a.balance +
    config.multisigAccountSchema.balance * config.multisigAccountSchema.numOfAccounts

/-- What the delegators are allocated. -/
def delegated (E : Env) (gen : MainnetGenesisAccountsGenerator) : Nat :=
  ((gen.delegationPoolSchedules.schedules.flatMap (delegatorsOf E)).map E.balance).sum

/-- What the owners of the multisig accounts are allocated. -/
def ownersShare (E : Env) (gen : MainnetGenesisAccountsGenerator) : Nat :=
  gen.foundationMultisigAccountsConfig.ownerBalancesInSupra * E.supraCoinsBaseWithDecimals

/-- The amounts that `verify` truncates to whole SUPRA, each by itself. -/
def parts (E : Env) (gen : MainnetGenesisAccountsGenerator) : List Nat :=
  List.replicate gen.smrCommitteeConfig.size gen.smrCommitteeConfig.pboOwnerStake ++
    delegated E gen :: (gen.vestingAccounts.toList.map (·.amount)).sum ::
    (gen.foundationMultisigAccountsConfig.owners.map (fun _ => ownersShare E gen) ++
      gen.foundationMultisigAccountsConfig.standaloneAccounts.map (·.balanceInQuants E))

/-! ## Truncated sums -/

theorem sum_div_mod (b : Nat) (l : List Nat) :
    l.sum = (l.map (· / b)).sum * b + (l.map (· % b)).sum := by
  induction l with
  | nil => simp
  | cons a l ih =>
    have := Nat.div_add_mod a b
    rw [List.sum_cons, List.map_cons, List.map_cons, List.sum_cons, List.sum_cons, ih, Nat.add_mul,
      Nat.mul_comm (a / b)]
    omega

/-- Truncating to whole SUPRA at once or by way of Quants is the same. -/
theorem balanceInSupra_eq (hbase : 0 < E.supraCoinsBaseWithDecimals) (a : FoundationOwnedMultisigAccount) :
    a.balanceInSupra = a.balanceInQuants E / E.supraCoinsBaseWithDecimals := by
  have hne : (E.supraCoinsBaseWithDecimals : ℚ≥0) ≠ 0 := Nat.cast_ne_zero.2 (Nat.ne_of_gt hbase)
  unfold FoundationOwnedMultisigAccount.balanceInSupra FoundationOwnedMultisigAccount.balanceInQuants
    Env.toQuants
  rw [← Nat.floor_div_natCast, mul_div_cancel_right₀ _ hne]

theorem allocatedSupra_eq (hbase : 0 < E.supraCoinsBaseWithDecimals) {total : Nat}
    (h : gen.allocatedSupra E = .ok total) :
    total = ((parts E gen).map (· / E.supraCoinsBaseWithDecimals)).sum := by
  obtain ⟨allocated, hallocated, h⟩ := bind_ok_iff.1 h
  obtain rfl := pure_ok_iff.1 h
  obtain ⟨delegators, hdelegators, h⟩ := bind_ok_iff.1 hallocated
  obtain rfl := pure_ok_iff.1 h
  have hdelegated : delegators.allocatedSupra E = delegated E gen / E.supraCoinsBaseWithDecimals := by
    rw [AccountBalances.allocatedSupra, (accounts_ok hdelegators).1, delegated]
  have howner : ownersShare E gen / E.supraCoinsBaseWithDecimals =
      gen.foundationMultisigAccountsConfig.ownerBalancesInSupra :=
    Nat.mul_div_cancel _ hbase
  rw [hdelegated]
  unfold parts foundationDelegatedSupra FoundationMultiSigAccountsConfig.allocatedSupra
    VestingBalances.allocatedSupra
  simp only [List.map_append, List.map_cons, List.map_map, List.sum_append, List.sum_cons,
    List.map_replicate, List.sum_replicate_nat, Function.comp_def, howner,
    ← balanceInSupra_eq hbase, List.map_const']
  rw [Nat.mul_comm gen.smrCommitteeConfig.size, Nat.mul_comm (List.length _)]
  omega

/-! ## What is minted of each part -/

theorem sum_toFinset_le {α : Type} [DecidableEq α] (l : List α) (f : α → Nat) :
    ∑ a ∈ l.toFinset, f a ≤ (l.map f).sum := by
  induction l with
  | nil => simp
  | cons a l ih =>
    rw [List.toFinset_cons, List.map_cons, List.sum_cons]
    by_cases ha : a ∈ l.toFinset
    · rw [Finset.insert_eq_of_mem ha]
      exact Nat.le_trans ih (Nat.le_add_left _ _)
    · rw [Finset.sum_insert ha]
      exact Nat.add_le_add_left ih _

theorem delegators_minted {config : GenesisAccountsV1 E} (h : gen.generate E = .ok config) :
    ∑ d ∈ config.delegatorAccounts, d.balance ≤ delegated E gen ∧
      ((delegatorAddresses E gen).Nodup →
        ∑ d ∈ config.delegatorAccounts, d.balance = delegated E gen) := by
  obtain ⟨-, hassign, -⟩ := generate_ok h
  obtain ⟨entries, haccounts, hassigns⟩ := assignDelegatorsToDelegationPools_ok hassign
  rw [haccounts, delegated, ← hassigns.balances]
  refine ⟨sum_toFinset_le entries _, fun hnodup => List.sum_toFinset _ ?_⟩
  exact (hassigns.nodup_addresses hnodup).of_map

theorem owners_minted : ∑ a ∈ gen.generateFoundationMultisigOwnerAccounts E, a.balance =
    gen.foundationMultisigAccountsConfig.owners.toFinset.card * ownersShare E gen := by
  have himage : gen.generateFoundationMultisigOwnerAccounts E =
      gen.foundationMultisigAccountsConfig.owners.toFinset.image fun addr =>
        (⟨addr, ownersShare E gen⟩ : GenesisAccountBalance) := by
    ext a
    simp [generateFoundationMultisigOwnerAccounts, ownersShare]
  rw [himage, Finset.sum_image fun a _ b _ h => (GenesisAccountBalance.mk.inj h).1]
  simp

/-- The placeholders of the first `n` standalone accounts are distinct addresses. -/
def DistinctPlaceholders (E : Env) (n : Nat) : Prop :=
  ∀ i < n, ∀ j < n, (E.addressFromStr (toString i)).isSome →
    E.addressFromStr (toString i) = E.addressFromStr (toString j) → i = j

theorem standaloneMultisigAccount_ok {i : Nat} {a : FoundationOwnedMultisigAccount}
    {m : MultiSigAccountWithBalance} (h : gen.standaloneMultisigAccount E i a = .ok m) :
    E.addressFromStr (toString i) = some m.multisigAddress ∧ m.balance = a.balanceInQuants E := by
  unfold standaloneMultisigAccount at h
  dsimp only at h
  split at h
  · cases h
  · rename_i hplaceholder
    cases h
    exact ⟨hplaceholder, rfl⟩

theorem standalone_ok {n k : Nat} (hplaceholders : DistinctPlaceholders E n)
    {accounts : List FoundationOwnedMultisigAccount} (hn : k + accounts.length ≤ n)
    {ms : List MultiSigAccountWithBalance}
    (h : (accounts.zipIdx k).mapM (fun (a, i) => gen.standaloneMultisigAccount E i a) = .ok ms) :
    ms.map (·.balance) = accounts.map (·.balanceInQuants E) ∧ ms.Nodup ∧
      ∀ m ∈ ms, ∃ i, k ≤ i ∧ i < n ∧ E.addressFromStr (toString i) = some m.multisigAddress := by
  induction accounts generalizing k ms with
  | nil =>
    obtain rfl := pure_ok_iff.1 h
    simp
  | cons a accounts ih =>
    rw [List.zipIdx_cons, mapM_ok_iff, List.forall₂_cons_left_iff] at h
    obtain ⟨m, ms, hm, hms, rfl⟩ := h
    obtain ⟨haddress, hbalance⟩ := standaloneMultisigAccount_ok hm
    rw [List.length_cons] at hn
    obtain ⟨hbalances, hnodup, haddresses⟩ := ih (by omega) (mapM_ok_iff.2 hms)
    refine ⟨by rw [List.map_cons, List.map_cons, hbalance, hbalances],
      List.nodup_cons.2 ⟨fun hmem => ?_, hnodup⟩,
      List.forall_mem_cons.2 ⟨⟨k, Nat.le_refl k, by omega, haddress⟩, fun m' hm' => ?_⟩⟩
    · obtain ⟨i, hi, hin, haddress'⟩ := haddresses m hmem
      have := hplaceholders k (by omega) i hin (by rw [haddress]; rfl)
        (haddress.trans haddress'.symm)
      omega
    · obtain ⟨i, hi, hin, haddress'⟩ := haddresses m' hm'
      exact ⟨i, Nat.le_of_succ_le hi, hin, haddress'⟩

theorem standalone_minted [TransCmp E.multisigOrder] [LawfulEqCmp E.multisigOrder]
    (hplaceholders :
      DistinctPlaceholders E gen.foundationMultisigAccountsConfig.standaloneAccounts.length)
    {ms : TreeSet MultiSigAccountWithBalance E.multisigOrder}
    (h : gen.generateFoundationStandaloneMultisigAccounts E = .ok ms) :
    (ms.toList.map (·.balance)).sum =
      (gen.foundationMultisigAccountsConfig.standaloneAccounts.map (·.balanceInQuants E)).sum := by
  obtain ⟨accounts, haccounts, h⟩ := bind_ok_iff.1 h
  obtain rfl := pure_ok_iff.1 h
  obtain ⟨hbalances, hnodup, -⟩ := standalone_ok hplaceholders (Nat.le_of_eq (Nat.zero_add _)) haccounts
  rw [← TreeSet.ofList_eq_insertMany_empty, ← hbalances]
  refine ((KeySet.toList_ofList_perm ?_).map _).sum_eq
  exact TreeSet.size_ofList (hnodup.imp fun hne heq => hne (LawfulEqCmp.eq_of_compare heq))

/-! ## The cap -/

/-- What is allocated to owners that are listed again, and to validators beyond a `u32`. -/
def notMinted (E : Env) (gen : MainnetGenesisAccountsGenerator) : Nat :=
  (gen.foundationMultisigAccountsConfig.owners.length -
    gen.foundationMultisigAccountsConfig.owners.toFinset.card) * ownersShare E gen +
  (gen.smrCommitteeConfig.size - gen.smrCommitteeConfig.size % 2 ^ 32) *
    gen.smrCommitteeConfig.pboOwnerStake

/-- The fractions that the truncations cut off fit into what the whole amounts leave of the cap. -/
def FractionsFit (E : Env) (gen : MainnetGenesisAccountsGenerator) : Prop :=
  ((parts E gen).map (· % E.supraCoinsBaseWithDecimals)).sum ≤
    (supraMintedAtGenesis - ((parts E gen).map (· / E.supraCoinsBaseWithDecimals)).sum) *
      E.supraCoinsBaseWithDecimals + notMinted E gen

/-- All parts together are what is minted, what is not minted of them, and what the delegators do not
get of what is allocated to them. -/
theorem parts_sum [TransCmp E.multisigOrder] [LawfulEqCmp E.multisigOrder]
    (hplaceholders :
      DistinctPlaceholders E gen.foundationMultisigAccountsConfig.standaloneAccounts.length)
    {config : GenesisAccountsV1 E} (h : gen.generate E = .ok config) :
    minted config + notMinted E gen +
      (delegated E gen - ∑ d ∈ config.delegatorAccounts, d.balance) = (parts E gen).sum := by
  have hdelegated := (delegators_minted h).1
  obtain ⟨-, -, hmultisig, hvesting, howners, hschema⟩ := generate_ok h
  have hcard : gen.foundationMultisigAccountsConfig.owners.toFinset.card ≤
      gen.foundationMultisigAccountsConfig.owners.length := List.toFinset_card_le _
  have hsize : gen.smrCommitteeConfig.size % 2 ^ 32 ≤ gen.smrCommitteeConfig.size := Nat.mod_le _ _
  have hshare := Nat.add_mul gen.foundationMultisigAccountsConfig.owners.toFinset.card
    (gen.foundationMultisigAccountsConfig.owners.length -
      gen.foundationMultisigAccountsConfig.owners.toFinset.card) (ownersShare E gen)
  have hstake := Nat.add_mul (gen.smrCommitteeConfig.size % 2 ^ 32)
    (gen.smrCommitteeConfig.size - gen.smrCommitteeConfig.size % 2 ^ 32)
    gen.smrCommitteeConfig.pboOwnerStake
  rw [Nat.add_sub_cancel' hcard] at hshare
  rw [Nat.add_sub_cancel' hsize] at hstake
  have hminted : config.multisigAccountSchema.balance * config.multisigAccountSchema.numOfAccounts =
      gen.smrCommitteeConfig.size % 2 ^ 32 * gen.smrCommitteeConfig.pboOwnerStake := by
    rw [hschema]
    exact Nat.mul_comm _ _
  rw [minted, notMinted, hvesting, howners, owners_minted, standalone_minted hplaceholders hmultisig,
    hminted, parts]
  simp only [List.sum_append, List.sum_cons, List.sum_replicate_nat, List.map_const']
  omega

/-- **When the cap holds.** What is minted is at most the cap if the fractions fit, and if every
delegator is listed once only then. -/
theorem minted_le_cap_iff [TransCmp E.multisigOrder] [LawfulEqCmp E.multisigOrder]
    (hbase : 0 < E.supraCoinsBaseWithDecimals) (args : GenerateMainnetAccountsConfig)
    (gen : MainnetGenesisAccountsGenerator) (config : GenesisAccountsV1 E)
    (hgen : tryFrom E args = .ok gen) (hconfig : gen.generate E = .ok config)
    (hplaceholders :
      DistinctPlaceholders E gen.foundationMultisigAccountsConfig.standaloneAccounts.length) :
    (FractionsFit E gen → minted config ≤ supraMintedAtGenesis * E.supraCoinsBaseWithDecimals) ∧
    ((delegatorAddresses E gen).Nodup →
      minted config ≤ supraMintedAtGenesis * E.supraCoinsBaseWithDecimals → FractionsFit E gen) := by
  obtain ⟨-, hverify⟩ := tryFrom_ok hgen
  obtain ⟨⟨total, htotal, hcap⟩, -⟩ := verify_ok hverify
  have hsum := parts_sum hplaceholders hconfig
  rw [sum_div_mod E.supraCoinsBaseWithDecimals] at hsum
  have hwhole := allocatedSupra_eq hbase htotal
  rw [← hwhole] at hsum
  have hleft := Nat.sub_mul supraMintedAtGenesis total E.supraCoinsBaseWithDecimals
  have hle := Nat.mul_le_mul_right E.supraCoinsBaseWithDecimals hcap
  unfold FractionsFit
  rw [← hwhole, hleft]
  refine ⟨fun hfit => by omega, fun hnodup hminted => ?_⟩
  have hall := (delegators_minted hconfig).2 hnodup
  omega

instance : TransCmp multisigOwnerFirst := by
  unfold multisigOwnerFirst
  infer_instance

instance : LawfulEqCmp multisigOwnerFirst where
  compare_self := by simp [multisigOwnerFirst, compareLex, compareOn]
  eq_of_compare {a b} h := by
    simp only [multisigOwnerFirst, compareLex_eq_eq, compareOn,
      LawfulEqOrd.compare_eq_iff_eq] at h
    cases a
    cases b
    simp_all

instance (n : Nat) : Decidable (DistinctPlaceholders E n) :=
  inferInstanceAs (Decidable (∀ i < n, ∀ j < n, (E.addressFromStr (toString i)).isSome →
    E.addressFromStr (toString i) = E.addressFromStr (toString j) → i = j))

instance : Decidable (FractionsFit E gen) := inferInstanceAs (Decidable (_ ≤ _))

theorem minted_le_cap_iff_small :
    let E := small [0] [oneSchedule] [⟨1, 3⟩, ⟨2, 5⟩] [⟨3, 4⟩] [78999999988]
    ∃ gen config, tryFrom E paths = .ok gen ∧ gen.generate E = .ok config ∧
      minted config ≤ supraMintedAtGenesis * E.supraCoinsBaseWithDecimals := by
  intro E
  have hcheck : ∃ gen, tryFrom E paths = .ok gen ∧ ∃ config, gen.generate E = .ok config ∧
      FractionsFit E gen ∧
      DistinctPlaceholders E gen.foundationMultisigAccountsConfig.standaloneAccounts.length := by
    decide +kernel
  obtain ⟨gen, hgen, config, hconfig, hfit, hplaceholders⟩ := hcheck
  have : TransCmp E.multisigOrder := inferInstanceAs (TransCmp multisigOwnerFirst)
  have : LawfulEqCmp E.multisigOrder := inferInstanceAs (LawfulEqCmp multisigOwnerFirst)
  exact ⟨gen, config, hgen, hconfig,
    (minted_le_cap_iff (by decide) paths gen config hgen hconfig hplaceholders).1 hfit⟩

/-- Two standalone accounts with half a SUPRA each beyond the cap. -/
theorem minted_above_cap :
    let E := small [0] [oneSchedule] [] [] [39500000000.5, 39500000000.5]
    ∃ gen config, tryFrom E paths = .ok gen ∧ gen.generate E = .ok config ∧
      supraMintedAtGenesis * E.supraCoinsBaseWithDecimals < minted config := by
  intro E
  have hcheck : ∃ gen, tryFrom E paths = .ok gen ∧ ∃ config, gen.generate E = .ok config ∧
      supraMintedAtGenesis * E.supraCoinsBaseWithDecimals < minted config := by
    decide +kernel
  obtain ⟨gen, hgen, config, hconfig, hlt⟩ := hcheck
  exact ⟨gen, config, hgen, hconfig, hlt⟩

end Genesis.Proof
