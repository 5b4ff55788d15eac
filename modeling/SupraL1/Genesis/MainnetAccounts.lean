import Mathlib.Data.Finset.Dedup
import Mathlib.Data.Finset.Insert
import Mathlib.Data.List.Sort
import Mathlib.Data.NNRat.Floor
import SupraL1.Lib.Deal
import SupraL1.Lib.KeySet
import SupraL1.Genesis.Error

/-!
# The accounts of the mainnet genesis (`genesis/generate_mainnet_accounts_config.rs`)

The tool reads the foundation's multisig accounts, the committee, the keys of the validators that
the foundation operates, the unlock schedules of the delegation pools and the vesting schedules,
each schedule with a file of accounts. `try_from` checks them and `generate` writes the accounts and
pools of the genesis.

Amounts of SUPRA are `f64` in the source and exact non-negative numbers here. Amounts in Quants are
natural numbers: none of the sums overflows a `u64`. A `BTreeSet` whose order is read is a
`Std.TreeSet` with that order; one that is only passed on is a `Finset`. The accounts of a file are
ordered by their amounts and equal by their addresses, so `collect` may keep two of one amount, and
the set that it makes of them is the list `KeySet.collect`.
-/

namespace Genesis

open Consensus (Bytes)
open Move (AccountAddress)
open Std (TreeMap TreeSet)

/-! ## Constants -/

/-- `DELEGATION_POOL_SEED_PREFIX`. -/
def delegationPoolSeedPrefix : String := "Delegation Pool"

/-- `DELEGATION_POOLS_WITH_PBO_STAKE`. -/
def delegationPoolsWithPboStake : Nat := 10

/-- `PBO_OWNER_NAME_PREFIX`. -/
def pboOwnerNamePrefix : String := "Project Blast Off Owner "

/-- `ERROR_MARGIN`: how much SUPRA may be lost when floats are converted to integers. -/
def errorMargin : Nat := 10

/-- `SUPRA_MINTED_AT_GENESIS`. -/
def supraMintedAtGenesis : Nat := 79000000000

/-- `u64::MAX`. -/
def maxU64 : Nat := 2 ^ 64 - 1

/-! ## The contents of the files -/

structure AccountBalance where
  address : AccountAddress
  /-- The amount of SUPRA. -/
  amount : ℚ≥0

/-- Accounts are equal if their addresses are. -/
instance : BEq AccountBalance := ⟨fun a b => a.address == b.address⟩

/-- Accounts are ordered by their amounts. -/
abbrev AccountBalance.le (a b : AccountBalance) : Prop := a.amount ≤ b.amount

structure FoundationOwnedMultisigAccount where
  /-- The amount of SUPRA. -/
  balance : ℚ≥0
  metadataKeys : List String
  metadataValues : List String

/-- The JSON of a `FoundationMultiSigAccountsConfig`. -/
structure FoundationMultiSigAccountsJson where
  owners : List AccountAddress
  numSignaturesRequired : Nat
  ownerBalancesInSupra : Nat
  timeoutDuration : Nat
  standaloneAccounts : List FoundationOwnedMultisigAccount

structure DelegationPoolUnlockSchedule where
  accountsFilePath : Option String
  id : String
  /-- The number of delegation pools that should be assigned this schedule. -/
  poolsWithDelegators : Nat
  unlockScheduleNumerators : List Nat
  unlockScheduleDenominator : Nat
  unlockStartupTimeFromNow : Nat
  unlockPeriodDuration : Nat
  deriving DecidableEq, Repr

structure VestingPoolUnlockSchedule where
  accountsFilePath : String
  vestingPoolId : String
  vpoolLockingPercentage : Nat
  vestingNumerators : List Nat
  vestingDenominators : Nat
  cliffPeriodInSeconds : Nat
  periodDurationInSeconds : Nat
  deriving DecidableEq, Repr

/-- What the tool reads of `CommitteeConfigV1`. -/
structure CommitteeConfigV1 where
  /-- The consensus keys of the members, in the order of the members. -/
  members : List PublicKey
  /-- `pbo_owner_stake` of the genesis parameters, in Quants. -/
  pboOwnerStake : Nat
  deriving DecidableEq, Repr

/-- `CommitteeConfigV1::size`. -/
def CommitteeConfigV1.size (c : CommitteeConfigV1) : Nat := c.members.length

/-- What each file holds, or why it cannot be read. -/
structure Files where
  foundationMultisigAccountsConfig : String → Outcome FoundationMultiSigAccountsJson
  foundationValidatorsConsensusPublicKeys : String → Outcome (List PublicKey)
  /-- The id of the default schedule, and the schedules. -/
  delegationPoolSchedules : String → Outcome (String × List DelegationPoolUnlockSchedule)
  /-- `SupraCommitteesConfigV1::read_from_file`, with its `get_smr_committee_config`. -/
  supraCommittees : String → Outcome (Option CommitteeConfigV1)
  vestingPoolSchedules : String → Outcome (List VestingPoolUnlockSchedule)
  accountBalances : String → Outcome (List AccountBalance)

/-! ## The generated accounts and pools -/

structure DelegationPoolConfigV1 where
  ownerAddress : AccountAddress
  delegationPoolCreationSeed : String
  validatorConsensusPublicKey : PublicKey
  adminAddress : AccountAddress
  unlockScheduleNumerators : List Nat
  unlockScheduleDenominator : Nat
  unlockStartupTimeFromNow : Nat
  unlockPeriodDuration : Nat
  deriving DecidableEq, Repr

structure DelegatorAccountV1 where
  address : AccountAddress
  balance : Nat
  /-- The owner of the pool the account delegates to. -/
  poolOwnerAddress : AccountAddress
  deriving DecidableEq, Repr

structure VestingAccount where
  address : AccountAddress
  amount : Nat
  vestingPoolId : String
  deriving DecidableEq, Repr

/-- Vesting accounts are compared by their addresses. -/
abbrev VestingAccount.cmp : VestingAccount → VestingAccount → Ordering :=
  compareOn VestingAccount.address

structure VestingPoolConfig where
  vestingPoolId : String
  adminAddress : AccountAddress
  vpoolLockingPercentage : Nat
  vestingNumerators : List Nat
  vestingDenominators : Nat
  withdrawalAddress : AccountAddress
  cliffPeriodInSeconds : Nat
  periodDurationInSeconds : Nat
  deriving DecidableEq, Repr

/-- `aptos_vm_genesis::AccountBalance`. -/
structure GenesisAccountBalance where
  accountAddress : AccountAddress
  balance : Nat
  deriving DecidableEq, Repr

/-- `aptos_vm_genesis::MultiSigAccountSchema`. -/
structure MultiSigAccountSchema where
  owner : AccountAddress
  additionalOwners : List AccountAddress
  numSignaturesRequired : Nat
  metadataKeys : List String
  metadataValues : List Bytes
  timeoutDuration : Nat
  balance : Nat
  numOfAccounts : Nat
  deriving DecidableEq, Repr

/-- `aptos_vm_genesis::MultiSigAccountWithBalance`. -/
structure MultiSigAccountWithBalance where
  owner : AccountAddress
  additionalOwners : List AccountAddress
  multisigAddress : AccountAddress
  numSignaturesRequired : Nat
  metadataKeys : List String
  metadataValues : List Bytes
  timeoutDuration : Nat
  balance : Nat
  deriving DecidableEq, Repr

/-! ## What the tool uses of the crates below -/

structure Env where
  files : Files
  supraCoinsBaseWithDecimals : Nat
  maximumShareholdersPerVestingPool : Nat
  maximumDelegatorsPerDelegationPool : Nat
  createMultisigAccountAddress : AccountAddress → Nat → AccountAddress
  /-- `AccountAddress::from_str`. -/
  addressFromStr : String → Option AccountAddress
  /-- `SmrSerialize::to_bytes` of a string. -/
  toBytes : String → Bytes
  /-- The order of the pool configurations. -/
  poolOrder : DelegationPoolConfigV1 → DelegationPoolConfigV1 → Ordering
  /-- The order of the multisig accounts. -/
  multisigOrder : MultiSigAccountWithBalance → MultiSigAccountWithBalance → Ordering
  /-- The text of an address in an error. -/
  display : AccountAddress → String
  /-- The text of a multisig account in an error. -/
  debug : FoundationOwnedMultisigAccount → String
  /-- How the write of the configuration ends. -/
  writeAsGenesisConfig : Outcome Unit
  /-- How the write of the foundation's multisig accounts ends. -/
  writeToFile : Outcome Unit

namespace Env

/-- `to_quants`: decimals that are left are cut off. -/
def toQuants (E : Env) (amountInSupra : ℚ≥0) : Nat :=
  ⌊amountInSupra * (E.supraCoinsBaseWithDecimals : ℚ≥0)⌋₊

/-- `AccountBalance::balance`. -/
def balance (E : Env) (a : AccountBalance) : Nat := E.toQuants a.amount

end Env

variable (E : Env)

/-! ## Multisig accounts of the foundation -/

inductive FoundationMultisigAccountType where
  | delegationPoolOwner
  | standaloneAccount
  deriving DecidableEq, Repr

structure FoundationMultisigAccount where
  address : AccountAddress
  kind : FoundationMultisigAccountType
  name : String
  seedOwnerAddress : AccountAddress
  seedSequenceNumber : Nat
  deriving DecidableEq, Repr

namespace FoundationOwnedMultisigAccount

/-- `balance`: in Quants. -/
def balanceInQuants (a : FoundationOwnedMultisigAccount) : Nat := E.toQuants a.balance

/-- `balance_in_supra`. -/
def balanceInSupra (a : FoundationOwnedMultisigAccount) : Nat := ⌊a.balance⌋₊

/-- `metadata_values_serialized`. -/
def metadataValuesSerialized (a : FoundationOwnedMultisigAccount) : List Bytes :=
  a.metadataValues.map E.toBytes

/-- `name`: the value of the first metadata key `name`. -/
def name (a : FoundationOwnedMultisigAccount) : Outcome String :=
  match a.metadataKeys.findIdx? (· == "name") with
  | some i => match a.metadataValues[i]? with
    | some name => .ok name
    | none => generalError ("FoundationOwnedMultisigAccount is missing a name: " ++ E.debug a)
  | none => generalError ("FoundationOwnedMultisigAccount is missing a name: " ++ E.debug a)

end FoundationOwnedMultisigAccount

/-- A configuration has enough owners: it is only made by `fromFile`. -/
structure FoundationMultiSigAccountsConfig extends FoundationMultiSigAccountsJson where
  minParticipants : 9 ≤ owners.length

namespace FoundationMultiSigAccountsConfig

/-- `from_file`. -/
def fromFile (path : String) : Outcome FoundationMultiSigAccountsConfig := do
  let config ← E.files.foundationMultisigAccountsConfig path
  if h : config.owners.length < 9 then toolError .notEnoughFoundationMultisigMembers
  else return ⟨config, Nat.le_of_not_lt h⟩

/-- `first_owner`. -/
def firstOwner (c : FoundationMultiSigAccountsConfig) : AccountAddress :=
  c.owners.head (List.ne_nil_of_length_pos (Nat.lt_of_lt_of_le (by decide) c.minParticipants))

/-- `additional_owners`. -/
def additionalOwners (c : FoundationMultiSigAccountsConfig) : List AccountAddress := c.owners.drop 1

/-- `allocated_supra`: what the standalone accounts and the owners get. -/
def allocatedSupra (c : FoundationMultiSigAccountsConfig) : Nat :=
  (c.standaloneAccounts.map (·.balanceInSupra)).sum + c.ownerBalancesInSupra * c.owners.length

end FoundationMultiSigAccountsConfig

structure FoundationMultisigAccounts where
  delegationPoolOwners : List FoundationMultisigAccount
  standalone : List FoundationMultisigAccount

namespace FoundationMultisigAccounts

/-- The multisig account for a sequence number of the first owner. -/
def account (config : FoundationMultiSigAccountsConfig) (kind : FoundationMultisigAccountType)
    (name : String) (i : Nat) : FoundationMultisigAccount where
  address := E.createMultisigAccountAddress config.firstOwner i
  kind := kind
  name := name
  seedOwnerAddress := config.firstOwner
  seedSequenceNumber := i

/-- `FoundationMultisigAccounts::new`: one account for each validator, and then the standalone
ones. -/
def new (config : FoundationMultiSigAccountsConfig) (genesisCommitteeSize : Nat) :
    Outcome FoundationMultisigAccounts := do
  let delegationPoolOwners := (List.range genesisCommitteeSize).map fun i =>
    account E config .delegationPoolOwner (pboOwnerNamePrefix ++ " " ++ toString i) i
  let standalone ← config.standaloneAccounts.zipIdx.mapM fun (a, i) => do
    return account E config .standaloneAccount (← a.name E) (genesisCommitteeSize + i)
  return { delegationPoolOwners, standalone }

/-- `with_name_prefix`. -/
def withNamePrefix (accounts : FoundationMultisigAccounts) (start : String) :
    Outcome FoundationMultisigAccount :=
  match (accounts.standalone.find? (·.name.startsWith start)).or
      (accounts.delegationPoolOwners.find? (·.name.startsWith start)) with
  | some account => .ok account
  | none => generalError ("Missing account for name prefix: " ++ start)

end FoundationMultisigAccounts

/-- `FoundationValidatorsConsensusKeys::from_file`. -/
def foundationValidatorsConsensusKeys (path : String) : Outcome (List PublicKey) := do
  let keys ← E.files.foundationValidatorsConsensusPublicKeys path
  if keys.length < delegationPoolsWithPboStake then
    generalError ("Expected at least " ++ toString delegationPoolsWithPboStake ++
      " foundation-operated validator consensus keys but found " ++ toString keys.length ++ ".")
  else return keys

/-! ## Accounts -/

/-- `find_duplicates`: the second occurrence of each item that occurs more than once. -/
def findDuplicates {α : Type} [BEq α] : (seen duplicates vec : List α) → List α
  | _, _, [] => []
  | seen, duplicates, item :: vec =>
    if seen.contains item then
      if duplicates.contains item then findDuplicates seen duplicates vec
      else item :: findDuplicates seen (item :: duplicates) vec
    else findDuplicates (item :: seen) duplicates vec

structure AccountBalances where
  balances : List AccountBalance

namespace AccountBalances

/-- `from_file`. `collect` orders the accounts by their amounts and drops one only if the next one in
this order has its address. -/
def fromFile (path : String) : Outcome AccountBalances := do
  let balances ← E.files.accountBalances path
  let uniqueBalances := KeySet.collect AccountBalance.le balances
  if uniqueBalances.length = balances.length then return ⟨uniqueBalances⟩
  else toolError (.accountsNotUnique ((findDuplicates [] [] balances).map (·.address)))

/-- `allocated_supra`. -/
def allocatedSupra (a : AccountBalances) : Nat :=
  (a.balances.map E.balance).sum / E.supraCoinsBaseWithDecimals

end AccountBalances

/-! ## Schedules of the delegation pools -/

/-- `DelegationPoolUnlockSchedule::accounts`. -/
def DelegationPoolUnlockSchedule.accounts (s : DelegationPoolUnlockSchedule) :
    Outcome (Option AccountBalances) :=
  match s.accountsFilePath with
  | some path => some <$> AccountBalances.fromFile E path
  | none => .ok none

/-- The schedules, with the derived fields. -/
structure DelegationPoolUnlockSchedules where
  default : String
  schedules : List DelegationPoolUnlockSchedule
  defaultPool : DelegationPoolUnlockSchedule
  defaultPool_eq : schedules.find? (·.id == default) = some defaultPool

namespace DelegationPoolUnlockSchedules

/-- `schedules_expanded`. -/
def schedulesExpanded (s : DelegationPoolUnlockSchedules) : List DelegationPoolUnlockSchedule :=
  s.schedules.flatMap fun s => List.replicate s.poolsWithDelegators s

/-- `from_file`. -/
def fromFile (path : String) : Outcome DelegationPoolUnlockSchedules := do
  let (default, schedules) ← E.files.delegationPoolSchedules path
  match h : schedules.find? (·.id == default) with
  | some defaultPool => return ⟨default, schedules, defaultPool, h⟩
  | none => toolError .missingDefaultDelegationPoolSchedule

/-- `accounts`: those of all schedules. -/
def accounts (s : DelegationPoolUnlockSchedules) : Outcome AccountBalances := do
  let balances ← s.schedules.mapM fun s => do
    return match ← s.accounts E with
    | some a => a.balances
    | none => []
  return ⟨balances.flatten⟩

/-- `allocated_supra`. -/
def allocatedSupra (s : DelegationPoolUnlockSchedules) : Outcome Nat := do
  return (← s.accounts E).allocatedSupra E

/-- `ith_pool_schedule`. -/
def ithPoolSchedule (s : DelegationPoolUnlockSchedules) (i : Nat) : DelegationPoolUnlockSchedule :=
  s.schedulesExpanded[i]?.getD s.defaultPool

end DelegationPoolUnlockSchedules

/-! ## Vesting schedules -/

abbrev VestingBalances := TreeSet VestingAccount VestingAccount.cmp

/-- `VestingBalances::allocated_supra`. -/
def VestingBalances.allocatedSupra (b : VestingBalances) : Nat :=
  (b.toList.map (·.amount)).sum / E.supraCoinsBaseWithDecimals

/-- `[T]::chunks`, for a positive size. -/
def chunks {α : Type} (size : Nat) (l : List α) : List (List α) := (l.toChunksAux (size - 1) 0).2

namespace VestingPoolUnlockSchedule

/-- The accounts of a chunk. `collect` keeps the last of equal accounts. -/
def chunkAccounts (s : VestingPoolUnlockSchedule) (chunk : List AccountBalance) (i : Nat) :
    VestingBalances :=
  let contractId := s.vestingPoolId ++ " " ++ toString i
  TreeSet.ofList (chunk.map fun acc => ⟨acc.address, E.balance acc, contractId⟩).reverse _

/-- `accounts`. -/
def accounts (s : VestingPoolUnlockSchedule) : Outcome VestingBalances := do
  let accounts ← AccountBalances.fromFile E s.accountsFilePath
  return (chunks E.maximumShareholdersPerVestingPool accounts.balances).zipIdx.foldl
    (fun accountsMapped (chunk, i) => accountsMapped.insertMany (s.chunkAccounts E chunk i).toList) ∅

/-- `pool_ids`. -/
def poolIds (s : VestingPoolUnlockSchedule) : Outcome (TreeSet String) := do
  return TreeSet.ofList ((← s.accounts E).toList.map (·.vestingPoolId))

end VestingPoolUnlockSchedule

/-- The loop of `VestingPoolUnlockSchedules::account_balances`. -/
def accountBalancesFrom : VestingBalances → List VestingPoolUnlockSchedule → Outcome VestingBalances
  | balances, [] => .ok balances
  | balances, schedule :: schedules => do
    let scheduleAccounts ← schedule.accounts E
    let duplicates := scheduleAccounts ∩ balances
    if duplicates.isEmpty then
      accountBalancesFrom (balances.insertMany scheduleAccounts.toList) schedules
    else toolError (.accountsNotUnique (duplicates.toList.map (·.address)))

/-- `VestingPoolUnlockSchedules::account_balances`. -/
def accountBalances (schedules : List VestingPoolUnlockSchedule) : Outcome VestingBalances :=
  accountBalancesFrom E ∅ schedules

/-! ## The generator -/

structure MainnetGenesisAccountsGenerator where
  delegationPoolSchedules : DelegationPoolUnlockSchedules
  foundationMultisigAccounts : FoundationMultisigAccounts
  foundationMultisigAccountsConfig : FoundationMultiSigAccountsConfig
  foundationValidatorsConsensusPublicKeys : List PublicKey
  smrCommitteeConfig : CommitteeConfigV1
  vestingAccounts : VestingBalances
  vestingPoolSchedules : List VestingPoolUnlockSchedule

/-- `GenesisAccountsV1`: what the tool writes. -/
structure GenesisAccountsV1 where
  delegationPools : TreeSet DelegationPoolConfigV1 E.poolOrder
  delegatorAccounts : Finset DelegatorAccountV1
  vestingPools : Finset VestingPoolConfig
  vestingAccounts : VestingBalances
  accounts : Finset GenesisAccountBalance
  multisigAccounts : TreeSet MultiSigAccountWithBalance E.multisigOrder
  multisigAccountSchema : MultiSigAccountSchema

/-- What the assignment of the delegators keeps. -/
structure Assignment where
  assigned : Finset DelegatorAccountV1
  assignmentCounts : TreeMap AccountAddress Nat
  poolBalances : List Nat

namespace MainnetGenesisAccountsGenerator

variable (gen : MainnetGenesisAccountsGenerator)

/-- `foundation_delegated_supra`. -/
def foundationDelegatedSupra : Nat :=
  gen.smrCommitteeConfig.pboOwnerStake / E.supraCoinsBaseWithDecimals * gen.smrCommitteeConfig.size

/-- `allocated_supra`. -/
def allocatedSupra : Outcome Nat := do
  let total := gen.foundationDelegatedSupra E
  let total := total + (← gen.delegationPoolSchedules.allocatedSupra E)
  let total := total + gen.foundationMultisigAccountsConfig.allocatedSupra
  return total + VestingBalances.allocatedSupra E gen.vestingAccounts

/-- The addresses that are in both. -/
def commonAccounts (delegators : AccountBalances) : List AccountAddress :=
  ((delegators.balances.map (·.address)).dedup).filter
    (· ∈ gen.vestingAccounts.toList.map (·.address))

/-- `verify`. -/
def verify : Outcome Unit := do
  let total ← gen.allocatedSupra E
  if supraMintedAtGenesis < total then toolError (.mintableSupplyExceeded total supraMintedAtGenesis)
  else if total < supraMintedAtGenesis - errorMargin then
    toolError (.insufficientAllocation total supraMintedAtGenesis)
  else
    let delegators ← gen.delegationPoolSchedules.accounts E
    let common := gen.commonAccounts delegators
    if common.isEmpty then return ()
    else toolError (.accountsNotUnique common)

/-- `generate_delegation_pool_configs`: the pool of the validator at `i`. -/
def delegationPoolConfig (i : Nat) (operator : PublicKey) : Outcome DelegationPoolConfigV1 :=
  match gen.foundationMultisigAccounts.delegationPoolOwners[i]? with
  | none => panics "index out of bounds"
  | some owner =>
    let unlockSchedule := gen.delegationPoolSchedules.ithPoolSchedule i
    .ok {
      ownerAddress := owner.address
      delegationPoolCreationSeed :=
        unlockSchedule.id ++ " " ++ delegationPoolSeedPrefix ++ " " ++ toString i
      validatorConsensusPublicKey := operator
      adminAddress := owner.address
      unlockScheduleNumerators := unlockSchedule.unlockScheduleNumerators
      unlockScheduleDenominator := unlockSchedule.unlockScheduleDenominator
      unlockStartupTimeFromNow := unlockSchedule.unlockStartupTimeFromNow
      unlockPeriodDuration := unlockSchedule.unlockPeriodDuration }

/-- `generate_delegation_pool_configs`. -/
def generateDelegationPoolConfigs : Outcome (TreeSet DelegationPoolConfigV1 E.poolOrder) := do
  let pools ← gen.smrCommitteeConfig.members.zipIdx.mapM fun (operator, i) =>
    gen.delegationPoolConfig i operator
  return (∅ : TreeSet DelegationPoolConfigV1 E.poolOrder).insertMany pools

/-- `foundation_operated_delegation_pools`. -/
def foundationOperatedDelegationPools (pools : TreeSet DelegationPoolConfigV1 E.poolOrder) :
    TreeSet DelegationPoolConfigV1 E.poolOrder :=
  pools.filter fun p => gen.foundationValidatorsConsensusPublicKeys.contains p.validatorConsensusPublicKey

/-- `*count += 1` on a count that is there; a new one is the default, which is zero. -/
def countDelegator : Option Nat → Option Nat
  | some count => some (count + 1)
  | none => some 0

/-- A delegator goes to the pool with the lowest balance. The index is one into the balances of all
pools. -/
def assignDelegator (assignedPools : List DelegationPoolConfigV1) (s : Assignment)
    (accountBalance : AccountBalance) : Outcome Assignment :=
  let poolIndex := Deal.pick maxU64 s.poolBalances
  match assignedPools[poolIndex]? with
  | none => panics "index out of bounds"
  | some assignedPool =>
    let poolOwnerAddress := assignedPool.ownerAddress
    .ok {
      assigned := insert ⟨accountBalance.address, E.balance accountBalance, poolOwnerAddress⟩ s.assigned
      assignmentCounts := s.assignmentCounts.alter poolOwnerAddress countDelegator
      poolBalances := s.poolBalances.modify poolIndex (· + E.balance accountBalance) }

/-- The delegators of a schedule go to the next pools. -/
def assignSchedule (pools : List DelegationPoolConfigV1) (s : Assignment)
    (schedule : DelegationPoolUnlockSchedule) : Outcome Assignment := do
  let assignedPools := (pools.drop s.poolBalances.length).take schedule.poolsWithDelegators
  if assignedPools.length ≠ schedule.poolsWithDelegators then
    toolError .notEnoughFoundationDelegationPools
  else
    match ← schedule.accounts E with
    | none => return s
    | some delegatorsToAssign =>
      let poolBalances := s.poolBalances ++ List.replicate assignedPools.length 0
      let balances := delegatorsToAssign.balances.insertionSort AccountBalance.le
      balances.foldlM (assignDelegator E assignedPools) { s with poolBalances }

/-- `assign_delegators_to_delegation_pools`. -/
def assignDelegatorsToDelegationPools (allPools : TreeSet DelegationPoolConfigV1 E.poolOrder) :
    Outcome (Finset DelegatorAccountV1) := do
  let foundationOperatedPools := gen.foundationOperatedDelegationPools E allPools
  let s ← gen.delegationPoolSchedules.schedules.foldlM
    (assignSchedule E foundationOperatedPools.toList) ⟨∅, ∅, []⟩
  match s.assignmentCounts.toList.find? fun (_, count) =>
      E.maximumDelegatorsPerDelegationPool < count with
  | some (owner, count) =>
    generalError ("Too many delegators assigned to the delegation pool owned by " ++ E.display owner ++
      ". Count was: " ++ toString count ++ ".")
  | none => return s.assigned

/-- `generate_vesting_pools_config`: the pools of a schedule. -/
def vestingPools (s : VestingPoolUnlockSchedule) : Outcome (List VestingPoolConfig) := do
  let foundationAdmin := (← gen.foundationMultisigAccounts.withNamePrefix s.vestingPoolId).address
  let schedulePoolsIds ← s.poolIds E
  return schedulePoolsIds.toList.map fun id => {
    vestingPoolId := id
    adminAddress := foundationAdmin
    vpoolLockingPercentage := s.vpoolLockingPercentage
    vestingNumerators := s.vestingNumerators
    vestingDenominators := s.vestingDenominators
    withdrawalAddress := foundationAdmin
    cliffPeriodInSeconds := s.cliffPeriodInSeconds
    periodDurationInSeconds := s.periodDurationInSeconds }

/-- `generate_vesting_pools_config`. -/
def generateVestingPoolsConfig : Outcome (Finset VestingPoolConfig) := do
  return (← gen.vestingPoolSchedules.mapM (gen.vestingPools E)).flatten.toFinset

/-- `generate_foundation_multisig_accounts_schema`. -/
def generateFoundationMultisigAccountsSchema : MultiSigAccountSchema :=
  let config := gen.foundationMultisigAccountsConfig
  { owner := config.firstOwner
    additionalOwners := config.additionalOwners
    numSignaturesRequired := config.numSignaturesRequired
    metadataKeys := ["name"]
    metadataValues := [E.toBytes "Supra Foundation Validator Owner"]
    timeoutDuration := config.timeoutDuration
    balance := gen.smrCommitteeConfig.pboOwnerStake
    numOfAccounts := gen.smrCommitteeConfig.size % 2 ^ 32 }

/-- `generate_foundation_multisig_owner_accounts`. -/
def generateFoundationMultisigOwnerAccounts : Finset GenesisAccountBalance :=
  let config := gen.foundationMultisigAccountsConfig
  (config.owners.map fun addr =>
    ⟨addr, config.ownerBalancesInSupra * E.supraCoinsBaseWithDecimals⟩).toFinset

/-- The multisig account for the standalone account at `i`, with `i` in place of its address. -/
def standaloneMultisigAccount (i : Nat) (account : FoundationOwnedMultisigAccount) :
    Outcome MultiSigAccountWithBalance :=
  let config := gen.foundationMultisigAccountsConfig
  match E.addressFromStr (toString i) with
  | none => panics "Must be able to convert usize to AccountAddress"
  | some placeholderId => .ok {
      owner := config.firstOwner
      additionalOwners := config.additionalOwners
      multisigAddress := placeholderId
      numSignaturesRequired := config.numSignaturesRequired
      metadataKeys := account.metadataKeys
      metadataValues := account.metadataValuesSerialized E
      timeoutDuration := config.timeoutDuration
      balance := account.balanceInQuants E }

/-- `generate_foundation_standalone_multisig_accounts`. -/
def generateFoundationStandaloneMultisigAccounts :
    Outcome (TreeSet MultiSigAccountWithBalance E.multisigOrder) := do
  let accounts ← gen.foundationMultisigAccountsConfig.standaloneAccounts.zipIdx.mapM fun (account, i) =>
    gen.standaloneMultisigAccount E i account
  return (∅ : TreeSet MultiSigAccountWithBalance E.multisigOrder).insertMany accounts

/-- `generate`, with the configuration that it writes. -/
def generate : Outcome (GenesisAccountsV1 E) := do
  let delegationPools ← gen.generateDelegationPoolConfigs E
  let delegatorAccounts ← gen.assignDelegatorsToDelegationPools E delegationPools
  let vestingPools ← gen.generateVestingPoolsConfig E
  let schema := gen.generateFoundationMultisigAccountsSchema E
  if schema.balance < gen.smrCommitteeConfig.pboOwnerStake then
    toolError (.invalidPBOOwnerStake (gen.smrCommitteeConfig.pboOwnerStake - schema.balance)
      schema.balance)
  else
    let accounts := gen.generateFoundationMultisigOwnerAccounts E
    let multisigAccounts ← gen.generateFoundationStandaloneMultisigAccounts E
    E.writeAsGenesisConfig
    E.writeToFile
    return {
      delegationPools
      delegatorAccounts
      vestingPools
      vestingAccounts := gen.vestingAccounts
      accounts
      multisigAccounts
      multisigAccountSchema := schema }

end MainnetGenesisAccountsGenerator

/-- The arguments of the tool: the paths of its files. -/
structure GenerateMainnetAccountsConfig where
  foundationMultisigAccountsConfigPath : String
  foundationValidatorsConsensusPublicKeysPath : String
  delegationPoolSchedulesPath : String
  supraCommitteesPath : String
  vestingPoolSchedulesPath : String
  deriving DecidableEq, Repr

/-- `MainnetGenesisAccountsGenerator::try_from`. -/
def MainnetGenesisAccountsGenerator.tryFrom (args : GenerateMainnetAccountsConfig) :
    Outcome MainnetGenesisAccountsGenerator := do
  let foundationMultisigAccountsConfig ←
    FoundationMultiSigAccountsConfig.fromFile E args.foundationMultisigAccountsConfigPath
  let some smrCommitteeConfig ← E.files.supraCommittees args.supraCommitteesPath
    | panics "Must contain an SMR Committee Config."
  let foundationMultisigAccounts ←
    FoundationMultisigAccounts.new E foundationMultisigAccountsConfig smrCommitteeConfig.size
  let foundationValidatorsConsensusPublicKeys ←
    foundationValidatorsConsensusKeys E args.foundationValidatorsConsensusPublicKeysPath
  let delegationPoolSchedules ←
    DelegationPoolUnlockSchedules.fromFile E args.delegationPoolSchedulesPath
  let vestingPoolSchedules ← E.files.vestingPoolSchedules args.vestingPoolSchedulesPath
  let vestingAccounts ← accountBalances E vestingPoolSchedules
  let generator : MainnetGenesisAccountsGenerator := {
    delegationPoolSchedules
    foundationMultisigAccounts
    foundationMultisigAccountsConfig
    foundationValidatorsConsensusPublicKeys
    smrCommitteeConfig
    vestingAccounts
    vestingPoolSchedules }
  generator.verify E
  return generator

end Genesis
