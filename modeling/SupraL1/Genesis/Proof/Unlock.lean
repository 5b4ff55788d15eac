import SupraL1.Genesis.Proof.Assign

/-!
# The unlock schedules of the delegators

A pool gets its unlock schedule by the index of its validator in the committee, and its delegators by
its rank among the pools that the foundation operates. A delegator gets the schedule of its file
when the two agree on every pool that is dealt to.
-/

namespace Genesis.Proof

open Std Fallible
open Move (AccountAddress)
open MainnetGenesisAccountsGenerator

variable {E : Env} {gen : MainnetGenesisAccountsGenerator}

/-- When the stake of a schedule unlocks: numerators, denominator, startup time and period. -/
def scheduleUnlock (s : DelegationPoolUnlockSchedule) : List Nat × Nat × Nat × Nat :=
  (s.unlockScheduleNumerators, s.unlockScheduleDenominator, s.unlockStartupTimeFromNow,
    s.unlockPeriodDuration)

def poolUnlock (p : DelegationPoolConfigV1) : List Nat × Nat × Nat × Nat :=
  (p.unlockScheduleNumerators, p.unlockScheduleDenominator, p.unlockStartupTimeFromNow,
    p.unlockPeriodDuration)

/-! ## The pools of the committee -/

/-- The validator at `i` has this pool. -/
def HasPool (gen : MainnetGenesisAccountsGenerator) (i : Nat) (pool : DelegationPoolConfigV1) : Prop :=
  ∃ operator, gen.smrCommitteeConfig.members[i]? = some operator ∧
    gen.delegationPoolConfig i operator = .ok pool

theorem delegationPoolConfig_ok {i : Nat} {operator : PublicKey} {pool : DelegationPoolConfigV1}
    (h : gen.delegationPoolConfig i operator = .ok pool) :
    ∃ owner, gen.foundationMultisigAccounts.delegationPoolOwners[i]? = some owner ∧
      pool.ownerAddress = owner.address ∧
      poolUnlock pool = scheduleUnlock (gen.delegationPoolSchedules.ithPoolSchedule i) := by
  unfold delegationPoolConfig at h
  split at h
  · cases h
  · rename_i owner howner
    cases h
    exact ⟨owner, howner, rfl, rfl⟩

theorem HasPool.unlock {i : Nat} {pool : DelegationPoolConfigV1} (h : HasPool gen i pool) :
    poolUnlock pool = scheduleUnlock (gen.delegationPoolSchedules.ithPoolSchedule i) := by
  obtain ⟨operator, -, hconfig⟩ := h
  obtain ⟨owner, -, -, hunlock⟩ := delegationPoolConfig_ok hconfig
  exact hunlock

theorem hasPool_unique (howners :
      (gen.foundationMultisigAccounts.delegationPoolOwners.map (·.address)).Nodup)
    {i j : Nat} {pool pool' : DelegationPoolConfigV1} (h : HasPool gen i pool)
    (h' : HasPool gen j pool') (hsame : pool.ownerAddress = pool'.ownerAddress) : pool = pool' := by
  obtain ⟨operator, hop, hpool⟩ := h
  obtain ⟨operator', hop', hpool'⟩ := h'
  obtain ⟨owner, howner, haddr, -⟩ := delegationPoolConfig_ok hpool
  obtain ⟨owner', howner', haddr', -⟩ := delegationPoolConfig_ok hpool'
  have hget : (gen.foundationMultisigAccounts.delegationPoolOwners.map (·.address))[i]? =
      (gen.foundationMultisigAccounts.delegationPoolOwners.map (·.address))[j]? := by
    rw [List.getElem?_map, List.getElem?_map, howner, howner', Option.map_some, Option.map_some,
      ← haddr, ← haddr', hsame]
  have hlt : i < (gen.foundationMultisigAccounts.delegationPoolOwners.map (·.address)).length := by
    rw [List.length_map]
    exact (List.getElem?_eq_some_iff.1 howner).1
  obtain rfl := (List.getElem?_inj hlt howners).1 hget
  rw [hop] at hop'
  cases hop'
  rw [hpool] at hpool'
  cases hpool'
  rfl

/-- Every pool that is generated belongs to a validator. -/
theorem exists_hasPool [TransCmp E.poolOrder] {pools : TreeSet DelegationPoolConfigV1 E.poolOrder}
    (h : gen.generateDelegationPoolConfigs E = .ok pools) {pool : DelegationPoolConfigV1}
    (hpool : pool ∈ pools.toList) : ∃ i, HasPool gen i pool := by
  obtain ⟨configs, hconfigs, h⟩ := bind_ok_iff.1 h
  obtain rfl := pure_ok_iff.1 h
  obtain ⟨added, hsub, hperm⟩ := KeySet.toList_insertMany (∅ : TreeSet _ E.poolOrder) configs
  have hmem : pool ∈ configs := by
    have := hperm.mem_iff.1 hpool
    rw [KeySet.toList_empty, List.append_nil] at this
    exact hsub.mem this
  obtain ⟨⟨operator, i⟩, hi, hconfig⟩ := exists_of_mapM_ok hconfigs hmem
  exact ⟨i, operator, List.mem_zipIdx_iff_getElem?.1 hi, hconfig⟩

/-! ## The two indexings -/

/-- The pools that the foundation operates, in their order. -/
def foundationPools (E : Env) (gen : MainnetGenesisAccountsGenerator) : List DelegationPoolConfigV1 :=
  match gen.generateDelegationPoolConfigs E with
  | .ok pools => (gen.foundationOperatedDelegationPools E pools).toList
  | .error _ => []

/-- The committee and the foundation's pools agree: where the delegators of a schedule are dealt to
the pool of some rank, the validator with this pool has the unlock schedule. -/
def Aligned (E : Env) (gen : MainnetGenesisAccountsGenerator) : Prop :=
  ∀ s r, (s, r) ∈ dealtPools E 0 0 gen.delegationPoolSchedules.schedules →
    ∀ i pool, HasPool gen i pool → (foundationPools E gen)[r]? = some pool →
      scheduleUnlock (gen.delegationPoolSchedules.ithPoolSchedule i) = scheduleUnlock s

/-- Every account that the file of a schedule lists is assigned to a pool with this schedule. -/
def Promised (E : Env) (gen : MainnetGenesisAccountsGenerator) (config : GenesisAccountsV1 E) : Prop :=
  ∀ s ∈ gen.delegationPoolSchedules.schedules, ∀ a ∈ scheduleListing E s,
    ∃ pool ∈ config.delegationPools.toList, entry E a pool ∈ config.delegatorAccounts ∧
      poolUnlock pool = scheduleUnlock s

instance (config : GenesisAccountsV1 E) : Decidable (Promised E gen config) :=
  inferInstanceAs (Decidable (∀ s ∈ gen.delegationPoolSchedules.schedules, ∀ a ∈ scheduleListing E s,
    ∃ pool ∈ config.delegationPools.toList, entry E a pool ∈ config.delegatorAccounts ∧
      poolUnlock pool = scheduleUnlock s))

/-- **When the delegators get their schedules.** They do if the two indexings agree. If every
delegator is listed once and every pool has its own owner, they get them only then. -/
theorem delegators_get_schedule_iff [TransCmp E.poolOrder] (gen : MainnetGenesisAccountsGenerator)
    (config : GenesisAccountsV1 E) (h : gen.generate E = .ok config) :
    (Aligned E gen → Promised E gen config) ∧
    ((delegatorAddresses E gen).Nodup →
      (gen.foundationMultisigAccounts.delegationPoolOwners.map (·.address)).Nodup →
      Promised E gen config → Aligned E gen) := by
  obtain ⟨hpools, hassign, -⟩ := generate_ok h
  obtain ⟨entries, haccounts, hassigns⟩ := assignDelegatorsToDelegationPools_ok hassign
  have hfoundation : foundationPools E gen =
      (gen.foundationOperatedDelegationPools E config.delegationPools).toList := by
    rw [foundationPools, hpools]
  rw [← hfoundation] at hassigns
  have hgenerated : ∀ {r : Nat} {pool}, (foundationPools E gen)[r]? = some pool →
      pool ∈ config.delegationPools.toList := by
    intro r pool hr
    rw [hfoundation, foundationOperatedDelegationPools, TreeSet.toList_filter] at hr
    exact (List.mem_filter.1 (List.mem_of_getElem? hr)).1
  constructor
  · intro haligned s hs a ha
    obtain ⟨o, ho⟩ := hassigns.loaded s hs
    obtain ⟨r, pool, hr, hpool, he⟩ := hassigns.placed s hs a ((delegatorsOf_perm ho).mem_iff.2 ha)
    obtain ⟨i, hi⟩ := exists_hasPool hpools (hgenerated hpool)
    refine ⟨pool, hgenerated hpool, haccounts ▸ List.mem_toFinset.2 he, ?_⟩
    rw [← haligned s r hr i pool hi hpool, hi.unlock]
  · intro hnodup howners hpromised s r hr i pool hi hpool
    have hs := mem_of_mem_dealtPools hr
    obtain ⟨o, ho⟩ := hassigns.loaded s hs
    obtain ⟨a, ha, pool₁, hpool₁, he⟩ := hassigns.filled s r hr
    rw [hpool] at hpool₁
    cases hpool₁
    obtain ⟨pool', hpool', he', hunlock⟩ := hpromised s hs a ((delegatorsOf_perm ho).mem_iff.1 ha)
    rw [haccounts, List.mem_toFinset] at he'
    -- the account is listed once, so its two entries are one
    have hsame := List.inj_on_of_nodup_map (hassigns.nodup_addresses hnodup) he he' rfl
    obtain ⟨j, hj⟩ := exists_hasPool hpools hpool'
    obtain rfl := hasPool_unique howners hi hj (congrArg DelegatorAccountV1.poolOwnerAddress hsame)
    rw [← hi.unlock, hunlock]

instance : TransCmp ownerFirst := by
  unfold ownerFirst
  infer_instance

/-- Two schedules of different terms. The account of the second one is dealt to the last of three pools,
and the validator of this pool has the second schedule. -/
theorem delegators_get_schedule_iff_small :
    ∃ gen config, tryFrom (twoFiles 2) paths = .ok gen ∧ gen.generate (twoFiles 2) = .ok config ∧
      dealtPools (twoFiles 2) 0 0 gen.delegationPoolSchedules.schedules =
        [(oneSchedule, 0), (⟨some "more", "more", 2, [2], 20, 0, 50⟩, 2)] ∧
      Promised (twoFiles 2) gen config := by
  have hcheck : ∃ gen, tryFrom (twoFiles 2) paths = .ok gen ∧
      ∃ config, gen.generate (twoFiles 2) = .ok config ∧
      dealtPools (twoFiles 2) 0 0 gen.delegationPoolSchedules.schedules =
        [(oneSchedule, 0), (⟨some "more", "more", 2, [2], 20, 0, 50⟩, 2)] ∧
      (foundationPools (twoFiles 2) gen).map (·.ownerAddress) = [1000, 1001, 1002] ∧
      gen.foundationMultisigAccounts.delegationPoolOwners.map (·.address) = [1000, 1001, 1002] ∧
      ∀ p ∈ dealtPools (twoFiles 2) 0 0 gen.delegationPoolSchedules.schedules,
        scheduleUnlock (gen.delegationPoolSchedules.ithPoolSchedule p.2) = scheduleUnlock p.1 := by
    decide +kernel
  obtain ⟨gen, hgen, config, hconfig, hdealt, hranks, hindices, hunlock⟩ := hcheck
  have : TransCmp (twoFiles 2).poolOrder := inferInstanceAs (TransCmp ownerFirst)
  refine ⟨gen, config, hgen, hconfig, hdealt, (delegators_get_schedule_iff gen config hconfig).1 ?_⟩
  -- a pool has the same rank among the foundation's pools as its validator has in the committee
  intro s r hr i pool hi hpool
  obtain ⟨operator, -, hconfigured⟩ := hi
  obtain ⟨owner, howner, haddress, -⟩ := delegationPoolConfig_ok hconfigured
  have hrank : ([1000, 1001, 1002] : List AccountAddress)[r]? = some pool.ownerAddress := by
    rw [← hranks, List.getElem?_map, hpool]
    rfl
  have hindex : ([1000, 1001, 1002] : List AccountAddress)[i]? = some pool.ownerAddress := by
    rw [← hindices, List.getElem?_map, howner, haddress]
    rfl
  obtain rfl : r = i := (List.getElem?_inj (List.getElem?_eq_some_iff.1 hrank).1 (by decide)).1
    (hrank.trans hindex.symm)
  exact hunlock (s, r) hr

/-- The schedule for one pool with delegators, before another default. -/
def twoSchedules : List DelegationPoolUnlockSchedule :=
  [⟨some "delegators", "pbo", 1, [1], 10, 0, 100⟩, ⟨none, "default", 0, [2], 20, 0, 50⟩]

/-- The first validator is not one of the foundation: its pool has the schedule of the delegators, who
are assigned to the pool of the second. -/
theorem delegators_on_other_schedule :
    let E := small [100, 0] twoSchedules [⟨1, 3⟩, ⟨2, 5⟩] [⟨3, 4⟩] [78999999988]
    ∃ gen config, tryFrom E paths = .ok gen ∧ gen.generate E = .ok config ∧
      ¬ Promised E gen config := by
  intro E
  have hcheck : ∃ gen, tryFrom E paths = .ok gen ∧ ∃ config, gen.generate E = .ok config ∧
      ¬ Promised E gen config := by
    decide +kernel
  obtain ⟨gen, hgen, config, hconfig, hnot⟩ := hcheck
  exact ⟨gen, config, hgen, hconfig, hnot⟩

end Genesis.Proof
