import Mathlib.Data.List.Pairwise
import SupraL1.Lib.Decimal
import SupraL1.Genesis.Proof.Accounts

/-!
# Vesting accounts and vesting pools

The accounts of a vesting schedule are cut into chunks of at most
`MAXIMUM_SHAREHOLDERS_PER_VESTING_POOL`, in the order of their amounts, and a chunk is given the id
of the schedule with its number. The ids of two schedules are only apart if the schedules have
different `vesting_pool_id`s, which nothing checks: schedules of one id share their pools. Accounts
and pools match exactly if such schedules have the same terms and together leave room in every pool
(`vesting_pools_match_iff`).
-/

namespace Genesis.Proof

open Std Fallible MainnetGenesisAccountsGenerator
open Move (AccountAddress)

variable {E : Env}

/-! ## Names of pools -/

/-- The id of the `k`-th pool of a schedule. -/
def poolName (s : VestingPoolUnlockSchedule) (k : Nat) : String :=
  s.vestingPoolId ++ " " ++ toString k

/-- **A name determines the schedule's id and the number of the chunk.** -/
theorem poolName_inj {s s' : VestingPoolUnlockSchedule} {k k' : Nat}
    (h : poolName s k = poolName s' k') : s.vestingPoolId = s'.vestingPoolId ∧ k = k' := by
  have hsep : ' '.isDigit = false := rfl
  exact Decimal.append_numeral_inj hsep h

/-! ## The pool of an address -/

/-- The addresses of a file, in the order of their amounts. -/
def addressesByAmount (E : Env) (path : String) : List AccountAddress :=
  ((listing E path).insertionSort AccountBalance.le).map (·.address)

theorem mem_addressesByAmount {path : String} {x : AccountAddress} :
    x ∈ addressesByAmount E path ↔ x ∈ listed E path :=
  ((List.perm_insertionSort _ _).map _).mem_iff

theorem fromFile_addresses {path : String} {a : AccountBalances}
    (h : AccountBalances.fromFile E path = .ok a) :
    a.balances.map (·.address) = addressesByAmount E path := by
  rw [(fromFile_ok h).1, addressesByAmount]

/-- The number of the pool in which a schedule places an address of its file: the one of its first
entry. -/
def poolIndex (E : Env) (s : VestingPoolUnlockSchedule) (x : AccountAddress) : Nat :=
  (addressesByAmount E s.accountsFilePath).idxOf x / E.maximumShareholdersPerVestingPool

/-- The addresses that a schedule places in its `k`-th pool. -/
def poolAddresses (E : Env) (s : VestingPoolUnlockSchedule) (k : Nat) : List AccountAddress :=
  (addressesByAmount E s.accountsFilePath).dedup.filter (poolIndex E s · = k)

theorem toChunksAux_eq {α : Type} (n : Nat) (l : List α) (i : Nat) :
    l.toChunksAux n i = (l.take i, ((l.drop i).toChunksAux n 0).2) := by
  induction l generalizing i with
  | nil => cases i <;> rfl
  | cons a l ih =>
    cases i with
    | zero => rfl
    | succ i =>
      rw [List.toChunksAux, ih i]
      rfl

theorem chunks_of_ne_nil {α : Type} {size : Nat} (hsize : 0 < size) {l : List α} (hl : l ≠ []) :
    chunks size l = l.take size :: chunks size (l.drop size) := by
  obtain ⟨n, rfl⟩ := Nat.exists_eq_succ_of_ne_zero hsize.ne'
  cases l with
  | nil => exact absurd rfl hl
  | cons a l =>
    show ((a :: l).toChunksAux n 0).2 = (a :: l.take n) :: ((l.drop n).toChunksAux n 0).2
    rw [List.toChunksAux, toChunksAux_eq n l n]

/-- The accounts `t` are those of the addresses `before`, each in the pool of its first entry. -/
def InPools (s : VestingPoolUnlockSchedule) (size : Nat) (before : List AccountAddress)
    (t : VestingBalances) : Prop :=
  (∀ x ∈ before, x ∈ KeySet.keys t) ∧
  ∀ a ∈ t.toList, a.address ∈ before ∧
    a.vestingPoolId = poolName s (before.idxOf a.address / size)

theorem InPools.addChunk {s : VestingPoolUnlockSchedule} {size k : Nat}
    {before : List AccountAddress} {t : VestingBalances} (h : InPools s size before t)
    (hlen : before.length = k * size) {chunk : List AccountBalance} (hchunk : chunk.length ≤ size) :
    InPools s size (before ++ chunk.map (·.address))
      (t.insertMany (s.chunkAccounts E chunk k).toList) := by
  constructor
  · intro x hx
    rw [KeySet.mem_keys_insertMany]
    rcases List.mem_append.1 hx with hx | hx
    · exact .inl (h.1 x hx)
    · exact .inr (mem_keys_chunkAccounts.2 hx)
  · intro a ha
    rcases KeySet.mem_toList_insertMany ha with ha | ⟨hnew, ha⟩
    · obtain ⟨hmem, hid⟩ := h.2 a ha
      rw [List.idxOf_append_of_mem hmem]
      exact ⟨List.mem_append_left _ hmem, hid⟩
    · -- a new address has its first entry in this chunk
      have hacc := KeySet.mem_of_mem_ofList ha
      rw [List.mem_reverse, List.mem_map] at hacc
      obtain ⟨acc, hacc, rfl⟩ := hacc
      have hbefore : acc.address ∉ before := fun hmem => hnew (h.1 _ hmem)
      have hmem : acc.address ∈ chunk.map (·.address) := List.mem_map_of_mem hacc
      refine ⟨List.mem_append_right _ hmem, congrArg (poolName s) ?_⟩
      have hidx := List.idxOf_lt_length_iff.2 hmem
      rw [List.length_map] at hidx
      show k = (before ++ chunk.map (·.address)).idxOf acc.address / size
      rw [List.idxOf_append_of_notMem hbefore, hlen, Nat.add_comm,
        Nat.add_mul_div_right _ _ (by omega), Nat.div_eq_of_lt (by omega), Nat.zero_add]

/-- The accounts of a schedule from the `k`-th chunk on: `before` are the addresses of the chunks that
have been added. -/
theorem InPools.addChunks {s : VestingPoolUnlockSchedule} {size : Nat} (hsize : 0 < size)
    (rest : List AccountBalance) {before : List AccountAddress} {k : Nat} {t : VestingBalances}
    (h : InPools s size before t) (hlen : rest ≠ [] → before.length = k * size) :
    InPools s size (before ++ rest.map (·.address))
      (((chunks size rest).zipIdx k).foldl (fun accountsMapped (chunk, i) =>
        accountsMapped.insertMany (s.chunkAccounts E chunk i).toList) t) := by
  induction hn : rest.length using Nat.strongRecOn generalizing rest before k t with
  | ind n ih =>
    by_cases hrest : rest = []
    · subst hrest
      rw [List.map_nil, List.append_nil]
      exact h
    · have hpos : 0 < rest.length := List.length_pos_of_ne_nil hrest
      have happend : before ++ rest.map (·.address) =
          (before ++ (rest.take size).map (·.address)) ++ (rest.drop size).map (·.address) := by
        rw [List.append_assoc, ← List.map_append, List.take_append_drop]
      rw [chunks_of_ne_nil hsize hrest, List.zipIdx_cons, List.foldl_cons, happend]
      refine ih (rest.drop size).length ?_ (rest.drop size)
        (h.addChunk (hlen hrest) (List.length_take_le _ _)) ?_ rfl
      · rw [List.length_drop]
        omega
      · intro hdrop
        have hlt : size < rest.length := by
          by_contra hle
          exact hdrop (List.drop_eq_nil_of_le (Nat.le_of_not_lt hle))
        rw [List.length_append, List.length_map, List.length_take, hlen hrest,
          Nat.min_eq_left hlt.le, Nat.succ_mul]

/-- **The pool of a vesting account** is the one of the first entry of its address. -/
theorem accounts_poolIndex (hmax : 0 < E.maximumShareholdersPerVestingPool)
    {s : VestingPoolUnlockSchedule} {t : VestingBalances} (h : s.accounts E = .ok t) :
    ∀ a ∈ t.toList, a.vestingPoolId = poolName s (poolIndex E s a.address) := by
  obtain ⟨accounts, haccounts, h⟩ := bind_ok_iff.1 h
  obtain rfl := pure_ok_iff.1 h
  have hempty : InPools s E.maximumShareholdersPerVestingPool [] ∅ := by
    simp [InPools, KeySet.toList_empty]
  have hfold := hempty.addChunks (E := E) (k := 0) hmax accounts.balances (fun _ => by simp)
  rw [List.nil_append, fromFile_addresses haccounts] at hfold
  exact fun a ha => (hfold.2 a ha).2

/-! ## The accounts and pools of a genesis -/

theorem accountBalancesFrom_mem {t t' : VestingBalances} {schedules : List VestingPoolUnlockSchedule}
    (h : accountBalancesFrom E t schedules = .ok t') :
    (∀ s ∈ schedules, ∃ ts, s.accounts E = .ok ts) ∧
      ∀ a ∈ t'.toList, a ∈ t.toList ∨ ∃ s ∈ schedules, ∃ ts, s.accounts E = .ok ts ∧ a ∈ ts.toList := by
  induction schedules generalizing t with
  | nil =>
    cases h
    exact ⟨nofun, fun a ha => .inl ha⟩
  | cons s schedules ih =>
    obtain ⟨accounts, haccounts, h⟩ := bind_ok_iff.1 h
    dsimp only at h
    split at h
    · obtain ⟨hloaded, hmem⟩ := ih h
      refine ⟨List.forall_mem_cons.2 ⟨⟨accounts, haccounts⟩, hloaded⟩, fun a ha => ?_⟩
      rcases hmem a ha with ha | ⟨s', hs', ts, hts, ha⟩
      · rcases KeySet.mem_toList_insertMany ha with ha | ⟨-, ha⟩
        · exact .inl ha
        · exact .inr ⟨s, List.mem_cons_self, accounts, haccounts, ha⟩
      · exact .inr ⟨s', List.mem_cons_of_mem s hs', ts, hts, ha⟩
    · cases h

/-- What `try_from` makes of the vesting schedules: no two of them list one address, and each address
has one account, in the pool of the schedule that lists it. -/
structure Vested (E : Env) (gen : MainnetGenesisAccountsGenerator) : Prop where
  loaded : ∀ s ∈ gen.vestingPoolSchedules, ∃ ts, s.accounts E = .ok ts
  apart : gen.vestingPoolSchedules.Pairwise fun s s' =>
    (listed E s.accountsFilePath).Disjoint (listed E s'.accountsFilePath)
  keys : ∀ x, x ∈ gen.vestingAccounts.toList.map (·.address) ↔
    ∃ s ∈ gen.vestingPoolSchedules, x ∈ listed E s.accountsFilePath
  source : ∀ a ∈ gen.vestingAccounts.toList, ∃ s ∈ gen.vestingPoolSchedules,
    a.address ∈ listed E s.accountsFilePath ∧ a.vestingPoolId = poolName s (poolIndex E s a.address)

section
variable {gen : MainnetGenesisAccountsGenerator} {pools : Finset VestingPoolConfig}

theorem tryFrom_vested (hmax : 0 < E.maximumShareholdersPerVestingPool)
    {args : GenerateMainnetAccountsConfig} (h : tryFrom E args = .ok gen) : Vested E gen := by
  obtain ⟨hvesting, -⟩ := tryFrom_ok h
  obtain ⟨hkeys, -, hapart⟩ := accountBalancesFrom_ok hvesting
  obtain ⟨hloaded, hmem⟩ := accountBalancesFrom_mem hvesting
  refine ⟨hloaded, hapart, fun x => (hkeys x).trans ?_, fun a ha => ?_⟩
  · simp [KeySet.keys, KeySet.toList_empty, List.mem_flatMap]
  · rcases hmem a ha with ha | ⟨s, hs, ts, hts, ha⟩
    · rw [KeySet.toList_empty] at ha
      cases ha
    · have hlisted := (mem_keys_accounts hts a.address).1 (List.mem_map_of_mem ha)
      exact ⟨s, hs, hlisted, accounts_poolIndex hmax hts a ha⟩

theorem Vested.schedule_unique (h : Vested E gen) {s s' : VestingPoolUnlockSchedule}
    (hs : s ∈ gen.vestingPoolSchedules) (hs' : s' ∈ gen.vestingPoolSchedules) {x : AccountAddress}
    (hx : x ∈ listed E s.accountsFilePath) (hx' : x ∈ listed E s'.accountsFilePath) : s = s' := by
  have : Std.Symm fun s s' : VestingPoolUnlockSchedule =>
      (listed E s.accountsFilePath).Disjoint (listed E s'.accountsFilePath) :=
    ⟨fun _ _ hd => hd.symm⟩
  by_contra hne
  exact h.apart.forall hs hs' hne hx hx'

theorem Vested.account (h : Vested E gen) {s : VestingPoolUnlockSchedule}
    (hs : s ∈ gen.vestingPoolSchedules) {x : AccountAddress} (hx : x ∈ listed E s.accountsFilePath) :
    ∃ a ∈ gen.vestingAccounts.toList, a.address = x ∧
      a.vestingPoolId = poolName s (poolIndex E s x) := by
  obtain ⟨a, ha, rfl⟩ := List.mem_map.1 ((h.keys x).2 ⟨s, hs, hx⟩)
  obtain ⟨s', hs', hx', hid⟩ := h.source a ha
  cases h.schedule_unique hs hs' hx hx'
  exact ⟨a, ha, rfl, hid⟩

/-! ## The pools -/

def terms (s : VestingPoolUnlockSchedule) : Nat × List Nat × Nat × Nat × Nat :=
  (s.vpoolLockingPercentage, s.vestingNumerators, s.vestingDenominators, s.cliffPeriodInSeconds,
    s.periodDurationInSeconds)

def poolTerms (p : VestingPoolConfig) : Nat × List Nat × Nat × Nat × Nat :=
  (p.vpoolLockingPercentage, p.vestingNumerators, p.vestingDenominators, p.cliffPeriodInSeconds,
    p.periodDurationInSeconds)

/-- `p` is the pool of the schedule `s` for the accounts that have the address `x`. -/
structure PoolFor (E : Env) (gen : MainnetGenesisAccountsGenerator) (s : VestingPoolUnlockSchedule)
    (x : AccountAddress) (p : VestingPoolConfig) : Prop where
  listed : x ∈ listed E s.accountsFilePath
  id : p.vestingPoolId = poolName s (poolIndex E s x)
  terms : poolTerms p = terms s
  admin : ∃ account, gen.foundationMultisigAccounts.withNamePrefix s.vestingPoolId = .ok account ∧
    p.adminAddress = account.address ∧ p.withdrawalAddress = account.address

theorem vestingPools_ok (hmax : 0 < E.maximumShareholdersPerVestingPool)
    {s : VestingPoolUnlockSchedule} {ps : List VestingPoolConfig}
    (h : gen.vestingPools E s = .ok ps) :
    (∀ p ∈ ps, ∃ x, PoolFor E gen s x p) ∧
      ∀ x ∈ listed E s.accountsFilePath, ∃ p ∈ ps, PoolFor E gen s x p := by
  obtain ⟨account, haccount, h⟩ := bind_ok_iff.1 h
  obtain ⟨ids, hids, h⟩ := bind_ok_iff.1 h
  obtain rfl := pure_ok_iff.1 h
  obtain ⟨t, ht, hids⟩ := bind_ok_iff.1 hids
  obtain rfl := pure_ok_iff.1 hids
  have hmem : ∀ name, name ∈ (TreeSet.ofList (t.toList.map (·.vestingPoolId))).toList ↔
      ∃ a ∈ t.toList, a.vestingPoolId = name := fun name => by
    rw [TreeSet.mem_toList, TreeSet.mem_ofList, List.contains_iff_mem, List.mem_map]
  have hlisted : ∀ a ∈ t.toList, a.address ∈ listed E s.accountsFilePath := fun a ha =>
    (mem_keys_accounts ht a.address).1 (List.mem_map_of_mem ha)
  constructor
  · intro p hp
    obtain ⟨name, hname, rfl⟩ := List.mem_map.1 hp
    obtain ⟨a, ha, rfl⟩ := (hmem name).1 hname
    exact ⟨a.address, hlisted a ha, accounts_poolIndex hmax ht a ha, rfl, account, haccount, rfl, rfl⟩
  · intro x hx
    obtain ⟨a, ha, rfl⟩ := List.mem_map.1 ((mem_keys_accounts ht x).2 hx)
    refine ⟨_, List.mem_map_of_mem ((hmem a.vestingPoolId).2 ⟨a, ha, rfl⟩), hx,
      accounts_poolIndex hmax ht a ha, rfl, account, haccount, rfl, rfl⟩

theorem generateVestingPoolsConfig_ok (hmax : 0 < E.maximumShareholdersPerVestingPool)
    (h : gen.generateVestingPoolsConfig E = .ok pools) :
    (∀ p ∈ pools, ∃ s ∈ gen.vestingPoolSchedules, ∃ x, PoolFor E gen s x p) ∧
      ∀ s ∈ gen.vestingPoolSchedules, ∀ x ∈ listed E s.accountsFilePath,
        ∃ p ∈ pools, PoolFor E gen s x p := by
  obtain ⟨pss, hpss, h⟩ := bind_ok_iff.1 h
  obtain rfl := pure_ok_iff.1 h
  constructor
  · intro p hp
    obtain ⟨ps, hps, hp⟩ := List.mem_flatten.1 (List.mem_toFinset.1 hp)
    obtain ⟨s, hs, hok⟩ := exists_of_mapM_ok hpss hps
    exact ⟨s, hs, (vestingPools_ok hmax hok).1 p hp⟩
  · intro s hs x hx
    obtain ⟨ps, hps, hok⟩ := exists_mapM_ok hpss hs
    obtain ⟨p, hp, hfor⟩ := (vestingPools_ok hmax hok).2 x hx
    exact ⟨p, List.mem_toFinset.2 (List.mem_flatten.2 ⟨ps, hps, hp⟩), hfor⟩

theorem PoolFor.eq_of_terms {s s' : VestingPoolUnlockSchedule} {x x' : AccountAddress}
    {p p' : VestingPoolConfig} (h : PoolFor E gen s x p) (h' : PoolFor E gen s' x' p')
    (hname : p.vestingPoolId = p'.vestingPoolId) (hterms : Proof.terms s = Proof.terms s') :
    p = p' := by
  have hid : s.vestingPoolId = s'.vestingPoolId :=
    (poolName_inj (h.id.symm.trans (hname.trans h'.id))).1
  obtain ⟨account, haccount, ha, hw⟩ := h.admin
  obtain ⟨account', haccount', ha', hw'⟩ := h'.admin
  rw [hid] at haccount
  cases haccount.symm.trans haccount'
  have hpool : poolTerms p = poolTerms p' := h.terms.trans (hterms.trans h'.terms.symm)
  simp only [poolTerms, Prod.mk.injEq] at hpool
  obtain ⟨h1, h2, h3, h4, h5⟩ := hpool
  cases p
  cases p'
  simp_all

/-! ## The room in a pool -/

theorem mem_poolAddresses {s : VestingPoolUnlockSchedule} {k : Nat} {x : AccountAddress} :
    x ∈ poolAddresses E s k ↔ x ∈ listed E s.accountsFilePath ∧ poolIndex E s x = k := by
  rw [poolAddresses, List.mem_filter, List.mem_dedup, mem_addressesByAmount, decide_eq_true_iff]

theorem nodup_poolAddresses (s : VestingPoolUnlockSchedule) (k : Nat) :
    (poolAddresses E s k).Nodup := (List.nodup_dedup _).filter _

theorem length_poolAddresses_le (hmax : 0 < E.maximumShareholdersPerVestingPool)
    (s : VestingPoolUnlockSchedule) (k : Nat) :
    (poolAddresses E s k).length ≤ E.maximumShareholdersPerVestingPool := by
  let size := E.maximumShareholdersPerVestingPool
  let position := fun x => (addressesByAmount E s.accountsFilePath).idxOf x
  have hnodup : ((poolAddresses E s k).map position).Nodup := by
    refine List.Nodup.map_on (fun x hx y _ heq => ?_) (nodup_poolAddresses s k)
    exact (List.idxOf_inj (mem_addressesByAmount.2 (mem_poolAddresses.1 hx).1)).1 heq
  have hsub : (poolAddresses E s k).map position ⊆ List.range' (k * size) size := by
    intro i hi
    obtain ⟨x, hx, rfl⟩ := List.mem_map.1 hi
    have hdiv : position x / size = k := (mem_poolAddresses.1 hx).2
    have hmod := Nat.div_add_mod (position x) size
    have hlt : position x % size < size := Nat.mod_lt _ hmax
    rw [hdiv, Nat.mul_comm] at hmod
    rw [List.mem_range'_1]
    omega
  have hlen := (List.subperm_of_subset hnodup hsub).length_le
  rwa [List.length_map, List.length_range'] at hlen

/-- **The accounts of a pool** are those that the schedules of its id place there. -/
theorem Vested.members_perm (h : Vested E gen) (s : VestingPoolUnlockSchedule) (k : Nat) :
    ((gen.vestingAccounts.toList.filter (·.vestingPoolId = poolName s k)).map (·.address)).Perm
      ((gen.vestingPoolSchedules.filter (·.vestingPoolId = s.vestingPoolId)).flatMap
        (poolAddresses E · k)) := by
  have hkeys : (gen.vestingAccounts.toList.map (·.address)).Nodup :=
    KeySet.nodup_keys gen.vestingAccounts
  refine (List.perm_ext_iff_of_nodup (hkeys.sublist (List.filter_sublist.map _))
    (List.nodup_flatMap.2 ⟨fun s' _ => nodup_poolAddresses s' k, ?_⟩)).2 fun x => ?_
  · refine (h.apart.sublist List.filter_sublist).imp fun hdisjoint x hx hx' => ?_
    exact hdisjoint (mem_poolAddresses.1 hx).1 (mem_poolAddresses.1 hx').1
  · simp only [List.mem_map, List.mem_filter, List.mem_flatMap, decide_eq_true_iff]
    constructor
    · rintro ⟨a, ⟨ha, hid⟩, rfl⟩
      obtain ⟨s', hs', hx, hid'⟩ := h.source a ha
      obtain ⟨hname, hindex⟩ := poolName_inj (hid'.symm.trans hid)
      exact ⟨s', ⟨hs', hname⟩, mem_poolAddresses.2 ⟨hx, hindex⟩⟩
    · rintro ⟨s', ⟨hs', hname⟩, hx⟩
      obtain ⟨hlisted, hindex⟩ := mem_poolAddresses.1 hx
      obtain ⟨a, ha, haddress, hid⟩ := h.account hs' hlisted
      refine ⟨a, ⟨ha, ?_⟩, haddress⟩
      rw [hid, hindex, poolName, hname, poolName]

/-- The schedules of one id together leave room in each of their pools. -/
def LeaveRoom (E : Env) (gen : MainnetGenesisAccountsGenerator) : Prop :=
  ∀ s ∈ gen.vestingPoolSchedules, ∀ k,
    ((gen.vestingPoolSchedules.filter (·.vestingPoolId = s.vestingPoolId)).map
      fun s' => (poolAddresses E s' k).length).sum ≤ E.maximumShareholdersPerVestingPool

theorem Vested.bounded_iff (h : Vested E gen) :
    (∀ id, (gen.vestingAccounts.toList.filter (·.vestingPoolId = id)).length ≤
      E.maximumShareholdersPerVestingPool) ↔ LeaveRoom E gen := by
  have hcount : ∀ s k,
      (gen.vestingAccounts.toList.filter (·.vestingPoolId = poolName s k)).length =
        ((gen.vestingPoolSchedules.filter (·.vestingPoolId = s.vestingPoolId)).map
          fun s' => (poolAddresses E s' k).length).sum := by
    intro s k
    have hlen := (h.members_perm s k).length_eq
    rwa [List.length_map, List.length_flatMap] at hlen
  constructor
  · intro hbounded s _ k
    rw [← hcount]
    exact hbounded (poolName s k)
  · intro hroom id
    cases hfilter : gen.vestingAccounts.toList.filter (·.vestingPoolId = id) with
    | nil => exact Nat.zero_le _
    | cons a l =>
      have ha := List.mem_filter.1 (hfilter ▸ List.mem_cons_self : a ∈ _)
      obtain ⟨s, hs, -, hid⟩ := h.source a ha.1
      obtain rfl : poolName s (poolIndex E s a.address) = id :=
        hid.symm.trans (of_decide_eq_true ha.2)
      rw [← hfilter, hcount]
      exact hroom s hs _

/-! ## When accounts and pools match -/

/-- Schedules of one id whose files list accounts have the same terms. -/
def AgreeOnTerms (E : Env) (gen : MainnetGenesisAccountsGenerator) : Prop :=
  ∀ s ∈ gen.vestingPoolSchedules, ∀ s' ∈ gen.vestingPoolSchedules,
    listing E s.accountsFilePath ≠ [] → listing E s'.accountsFilePath ≠ [] →
    s.vestingPoolId = s'.vestingPoolId → terms s = terms s'

/-- The vesting accounts match the vesting pools: they have the same ids, an id has one pool, with the
terms of the schedules that list its accounts, and no id has too many accounts. -/
structure VestingPoolsMatch (E : Env) (gen : MainnetGenesisAccountsGenerator)
    (pools : Finset VestingPoolConfig) : Prop where
  ids : ∀ id, (∃ a ∈ gen.vestingAccounts.toList, a.vestingPoolId = id) ↔
    ∃ p ∈ pools, p.vestingPoolId = id
  unique : ∀ p ∈ pools, ∀ p' ∈ pools, p.vestingPoolId = p'.vestingPoolId → p = p'
  terms : ∀ a ∈ gen.vestingAccounts.toList, ∀ s ∈ gen.vestingPoolSchedules,
    a.address ∈ listed E s.accountsFilePath →
    ∀ p ∈ pools, p.vestingPoolId = a.vestingPoolId → poolTerms p = Proof.terms s
  bounded : ∀ id, (gen.vestingAccounts.toList.filter (·.vestingPoolId = id)).length ≤
    E.maximumShareholdersPerVestingPool

theorem exists_poolIndex_zero {s : VestingPoolUnlockSchedule}
    (h : listing E s.accountsFilePath ≠ []) :
    ∃ x ∈ listed E s.accountsFilePath, poolIndex E s x = 0 := by
  have hne : addressesByAmount E s.accountsFilePath ≠ [] := by
    intro hnil
    have hlen := congrArg List.length hnil
    rw [addressesByAmount, List.length_map, List.length_insertionSort] at hlen
    exact h (List.eq_nil_of_length_eq_zero hlen)
  obtain ⟨x, l, hl⟩ := List.exists_cons_of_ne_nil hne
  refine ⟨x, mem_addressesByAmount.1 (by rw [hl]; exact List.mem_cons_self), ?_⟩
  rw [poolIndex, hl, List.idxOf_cons_self, Nat.zero_div]

theorem listing_ne_nil {path : String} {x : AccountAddress} (h : x ∈ listed E path) :
    listing E path ≠ [] := by
  intro hnil
  rw [listed, hnil] at h
  cases h

/-- **When vesting accounts and pools match.** -/
theorem vesting_pools_match_iff {args : GenerateMainnetAccountsConfig}
    (hmax : 0 < E.maximumShareholdersPerVestingPool) (h : tryFrom E args = .ok gen)
    (hpools : gen.generateVestingPoolsConfig E = .ok pools) :
    VestingPoolsMatch E gen pools ↔ AgreeOnTerms E gen ∧ LeaveRoom E gen := by
  have hvested := tryFrom_vested hmax h
  obtain ⟨hfrom, hfor⟩ := generateVestingPoolsConfig_ok hmax hpools
  constructor
  · intro hmatch
    refine ⟨fun s hs s' hs' hne hne' hid => ?_, hvested.bounded_iff.1 hmatch.bounded⟩
    -- both schedules have a pool number zero, of one name
    obtain ⟨x, hx, hindex⟩ := exists_poolIndex_zero hne
    obtain ⟨x', hx', hindex'⟩ := exists_poolIndex_zero hne'
    obtain ⟨p, hp, hpool⟩ := hfor s hs x hx
    obtain ⟨p', hp', hpool'⟩ := hfor s' hs' x' hx'
    have hname : p.vestingPoolId = p'.vestingPoolId := by
      rw [hpool.id, hpool'.id, hindex, hindex', poolName, poolName, hid]
    rw [← hpool.terms, ← hpool'.terms, hmatch.unique p hp p' hp' hname]
  · rintro ⟨hagree, hroom⟩
    have hterms : ∀ s ∈ gen.vestingPoolSchedules, ∀ x, x ∈ listed E s.accountsFilePath →
        ∀ s' ∈ gen.vestingPoolSchedules, ∀ x', x' ∈ listed E s'.accountsFilePath →
        poolName s (poolIndex E s x) = poolName s' (poolIndex E s' x') → Proof.terms s = Proof.terms s' :=
      fun s hs x hx s' hs' x' hx' hname =>
        hagree s hs s' hs' (listing_ne_nil hx) (listing_ne_nil hx') (poolName_inj hname).1
    refine ⟨fun id => ⟨?_, ?_⟩, fun p hp p' hp' hname => ?_, fun a ha s hs hlisted p hp hname => ?_,
      hvested.bounded_iff.2 hroom⟩
    · rintro ⟨a, ha, rfl⟩
      obtain ⟨s, hs, hx, hid⟩ := hvested.source a ha
      obtain ⟨p, hp, hpool⟩ := hfor s hs a.address hx
      exact ⟨p, hp, hpool.id.trans hid.symm⟩
    · rintro ⟨p, hp, rfl⟩
      obtain ⟨s, hs, x, hpool⟩ := hfrom p hp
      obtain ⟨a, ha, -, hid⟩ := hvested.account hs hpool.listed
      exact ⟨a, ha, hid.trans hpool.id.symm⟩
    · obtain ⟨s, hs, x, hpool⟩ := hfrom p hp
      obtain ⟨s', hs', x', hpool'⟩ := hfrom p' hp'
      refine hpool.eq_of_terms hpool' hname ?_
      exact hterms s hs x hpool.listed s' hs' x' hpool'.listed (hpool.id.symm.trans (hname.trans hpool'.id))
    · obtain ⟨s₀, hs₀, hx, hid⟩ := hvested.source a ha
      cases hvested.schedule_unique hs hs₀ hlisted hx
      obtain ⟨s', hs', x', hpool⟩ := hfrom p hp
      rw [hpool.terms]
      exact hterms s' hs' x' hpool.listed s hs a.address hx (hpool.id.symm.trans (hname.trans hid))

theorem compatible_of_nodup (hmax : 0 < E.maximumShareholdersPerVestingPool)
    (h : (gen.vestingPoolSchedules.map (·.vestingPoolId)).Nodup) :
    AgreeOnTerms E gen ∧ LeaveRoom E gen := by
  refine ⟨fun s hs s' hs' _ _ hid => ?_, fun s hs k => ?_⟩
  · rw [List.inj_on_of_nodup_map h hs hs' hid]
  · have hall : ∀ s' ∈ gen.vestingPoolSchedules.filter (·.vestingPoolId = s.vestingPoolId), s' = s :=
      fun s' hs' => List.inj_on_of_nodup_map h (List.mem_filter.1 hs').1 hs
        (of_decide_eq_true (List.mem_filter.1 hs').2)
    have hnodup := (List.Nodup.of_map _ h).filter (·.vestingPoolId = s.vestingPoolId)
    rw [List.eq_replicate_of_mem hall] at hnodup ⊢
    have hone := List.nodup_replicate.1 hnodup
    rw [List.map_replicate, List.sum_replicate_nat]
    calc _ ≤ 1 * (poolAddresses E s k).length := Nat.mul_le_mul_right _ hone
      _ ≤ E.maximumShareholdersPerVestingPool := by
        rw [Nat.one_mul]
        exact length_poolAddresses_le hmax s k

end

/-- One schedule with two accounts of one amount. -/
theorem vesting_pools_match_small :
    let E := small [0] [oneSchedule] [⟨1, 3⟩] [⟨2, 4⟩, ⟨3, 4⟩] [78999999989]
    ∃ gen pools, tryFrom E paths = .ok gen ∧ gen.generateVestingPoolsConfig E = .ok pools ∧
      VestingPoolsMatch E gen pools := by
  intro E
  have hcheck : ∃ gen, tryFrom E paths = .ok gen ∧
      ∃ pools, gen.generateVestingPoolsConfig E = .ok pools ∧
        (gen.vestingPoolSchedules.map (·.vestingPoolId)).Nodup := by
    decide +kernel
  obtain ⟨gen, hgen, pools, hpools, hnodup⟩ := hcheck
  have hmax : 0 < E.maximumShareholdersPerVestingPool := by decide
  exact ⟨gen, pools, hgen, hpools,
    (vesting_pools_match_iff hmax hgen hpools).2 (compatible_of_nodup hmax hnodup)⟩

/-- Two schedules of the id `Treasury`, with different locking percentages and these accounts. -/
def sameIdSchedules (E : Env) (first second : List AccountBalance) : Env :=
  { E with files := { E.files with
      vestingPoolSchedules := fun _ => .ok [⟨"first", "Treasury", 0, [1], 10, 0, 100⟩,
        ⟨"second", "Treasury", 5, [1], 10, 0, 100⟩]
      accountBalances := fun path =>
        if path = "first" then .ok first else if path = "second" then .ok second
        else E.files.accountBalances path } }

/-- Each schedule has one account. Both have the id `Treasury 0`, which has two pools. -/
theorem vesting_pools_do_not_match :
    let E := sameIdSchedules (small [0] [oneSchedule] [⟨1, 3⟩] [] [78999999988]) [⟨2, 4⟩] [⟨3, 5⟩]
    ∃ gen, tryFrom E paths = .ok gen ∧
      gen.vestingAccounts.toList.map (·.vestingPoolId) = ["Treasury 0", "Treasury 0"] ∧
      ∃ pools, gen.generateVestingPoolsConfig E = .ok pools ∧
        ∃ p ∈ pools, ∃ p' ∈ pools, p.vestingPoolId = "Treasury 0" ∧ p'.vestingPoolId = "Treasury 0" ∧
          p.vpoolLockingPercentage = 0 ∧ p'.vpoolLockingPercentage = 5 := by
  decide +kernel

end Genesis.Proof
