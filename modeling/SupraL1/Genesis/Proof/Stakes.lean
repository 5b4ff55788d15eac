import Mathlib.Algebra.BigOperators.Ring.Finset
import Mathlib.Data.List.MinMax
import SupraL1.Genesis.Proof.Slices

/-!
# What each pool gets

The assignment deals the accounts of all schedules, in their order, to ranks among the foundation's
pools (`dealt`). From this follows the stake of a pool, the sum of the balances that are dealt to its
rank. Stake is spread evenly over the pools of the only schedule with accounts
(`stake_spread_evenly`).
-/

namespace Genesis.Proof

open Std Fallible Deal
open Move (AccountAddress)
open MainnetGenesisAccountsGenerator

variable {E : Env} {pools slice : List DelegationPoolConfigV1} {schedule : DelegationPoolUnlockSchedule}
  {schedules : List DelegationPoolUnlockSchedule}

/-! ## The deal of all schedules -/

/-- The ranks of the pools that the accounts of the schedules are dealt to, in the order of the
accounts, and the balances of the pools at the end. -/
def dealt (E : Env) : List Nat → List DelegationPoolUnlockSchedule → List Nat × List Nat
  | loads, [] => ([], loads)
  | loads, s :: schedules =>
    let d := deal maxU64 (loads ++ List.replicate (taken s) 0) (weights E s)
    let rest := dealt E d.2 schedules
    (d.1.map (loads.length + ·) ++ rest.1, rest.2)

theorem dealt_append (loads : List Nat) (before after : List DelegationPoolUnlockSchedule) :
    dealt E loads (before ++ after) =
      ((dealt E loads before).1 ++ (dealt E (dealt E loads before).2 after).1,
        (dealt E (dealt E loads before).2 after).2) := by
  induction before generalizing loads with
  | nil => rfl
  | cons s before ih =>
    rw [List.cons_append, dealt, dealt]
    dsimp only
    rw [ih, List.append_assoc]

theorem dealt_of_nil (h : ∀ s ∈ schedules, delegatorsOf E s = []) (loads : List Nat) :
    dealt E loads schedules = ([], loads ++ List.replicate (schedules.map taken).sum 0) := by
  induction schedules generalizing loads with
  | nil => simp [dealt]
  | cons s schedules ih =>
    obtain ⟨hs, hrest⟩ := List.forall_mem_cons.1 h
    have hweights : weights E s = [] := by rw [weights, hs, List.map_nil]
    rw [dealt, hweights]
    dsimp only [deal]
    rw [ih hrest, List.append_assoc, List.replicate_append_replicate, List.map_cons, List.sum_cons]
    rfl

theorem length_dealt (loads : List Nat) :
    (dealt E loads schedules).1.length = (schedules.flatMap (delegatorsOf E)).length := by
  induction schedules generalizing loads with
  | nil => rfl
  | cons s schedules ih =>
    rw [dealt, List.flatMap_cons, List.length_append, List.length_append, ih]
    simp [weights]

theorem placed_of_slice {q n : Nat} {accounts : List AccountBalance} {js : List Nat}
    {entries : List DelegatorAccountV1}
    (h : List.Forall₂ (Placed E ((pools.drop q).take n)) (accounts.zip js) entries) :
    List.Forall₂ (Placed E pools) (accounts.zip (js.map (q + ·))) entries := by
  rw [List.zip_map_right, List.forall₂_map_left_iff]
  refine h.imp fun p e ⟨pool, hpool, he⟩ => ?_
  exact ⟨pool, getElem?_slice hpool, he⟩

/-- **What the loop over the schedules does**: it deals the accounts and counts them. -/
theorem assignSchedules_dealt {s s' : Assignment}
    (h : schedules.foldlM (assignSchedule E pools) s = .ok s') :
    ∃ entries, s'.assigned = s.assigned ∪ entries.toFinset ∧
      List.Forall₂ (Placed E pools)
        ((schedules.flatMap (delegatorsOf E)).zip (dealt E s.poolBalances schedules).1) entries ∧
      ∀ before, Counts s.assignmentCounts before → Counts s'.assignmentCounts (before ++ entries) := by
  induction schedules generalizing s with
  | nil =>
    cases h
    exact ⟨[], by simp, .nil, fun before hbefore => by rwa [List.append_nil]⟩
  | cons schedule schedules ih =>
    obtain ⟨s₁, hstep, hrest⟩ := foldlM_cons_ok_iff.1 h
    obtain ⟨hlen, o, ho⟩ := assignSchedule_inv hstep
    rw [assignSchedule_eq hlen ho] at hstep
    obtain ⟨hbalances, entries, hassigned, hplaced, hcounts⟩ := assignDelegators_ok hstep
    obtain ⟨entries', hassigned', hplaced', hcounts'⟩ := ih hrest
    rw [hbalances] at hplaced'
    refine ⟨entries ++ entries', ?_, ?_, fun before hbefore => ?_⟩
    · rw [hassigned', hassigned, List.toFinset_append, Finset.union_assoc]
    · rw [List.flatMap_cons, dealt, List.zip_append (by simp [weights])]
      exact List.rel_append (placed_of_slice hplaced) hplaced'
    · rw [← List.append_assoc]
      exact hcounts' _ (hcounts before hbefore)

/-! ## Entries of a pool -/

section
variable {accounts : List AccountBalance} {ranks : List Nat} {entries : List DelegatorAccountV1}
  {r : Nat} {pool : DelegationPoolConfigV1}

theorem Placed.owner_iff (howners : (pools.map (·.ownerAddress)).Nodup) {p : AccountBalance × Nat}
    {e : DelegatorAccountV1} (h : Placed E pools p e) (hpool : pools[r]? = some pool) :
    e.poolOwnerAddress = pool.ownerAddress ↔ p.2 = r := by
  obtain ⟨pool', hpool', rfl⟩ := h
  constructor
  · intro heq
    have hlt := (List.getElem?_eq_some_iff.1 hpool').1
    refine (List.getElem?_inj (by simpa using hlt) howners).1 ?_
    rw [List.getElem?_map, List.getElem?_map, hpool, hpool']
    exact congrArg some heq
  · intro heq
    rw [heq, hpool] at hpool'
    cases hpool'
    rfl

theorem placed_share {f : DelegatorAccountV1 → Nat} {g : AccountBalance → Nat}
    (hfg : ∀ a pool, f (entry E a pool) = g a) (howners : (pools.map (·.ownerAddress)).Nodup)
    (hlen : ranks.length = accounts.length)
    (h : List.Forall₂ (Placed E pools) (accounts.zip ranks) entries) (hpool : pools[r]? = some pool) :
    (entries.map fun e => if e.poolOwnerAddress = pool.ownerAddress then f e else 0).sum =
      share r (accounts.map g) ranks := by
  induction accounts generalizing ranks entries with
  | nil =>
    obtain rfl := List.length_eq_zero_iff.1 hlen
    cases h
    rfl
  | cons a accounts ih =>
    obtain ⟨j, ranks, rfl⟩ := List.exists_cons_of_length_eq_add_one hlen
    obtain ⟨e, entries, hplaced, htail, rfl⟩ := List.forall₂_cons_left_iff.1 h
    have hiff := hplaced.owner_iff howners hpool
    have hvalue : f e = g a := by
      obtain ⟨pool', -, rfl⟩ := hplaced
      exact hfg a pool'
    rw [List.map_cons, List.map_cons, List.sum_cons, share, ih (by simpa using hlen) htail, hvalue]
    simp only [hiff]

theorem placed_of_mem {ps : List (AccountBalance × Nat)} {e : DelegatorAccountV1}
    (h : List.Forall₂ (Placed E pools) ps entries) (he : e ∈ entries) : ∃ p ∈ ps, Placed E pools p e := by
  induction h with
  | nil => cases he
  | cons hplaced _ ih =>
    rcases List.mem_cons.1 he with rfl | he
    · exact ⟨_, List.mem_cons_self, hplaced⟩
    · obtain ⟨p, hp, hplaced⟩ := ih he
      exact ⟨p, List.mem_cons_of_mem _ hp, hplaced⟩

end

/-! ## What the assignment returns -/

/-- The stake that the accounts delegate to the pool of an owner. -/
def stake (accounts : Finset DelegatorAccountV1) (owner : AccountAddress) : Nat :=
  ∑ e ∈ accounts with e.poolOwnerAddress = owner, e.balance

theorem assign_dealt {gen : MainnetGenesisAccountsGenerator}
    {allPools : TreeSet DelegationPoolConfigV1 E.poolOrder} {accounts : Finset DelegatorAccountV1}
    (haddresses : (delegatorAddresses E gen).Nodup)
    (h : gen.assignDelegatorsToDelegationPools E allPools = .ok accounts) :
    ∃ entries : List DelegatorAccountV1, entries.Nodup ∧ accounts = entries.toFinset ∧
      List.Forall₂ (Placed E (gen.foundationOperatedDelegationPools E allPools).toList)
        ((gen.delegationPoolSchedules.schedules.flatMap (delegatorsOf E)).zip
          (dealt E [] gen.delegationPoolSchedules.schedules).1) entries ∧
      ∀ owner, entries.countP (·.poolOwnerAddress = owner) ≤ E.maximumDelegatorsPerDelegationPool + 1 := by
  obtain ⟨s, hs, hlimit, rfl⟩ := assign_ok_iff.1 h
  obtain ⟨entries, hassigned, hplaced, hcounts⟩ := assignSchedules_dealt hs
  obtain ⟨_, _, hassigns⟩ := assignSchedules_ok hs .nil
  refine ⟨entries, ?_, by rw [hassigned, Finset.empty_union], hplaced, fun owner => ?_⟩
  · have hmap := placed_map (f := (·.address)) (g := (·.address)) (fun a pool => rfl)
      (length_dealt (E := E) []) hplaced
    have hnodup := (delegatorAddresses_perm hassigns.loaded).nodup_iff.2 haddresses
    rw [← hmap] at hnodup
    exact List.Nodup.of_map _ hnodup
  · have hcount := hcounts [] (fun owner => by simp) owner
    rw [List.nil_append] at hcount
    rw [← hcount]
    cases hget : s.assignmentCounts[owner]? with
    | none => exact Nat.zero_le _
    | some count => exact Nat.succ_le_succ (hlimit owner count hget)

/-! ## Spread -/

def largest (E : Env) (s : DelegationPoolUnlockSchedule) : Nat := (weights E s).foldr max 0

theorem le_largest {w : Nat} (h : w ∈ weights E schedule) : w ≤ largest E schedule :=
  List.le_max_of_le' 0 h (Nat.le_refl w)

theorem dealt_only {before after : List DelegationPoolUnlockSchedule}
    (honly : ∀ t ∈ before ++ after, delegatorsOf E t = []) :
    (dealt E [] (before ++ schedule :: after)).1 =
      (deal maxU64 (List.replicate ((before.map taken).sum + taken schedule) 0)
        (weights E schedule)).1.map ((before.map taken).sum + ·) := by
  obtain ⟨hbefore, hafter⟩ := List.forall_mem_append.1 honly
  rw [dealt_append, dealt_of_nil hbefore, dealt, List.nil_append, List.nil_append,
    List.replicate_append_replicate, List.length_replicate]
  dsimp only
  rw [dealt_of_nil hafter, List.append_nil]

/-- The stake of a pool is its load in a deal that starts without any. -/
theorem stake_mem_loads {q n : Nat} {accounts : List AccountBalance} {entries : List DelegatorAccountV1}
    (howners : (pools.map (·.ownerAddress)).Nodup) (hnodup : entries.Nodup)
    (h : List.Forall₂ (Placed E pools)
      (accounts.zip ((deal maxU64 (List.replicate (q + n) 0) (accounts.map E.balance)).1.map (q + ·)))
      entries)
    {p : DelegationPoolConfigV1} (hp : p ∈ (pools.drop q).take n) :
    stake entries.toFinset p.ownerAddress ∈
      (deal maxU64 (List.replicate (q + n) 0) (accounts.map E.balance)).2 := by
  obtain ⟨j, hj⟩ := List.getElem?_of_mem hp
  have hlt : j < q + n := by
    have hjn := (List.getElem?_eq_some_iff.1 hj).1
    rw [List.length_take] at hjn
    omega
  have hload : (deal maxU64 (List.replicate (q + n) 0) (accounts.map E.balance)).2[j]? = some _ :=
    getElem?_deal (List.getElem?_replicate_of_lt hlt)
  have hshare := placed_share (f := (·.balance)) (g := E.balance) (fun a pool => rfl) howners
    (by simp) h (getElem?_slice hj)
  rw [share_add] at hshare
  rw [stake, Finset.sum_filter, List.sum_toFinset _ hnodup, hshare]
  rw [Nat.zero_add] at hload
  exact List.mem_of_getElem? hload

theorem sum_stakes {entries : List DelegatorAccountV1} {owners : List AccountAddress}
    (hnodup : entries.Nodup) (howners : owners.Nodup)
    (h : ∀ e ∈ entries, e.poolOwnerAddress ∈ owners) :
    (owners.map (stake entries.toFinset)).sum = (entries.map (·.balance)).sum := by
  rw [← List.sum_toFinset _ howners, ← List.sum_toFinset _ hnodup]
  refine Finset.sum_fiberwise_of_maps_to (fun e he => ?_) _
  exact List.mem_toFinset.2 (h e (List.mem_toFinset.1 he))

/-- **Stake is spread evenly.** If only one schedule has accounts, the stakes of any two of its pools
differ by at most its largest balance, and all its pools together have the stake of its accounts. -/
theorem stake_spread_evenly (E : Env) (gen : MainnetGenesisAccountsGenerator)
    (allPools : TreeSet DelegationPoolConfigV1 E.poolOrder) (accounts : Finset DelegatorAccountV1)
    (before after : List DelegationPoolUnlockSchedule) (s : DelegationPoolUnlockSchedule)
    (hschedules : gen.delegationPoolSchedules.schedules = before ++ s :: after)
    (honly : ∀ t ∈ before ++ after, delegatorsOf E t = []) (hsum : (weights E s).sum ≤ maxU64)
    (haddresses : (delegatorAddresses E gen).Nodup)
    (howners : ((gen.foundationOperatedDelegationPools E allPools).toList.map (·.ownerAddress)).Nodup)
    (h : gen.assignDelegatorsToDelegationPools E allPools = .ok accounts) :
    let slice := sliceOf (gen.foundationOperatedDelegationPools E allPools).toList before s
    (∀ p ∈ slice, ∀ p' ∈ slice,
      stake accounts p.ownerAddress ≤ stake accounts p'.ownerAddress + largest E s) ∧
    (slice.map fun p => stake accounts p.ownerAddress).sum = (weights E s).sum := by
  intro slice
  obtain ⟨entries, hnodup, rfl, hplaced, -⟩ := assign_dealt haddresses h
  have hwithin := assignedWithin_of_ok haddresses (List.Nodup.of_map _ howners) h
  have hflat : gen.delegationPoolSchedules.schedules.flatMap (delegatorsOf E) = delegatorsOf E s := by
    obtain ⟨hbefore, hafter⟩ := List.forall_mem_append.1 honly
    rw [hschedules, List.flatMap_append, List.flatMap_cons, List.flatMap_eq_nil_iff.2 hbefore,
      List.flatMap_eq_nil_iff.2 hafter, List.nil_append, List.append_nil]
  rw [hflat, hschedules, dealt_only honly] at hplaced
  refine ⟨fun p hp p' hp' => ?_, ?_⟩
  · have hne : List.replicate ((before.map taken).sum + taken s) 0 ≠ [] := by
      have hpos : 0 < slice.length := List.length_pos_of_mem hp
      have hle : slice.length ≤ taken s := List.length_take_le _ _
      rw [Ne, List.replicate_eq_nil_iff]
      omega
    have hspread : Spread (largest E s)
        (deal maxU64 (List.replicate ((before.map taken).sum + taken s) 0) (weights E s)).2 :=
      (spread_replicate _ _ 0).deal hne (by simpa using hsum) fun w hw => le_largest hw
    exact hspread _ (stake_mem_loads howners hnodup hplaced hp) _
      (stake_mem_loads howners hnodup hplaced hp')
  · have howner : ∀ e ∈ entries, e.poolOwnerAddress ∈ slice.map (·.ownerAddress) := by
      intro e he
      obtain ⟨⟨a, r⟩, hp, pool, -, rfl⟩ := placed_of_mem hplaced he
      have ha : a ∈ delegatorsOf E s := (List.of_mem_zip hp).1
      have hs : s ∈ gen.delegationPoolSchedules.schedules := by simp [hschedules]
      obtain ⟨pool', hpool', he'⟩ := hwithin.within before s after hschedules a ha
      have heq := (hwithin.once s hs a ha).unique ⟨List.mem_toFinset.2 he, rfl⟩ ⟨he', rfl⟩
      rw [heq]
      exact List.mem_map_of_mem hpool'
    have hslice : (slice.map (·.ownerAddress)).Nodup :=
      howners.sublist (((List.take_sublist _ _).trans (List.drop_sublist _ _)).map _)
    have hstakes := sum_stakes hnodup hslice howner
    rw [List.map_map, placed_map (fun a pool => rfl) (by simp [weights]) hplaced] at hstakes
    exact hstakes

/-- Three accounts, two of them with one amount, of a schedule with two pools. -/
theorem stake_spread_evenly_two_pools :
    let E := small [0, 1] [{ oneSchedule with poolsWithDelegators := 2 }] [⟨1, 3⟩, ⟨2, 3⟩, ⟨4, 7⟩] [⟨3, 4⟩]
      [78999999983]
    ∃ gen pools accounts, tryFrom E paths = .ok gen ∧ gen.generateDelegationPoolConfigs E = .ok pools ∧
      gen.assignDelegatorsToDelegationPools E pools = .ok accounts ∧
      ∀ p ∈ (gen.foundationOperatedDelegationPools E pools).toList,
        ∀ p' ∈ (gen.foundationOperatedDelegationPools E pools).toList,
          stake accounts p.ownerAddress ≤ stake accounts p'.ownerAddress + 700000000 := by
  intro E
  have hcheck : ∃ gen, tryFrom E paths = .ok gen ∧
      ∃ pools, gen.generateDelegationPoolConfigs E = .ok pools ∧
      ∃ accounts, gen.assignDelegatorsToDelegationPools E pools = .ok accounts ∧
        (delegatorAddresses E gen).Nodup ∧
        ((gen.foundationOperatedDelegationPools E pools).toList.map (·.ownerAddress)).Nodup ∧
        gen.delegationPoolSchedules.schedules = [{ oneSchedule with poolsWithDelegators := 2 }] ∧
        sliceOf (gen.foundationOperatedDelegationPools E pools).toList []
          { oneSchedule with poolsWithDelegators := 2 } =
            (gen.foundationOperatedDelegationPools E pools).toList := by
    decide +kernel
  obtain ⟨gen, hgen, pools, hpools, accounts, haccounts, haddresses, howners, hschedules, hslice⟩ := hcheck
  have hspread := (stake_spread_evenly E gen pools accounts [] [] _ hschedules (fun t ht => by cases ht)
    (by decide +kernel) haddresses howners haccounts).1
  rw [hslice] at hspread
  have hlargest : largest E { oneSchedule with poolsWithDelegators := 2 } = 700000000 := by decide +kernel
  rw [hlargest] at hspread
  exact ⟨gen, pools, accounts, hgen, hpools, haccounts, hspread⟩

end Genesis.Proof
