import SupraL1.Lib.RoundRobin
import SupraL1.Genesis.Proof.Stakes

/-!
# The limit of delegators per pool

The assignment counts the first delegator of a pool as zero, so a pool may get one delegator more than
the limit. Which pools do is a matter of the files alone: in the ascending order of the balances the
accounts of a schedule go to its pools in turn, those without a balance all to the first one, so the
pool with the most delegators of a schedule has `mostDelegators`.
-/

namespace Genesis.Proof

open Std Fallible Deal
open Move (AccountAddress)
open MainnetGenesisAccountsGenerator

variable {E : Env} {pools : List DelegationPoolConfigV1} {schedule : DelegationPoolUnlockSchedule}
  {schedules : List DelegationPoolUnlockSchedule}

/-- The number of delegators of the pool of a schedule that gets the most: all accounts of the file
without a balance, and its share of the others, rounded up. -/
def mostDelegators (E : Env) (s : DelegationPoolUnlockSchedule) : Nat :=
  (scheduleListing E s).countP (E.balance · = 0) +
    ((scheduleListing E s).countP (0 < E.balance ·) + (s.poolsWithDelegators - 1)) / s.poolsWithDelegators

theorem mostDelegators_eq {o : Option AccountBalances} (ho : schedule.accounts E = .ok o) :
    mostDelegators E schedule = busiest schedule.poolsWithDelegators (weights E schedule) := by
  have hperm := delegatorsOf_perm ho
  rw [mostDelegators, busiest, heavy, weights, List.count, List.countP_map, List.countP_map,
    hperm.countP_eq, hperm.countP_eq]
  rfl

/-! ## The busiest pool of each schedule -/

theorem count_map_le_iff {l : List Nat} {q limit : Nat} :
    (∀ r, (l.map (q + ·)).count r ≤ limit) ↔ ∀ j, l.count j ≤ limit := by
  have hinj : Function.Injective (q + ·) := fun _ _ h => Nat.add_left_cancel h
  constructor
  · intro h j
    rw [← List.count_map_of_injective l _ hinj]
    exact h (q + j)
  · intro h r
    rcases Nat.lt_or_ge r q with hr | hr
    · have hnot : r ∉ l.map (q + ·) := by
        intro hmem
        obtain ⟨j, -, rfl⟩ := List.mem_map.1 hmem
        omega
      rw [List.count_eq_zero.2 hnot]
      exact Nat.zero_le _
    · obtain ⟨j, rfl⟩ := Nat.exists_eq_add_of_le hr
      rw [List.count_map_of_injective l (q + ·) hinj]
      exact h j

theorem count_append_le_iff {l l' : List Nat} {limit : Nat} (h : l.Disjoint l') :
    (∀ r, (l ++ l').count r ≤ limit) ↔ (∀ r, l.count r ≤ limit) ∧ ∀ r, l'.count r ≤ limit := by
  simp only [List.count_append]
  constructor
  · exact fun hall => ⟨fun r => (Nat.le_add_right _ _).trans (hall r),
      fun r => (Nat.le_add_left _ _).trans (hall r)⟩
  · rintro ⟨hl, hl'⟩ r
    by_cases hr : r ∈ l
    · rw [List.count_eq_zero.2 (h hr), Nat.add_zero]
      exact hl r
    · rw [List.count_eq_zero.2 hr, Nat.zero_add]
      exact hl' r

theorem count_schedule {s s' : Assignment} {f : Nat}
    (h : assignSchedule E pools s schedule = .ok s') (hfront : Front s.poolBalances f)
    (hsum : (weights E schedule).sum ≤ maxU64) :
    let d := deal maxU64 (s.poolBalances ++ List.replicate (taken schedule) 0) (weights E schedule)
    s'.poolBalances = d.2 ∧ (∀ j ∈ d.1, j < taken schedule) ∧
      ∀ limit, (∀ j, d.1.count j ≤ limit) ↔ mostDelegators E schedule ≤ limit := by
  intro d
  obtain ⟨hlen, o, ho⟩ := assignSchedule_inv h
  rw [assignSchedule_eq hlen ho] at h
  refine ⟨(assignDelegators_ok h).1, ?_⟩
  rw [mostDelegators_eq ho]
  have hslice : ((pools.drop s.poolBalances.length).take schedule.poolsWithDelegators).length =
      schedule.poolsWithDelegators := by
    rw [List.length_take, List.length_drop]
    omega
  have hall : ∀ j ∈ d.1, j < schedule.poolsWithDelegators := by
    rcases assignDelegators_cases (E := E)
      ((pools.drop s.poolBalances.length).take schedule.poolsWithDelegators) (delegatorsOf E schedule)
      { s with poolBalances := s.poolBalances ++ List.replicate (taken schedule) 0 } with
      ⟨hall, -⟩ | ⟨-, hpanic⟩
    · rwa [hslice] at hall
    · cases h.symm.trans hpanic
  cases o with
  | none =>
    have hnil : weights E schedule = [] := by simp [weights, delegatorsOf, ho]
    have hd : d.1 = [] := by simp only [d, hnil, deal]
    rw [hd, hnil, busiest_nil]
    exact ⟨fun j hj => (by cases hj), fun limit => by simp⟩
  | some accounts =>
    obtain ⟨path, hpath, -⟩ := accounts_some ho
    have htaken : taken schedule = schedule.poolsWithDelegators := by simp [taken, hpath]
    obtain ⟨hle, j, hj⟩ := count_deal (hfront.append (taken schedule)) (by decide) (weights_sorted ho)
      hfront.le (by simp [htaken]) hsum hall
    refine ⟨by rwa [htaken], fun limit => ⟨fun hlimit => ?_, fun hlimit j' => ?_⟩⟩
    · rw [← hj]
      exact hlimit j
    · exact (hle j').trans hlimit

/-- **The ranks of all schedules**: none has more than `limit` accounts exactly if no schedule has a pool
with more. -/
theorem count_schedules {s s' : Assignment} {f : Nat}
    (h : schedules.foldlM (assignSchedule E pools) s = .ok s') (hfront : Front s.poolBalances f)
    (hsum : ∀ t ∈ schedules, (weights E t).sum ≤ maxU64) :
    (∀ r ∈ (dealt E s.poolBalances schedules).1, s.poolBalances.length ≤ r) ∧
      ∀ limit, (∀ r, (dealt E s.poolBalances schedules).1.count r ≤ limit) ↔
        ∀ t ∈ schedules, mostDelegators E t ≤ limit := by
  induction schedules generalizing s f with
  | nil => exact ⟨fun _ hr => (by cases hr), fun limit => ⟨fun _ _ ht => (by cases ht), fun _ _ => Nat.zero_le _⟩⟩
  | cons schedule schedules ih =>
    obtain ⟨hhead, hrest⟩ := List.forall_mem_cons.1 hsum
    obtain ⟨s₁, hstep, hruns⟩ := foldlM_cons_ok_iff.1 h
    obtain ⟨hlength, hfront₁, -⟩ := assignSchedule_ok hstep hfront
    obtain ⟨hbalances, hbelow, hcount⟩ := count_schedule hstep hfront hhead
    obtain ⟨habove, hcounts⟩ := ih hruns hfront₁ hrest
    rw [hlength] at habove
    rw [hbalances] at habove hcounts
    rw [dealt]
    dsimp only
    refine ⟨fun r hr => ?_, fun limit => ?_⟩
    · rcases List.mem_append.1 hr with hr | hr
      · obtain ⟨j, -, rfl⟩ := List.mem_map.1 hr
        omega
      · have := habove r hr
        omega
    · rw [List.forall_mem_cons, ← hcount, ← hcounts, count_append_le_iff, count_map_le_iff]
      intro r hr hr'
      obtain ⟨j, hj, rfl⟩ := List.mem_map.1 hr
      have := hbelow j hj
      have := habove _ hr'
      omega

/-! ## The delegators of a pool -/

def delegatorsIn (accounts : Finset DelegatorAccountV1) (owner : AccountAddress) :
    Finset DelegatorAccountV1 :=
  accounts.filter (·.poolOwnerAddress = owner)

section
variable {ranks : List Nat} {accounts : List AccountBalance} {entries : List DelegatorAccountV1}
  (howners : (pools.map (·.ownerAddress)).Nodup) (hnodup : entries.Nodup)
  (hlen : ranks.length = accounts.length)
  (hplaced : List.Forall₂ (Placed E pools) (accounts.zip ranks) entries)
include howners hnodup hlen hplaced

theorem card_delegatorsIn {r : Nat} {pool : DelegationPoolConfigV1} (hpool : pools[r]? = some pool) :
    (delegatorsIn entries.toFinset pool.ownerAddress).card = ranks.count r := by
  have hshare := placed_share (f := fun _ => 1) (g := fun _ => 1) (fun a pool => rfl) howners hlen
    hplaced hpool
  rw [List.map_const', ← hlen, ← List.map_const', share_one] at hshare
  rw [← hshare, delegatorsIn, Finset.card_filter, List.sum_toFinset _ hnodup]

/-- The delegators of an owner are the accounts that are dealt to the rank of the owner's pool. -/
theorem card_delegatorsIn_le_iff (limit : Nat) :
    (∀ owner, (delegatorsIn entries.toFinset owner).card ≤ limit) ↔ ∀ r, ranks.count r ≤ limit := by
  constructor
  · intro hall r
    rcases Nat.eq_zero_or_pos (ranks.count r) with hzero | hpos
    · rw [hzero]
      exact Nat.zero_le _
    · have hmem := List.count_pos_iff.1 hpos
      rw [← List.map_snd_zip (Nat.le_of_eq hlen)] at hmem
      obtain ⟨p, hp, rfl⟩ := List.mem_map.1 hmem
      obtain ⟨pool, hpool, -⟩ := placed_mem hplaced hp
      rw [← card_delegatorsIn howners hnodup hlen hplaced hpool]
      exact hall pool.ownerAddress
  · intro hall owner
    rcases (delegatorsIn entries.toFinset owner).eq_empty_or_nonempty with hempty | ⟨e, he⟩
    · rw [hempty]
      exact Nat.zero_le _
    · obtain ⟨hmem, rfl⟩ := Finset.mem_filter.1 he
      obtain ⟨p, -, pool, hpool, rfl⟩ := placed_of_mem hplaced (List.mem_toFinset.1 hmem)
      rw [entry, card_delegatorsIn howners hnodup hlen hplaced hpool]
      exact hall p.2

end

/-- **When the limit of delegators is kept.** A pool gets at most one delegator more than the limit, and
none gets more than the limit exactly if no schedule has a pool with more. -/
theorem delegator_limit_iff (E : Env) (gen : MainnetGenesisAccountsGenerator)
    (allPools : TreeSet DelegationPoolConfigV1 E.poolOrder) (accounts : Finset DelegatorAccountV1)
    (haddresses : (delegatorAddresses E gen).Nodup)
    (howners : ((gen.foundationOperatedDelegationPools E allPools).toList.map (·.ownerAddress)).Nodup)
    (hsum : ∀ s ∈ gen.delegationPoolSchedules.schedules,
      ((scheduleListing E s).map E.balance).sum ≤ maxU64)
    (h : gen.assignDelegatorsToDelegationPools E allPools = .ok accounts) :
    (∀ owner, (delegatorsIn accounts owner).card ≤ E.maximumDelegatorsPerDelegationPool + 1) ∧
    ((∀ owner, (delegatorsIn accounts owner).card ≤ E.maximumDelegatorsPerDelegationPool) ↔
      ∀ s ∈ gen.delegationPoolSchedules.schedules,
        mostDelegators E s ≤ E.maximumDelegatorsPerDelegationPool) := by
  obtain ⟨entries, hnodup, rfl, hplaced, hlimit⟩ := assign_dealt haddresses h
  obtain ⟨s, hs, -, -⟩ := assign_ok_iff.1 h
  obtain ⟨_, -, hassigns⟩ := assignSchedules_ok hs .nil
  have hweights : ∀ t ∈ gen.delegationPoolSchedules.schedules, (weights E t).sum ≤ maxU64 := by
    intro t ht
    obtain ⟨o, ho⟩ := hassigns.loaded t ht
    rw [weights, ((delegatorsOf_perm ho).map E.balance).sum_eq]
    exact hsum t ht
  have hiff := card_delegatorsIn_le_iff howners hnodup (length_dealt (E := E) []) hplaced
  have hcard (owner : AccountAddress) : (delegatorsIn entries.toFinset owner).card =
      entries.countP (·.poolOwnerAddress = owner) := by
    rw [List.countP_eq_length_filter, ← List.toFinset_card_of_nodup (hnodup.filter _),
      List.toFinset_filter]
    simp only [decide_eq_true_eq, delegatorsIn]
  refine ⟨fun owner => ?_, (hiff _).trans ((count_schedules hs .nil hweights).2 _)⟩
  rw [hcard]
  exact hlimit owner

/-- Three accounts of a schedule with two pools and a limit of two: one of the pools has two of them. -/
theorem delegator_limit_iff_small :
    let E := { small [0, 1] [{ oneSchedule with poolsWithDelegators := 2 }] [⟨1, 3⟩, ⟨2, 3⟩, ⟨4, 7⟩]
      [⟨3, 4⟩] [78999999983] with maximumDelegatorsPerDelegationPool := 2 }
    ∃ gen pools accounts, tryFrom E paths = .ok gen ∧ gen.generateDelegationPoolConfigs E = .ok pools ∧
      gen.assignDelegatorsToDelegationPools E pools = .ok accounts ∧
      (delegatorsIn accounts 1000).card = 2 ∧ ∀ owner, (delegatorsIn accounts owner).card ≤ 2 := by
  intro E
  have hcheck : ∃ gen, tryFrom E paths = .ok gen ∧
      ∃ pools, gen.generateDelegationPoolConfigs E = .ok pools ∧
      ∃ accounts, gen.assignDelegatorsToDelegationPools E pools = .ok accounts ∧
        (delegatorsIn accounts 1000).card = 2 ∧ (delegatorAddresses E gen).Nodup ∧
        ((gen.foundationOperatedDelegationPools E pools).toList.map (·.ownerAddress)).Nodup ∧
        (∀ s ∈ gen.delegationPoolSchedules.schedules,
          ((scheduleListing E s).map E.balance).sum ≤ maxU64) ∧
        ∀ s ∈ gen.delegationPoolSchedules.schedules, mostDelegators E s ≤ 2 := by
    decide +kernel
  obtain ⟨gen, hgen, pools, hpools, accounts, haccounts, htwo, haddresses, howners, hsum, hmost⟩ := hcheck
  have hiff := (delegator_limit_iff E gen pools accounts haddresses howners hsum haccounts).2
  exact ⟨gen, pools, accounts, hgen, hpools, haccounts, htwo, hiff.2 hmost⟩

/-- With a limit of one, two delegators of a pool are accepted. -/
theorem delegator_limit_exceeded :
    let E := { small [0] [oneSchedule] [⟨1, 3⟩, ⟨2, 5⟩] [⟨3, 4⟩] [78999999988] with
      maximumDelegatorsPerDelegationPool := 1 }
    ∃ gen, tryFrom E paths = .ok gen ∧ (delegatorAddresses E gen).Nodup ∧
      ∃ pools, gen.generateDelegationPoolConfigs E = .ok pools ∧
        ((gen.foundationOperatedDelegationPools E pools).toList.map (·.ownerAddress)).Nodup ∧
        ∃ accounts, gen.assignDelegatorsToDelegationPools E pools = .ok accounts ∧
          (delegatorsIn accounts 1000).card = 2 := by
  decide +kernel

end Genesis.Proof
