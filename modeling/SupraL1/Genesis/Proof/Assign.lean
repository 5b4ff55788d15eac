import Mathlib.Data.Finset.Lattice.Lemmas
import SupraL1.Genesis.Proof.Accounts

/-!
# The assignment of the delegators

The schedules take the foundation's pools one slice after another. The delegators of a schedule are
dealt to its slice, but the index of the least loaded pool counts from the first pool of all, so the
deal starts behind the pools that have a balance already (`slots`). `assignSchedules_ok` says what
the assignment leaves: the accounts of all schedules, each with a pool of its schedule's slots, and
every slot with an account.
-/

namespace Genesis.Proof

open Std Fallible Deal
open Move (AccountAddress)
open MainnetGenesisAccountsGenerator

variable {E : Env}

def entry (E : Env) (a : AccountBalance) (pool : DelegationPoolConfigV1) : DelegatorAccountV1 :=
  ⟨a.address, E.balance a, pool.ownerAddress⟩

/-! ## The delegators of a schedule -/

/-- The entry is for the account and the pool at the index that it was dealt to. -/
def Placed (E : Env) (slice : List DelegationPoolConfigV1) (p : AccountBalance × Nat)
    (e : DelegatorAccountV1) : Prop :=
  ∃ pool, slice[p.2]? = some pool ∧ e = entry E p.1 pool

/-- The counts of the owners of the entries: the first entry of an owner is counted as zero. -/
def Counts (counts : TreeMap AccountAddress Nat) (entries : List DelegatorAccountV1) : Prop :=
  ∀ owner, (counts[owner]?).elim 0 (· + 1) = entries.countP (·.poolOwnerAddress = owner)

theorem Counts.snoc {counts : TreeMap AccountAddress Nat} {entries : List DelegatorAccountV1}
    (h : Counts counts entries) (e : DelegatorAccountV1) :
    Counts (counts.alter e.poolOwnerAddress countDelegator) (entries ++ [e]) := by
  intro owner
  have hold := h owner
  rw [TreeMap.getElem?_alter, List.countP_append, List.countP_singleton]
  by_cases heq : e.poolOwnerAddress = owner
  · rw [if_pos (Std.compare_eq_iff_eq.2 heq), if_pos (decide_eq_true heq), ← hold, heq]
    cases counts[owner]? <;> rfl
  · rw [if_neg (fun hcmp => heq (Std.compare_eq_iff_eq.1 hcmp)), if_neg (by simpa using heq), ← hold]
    rfl

theorem assignDelegator_ok {slice : List DelegationPoolConfigV1} {s s' : Assignment}
    {a : AccountBalance} (h : assignDelegator E slice s a = .ok s') :
    ∃ pool, slice[pick maxU64 s.poolBalances]? = some pool ∧
      s'.assigned = insert (entry E a pool) s.assigned ∧
      s'.assignmentCounts = s.assignmentCounts.alter (entry E a pool).poolOwnerAddress countDelegator ∧
      s'.poolBalances = s.poolBalances.modify (pick maxU64 s.poolBalances) (· + E.balance a) := by
  unfold assignDelegator at h
  dsimp only at h
  split at h
  · cases h
  · rename_i pool hpool
    cases h
    exact ⟨pool, hpool, rfl, rfl, rfl⟩

theorem assignDelegators_ok {slice : List DelegationPoolConfigV1} {accounts : List AccountBalance}
    {s s' : Assignment} (h : accounts.foldlM (assignDelegator E slice) s = .ok s') :
    let d := deal maxU64 s.poolBalances (accounts.map E.balance)
    s'.poolBalances = d.2 ∧ ∃ entries, s'.assigned = s.assigned ∪ entries.toFinset ∧
      List.Forall₂ (Placed E slice) (accounts.zip d.1) entries ∧
      ∀ before, Counts s.assignmentCounts before → Counts s'.assignmentCounts (before ++ entries) := by
  induction accounts generalizing s with
  | nil =>
    cases h
    exact ⟨rfl, [], by simp, .nil, fun before hbefore => by rwa [List.append_nil]⟩
  | cons a accounts ih =>
    obtain ⟨s₁, hstep, hrest⟩ := foldlM_cons_ok_iff.1 h
    obtain ⟨pool, hpool, hassigned, hcounts, hbalances⟩ := assignDelegator_ok hstep
    obtain ⟨hfinal, entries, hunion, hplaced, hrestCounts⟩ := ih hrest
    rw [hbalances] at hfinal hplaced
    refine ⟨hfinal, entry E a pool :: entries, ?_, .cons ⟨pool, hpool, rfl⟩ hplaced,
      fun before hbefore => ?_⟩
    · rw [hunion, hassigned, List.toFinset_cons, Finset.insert_union, Finset.union_insert]
    · rw [List.append_cons]
      exact hrestCounts _ (hcounts ▸ hbefore.snoc _)

section
variable {slice : List DelegationPoolConfigV1} {accounts : List AccountBalance} {js : List Nat}
  {entries : List DelegatorAccountV1}

theorem placed_map {β : Type} {f : DelegatorAccountV1 → β} {g : AccountBalance → β}
    (hfg : ∀ a pool, f (entry E a pool) = g a) (hlen : js.length = accounts.length)
    (h : List.Forall₂ (Placed E slice) (accounts.zip js) entries) :
    entries.map f = accounts.map g := by
  induction accounts generalizing js entries with
  | nil =>
    cases h
    rfl
  | cons a accounts ih =>
    obtain ⟨j, js, rfl⟩ := List.exists_cons_of_length_eq_add_one hlen
    obtain ⟨e, entries, ⟨pool, -, rfl⟩, htail, rfl⟩ := List.forall₂_cons_left_iff.1 h
    rw [List.map_cons, List.map_cons, hfg, ih (by simpa using hlen) htail]

theorem placed_mem {ps : List (AccountBalance × Nat)} {p : AccountBalance × Nat}
    (h : List.Forall₂ (Placed E slice) ps entries) (hp : p ∈ ps) :
    ∃ pool, slice[p.2]? = some pool ∧ entry E p.1 pool ∈ entries := by
  induction h with
  | nil => cases hp
  | cons hplaced _ ih =>
    rcases List.mem_cons.1 hp with rfl | hp
    · obtain ⟨pool, hpool, rfl⟩ := hplaced
      exact ⟨pool, hpool, List.mem_cons_self⟩
    · obtain ⟨pool, hpool, hmem⟩ := ih hp
      exact ⟨pool, hpool, List.mem_cons_of_mem _ hmem⟩

end

/-! ## The slots of a schedule -/

def weights (E : Env) (s : DelegationPoolUnlockSchedule) : List Nat := (delegatorsOf E s).map E.balance

/-- The number of pools that a schedule takes: none without a file of accounts. -/
def taken (s : DelegationPoolUnlockSchedule) : Nat :=
  if s.accountsFilePath.isSome then s.poolsWithDelegators else 0

/-- The indices into its pools that the delegators of a schedule are dealt to, when the first `f` of
all pools have a balance. -/
def slots (E : Env) (s : DelegationPoolUnlockSchedule) (f : Nat) : List Nat :=
  if weights E s = [] then []
  else (List.range' f (max 1 (heavy (weights E s)))).filter (· < s.poolsWithDelegators)

theorem mem_slots {s : DelegationPoolUnlockSchedule} {f j : Nat} : j ∈ slots E s f ↔
    weights E s ≠ [] ∧ f ≤ j ∧ j < f + max 1 (heavy (weights E s)) ∧ j < s.poolsWithDelegators := by
  unfold slots
  split
  · simp [*]
  · simp [*, List.mem_range'_1, and_assoc]

/-- The schedules with the ranks of the pools that their delegators are dealt to. `q` pools have been
taken before, and the first `f` of them have a balance. -/
def dealtPools (E : Env) : (f q : Nat) → List DelegationPoolUnlockSchedule →
    List (DelegationPoolUnlockSchedule × Nat)
  | _, _, [] => []
  | f, q, s :: schedules => (slots E s f).map (fun j => (s, q + j)) ++
      dealtPools E (min (f + heavy (weights E s)) (q + taken s)) (q + taken s) schedules

theorem mem_of_mem_dealtPools {schedules : List DelegationPoolUnlockSchedule}
    {s : DelegationPoolUnlockSchedule} {f q r : Nat} (h : (s, r) ∈ dealtPools E f q schedules) :
    s ∈ schedules := by
  induction schedules generalizing f q with
  | nil => cases h
  | cons t schedules ih =>
    rcases List.mem_append.1 h with h | h
    · obtain ⟨j, -, heq⟩ := List.mem_map.1 h
      cases heq
      exact List.mem_cons_self
    · exact List.mem_cons_of_mem t (ih h)

/-- The entries assign the delegators of the schedules to pools of these ranks. -/
structure Assigns (E : Env) (pools : List DelegationPoolConfigV1)
    (schedules : List DelegationPoolUnlockSchedule) (ranks : List (DelegationPoolUnlockSchedule × Nat))
    (entries : List DelegatorAccountV1) : Prop where
  loaded : ∀ s ∈ schedules, ∃ o, s.accounts E = .ok o
  addresses : entries.map (·.address) = (schedules.flatMap (delegatorsOf E)).map (·.address)
  balances : entries.map (·.balance) = (schedules.flatMap (delegatorsOf E)).map E.balance
  placed : ∀ s ∈ schedules, ∀ a ∈ delegatorsOf E s, ∃ r pool,
    (s, r) ∈ ranks ∧ pools[r]? = some pool ∧ entry E a pool ∈ entries
  filled : ∀ s r, (s, r) ∈ ranks → ∃ a ∈ delegatorsOf E s, ∃ pool,
    pools[r]? = some pool ∧ entry E a pool ∈ entries

namespace Assigns

variable {pools : List DelegationPoolConfigV1} {s : DelegationPoolUnlockSchedule}
  {schedules : List DelegationPoolUnlockSchedule} {rs rs' : List (DelegationPoolUnlockSchedule × Nat)}
  {es es' : List DelegatorAccountV1}

theorem nil : Assigns E pools [] [] [] := ⟨nofun, rfl, rfl, nofun, nofun⟩

theorem cons (h : Assigns E pools [s] rs es) (h' : Assigns E pools schedules rs' es') :
    Assigns E pools (s :: schedules) (rs ++ rs') (es ++ es') where
  loaded := List.forall_mem_cons.2 ⟨h.loaded s List.mem_cons_self, h'.loaded⟩
  addresses := by
    rw [List.map_append, h.addresses, h'.addresses]
    simp
  balances := by
    rw [List.map_append, h.balances, h'.balances]
    simp
  placed t ht a ha := by
    rcases List.mem_cons.1 ht with rfl | ht
    · obtain ⟨r, pool, hr, hpool, he⟩ := h.placed t List.mem_cons_self a ha
      exact ⟨r, pool, List.mem_append_left _ hr, hpool, List.mem_append_left _ he⟩
    · obtain ⟨r, pool, hr, hpool, he⟩ := h'.placed t ht a ha
      exact ⟨r, pool, List.mem_append_right _ hr, hpool, List.mem_append_right _ he⟩
  filled t r hr := by
    rcases List.mem_append.1 hr with hr | hr
    · obtain ⟨a, ha, pool, hpool, he⟩ := h.filled t r hr
      exact ⟨a, ha, pool, hpool, List.mem_append_left _ he⟩
    · obtain ⟨a, ha, pool, hpool, he⟩ := h'.filled t r hr
      exact ⟨a, ha, pool, hpool, List.mem_append_right _ he⟩

theorem nodup_addresses {gen : MainnetGenesisAccountsGenerator}
    (h : Assigns E pools gen.delegationPoolSchedules.schedules rs es)
    (hnodup : (delegatorAddresses E gen).Nodup) : (es.map (·.address)).Nodup := by
  rw [h.addresses]
  exact (delegatorAddresses_perm h.loaded).nodup_iff.2 hnodup

end Assigns

/-! ## All schedules -/

theorem sorted_delegators {path : String} {a : AccountBalances}
    (h : AccountBalances.fromFile E path = .ok a) :
    a.balances.insertionSort AccountBalance.le = a.balances ∧
      (a.balances.map E.balance).Pairwise (· ≤ ·) := by
  have hle : a.balances.Pairwise AccountBalance.le := by
    rw [(fromFile_ok h).1]
    exact List.pairwise_insertionSort _ _
  refine ⟨hle.insertionSort_eq, List.pairwise_map.2 (hle.imp fun hab => ?_)⟩
  exact Nat.floor_mono (by gcongr)

section
variable {pools : List DelegationPoolConfigV1} {schedule : DelegationPoolUnlockSchedule}

theorem getElem?_slice {q n j : Nat} {pool : DelegationPoolConfigV1}
    (h : ((pools.drop q).take n)[j]? = some pool) : pools[q + j]? = some pool := by
  rw [List.getElem?_take] at h
  split at h
  · rwa [List.getElem?_drop] at h
  · cases h

theorem assigns_none (h : schedule.accounts E = .ok none) (f q : Nat) :
    Assigns E pools [schedule] ((slots E schedule f).map fun j => (schedule, q + j)) [] := by
  have hnil : delegatorsOf E schedule = [] := by rw [delegatorsOf, h]
  have hslots : slots E schedule f = [] := by simp [slots, weights, hnil]
  rw [hslots]
  refine ⟨by simp [h], by simp [hnil], by simp [hnil], fun s hs a ha => ?_, by simp⟩
  rw [List.mem_singleton.1 hs, hnil] at ha
  cases ha

theorem assigns_deal {o : Option AccountBalances} {f q : Nat} {loads : List Nat}
    {entries : List DelegatorAccountV1} (ho : schedule.accounts E = .ok o)
    (hfront : Front loads f) (hroom : f + schedule.poolsWithDelegators ≤ loads.length)
    (hsorted : (weights E schedule).Pairwise (· ≤ ·))
    (hplaced : List.Forall₂ (Placed E ((pools.drop q).take schedule.poolsWithDelegators))
      ((delegatorsOf E schedule).zip (deal maxU64 loads (weights E schedule)).1) entries) :
    Assigns E pools [schedule] ((slots E schedule f).map fun j => (schedule, q + j)) entries := by
  have hlen : (deal maxU64 loads (weights E schedule)).1.length = (delegatorsOf E schedule).length := by
    rw [length_deal_fst, weights, List.length_map]
  have hindex : ∀ j ∈ (deal maxU64 loads (weights E schedule)).1, ∃ a ∈ delegatorsOf E schedule,
      (a, j) ∈ (delegatorsOf E schedule).zip (deal maxU64 loads (weights E schedule)).1 := by
    intro j hj
    rw [← List.map_snd_zip (Nat.le_of_eq hlen)] at hj
    obtain ⟨⟨a, j⟩, hp, rfl⟩ := List.mem_map.1 hj
    exact ⟨a, (List.of_mem_zip hp).1, hp⟩
  have hbelow : ∀ j ∈ (deal maxU64 loads (weights E schedule)).1, j < schedule.poolsWithDelegators := by
    intro j hj
    obtain ⟨a, -, hp⟩ := hindex j hj
    obtain ⟨pool, hpool, -⟩ := placed_mem hplaced hp
    have hlt := (List.getElem?_eq_some_iff.1 hpool).1
    exact Nat.lt_of_lt_of_le hlt (List.length_take_le _ _)
  have hmem : ∀ j, j ∈ (deal maxU64 loads (weights E schedule)).1 ↔ j ∈ slots E schedule f := by
    intro j
    rw [mem_slots]
    by_cases hne : weights E schedule = []
    · simp [hne, deal]
    · rw [mem_deal_iff hfront (by decide) hsorted hne hroom hbelow]
      simp [hne]
  refine ⟨by simp [ho], ?_, ?_, fun s hs a ha => ?_, fun s r hr => ?_⟩
  · simpa using placed_map (fun a pool => rfl) hlen hplaced
  · simpa using placed_map (fun a pool => rfl) hlen hplaced
  · rw [List.mem_singleton.1 hs] at ha ⊢
    rw [← List.map_fst_zip (Nat.le_of_eq hlen.symm)] at ha
    obtain ⟨⟨a, j⟩, hp, rfl⟩ := List.mem_map.1 ha
    obtain ⟨pool, hpool, he⟩ := placed_mem hplaced hp
    have hj := (hmem j).1 (List.of_mem_zip hp).2
    exact ⟨q + j, pool, List.mem_map.2 ⟨j, hj, rfl⟩, getElem?_slice hpool, he⟩
  · obtain ⟨j, hj, heq⟩ := List.mem_map.1 hr
    cases heq
    obtain ⟨a, ha, hp⟩ := hindex j ((hmem j).2 hj)
    obtain ⟨pool, hpool, he⟩ := placed_mem hplaced hp
    exact ⟨a, ha, pool, getElem?_slice hpool, he⟩

/-- A schedule deals its delegators to the next pools. One without a file takes none and has none. -/
theorem assignSchedule_eq {s : Assignment} {o : Option AccountBalances}
    (hlen : schedule.poolsWithDelegators ≤ pools.length - s.poolBalances.length)
    (ho : schedule.accounts E = .ok o) :
    assignSchedule E pools s schedule = (delegatorsOf E schedule).foldlM
      (assignDelegator E ((pools.drop s.poolBalances.length).take schedule.poolsWithDelegators))
      { s with poolBalances := s.poolBalances ++ List.replicate (taken schedule) 0 } := by
  have hslice : ((pools.drop s.poolBalances.length).take schedule.poolsWithDelegators).length =
      schedule.poolsWithDelegators := by
    rw [List.length_take, List.length_drop]
    omega
  unfold assignSchedule
  dsimp only
  rw [if_neg (not_not.2 hslice), ho, hslice]
  cases o with
  | none =>
    have htaken : taken schedule = 0 := by simp [taken, accounts_none ho]
    have hnil : delegatorsOf E schedule = [] := by rw [delegatorsOf, ho]
    rw [htaken, hnil, List.replicate_zero, List.append_nil]
    rfl
  | some accounts =>
    obtain ⟨path, hpath, hfile⟩ := accounts_some ho
    have hdelegators : delegatorsOf E schedule = accounts.balances := by rw [delegatorsOf, ho]
    have htaken : taken schedule = schedule.poolsWithDelegators := by simp [taken, hpath]
    rw [hdelegators, htaken]
    conv_rhs => rw [← (sorted_delegators hfile).1]
    rfl

theorem weights_sorted {o : Option AccountBalances} (ho : schedule.accounts E = .ok o) :
    (weights E schedule).Pairwise (· ≤ ·) := by
  rw [weights, delegatorsOf, ho]
  cases o with
  | none => exact .nil
  | some accounts =>
    obtain ⟨path, -, hfile⟩ := accounts_some ho
    exact (sorted_delegators hfile).2

theorem assignSchedule_inv {s s' : Assignment} (h : assignSchedule E pools s schedule = .ok s') :
    schedule.poolsWithDelegators ≤ pools.length - s.poolBalances.length ∧
      ∃ o, schedule.accounts E = .ok o := by
  unfold assignSchedule at h
  dsimp only at h
  split at h
  · cases h
  · rename_i hlen
    rw [not_not, List.length_take, List.length_drop] at hlen
    obtain ⟨o, ho, -⟩ := bind_ok_iff.1 h
    exact ⟨by omega, o, ho⟩

theorem assignSchedule_ok {s s' : Assignment} {f : Nat}
    (h : assignSchedule E pools s schedule = .ok s') (hfront : Front s.poolBalances f) :
    let q := s.poolBalances.length
    s'.poolBalances.length = q + taken schedule ∧
    Front s'.poolBalances (min (f + heavy (weights E schedule)) (q + taken schedule)) ∧
    ∃ entries, s'.assigned = s.assigned ∪ entries.toFinset ∧
      Assigns E pools [schedule] ((slots E schedule f).map fun j => (schedule, q + j)) entries := by
  intro q
  obtain ⟨hlen, o, ho⟩ := assignSchedule_inv h
  rw [assignSchedule_eq hlen ho] at h
  obtain ⟨hfinal, entries, hassigned, hplaced, -⟩ := assignDelegators_ok h
  have hlength : (s.poolBalances ++ List.replicate (taken schedule) 0).length = q + taken schedule := by
    simp [q]
  refine ⟨by rw [hfinal, length_deal_snd, hlength], ?_, entries, hassigned, ?_⟩
  · rw [hfinal, ← hlength]
    exact front_deal (hfront.append _) (by decide)
  · cases o with
    | none =>
      have hnil : delegatorsOf E schedule = [] := by rw [delegatorsOf, ho]
      rw [hnil] at hplaced
      cases hplaced
      exact assigns_none ho f q
    | some accounts =>
      obtain ⟨path, hpath, -⟩ := accounts_some ho
      have htaken : taken schedule = schedule.poolsWithDelegators := by simp [taken, hpath]
      have hle : f ≤ q := hfront.le
      exact assigns_deal ho (hfront.append _) (by omega) (weights_sorted ho) hplaced

theorem assignSchedules_ok {schedules : List DelegationPoolUnlockSchedule} {s s' : Assignment} {f : Nat}
    (h : schedules.foldlM (assignSchedule E pools) s = .ok s') (hfront : Front s.poolBalances f) :
    ∃ entries, s'.assigned = s.assigned ∪ entries.toFinset ∧
      Assigns E pools schedules (dealtPools E f s.poolBalances.length schedules) entries := by
  induction schedules generalizing s f with
  | nil =>
    cases h
    exact ⟨[], by simp, .nil⟩
  | cons schedule schedules ih =>
    obtain ⟨s₁, hstep, hrest⟩ := foldlM_cons_ok_iff.1 h
    obtain ⟨hlength, hfront₁, entries, hassigned, hassigns⟩ := assignSchedule_ok hstep hfront
    obtain ⟨entries', hassigned', hassigns'⟩ := ih hrest hfront₁
    rw [hlength] at hassigns'
    refine ⟨entries ++ entries', ?_, hassigns.cons hassigns'⟩
    rw [hassigned', hassigned, List.toFinset_append, Finset.union_assoc]

end

theorem assign_ok_iff {gen : MainnetGenesisAccountsGenerator}
    {allPools : TreeSet DelegationPoolConfigV1 E.poolOrder} {accounts : Finset DelegatorAccountV1} :
    gen.assignDelegatorsToDelegationPools E allPools = .ok accounts ↔
      ∃ s, gen.delegationPoolSchedules.schedules.foldlM
          (assignSchedule E (gen.foundationOperatedDelegationPools E allPools).toList) ⟨∅, ∅, []⟩ = .ok s ∧
        (∀ (owner : AccountAddress) count, s.assignmentCounts[owner]? = some count →
          count ≤ E.maximumDelegatorsPerDelegationPool) ∧ s.assigned = accounts := by
  refine bind_ok_iff.trans (exists_congr fun s => and_congr_right fun _ => ?_)
  have hfind : s.assignmentCounts.toList.find?
        (fun p => E.maximumDelegatorsPerDelegationPool < p.2) = none ↔
      ∀ (owner : AccountAddress) count, s.assignmentCounts[owner]? = some count →
        count ≤ E.maximumDelegatorsPerDelegationPool := by
    simp [List.find?_eq_none, TreeMap.mem_toList_iff_getElem?_eq_some]
  split
  · rename_i owner count hsome
    refine ⟨fun h => (by cases h), fun h => ?_⟩
    cases hsome.symm.trans (hfind.2 h.1)
  · rename_i hnone
    rw [pure_ok_iff]
    exact ⟨fun h => ⟨hfind.1 hnone, h⟩, fun h => h.2⟩

theorem assignDelegatorsToDelegationPools_ok {gen : MainnetGenesisAccountsGenerator}
    {allPools : TreeSet DelegationPoolConfigV1 E.poolOrder} {accounts : Finset DelegatorAccountV1}
    (h : gen.assignDelegatorsToDelegationPools E allPools = .ok accounts) :
    ∃ entries, accounts = entries.toFinset ∧
      Assigns E (gen.foundationOperatedDelegationPools E allPools).toList
        gen.delegationPoolSchedules.schedules (dealtPools E 0 0 gen.delegationPoolSchedules.schedules)
        entries := by
  obtain ⟨s, hs, -, rfl⟩ := assign_ok_iff.1 h
  obtain ⟨entries, hassigned, hassigns⟩ := assignSchedules_ok hs .nil
  exact ⟨entries, by rw [hassigned, Finset.empty_union], hassigns⟩

theorem generate_ok {gen : MainnetGenesisAccountsGenerator} {config : GenesisAccountsV1 E}
    (h : gen.generate E = .ok config) :
    gen.generateDelegationPoolConfigs E = .ok config.delegationPools ∧
    gen.assignDelegatorsToDelegationPools E config.delegationPools = .ok config.delegatorAccounts ∧
    gen.generateFoundationStandaloneMultisigAccounts E = .ok config.multisigAccounts ∧
    config.vestingAccounts = gen.vestingAccounts ∧
    config.accounts = gen.generateFoundationMultisigOwnerAccounts E ∧
    config.multisigAccountSchema = gen.generateFoundationMultisigAccountsSchema E := by
  obtain ⟨pools, hpools, h⟩ := bind_ok_iff.1 h
  obtain ⟨accounts, haccounts, h⟩ := bind_ok_iff.1 h
  obtain ⟨vestingPools, -, h⟩ := bind_ok_iff.1 h
  dsimp only at h
  split at h
  · cases h
  · obtain ⟨multisig, hmultisig, h⟩ := bind_ok_iff.1 h
    obtain ⟨⟨⟩, -, h⟩ := bind_ok_iff.1 h
    obtain ⟨⟨⟩, -, h⟩ := bind_ok_iff.1 h
    obtain rfl := pure_ok_iff.1 h
    exact ⟨hpools, haccounts, hmultisig, rfl, rfl, rfl⟩

end Genesis.Proof
