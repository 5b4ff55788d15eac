import SupraL1.Genesis.Proof.Assign

/-!
# The slices of the schedules

Every schedule with a file takes the next pools as its slice. The index of the least loaded pool is
one into the balances of all slices so far, but it is used inside the slice of the current schedule.
It stays there if there is no slice before, or if the pools that get an account, from the first one
without a balance on, are within the length of the slice (`fitsSlice`); else the access is out of
bounds (`assignSchedules_panics_iff`). When the assignment succeeds, every account has one entry, for
a pool of its schedule's slice.
-/

namespace Genesis.Proof

open Std Fallible Deal
open Move (AccountAddress)
open MainnetGenesisAccountsGenerator

variable {E : Env} {pools slice : List DelegationPoolConfigV1} {schedule : DelegationPoolUnlockSchedule}
  {schedules : List DelegationPoolUnlockSchedule}

/-! ## Accesses to a slice -/

theorem assignDelegator_of_lt {s : Assignment} {a : AccountBalance}
    (h : pick maxU64 s.poolBalances < slice.length) :
    ∃ s', assignDelegator E slice s a = .ok s' ∧
      s'.poolBalances = s.poolBalances.modify (pick maxU64 s.poolBalances) (· + E.balance a) := by
  unfold assignDelegator
  dsimp only
  rw [List.getElem?_eq_getElem h]
  exact ⟨_, rfl, rfl⟩

theorem assignDelegator_of_le {s : Assignment} {a : AccountBalance}
    (h : slice.length ≤ pick maxU64 s.poolBalances) :
    assignDelegator E slice s a = panics "index out of bounds" := by
  unfold assignDelegator
  dsimp only
  rw [List.getElem?_eq_none h]

/-- The loop over the delegators ends if all indices are inside the slice, and else panics. -/
theorem assignDelegators_cases (slice : List DelegationPoolConfigV1) (accounts : List AccountBalance)
    (s : Assignment) :
    ((∀ j ∈ (deal maxU64 s.poolBalances (accounts.map E.balance)).1, j < slice.length) ∧
      ∃ s', accounts.foldlM (assignDelegator E slice) s = .ok s') ∨
    (¬ (∀ j ∈ (deal maxU64 s.poolBalances (accounts.map E.balance)).1, j < slice.length) ∧
      accounts.foldlM (assignDelegator E slice) s = panics "index out of bounds") := by
  induction accounts generalizing s with
  | nil => exact .inl ⟨fun j hj => (by cases hj), s, rfl⟩
  | cons a accounts ih =>
    rw [List.map_cons, deal, List.forall_mem_cons, List.foldlM_cons]
    rcases Nat.lt_or_ge (pick maxU64 s.poolBalances) slice.length with hlt | hge
    · obtain ⟨s', hstep, hbalances⟩ := assignDelegator_of_lt (E := E) (a := a) hlt
      rw [hstep, ← hbalances]
      rcases ih s' with ⟨hall, hok⟩ | ⟨hsome, hpanic⟩
      · exact .inl ⟨⟨hlt, hall⟩, hok⟩
      · exact .inr ⟨fun h => hsome h.2, hpanic⟩
    · rw [assignDelegator_of_le hge]
      exact .inr ⟨fun h => Nat.not_lt.2 hge h.1, rfl⟩

/-! ## Bounds -/

/-- Whether the accesses of a schedule stay in its slice, when `q` pools have been taken and the first
`f` of them have a balance. -/
def fitsSlice (E : Env) (f q : Nat) (s : DelegationPoolUnlockSchedule) : Bool :=
  decide (weights E s = []) || decide (f + max 1 (heavy (weights E s)) ≤ s.poolsWithDelegators) ||
    decide (q = 0 ∧ 0 < s.poolsWithDelegators)

/-- Whether this is so of every schedule that the assignment reaches: it ends before a schedule for
which too few of the `available` pools are left, or whose file is refused. -/
def inSlices (E : Env) (available : Nat) : (f q : Nat) → List DelegationPoolUnlockSchedule → Bool
  | _, _, [] => true
  | f, q, s :: schedules =>
    if available - q < s.poolsWithDelegators then true
    else match s.accounts E with
      | .error _ => true
      | .ok _ => fitsSlice E f q s &&
        inSlices E available (min (f + heavy (weights E s)) (q + taken s)) (q + taken s) schedules

theorem fitsSlice_iff {f : Nat} {loads : List Nat} {o : Option AccountBalances}
    (ho : schedule.accounts E = .ok o) (hfront : Front loads f) :
    fitsSlice E f loads.length schedule = true ↔
      ∀ j ∈ (deal maxU64 (loads ++ List.replicate (taken schedule) 0) (weights E schedule)).1,
        j < schedule.poolsWithDelegators := by
  unfold fitsSlice
  simp only [Bool.or_eq_true, decide_eq_true_eq, or_assoc]
  cases o with
  | none =>
    have hnil : weights E schedule = [] := by simp [weights, delegatorsOf, ho]
    simp [hnil, deal]
  | some accounts =>
    obtain ⟨path, hpath, -⟩ := accounts_some ho
    have htaken : taken schedule = schedule.poolsWithDelegators := by simp [taken, hpath]
    rw [htaken]
    exact (deal_below_iff (hfront.append _) (by decide) (weights_sorted ho) hfront.le (by simp)).symm

/-- Reading a file of accounts may fail, but does not panic. -/
def FilesReturn (E : Env) : Prop :=
  ∀ path message, E.files.accountBalances path ≠ .error (.panic message)

theorem accounts_ne_panic (hfiles : FilesReturn E) (message : String) :
    schedule.accounts E ≠ .error (.panic message) := by
  unfold DelegationPoolUnlockSchedule.accounts
  split
  · rename_i path hpath
    unfold AccountBalances.fromFile
    cases hfile : E.files.accountBalances path with
    | error e =>
      intro h
      cases h
      exact hfiles path message hfile
    | ok balances =>
      intro h
      dsimp only [Functor.map, Except.map, bind, Except.bind] at h
      split at h
      · rename_i hunique
        split at hunique <;> cases hunique
        cases h
      · cases h
  · intro h
    cases h

theorem assignSchedule_of_few {s : Assignment}
    (h : pools.length - s.poolBalances.length < schedule.poolsWithDelegators) :
    assignSchedule E pools s schedule = toolError .notEnoughFoundationDelegationPools := by
  unfold assignSchedule
  dsimp only
  rw [if_pos]
  rw [List.length_take, List.length_drop]
  omega

theorem assignSchedule_of_refused {s : Assignment} {e : Failure}
    (hlen : schedule.poolsWithDelegators ≤ pools.length - s.poolBalances.length)
    (he : schedule.accounts E = .error e) : assignSchedule E pools s schedule = .error e := by
  unfold assignSchedule
  dsimp only
  rw [if_neg, he]
  · rfl
  · rw [not_not, List.length_take, List.length_drop]
    omega

/-- **When the assignment panics**: at the first schedule that leaves its slice. -/
theorem assignSchedules_panics_iff (hfiles : FilesReturn E) {s : Assignment} {f : Nat}
    (hfront : Front s.poolBalances f) :
    (∃ message, schedules.foldlM (assignSchedule E pools) s = .error (.panic message)) ↔
      inSlices E pools.length f s.poolBalances.length schedules = false := by
  induction schedules generalizing s f with
  | nil => exact ⟨fun ⟨_, h⟩ => (by cases h), fun h => (by cases h)⟩
  | cons schedule schedules ih =>
    rw [inSlices, List.foldlM_cons]
    split
    · rename_i hfew
      rw [assignSchedule_of_few hfew]
      exact ⟨fun ⟨_, h⟩ => (by cases h), fun h => (by cases h)⟩
    · rename_i hlen
      rw [Nat.not_lt] at hlen
      split
      · rename_i e he
        rw [assignSchedule_of_refused hlen he]
        refine ⟨fun ⟨message, h⟩ => ?_, fun h => (by cases h)⟩
        cases h
        exact absurd he (accounts_ne_panic hfiles message)
      · rename_i o ho
        have hslice : ((pools.drop s.poolBalances.length).take schedule.poolsWithDelegators).length =
            schedule.poolsWithDelegators := by
          rw [List.length_take, List.length_drop]
          omega
        have hfits := fitsSlice_iff ho hfront
        have heq := assignSchedule_eq hlen ho
        rcases assignDelegators_cases (E := E)
          ((pools.drop s.poolBalances.length).take schedule.poolsWithDelegators) (delegatorsOf E schedule)
          { s with poolBalances := s.poolBalances ++ List.replicate (taken schedule) 0 } with
          ⟨hall, s', hok⟩ | ⟨hsome, hpanic⟩
        · rw [hslice] at hall
          rw [hfits.2 hall, Bool.true_and]
          have hstep := heq.trans hok
          obtain ⟨hlength, hfront', -⟩ := assignSchedule_ok hstep hfront
          rw [hstep, ← hlength]
          rw [← hlength] at hfront'
          exact ih hfront'
        · rw [hslice] at hsome
          have hfalse : fitsSlice E f s.poolBalances.length schedule = false := by
            rw [← Bool.not_eq_true, hfits]
            exact hsome
          rw [heq.trans hpanic, hfalse]
          exact ⟨fun _ => rfl, fun _ => ⟨_, rfl⟩⟩

theorem assign_panics_iff (hfiles : FilesReturn E) (gen : MainnetGenesisAccountsGenerator)
    (allPools : TreeSet DelegationPoolConfigV1 E.poolOrder) :
    (∃ message, gen.assignDelegatorsToDelegationPools E allPools = .error (.panic message)) ↔
      inSlices E (gen.foundationOperatedDelegationPools E allPools).toList.length 0 0
        gen.delegationPoolSchedules.schedules = false := by
  refine Iff.trans ?_ (assignSchedules_panics_iff hfiles (s := ⟨∅, ∅, []⟩) .nil)
  constructor
  · rintro ⟨message, h⟩
    unfold assignDelegatorsToDelegationPools at h
    dsimp only at h
    cases hrun : gen.delegationPoolSchedules.schedules.foldlM
        (assignSchedule E (gen.foundationOperatedDelegationPools E allPools).toList) ⟨∅, ∅, []⟩ with
    | error e =>
      rw [hrun] at h
      cases h
      exact ⟨message, rfl⟩
    | ok s =>
      rw [hrun] at h
      dsimp only [bind, Except.bind] at h
      split at h <;> cases h
  · rintro ⟨message, h⟩
    unfold assignDelegatorsToDelegationPools
    dsimp only
    rw [h]
    exact ⟨message, rfl⟩

/-! ## Pools of the schedules -/

/-- The pools that a schedule takes, after the schedules `before`. -/
def sliceOf (pools : List DelegationPoolConfigV1) (before : List DelegationPoolUnlockSchedule)
    (s : DelegationPoolUnlockSchedule) : List DelegationPoolConfigV1 :=
  (pools.drop (before.map taken).sum).take (taken s)

theorem assignSchedules_front {s s' : Assignment} {f : Nat}
    (h : schedules.foldlM (assignSchedule E pools) s = .ok s') (hfront : Front s.poolBalances f) :
    s'.poolBalances.length = s.poolBalances.length + (schedules.map taken).sum ∧
      ∃ f', Front s'.poolBalances f' := by
  induction schedules generalizing s f with
  | nil =>
    cases h
    exact ⟨rfl, f, hfront⟩
  | cons schedule schedules ih =>
    obtain ⟨s₁, hstep, hrest⟩ := foldlM_cons_ok_iff.1 h
    obtain ⟨hlength, hfront₁, -⟩ := assignSchedule_ok hstep hfront
    obtain ⟨hlength', hfront'⟩ := ih hrest hfront₁
    rw [List.map_cons, List.sum_cons]
    exact ⟨by omega, hfront'⟩

theorem assignSchedules_within {before after : List DelegationPoolUnlockSchedule} {s' : Assignment}
    (h : (before ++ schedule :: after).foldlM (assignSchedule E pools) ⟨∅, ∅, []⟩ = .ok s')
    {a : AccountBalance} (ha : a ∈ delegatorsOf E schedule) :
    ∃ pool ∈ sliceOf pools before schedule, entry E a pool ∈ s'.assigned := by
  rw [List.foldlM_append] at h
  obtain ⟨s₀, hbefore, h⟩ := bind_ok_iff.1 h
  obtain ⟨s₁, hstep, hafter⟩ := foldlM_cons_ok_iff.1 h
  obtain ⟨hlength, f, hfront⟩ := assignSchedules_front hbefore .nil
  obtain ⟨-, hfront₁, entries, hassigned, hassigns⟩ := assignSchedule_ok hstep hfront
  obtain ⟨entries', hassigned', -⟩ := assignSchedules_ok hafter hfront₁
  obtain ⟨r, pool, hr, hpool, he⟩ := hassigns.placed schedule (List.mem_singleton.2 rfl) a ha
  obtain ⟨j, hj, heq⟩ := List.mem_map.1 hr
  cases heq
  have hlt : j < taken schedule := by
    have hfile : schedule.accountsFilePath.isSome := by
      rw [Option.isSome_iff_ne_none]
      intro hnone
      simp [delegatorsOf, DelegationPoolUnlockSchedule.accounts, hnone] at ha
    rw [taken, if_pos hfile]
    exact (mem_slots.1 hj).2.2.2
  refine ⟨pool, List.mem_of_getElem? (i := j) ?_, ?_⟩
  · rw [sliceOf, List.getElem?_take_of_lt hlt, List.getElem?_drop]
    rw [List.length_nil, Nat.zero_add] at hlength
    rwa [hlength] at hpool
  · rw [hassigned', hassigned]
    exact Finset.mem_union_left _ (Finset.mem_union_right _ (List.mem_toFinset.2 he))

theorem sliceOf_disjoint (hpools : pools.Nodup) (before between : List DelegationPoolUnlockSchedule)
    (s t : DelegationPoolUnlockSchedule) :
    (sliceOf pools before s).Disjoint (sliceOf pools (before ++ s :: between) t) := by
  have hsum : ((before ++ s :: between).map taken).sum =
      (before.map taken).sum + taken s + (between.map taken).sum := by
    rw [List.map_append, List.map_cons, List.sum_append, List.sum_cons, Nat.add_assoc]
  intro pool hs ht
  rw [sliceOf] at hs
  rw [sliceOf, hsum, ← List.drop_drop, ← List.drop_drop] at ht
  have hdrop : (pools.drop (before.map taken).sum).Nodup := hpools.sublist (List.drop_sublist _ _)
  refine List.disjoint_take_drop hdrop (Nat.le_refl (taken s)) hs ?_
  exact List.mem_of_mem_drop (List.mem_of_mem_take ht)

/-- Every account of a schedule has one entry, for a pool that its schedule takes, and no pool is taken
by two schedules. -/
structure AssignedWithin (E : Env) (pools : List DelegationPoolConfigV1)
    (schedules : List DelegationPoolUnlockSchedule) (accounts : Finset DelegatorAccountV1) : Prop where
  once : ∀ s ∈ schedules, ∀ a ∈ delegatorsOf E s, ∃! e, e ∈ accounts ∧ e.address = a.address
  within : ∀ before s after, schedules = before ++ s :: after → ∀ a ∈ delegatorsOf E s,
    ∃ pool ∈ sliceOf pools before s, entry E a pool ∈ accounts
  apart : ∀ before s between t after, schedules = before ++ s :: between ++ t :: after →
    (sliceOf pools before s).Disjoint (sliceOf pools (before ++ s :: between) t)

theorem assignedWithin_of_ok {gen : MainnetGenesisAccountsGenerator}
    {allPools : TreeSet DelegationPoolConfigV1 E.poolOrder} {accounts : Finset DelegatorAccountV1}
    (haddresses : (delegatorAddresses E gen).Nodup)
    (hpools : (gen.foundationOperatedDelegationPools E allPools).toList.Nodup)
    (h : gen.assignDelegatorsToDelegationPools E allPools = .ok accounts) :
    AssignedWithin E (gen.foundationOperatedDelegationPools E allPools).toList
      gen.delegationPoolSchedules.schedules accounts where
  once s hs a ha := by
    obtain ⟨entries, rfl, hassigns⟩ := assignDelegatorsToDelegationPools_ok h
    obtain ⟨r, pool, -, -, he⟩ := hassigns.placed s hs a ha
    refine ⟨entry E a pool, ⟨List.mem_toFinset.2 he, rfl⟩, fun e ⟨hmem, haddress⟩ => ?_⟩
    exact List.inj_on_of_nodup_map (hassigns.nodup_addresses haddresses) (List.mem_toFinset.1 hmem) he
      haddress
  within before s after hschedules a ha := by
    obtain ⟨s', hs', -, rfl⟩ := assign_ok_iff.1 h
    rw [hschedules] at hs'
    exact assignSchedules_within hs' ha
  apart before s between t after _ := sliceOf_disjoint hpools before between s t

/-- **When the assignment stays in the slices.** No access is out of bounds, and every account is
assigned once, to a pool of its schedule, exactly if each schedule that is reached fits its slice. -/
theorem assignment_within_slices_iff (E : Env) (gen : MainnetGenesisAccountsGenerator)
    (allPools : TreeSet DelegationPoolConfigV1 E.poolOrder) (hfiles : FilesReturn E)
    (haddresses : (delegatorAddresses E gen).Nodup)
    (howners : ((gen.foundationOperatedDelegationPools E allPools).toList.map (·.ownerAddress)).Nodup) :
    ((∀ message, gen.assignDelegatorsToDelegationPools E allPools ≠ .error (.panic message)) ∧
      ∀ accounts, gen.assignDelegatorsToDelegationPools E allPools = .ok accounts →
        AssignedWithin E (gen.foundationOperatedDelegationPools E allPools).toList
          gen.delegationPoolSchedules.schedules accounts) ↔
    inSlices E (gen.foundationOperatedDelegationPools E allPools).toList.length 0 0
      gen.delegationPoolSchedules.schedules = true := by
  rw [← Bool.not_eq_false, ← assign_panics_iff hfiles gen allPools, not_exists]
  refine ⟨fun h => h.1, fun h => ⟨h, fun accounts hok => ?_⟩⟩
  exact assignedWithin_of_ok haddresses (List.Nodup.of_map _ howners) hok

/-- The account of the first schedule goes to the first of three pools, that of the second one to the
last: the second pool counts as the one with the balance of the first. -/
theorem assignment_within_slices_iff_small :
    ∃ gen pools, tryFrom (twoFiles 2) paths = .ok gen ∧
      gen.generateDelegationPoolConfigs (twoFiles 2) = .ok pools ∧
      ∃ accounts, gen.assignDelegatorsToDelegationPools (twoFiles 2) pools = .ok accounts ∧
        accounts = {⟨1, 300000000, 1000⟩, ⟨2, 500000000, 1002⟩} ∧
        AssignedWithin (twoFiles 2) (gen.foundationOperatedDelegationPools (twoFiles 2) pools).toList
          gen.delegationPoolSchedules.schedules accounts := by
  have hcheck : ∃ gen, tryFrom (twoFiles 2) paths = .ok gen ∧
      ∃ pools, gen.generateDelegationPoolConfigs (twoFiles 2) = .ok pools ∧
      ∃ accounts, gen.assignDelegatorsToDelegationPools (twoFiles 2) pools = .ok accounts ∧
        accounts = {⟨1, 300000000, 1000⟩, ⟨2, 500000000, 1002⟩} ∧
        (delegatorAddresses (twoFiles 2) gen).Nodup ∧
        ((gen.foundationOperatedDelegationPools (twoFiles 2) pools).toList.map (·.ownerAddress)).Nodup ∧
        inSlices (twoFiles 2) (gen.foundationOperatedDelegationPools (twoFiles 2) pools).toList.length 0 0
          gen.delegationPoolSchedules.schedules = true := by
    decide +kernel
  obtain ⟨gen, hgen, pools, hpools, accounts, haccounts, heq, haddresses, howners, hfits⟩ := hcheck
  have hfiles : FilesReturn (twoFiles 2) := fun path message h => by cases h
  have hiff := assignment_within_slices_iff (twoFiles 2) gen pools hfiles haddresses howners
  exact ⟨gen, pools, hgen, hpools, accounts, haccounts, heq, (hiff.2 hfits).2 accounts haccounts⟩

/-- The second schedule has one pool. Its account is dealt to the index of this pool among all pools,
which is behind the slice. -/
theorem second_schedule_out_of_bounds :
    ∃ gen, tryFrom (twoFiles 1) paths = .ok gen ∧ (delegatorAddresses (twoFiles 1) gen).Nodup ∧
      ∃ pools, gen.generateDelegationPoolConfigs (twoFiles 1) = .ok pools ∧
        ((gen.foundationOperatedDelegationPools (twoFiles 1) pools).toList.map (·.ownerAddress)).Nodup ∧
        gen.assignDelegatorsToDelegationPools (twoFiles 1) pools = panics "index out of bounds" := by
  decide +kernel

end Genesis.Proof
