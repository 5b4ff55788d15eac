import SupraL1.Gas.Proof.Mean

/-!
# Snapshots of the gas statistics

A call of `statistics` that has started to read holds a guard of the channel (`held`), the channel
counts the guards that are alive, and a publication needs that there is none. So what the call has
read is part of the current value until it returns (`Reads`), and then the triple is that value.
-/

namespace Gas

open Pool

/-! ## What is published -/

theorem OnlineMean.Sound.mean_le_max {m : OnlineMean} (h : m.Sound) : m.mean ≤ m.max := by
  have hlen : m.history.inner.length = 1000 := m.history.length_inner.trans h.capacity
  have hmean : m.mean.toNat = min (m.history.currSum.toNat + 500) maxU64 / 1000 := h.mean
  have hunder : m.history.currSum.toNat ≤ total m.history.window := h.under
  have htotal : total m.history.window ≤ 1000 * m.max.toNat := by
    have hbound : ∀ p ∈ m.history.window, p ≤ m.max := fun p hp =>
      h.isMax p (m.history.window_perm.mem_iff.1 hp)
    rw [← h.length_window]
    exact total_le hbound
  rw [UInt64.le_iff_toNat_le]
  omega

theorem OnlineMean.Sound.median_le_max {m : OnlineMean} (h : m.Sound) : m.median ≤ m.max := by
  have hmem := List.mem_of_getElem? h.hasMedian
  rw [List.mem_insertionSort] at hmem
  exact h.isMax _ hmem

section
variable {TransactionKind : Type} [DecidableEq TransactionKind]

/-- The guards of the channel of `kind` that a call holds. -/
def held (kind : TransactionKind) : Process TransactionKind → Nat
  | .readMean k _ => if k = kind then 1 else 0
  | .readMax k _ _ => if k = kind then 2 else 0
  | .readMedian k _ _ _ => if k = kind then 3 else 0
  | .pushGasPrices .. | .pushed | .statistics _ | .returned .. => 0

/-- What a call has read is part of the current value; what it has returned was published. -/
def Reads (s : GasStats TransactionKind) : Process TransactionKind → Prop
  | .readMean kind mean => ∃ m, s kind = some m ∧ m.value.mean = mean
  | .readMax kind mean max => ∃ m, s kind = some m ∧ m.value.mean = mean ∧ m.value.max = max
  | .readMedian kind mean max median => ∃ m, s kind = some m ∧ m.value = ⟨mean, max, median⟩
  | .returned kind (some v) => ∃ m, s kind = some m ∧ v ∈ m.published
  | .pushGasPrices .. | .pushed | .statistics _ | .returned _ none => True

/-- What is maintained for a kind: its window, and values of which none is torn. -/
structure Monitored.Sound (m : Monitored) : Prop where
  mean : m.mean.Sound
  value_mem : m.value ∈ m.published
  le_max : ∀ v ∈ m.published, v.mean ≤ v.max ∧ v.median ≤ v.max

/-- The new value is the one that `push_gas_price` computes. -/
def Publishes (m m' : Monitored) : Prop :=
  m.guards = 0 ∧ ∃ gasPrices, m'.mean = m.mean.push gasPrices ∧
    m'.value = ⟨m'.mean.mean, m'.mean.max, m'.mean.median⟩ ∧ m'.published = m.published ++ [m'.value]

/-- A step on the channel of a kind: the guards that it creates or drops are those of the call, and
it leaves the value alone or publishes a new one. -/
structure Move (s s' : GasStats TransactionKind) (p p' : Process TransactionKind)
    (kind : TransactionKind) (m m' : Monitored) : Prop where
  before : s kind = some m
  after : s' = Function.update s kind (some m')
  guards : m'.guards = m.guards + held kind p' - held kind p
  others : ∀ k, k ≠ kind → held k p = 0 ∧ held k p' = 0
  value : (m'.mean = m.mean ∧ m'.value = m.value ∧ m'.published = m.published) ∨ Publishes m m'
  reads : Reads s p → m.value ∈ m.published → Reads s' p'

theorem move_borrow {s : GasStats TransactionKind} {p p' : Process TransactionKind}
    {kind : TransactionKind} {m : Monitored} (hm : s kind = some m)
    (hheld : ∀ k, held k p' = held k p + if kind = k then 1 else 0)
    (hothers : ∀ k, kind ≠ k → held k p = 0)
    (hreads : Reads s p → Reads (Function.update s kind (some m.borrow)) p') :
    Move s (Function.update s kind (some m.borrow)) p p' kind m m.borrow := by
  refine ⟨hm, rfl, ?_, fun k hk => ?_, .inl ⟨rfl, rfl, rfl⟩, fun hr _ => hreads hr⟩
  · have hkind := hheld kind
    rw [if_pos rfl] at hkind
    have hguards : m.borrow.guards = m.guards + 1 := rfl
    omega
  · have hk' := hheld k
    rw [if_neg hk.symm, hothers k hk.symm] at hk'
    exact ⟨hothers k hk.symm, hk'⟩

theorem step_spec {s s' : GasStats TransactionKind} {p p' : Process TransactionKind}
    {new : List (Process TransactionKind)} (h : step () s p = some (s', p', new)) :
    new = [] ∧ ((s' = s ∧ (∀ k, held k p = 0 ∧ held k p' = 0) ∧ Reads s' p') ∨
      ∃ kind m m', Move s s' p p' kind m m') := by
  cases p with
  | pushGasPrices kind gasPrices =>
    simp only [step] at h
    split at h
    · cases h
      exact ⟨rfl, .inl ⟨rfl, fun _ => ⟨rfl, rfl⟩, trivial⟩⟩
    · rename_i m hm
      simp only [pushGasPrice, Monitored.sendReplace] at h
      split at h
      · rename_i hguards
        cases h
        exact ⟨rfl, .inr ⟨kind, m, _, hm, rfl, by simp [held], fun _ _ => ⟨rfl, rfl⟩,
          .inr ⟨hguards, gasPrices, rfl, rfl, rfl⟩, fun _ _ => trivial⟩⟩
      · cases h
  | statistics kind =>
    simp only [step] at h
    split at h
    · cases h
      exact ⟨rfl, .inl ⟨rfl, fun _ => ⟨rfl, rfl⟩, trivial⟩⟩
    · rename_i m hm
      cases h
      refine ⟨rfl, .inr ⟨kind, m, m.borrow, move_borrow hm (fun k => ?_) (fun k hk => rfl) fun _ => ?_⟩⟩
      · simp [held]
      · exact ⟨m.borrow, Function.update_self .., rfl⟩
  | readMean kind mean =>
    simp only [step, Option.map_eq_some_iff] at h
    obtain ⟨m, hm, heq⟩ := h
    cases heq
    refine ⟨rfl, .inr ⟨kind, m, m.borrow, move_borrow hm (fun k => ?_) (fun k hk => if_neg hk)
      fun hr => ?_⟩⟩
    · by_cases hk : kind = k <;> simp [held, hk]
    · obtain ⟨m₀, hm₀, hmean⟩ := hr
      cases hm.symm.trans hm₀
      exact ⟨m.borrow, Function.update_self .., hmean, rfl⟩
  | readMax kind mean max =>
    simp only [step, Option.map_eq_some_iff] at h
    obtain ⟨m, hm, heq⟩ := h
    cases heq
    refine ⟨rfl, .inr ⟨kind, m, m.borrow, move_borrow hm (fun k => ?_) (fun k hk => if_neg hk)
      fun hr => ?_⟩⟩
    · by_cases hk : kind = k <;> simp [held, hk]
    · obtain ⟨m₀, hm₀, rfl, rfl⟩ := hr
      cases hm.symm.trans hm₀
      exact ⟨m.borrow, Function.update_self .., rfl⟩
  | readMedian kind mean max median =>
    simp only [step, Option.map_eq_some_iff] at h
    obtain ⟨m, hm, heq⟩ := h
    cases heq
    refine ⟨rfl, .inr ⟨kind, m, _, hm, rfl, by simp [held, Monitored.dropGuards], fun k hk => ?_,
      .inl ⟨rfl, rfl, rfl⟩, fun hr hmem => ?_⟩⟩
    · simp [held, hk.symm]
    · obtain ⟨m₀, hm₀, hvalue⟩ := hr
      cases hm.symm.trans hm₀
      rw [hvalue] at hmem
      exact ⟨m.dropGuards 3, Function.update_self .., hmem⟩
  | pushed => cases h
  | returned kind result => cases h

/-! ## The invariant -/

theorem Move.lookup {s s' : GasStats TransactionKind} {p p' : Process TransactionKind}
    {kind k : TransactionKind} {m m' m₀ : Monitored} (h : Move s s' p p' kind m m')
    (hm₀ : s k = some m₀) :
    ∃ m₁, s' k = some m₁ ∧ m₀.published ⊆ m₁.published ∧
      (m₁.value = m₀.value ∨ (k = kind ∧ Publishes m m')) := by
  by_cases hk : k = kind
  · subst hk
    cases h.before.symm.trans hm₀
    refine ⟨m', by rw [h.after, Function.update_self], ?_⟩
    rcases h.value with ⟨-, hvalue, hpub⟩ | hpub
    · exact ⟨hpub ▸ List.Subset.refl _, .inl hvalue⟩
    · have heq := hpub
      obtain ⟨-, gasPrices, -, -, heq⟩ := heq
      exact ⟨heq ▸ List.subset_append_left _ _, .inr ⟨rfl, hpub⟩⟩
  · exact ⟨m₀, by rw [h.after, Function.update_of_ne hk, hm₀], List.Subset.refl _, .inl rfl⟩

/-- What the other calls have read stays, unless a value is published, which no call is reading. -/
theorem Reads.move {s s' : GasStats TransactionKind} {p p' q : Process TransactionKind}
    {kind : TransactionKind} {m m' : Monitored} (h : Move s s' p p' kind m m') (hq : Reads s q)
    (hfree : m.guards = 0 → held kind q = 0) : Reads s' q := by
  have hkeep : ∀ k m₀, s k = some m₀ → held k q ≠ 0 → ∃ m₁, s' k = some m₁ ∧ m₁.value = m₀.value := by
    intro k m₀ hm₀ hheld
    obtain ⟨m₁, hm₁, -, hvalue | ⟨rfl, hpub⟩⟩ := h.lookup hm₀
    · exact ⟨m₁, hm₁, hvalue⟩
    · exact absurd (hfree hpub.1) hheld
  cases q with
  | readMean k mean =>
    obtain ⟨m₀, hm₀, hmean⟩ := hq
    obtain ⟨m₁, hm₁, hvalue⟩ := hkeep k m₀ hm₀ (by simp [held])
    exact ⟨m₁, hm₁, hvalue ▸ hmean⟩
  | readMax k mean max =>
    obtain ⟨m₀, hm₀, hmax⟩ := hq
    obtain ⟨m₁, hm₁, hvalue⟩ := hkeep k m₀ hm₀ (by simp [held])
    exact ⟨m₁, hm₁, hvalue ▸ hmax⟩
  | readMedian k mean max median =>
    obtain ⟨m₀, hm₀, hmedian⟩ := hq
    obtain ⟨m₁, hm₁, hvalue⟩ := hkeep k m₀ hm₀ (by simp [held])
    exact ⟨m₁, hm₁, hvalue ▸ hmedian⟩
  | returned k result =>
    cases result with
    | none => trivial
    | some v =>
      obtain ⟨m₀, hm₀, hv⟩ := hq
      obtain ⟨m₁, hm₁, hsub, -⟩ := h.lookup hm₀
      exact ⟨m₁, hm₁, hsub hv⟩
  | pushGasPrices k gasPrices => trivial
  | pushed => trivial
  | statistics k => trivial

theorem Monitored.Sound.move {s s' : GasStats TransactionKind} {p p' : Process TransactionKind}
    {kind : TransactionKind} {m m' : Monitored} (h : Move s s' p p' kind m m') (hm : m.Sound) :
    m'.Sound := by
  rcases h.value with ⟨hmean, hvalue, hpub⟩ | ⟨-, gasPrices, hmean, hvalue, hpub⟩
  · exact ⟨hmean ▸ hm.mean, by rw [hvalue, hpub]; exact hm.value_mem, hpub ▸ hm.le_max⟩
  · have hsound : m'.mean.Sound := hmean ▸ hm.mean.push gasPrices
    refine ⟨hsound, by rw [hpub]; simp, fun v hv => ?_⟩
    rw [hpub, List.mem_append, List.mem_singleton] at hv
    rcases hv with hv | rfl
    · exact hm.le_max v hv
    · rw [hvalue]
      exact ⟨hsound.mean_le_max, hsound.median_le_max⟩

structure Inv (c : Config (GasStats TransactionKind) (Process TransactionKind)) : Prop where
  guards : ∀ kind m, c.shared kind = some m → m.guards = (c.procs.map (held kind)).sum
  sound : ∀ kind m, c.shared kind = some m → m.Sound
  reads : ∀ p ∈ c.procs, Reads c.shared p

theorem inv_start (moveVm : TransactionKind) : Inv (start moveVm) := by
  have honly : ∀ kind m, gasMonitor moveVm kind = some m →
      m = ⟨.new mvmMinGasUnitPrice, .mvmNew, 0, [.mvmNew]⟩ := by
    intro kind m hm
    by_cases hkind : kind = moveVm
    · subst hkind
      rw [gasMonitor, Function.update_self] at hm
      exact (Option.some.inj hm).symm
    · rw [gasMonitor, Function.update_of_ne hkind] at hm
      cases hm
  refine ⟨fun kind m hm => ?_, fun kind m hm => ?_, fun p hp => nomatch hp⟩
  · rw [honly kind m hm]
    rfl
  · rw [honly kind m hm]
    refine ⟨OnlineMean.sound_new _, List.mem_singleton_self _, fun v hv => ?_⟩
    rw [List.mem_singleton.1 hv]
    decide

section Turn

variable {c : Config (GasStats TransactionKind) (Process TransactionKind)}
  {l r : List (Process TransactionKind)} {p p' : Process TransactionKind}

theorem inv_turn_of_none (h : Inv c) (hprocs : c.procs = l ++ p :: r)
    (hheld : ∀ k, held k p = 0 ∧ held k p' = 0) (hread : Reads c.shared p') :
    Inv ⟨c.shared, l ++ p' :: r⟩ := by
  refine ⟨fun k m hm => ?_, h.sound, fun q hq => ?_⟩
  · have hsum := sum_turn (held k) l r p p'
    rw [← hprocs, (hheld k).1, (hheld k).2, Nat.add_zero, Nat.add_zero] at hsum
    exact (h.guards k m hm).trans hsum.symm
  · rcases mem_turn hq with rfl | hq
    · exact hread
    · exact h.reads q (hprocs ▸ hq)

theorem inv_turn {s' : GasStats TransactionKind} {kind : TransactionKind} {m m' : Monitored}
    (h : Inv c) (hprocs : c.procs = l ++ p :: r) (hmove : Move c.shared s' p p' kind m m') :
    Inv ⟨s', l ++ p' :: r⟩ := by
  have hguards := h.guards kind m hmove.before
  have hsound := h.sound kind m hmove.before
  have hself : ∀ m₁, s' kind = some m₁ → m₁ = m' := by
    intro m₁ hm₁
    rw [hmove.after, Function.update_self] at hm₁
    exact (Option.some.inj hm₁).symm
  have hother : ∀ k, k ≠ kind → s' k = c.shared k := by
    intro k hk
    rw [hmove.after, Function.update_of_ne hk]
  refine ⟨fun k m₁ hm₁ => ?_, fun k m₁ hm₁ => ?_, fun q hq => ?_⟩
  · have hsum := sum_turn (held k) l r p p'
    rw [← hprocs] at hsum
    show m₁.guards = ((l ++ p' :: r).map (held k)).sum
    by_cases hk : k = kind
    · subst hk
      rw [hself m₁ hm₁, hmove.guards]
      omega
    · obtain ⟨hp, hp'⟩ := hmove.others k hk
      have hold := h.guards k m₁ (by rw [← hother k hk]; exact hm₁)
      omega
  · by_cases hk : k = kind
    · subst hk
      rw [hself m₁ hm₁]
      exact hsound.move hmove
    · exact h.sound k m₁ (by rw [← hother k hk]; exact hm₁)
  · have hreads := h.reads
    rw [hprocs] at hreads
    rcases mem_turn (p := p) hq with rfl | hq
    · exact hmove.reads (hreads p (by simp)) hsound.value_mem
    · refine (hreads q hq).move hmove fun hzero => ?_
      -- a publication needs that no guard is alive, so no call is reading
      rw [hguards, List.sum_eq_zero_iff_forall_eq_nat] at hzero
      exact hzero _ (List.mem_map_of_mem (hprocs ▸ hq))

end Turn

theorem inv_run (moveVm : TransactionKind) (acts : List (Act (Call TransactionKind) Unit)) :
    Inv (run calls (start moveVm) acts) := by
  refine run_inv (P := fun _ _ => True) ?_ (inv_start moveVm) fun _ _ _ _ => trivial
  intro c a c' h _ hstep
  cases hstep with
  | start call =>
    have hinit : ∀ kind, held kind (calls.init call) = 0 := by
      intro kind
      cases call <;> rfl
    refine ⟨fun kind m hm => ?_, h.sound, fun p hp => ?_⟩
    · rw [h.guards kind m hm]
      simp [hinit]
    · rcases List.mem_append.1 hp with hp | hp
      · exact h.reads p hp
      · rw [List.mem_singleton.1 hp]
        cases call <;> trivial
  | idle => exact h
  | @turn l r new p p' s' input hprocs hstep =>
    obtain ⟨rfl, ⟨rfl, hheld, hread⟩ | ⟨kind, m, m', hmove⟩⟩ := step_spec hstep
    · rw [List.append_nil]
      exact inv_turn_of_none h hprocs hheld hread
    · rw [List.append_nil]
      exact inv_turn h hprocs hmove

/-- **Statistics are read as one snapshot.** In every interleaving of the writer's publications and
the readers' borrows, the triple that `statistics` returns is one that was published as a whole, and
neither its mean nor its median exceeds its maximum. -/
theorem statistics_snapshot (moveVm kind : TransactionKind)
    (acts : List (Act (Call TransactionKind) Unit)) (v : GasPriceStatistics)
    (hreturned : .returned kind (some v) ∈ (run calls (start moveVm) acts).procs) :
    (∃ m, (run calls (start moveVm) acts).shared kind = some m ∧ v ∈ m.published) ∧
      v.mean ≤ v.max ∧ v.median ≤ v.max := by
  have hinv := inv_run moveVm acts
  obtain ⟨m, hm, hv⟩ := hinv.reads _ hreturned
  exact ⟨⟨m, hm, hv⟩, (hinv.sound kind m hm).le_max v hv⟩

end

/-- The triple that is published when the first prices after the start are pushed. -/
def statisticsAfter (start : OnlineMean) (gasPrices : List UInt64) : GasPriceStatistics :=
  ⟨(start.push gasPrices).mean, (start.push gasPrices).max, (start.push gasPrices).median⟩

/-- The writer publishes before the three borrows of a reader, and once more after them. -/
def betweenWrites : List (Act (Call Unit) Unit) :=
  [.start (.pushGasPrices () [7]), .start (.statistics ()), .start (.pushGasPrices () [9]),
    .turn 0 (), .turn 1 (), .turn 1 (), .turn 1 (), .turn 1 (), .turn 2 ()]

theorem procs_betweenWrites (mean : OnlineMean) :
    (run calls ⟨Function.update (fun _ => none) () (some ⟨mean, .mvmNew, 0, [.mvmNew]⟩), []⟩
      betweenWrites).procs = [.pushed, .returned () (some (statisticsAfter mean [7])), .pushed] := by
  simp [run, betweenWrites, act, calls, step, pushGasPrice, Monitored.sendReplace, Monitored.borrow,
    Monitored.dropGuards, statisticsAfter]

theorem statistics_snapshot_between_writes :
    let v := statisticsAfter (.new mvmMinGasUnitPrice) [7]
    (run calls (start ()) betweenWrites).procs = [.pushed, .returned () (some v), .pushed] ∧
    (∃ m, (run calls (start ()) betweenWrites).shared () = some m ∧ v ∈ m.published) ∧
      v.mean ≤ v.max ∧ v.median ≤ v.max := by
  intro v
  have hprocs := procs_betweenWrites (.new mvmMinGasUnitPrice)
  refine ⟨hprocs, statistics_snapshot () () betweenWrites v ?_⟩
  rw [show (run calls (start ()) betweenWrites).procs = _ from hprocs]
  exact List.mem_cons_of_mem _ List.mem_cons_self

end Gas
