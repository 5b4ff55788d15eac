import Mathlib.Algebra.BigOperators.Group.List.Basic
import Mathlib.Algebra.GroupWithZero.Nat
import Mathlib.Data.List.Basic

/-!
# Dealing items to the least loaded of several bins

`pick` finds the first of the least loaded bins, by a scan from a bound that no load is expected to
reach. `deal` gives each of a list of weights to the bin that is picked for it and returns the
indices of these bins and the loads at the end.

`Front loads f` says that the first `f` bins are those with a load. Weights that are sorted, so that
those that are zero come first, then fill the bins from `f` on one after another: `mem_deal_iff` says
which bins get an item, for a deal that stays below some index, and `deal_below_iff` when it does.

`Spread m loads` says that no two loads differ by more than `m`. A deal keeps it, if no weight is
above `m` (`Spread.deal`), and `getElem?_deal` says what the load of a bin is made of.
-/

set_option autoImplicit false

namespace Deal

/-! ## The least loaded bin -/

/-- `j` is the index of the next load, `best` the index found so far and `least` its load. -/
def scan : List Nat → Nat → Nat → Nat → Nat
  | [], _, best, _ => best
  | b :: loads, j, best, least =>
    if b < least then scan loads (j + 1) j b else scan loads (j + 1) best least

/-- The first of the bins with the least load, if this is below `bound`. -/
def pick (bound : Nat) (loads : List Nat) : Nat := scan loads 0 0 bound

theorem scan_lt {loads : List Nat} {j best least : Nat} (h : best < j + loads.length) :
    scan loads j best least < j + loads.length := by
  induction loads generalizing j best least with
  | nil => exact h
  | cons b loads ih =>
    simp only [List.length_cons] at h ⊢
    unfold scan
    split
    · have := @ih (j + 1) j b (by omega)
      omega
    · by_cases hb : best < j + 1 + loads.length
      · have := @ih (j + 1) best least hb
        omega
      · omega

theorem pick_lt {bound : Nat} {loads : List Nat} (h : loads ≠ []) : pick bound loads < loads.length := by
  have hpos := List.length_pos_of_ne_nil h
  have := @scan_lt loads 0 0 bound (by omega)
  simpa [pick] using this

section
variable {bound m : Nat} {before after : List Nat}

theorem scan_of_le (h : ∀ b ∈ after, m ≤ b) (j best : Nat) : scan after j best m = best := by
  induction after generalizing j with
  | nil => rfl
  | cons b after ih =>
    obtain ⟨hb, hafter⟩ := List.forall_mem_cons.1 h
    rw [scan, if_neg (Nat.not_lt.2 hb), ih hafter]

theorem scan_append_least (hbefore : ∀ b ∈ before, m < b) (hafter : ∀ b ∈ after, m ≤ b)
    {j best least : Nat} (hleast : m < least) :
    scan (before ++ m :: after) j best least = j + before.length := by
  induction before generalizing j best least with
  | nil => rw [List.nil_append, scan, if_pos hleast, scan_of_le hafter]; rfl
  | cons b before ih =>
    obtain ⟨hb, hrest⟩ := List.forall_mem_cons.1 hbefore
    rw [List.cons_append, List.length_cons, scan]
    split
    · rw [ih hrest hb]; omega
    · rw [ih hrest hleast]; omega

/-- The first of the least loads is picked. -/
theorem pick_append_least (hbefore : ∀ b ∈ before, m < b) (hafter : ∀ b ∈ after, m ≤ b)
    (hm : m < bound) : pick bound (before ++ m :: after) = before.length := by
  rw [pick, scan_append_least hbefore hafter hm, Nat.zero_add]

end

/-! ## The front -/

/-- The first `f` bins are those with a load. -/
def Front (loads : List Nat) (f : Nat) : Prop :=
  ∃ full empty, loads = full ++ List.replicate empty 0 ∧ full.length = f ∧ ∀ b ∈ full, 0 < b

section
variable {bound f w : Nat} {loads : List Nat}

theorem Front.nil : Front [] 0 := ⟨[], 0, rfl, rfl, nofun⟩

theorem Front.le (h : Front loads f) : f ≤ loads.length := by
  obtain ⟨full, empty, rfl, rfl, -⟩ := h
  simp

theorem Front.append (h : Front loads f) (n : Nat) : Front (loads ++ List.replicate n 0) f := by
  obtain ⟨full, empty, rfl, rfl, hfull⟩ := h
  exact ⟨full, empty + n, by rw [List.append_assoc, List.replicate_append_replicate], rfl, hfull⟩

theorem Front.pick (h : Front loads f) (hlt : f < loads.length) (hbound : 0 < bound) :
    pick bound loads = f := by
  obtain ⟨full, empty, rfl, rfl, hfull⟩ := h
  obtain ⟨n, rfl⟩ : ∃ n, empty = n + 1 := ⟨empty - 1, by simp at hlt; omega⟩
  exact pick_append_least hfull (fun b _ => Nat.zero_le b) hbound

/-- A weight goes to the front, which moves on unless the weight is zero. -/
theorem Front.modify (h : Front loads f) (hlt : f < loads.length) :
    Front (loads.modify f (· + w)) (if 0 < w then f + 1 else f) := by
  obtain ⟨full, empty, rfl, rfl, hfull⟩ := h
  obtain ⟨n, rfl⟩ : ∃ n, empty = n + 1 := ⟨empty - 1, by simp at hlt; omega⟩
  have hmodify : (full ++ List.replicate (n + 1) 0).modify full.length (· + w) =
      full ++ w :: List.replicate n 0 := by
    rw [List.modify_eq_take_cons_drop hlt]
    simp [List.replicate_succ]
  rw [hmodify]
  split
  · rename_i hw
    refine ⟨full ++ [w], n, by simp, by simp, fun b hb => ?_⟩
    rcases List.mem_append.1 hb with hb | hb
    · exact hfull b hb
    · rw [List.mem_singleton.1 hb]; exact hw
  · obtain rfl : w = 0 := by omega
    exact ⟨full, n + 1, by simp [List.replicate_succ], rfl, hfull⟩

theorem Front.modify_full (h : Front loads loads.length) (i : Nat) :
    Front (loads.modify i (· + w)) loads.length := by
  obtain ⟨full, empty, heq, hlen, hfull⟩ := h
  have hempty : empty = 0 := by
    have := congrArg List.length heq
    simp at this
    omega
  subst hempty
  rw [List.replicate_zero, List.append_nil] at heq
  subst heq
  refine ⟨loads.modify i (· + w), 0, by simp, by simp, fun b hb => ?_⟩
  obtain ⟨k, hk, rfl⟩ := List.mem_iff_getElem.1 hb
  rw [List.getElem_modify]
  have hpos := hfull _ (List.getElem_mem (by simpa using hk))
  split <;> omega

end

/-! ## Dealing -/

/-- The indices of the bins that the weights go to, and the loads at the end. -/
def deal (bound : Nat) : List Nat → List Nat → List Nat × List Nat
  | loads, [] => ([], loads)
  | loads, w :: ws =>
    let i := pick bound loads
    let rest := deal bound (loads.modify i (· + w)) ws
    (i :: rest.1, rest.2)

/-- The number of weights that are not zero. -/
def heavy (ws : List Nat) : Nat := ws.countP (0 < ·)

section
variable {bound f w : Nat} {loads ws : List Nat}

@[simp] theorem length_deal_fst : (deal bound loads ws).1.length = ws.length := by
  induction ws generalizing loads with
  | nil => rfl
  | cons w ws ih => simp [deal, ih]

@[simp] theorem length_deal_snd : (deal bound loads ws).2.length = loads.length := by
  induction ws generalizing loads with
  | nil => rfl
  | cons w ws ih => simp [deal, ih]

theorem heavy_cons (w : Nat) (ws : List Nat) :
    heavy (w :: ws) = heavy ws + if 0 < w then 1 else 0 := by
  simp [heavy, List.countP_cons]

theorem heavy_pos (h : ∀ w ∈ ws, 0 < w) (hne : ws ≠ []) : 0 < heavy ws := by
  rw [heavy, List.countP_pos_iff]
  obtain ⟨w, hw⟩ := List.exists_mem_of_ne_nil ws hne
  exact ⟨w, hw, by simpa using h w hw⟩

theorem front_add_heavy : (if 0 < w then f + 1 else f) + heavy ws = f + heavy (w :: ws) := by
  rw [heavy_cons]
  split <;> omega

/-- The front moves on by one bin for each weight that is not zero. -/
theorem front_deal (h : Front loads f) (hbound : 0 < bound) :
    Front (deal bound loads ws).2 (min (f + heavy ws) loads.length) := by
  induction ws generalizing loads f with
  | nil =>
    have := h.le
    simpa [deal, heavy, Nat.min_eq_left this] using h
  | cons w ws ih =>
    rcases Nat.lt_or_eq_of_le h.le with hlt | rfl
    · have hnext := ih (h.modify (w := w) hlt)
      rw [List.length_modify, front_add_heavy] at hnext
      rw [deal, h.pick hlt hbound]
      exact hnext
    · have hnext := ih (h.modify_full (w := w) (pick bound loads))
      rw [List.length_modify, Nat.min_eq_right (Nat.le_add_right _ _)] at hnext
      rw [Nat.min_eq_right (Nat.le_add_right _ _)]
      exact hnext

theorem mem_deal_of_lt (h : Front loads f) (hbound : 0 < bound) {j : Nat} (hfj : f ≤ j)
    (hj : j < f + heavy ws) (hlen : j < loads.length) : j ∈ (deal bound loads ws).1 := by
  induction ws generalizing loads f with
  | nil => simp [heavy] at hj; omega
  | cons w ws ih =>
    have hlt : f < loads.length := by omega
    rw [deal, h.pick hlt hbound]
    by_cases hjf : j = f
    · simp [hjf]
    · refine List.mem_cons_of_mem _ (ih (h.modify hlt) ?_ ?_ (by simpa using hlen))
      · split <;> omega
      · rwa [front_add_heavy]

theorem front_mem_deal (h : Front loads f) (hbound : 0 < bound) (hlt : f < loads.length)
    (hne : ws ≠ []) : f ∈ (deal bound loads ws).1 := by
  obtain ⟨w, ws, rfl⟩ := List.exists_cons_of_ne_nil hne
  simp [deal, h.pick hlt hbound]

/-- A bin that gets an item is one of those from the front on, unless there are more weights than
bins without a load. -/
theorem lt_of_mem_deal (h : Front loads f) (hbound : 0 < bound) (hws : ws.Pairwise (· ≤ ·))
    (hlt : f < loads.length ∨ loads ≠ [] ∧ ∀ w ∈ ws, 0 < w) {j : Nat}
    (hj : j ∈ (deal bound loads ws).1) :
    j < loads.length ∧ (f ≤ j ∧ j < f + max 1 (heavy ws) ∨ loads.length < f + heavy ws) := by
  induction ws generalizing loads f with
  | nil => simp [deal] at hj
  | cons w ws ih =>
    obtain ⟨hle, hsorted⟩ := List.pairwise_cons.1 hws
    rcases Nat.lt_or_eq_of_le h.le with hfn | rfl
    · rw [deal, h.pick hfn hbound] at hj
      rcases List.mem_cons.1 hj with rfl | hj
      · omega
      have hfront := h.modify (w := w) hfn
      rw [heavy_cons]
      split at hfront
      · -- the weights after one that is not zero are not zero
        rename_i hw
        have hpos : ∀ v ∈ ws, 0 < v := fun v hv => Nat.lt_of_lt_of_le hw (hle v hv)
        have hne : ws ≠ [] := by rintro rfl; simp [deal] at hj
        have hheavy := heavy_pos hpos hne
        have := ih hfront hsorted (.inr ⟨by simp; rintro rfl; simp at hfn, hpos⟩) hj
        rw [List.length_modify] at this
        rw [if_pos hw]
        omega
      · rename_i hw
        have := ih hfront hsorted (.inl (by simpa using hfn)) hj
        rw [List.length_modify] at this
        rw [if_neg hw]
        omega
    · obtain ⟨hne, hpos⟩ := hlt.resolve_left (Nat.lt_irrefl _)
      have hw := hpos w List.mem_cons_self
      refine ⟨?_, .inr ?_⟩
      · rcases List.mem_cons.1 hj with rfl | hj
        · exact pick_lt hne
        · have := ih (h.modify_full (w := w) _) hsorted ?_ hj
          · simpa using this.1
          · rw [List.length_modify]
            exact .inr ⟨by simpa using hne, fun v hv => hpos v (List.mem_cons_of_mem w hv)⟩
      · rw [heavy_cons, if_pos hw]
        omega

/-- The bins that get an item in a deal that stays below `n`, when at least `n` bins have no load. -/
theorem mem_deal_iff {n : Nat} (h : Front loads f) (hbound : 0 < bound)
    (hws : ws.Pairwise (· ≤ ·)) (hne : ws ≠ []) (hn : f + n ≤ loads.length)
    (hall : ∀ j ∈ (deal bound loads ws).1, j < n) (j : Nat) :
    j ∈ (deal bound loads ws).1 ↔ f ≤ j ∧ j < f + max 1 (heavy ws) ∧ j < n := by
  have hpos : 0 < n := by
    obtain ⟨w, ws', rfl⟩ := List.exists_cons_of_ne_nil hne
    exact Nat.lt_of_le_of_lt (Nat.zero_le _) (hall _ (List.mem_cons_self))
  have hlt : f < loads.length := by omega
  have hfn := hall f (front_mem_deal h hbound hlt hne)
  constructor
  · intro hj
    have hjn := hall j hj
    obtain ⟨-, hrange | hover⟩ := lt_of_mem_deal h hbound hws (.inl hlt) hj
    · omega
    -- more weights than bins: the deal stays below `n` only if these are all bins
    · rcases Nat.lt_or_ge n loads.length with hlen | hlen
      · have := hall n (mem_deal_of_lt h hbound (Nat.le_of_lt hfn) (by omega) hlen)
        omega
      · omega
  · rintro ⟨hfj, hj, hjn⟩
    rcases Nat.eq_zero_or_pos (heavy ws) with hzero | hheavy
    · obtain rfl : j = f := by omega
      exact front_mem_deal h hbound hlt hne
    · exact mem_deal_of_lt h hbound hfj (by omega) (by omega)

/-- When a deal stays below `n`: there is nothing to deal, the bins that get an item end below `n`, or
there are no others. -/
theorem deal_below_iff {n q : Nat} (h : Front loads f) (hbound : 0 < bound)
    (hws : ws.Pairwise (· ≤ ·)) (hfq : f ≤ q) (hlen : loads.length = q + n) :
    (∀ j ∈ (deal bound loads ws).1, j < n) ↔
      ws = [] ∨ f + max 1 (heavy ws) ≤ n ∨ (q = 0 ∧ 0 < n) := by
  constructor
  · intro hall
    by_contra hnot
    obtain ⟨hne, hover, hothers⟩ : ws ≠ [] ∧ n < f + max 1 (heavy ws) ∧ ¬ (q = 0 ∧ 0 < n) := by
      simp only [not_or, Nat.not_le] at hnot
      exact hnot
    obtain ⟨i, hi⟩ : ∃ i, i ∈ (deal bound loads ws).1 := by
      apply List.exists_mem_of_length_pos
      rw [length_deal_fst]
      exact List.length_pos_of_ne_nil hne
    have hn := hall i hi
    have hfn := hall f (front_mem_deal h hbound (by omega) hne)
    -- the bins up to `n` are filled, and so is one behind them
    have hmem : n ∈ (deal bound loads ws).1 :=
      mem_deal_of_lt h hbound (by omega) (by omega) (by omega)
    exact Nat.lt_irrefl n (hall n hmem)
  · rintro (rfl | hfits | ⟨rfl, hn⟩) j hj
    · cases hj
    · obtain ⟨-, hrange | hover⟩ := lt_of_mem_deal h hbound hws (.inl (by omega)) hj
      · omega
      · omega
    · have hlt := (lt_of_mem_deal h hbound hws (.inl (by omega)) hj).1
      omega

end

/-! ## The spread of the loads -/

section
variable {bound w : Nat} {loads ws : List Nat}

theorem scan_spec (loads : List Nat) (j best least : Nat) :
    (scan loads j best least = best ∧ ∀ b ∈ loads, least ≤ b) ∨
    ∃ i b, scan loads j best least = j + i ∧ loads[i]? = some b ∧ b < least ∧ ∀ c ∈ loads, b ≤ c := by
  induction loads generalizing j best least with
  | nil => exact .inl ⟨rfl, fun b hb => by cases hb⟩
  | cons b loads ih =>
    unfold scan
    split
    · rename_i hlt
      right
      rcases ih (j + 1) j b with ⟨hr, hmin⟩ | ⟨i, c, hr, hget, hc, hmin⟩
      · exact ⟨0, b, hr, rfl, hlt, List.forall_mem_cons.2 ⟨Nat.le_refl _, hmin⟩⟩
      · exact ⟨i + 1, c, by omega, hget, by omega, List.forall_mem_cons.2 ⟨by omega, hmin⟩⟩
    · rename_i hge
      rcases ih (j + 1) best least with ⟨hr, hmin⟩ | ⟨i, c, hr, hget, hc, hmin⟩
      · exact .inl ⟨hr, List.forall_mem_cons.2 ⟨by omega, hmin⟩⟩
      · exact .inr ⟨i + 1, c, by omega, hget, hc, List.forall_mem_cons.2 ⟨by omega, hmin⟩⟩

theorem le_sum_of_mem {b : Nat} (h : b ∈ loads) : b ≤ loads.sum := by
  induction loads with
  | nil => cases h
  | cons c loads ih =>
    rw [List.sum_cons]
    rcases List.mem_cons.1 h with rfl | h
    · omega
    · have := ih h
      omega

/-- The bin that is picked is a least loaded one, also when its load has reached the bound: then all
others are empty. -/
theorem pick_spec (hne : loads ≠ []) (hsum : loads.sum ≤ bound) :
    ∃ b, loads[pick bound loads]? = some b ∧ ∀ c ∈ loads, b ≤ c := by
  rcases scan_spec loads 0 0 bound with ⟨hr, hmin⟩ | ⟨i, b, hr, hget, -, hmin⟩
  · obtain ⟨b, rest, rfl⟩ := List.exists_cons_of_ne_nil hne
    refine ⟨b, by rw [pick, hr]; rfl, fun c hc => ?_⟩
    have hb : b ≤ (b :: rest).sum := le_sum_of_mem List.mem_cons_self
    exact Nat.le_trans (Nat.le_trans hb hsum) (hmin c hc)
  · exact ⟨b, by rw [pick, hr, Nat.zero_add]; exact hget, hmin⟩

theorem sum_modify {k b : Nat} (h : loads[k]? = some b) :
    (loads.modify k (· + w)).sum = loads.sum + w := by
  induction loads generalizing k with
  | nil => cases h
  | cons c loads ih =>
    cases k with
    | zero =>
      rw [List.modify_zero_cons, List.sum_cons, List.sum_cons]
      omega
    | succ k =>
      rw [List.modify_succ_cons, List.sum_cons, List.sum_cons, ih h]
      omega

theorem mem_modify {k b x : Nat} (h : loads[k]? = some b) (hx : x ∈ loads.modify k (· + w)) :
    x ∈ loads ∨ x = b + w := by
  obtain ⟨i, hi⟩ := List.getElem?_of_mem hx
  rw [List.getElem?_modify] at hi
  split at hi
  · rename_i hki
    subst hki
    rw [h] at hi
    exact .inr (Option.some.inj hi).symm
  · exact .inl (List.mem_of_getElem? (by simpa using hi))

/-- No two loads differ by more than `m`. -/
def Spread (m : Nat) (loads : List Nat) : Prop := ∀ x ∈ loads, ∀ y ∈ loads, x ≤ y + m

theorem spread_replicate (m n b : Nat) : Spread m (List.replicate n b) := by
  intro x hx y hy
  rw [List.eq_of_mem_replicate hx, List.eq_of_mem_replicate hy]
  omega

theorem Spread.modify {m k b : Nat} (h : Spread m loads) (hget : loads[k]? = some b)
    (hmin : ∀ c ∈ loads, b ≤ c) (hw : w ≤ m) : Spread m (loads.modify k (· + w)) := by
  have hb := List.mem_of_getElem? hget
  intro x hx y hy
  rcases mem_modify hget hx with hx | rfl <;> rcases mem_modify hget hy with hy | rfl
  · exact h x hx y hy
  · have := h x hx b hb
    omega
  · have := hmin y hy
    omega
  · omega

/-- **A deal keeps the loads within the largest weight.** -/
theorem Spread.deal {m : Nat} (h : Spread m loads) (hne : loads ≠ [])
    (hsum : loads.sum + ws.sum ≤ bound) (hws : ∀ w ∈ ws, w ≤ m) :
    Spread m (deal bound loads ws).2 := by
  induction ws generalizing loads with
  | nil => exact h
  | cons w ws ih =>
    rw [List.sum_cons] at hsum
    obtain ⟨b, hget, hmin⟩ : ∃ b, loads[pick bound loads]? = some b ∧ ∀ c ∈ loads, b ≤ c :=
      pick_spec hne (by omega)
    refine ih (h.modify hget hmin (hws w List.mem_cons_self)) ?_ ?_ ?_
    · intro hnil
      exact hne (List.length_eq_zero_iff.1 (by rw [← List.length_modify, hnil]; rfl))
    · rw [sum_modify hget]
      omega
    · intro v hv
      exact hws v (List.mem_cons_of_mem _ hv)

/-- The weights that went to bin `j`, summed up. -/
def share (j : Nat) : List Nat → List Nat → Nat
  | w :: ws, i :: is => (if i = j then w else 0) + share j ws is
  | _, _ => 0

theorem share_one (j : Nat) (is : List Nat) : share j (is.map fun _ => 1) is = is.count j := by
  induction is with
  | nil => rfl
  | cons i is ih =>
    rw [List.map_cons, share, ih, List.count_cons, Nat.add_comm]
    simp only [beq_iff_eq]

theorem share_add (q j : Nat) (ws is : List Nat) : share (q + j) ws (is.map (q + ·)) = share j ws is := by
  induction ws generalizing is with
  | nil => cases is <;> rfl
  | cons w ws ih =>
    cases is with
    | nil => rfl
    | cons i is =>
      rw [List.map_cons, share, share, ih]
      simp only [Nat.add_left_cancel_iff]

/-- What the load of a bin is made of. -/
theorem getElem?_deal {j b : Nat} (h : loads[j]? = some b) :
    (deal bound loads ws).2[j]? = some (b + share j ws (deal bound loads ws).1) := by
  induction ws generalizing loads b with
  | nil => simpa [Deal.deal, share] using h
  | cons w ws ih =>
    have hnext : (loads.modify (pick bound loads) (· + w))[j]? =
        some (b + if pick bound loads = j then w else 0) := by
      rw [List.getElem?_modify, h]
      split <;> rfl
    rw [Deal.deal, ih hnext, share, Nat.add_assoc]

end

end Deal
