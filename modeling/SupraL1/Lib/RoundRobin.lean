import Mathlib.Data.Nat.ModEq
import SupraL1.Lib.Deal

/-!
# Dealing sorted weights is a round robin

When the weights are sorted, each goes to the bin that has waited longest: the bin with the least load
becomes one with the largest. So bins without a load are dealt to in turn (`deal_eq_turns`), apart from
the weights that are zero, which all go to the first of them. `busiest` is the number of items of the
bin that gets the most: the weights that are zero, and its share of the others, rounded up.
-/

set_option autoImplicit false

namespace Deal

section
variable {bound m : Nat} {before after loads ws : List Nat}

/-! ## Turns -/

theorem modify_append_cons (w : Nat) :
    (before ++ m :: after).modify before.length (· + w) = before ++ (m + w) :: after := by
  induction before with
  | nil => rfl
  | cons b before ih => rw [List.cons_append, List.length_cons, List.modify_succ_cons, ih]; rfl

/-- The bins `before` have had their turn, the next one has the load `m`. No load is above this one by
more than `w`, the largest weight so far. -/
structure Turn (w : Nat) (before : List Nat) (m : Nat) (after : List Nat) : Prop where
  pos : 0 < w
  sorted_before : before.Pairwise (· ≤ ·)
  sorted_after : after.Pairwise (· ≤ ·)
  least : ∀ b ∈ after, m ≤ b
  waited : ∀ b ∈ m :: after, ∀ c ∈ before, b < c
  near_before : ∀ b ∈ before, b ≤ m + w
  near_after : ∀ b ∈ after, b < m + w

theorem turn_replicate {w : Nat} (hw : 0 < w) (n : Nat) : Turn w [] 0 (List.replicate n 0) where
  pos := hw
  sorted_before := .nil
  sorted_after := List.pairwise_replicate.2 (.inr (Nat.le_refl 0))
  least _ _ := Nat.zero_le _
  waited _ _ _ hc := by cases hc
  near_before _ hb := by cases hb
  near_after b hb := by rw [List.eq_of_mem_replicate hb]; omega

namespace Turn

variable {w v : Nat}

theorem pick_eq (h : Turn w before m after) (hm : m < bound) :
    pick bound (before ++ m :: after) = before.length :=
  pick_append_least (fun c hc => h.waited m List.mem_cons_self c hc) h.least hm

theorem next {m' : Nat} (h : Turn w before m (m' :: after)) (hv : w ≤ v) :
    Turn v (before ++ [m + v]) m' after := by
  have hpos := h.pos
  have hmm' := h.least m' List.mem_cons_self
  have hnear := h.near_after m' List.mem_cons_self
  obtain ⟨hm', hsorted⟩ := List.pairwise_cons.1 h.sorted_after
  refine ⟨by omega, ?_, hsorted, hm', fun b hb c hc => ?_, fun b hb => ?_, fun b hb => ?_⟩
  · refine List.pairwise_append.2 ⟨h.sorted_before, List.pairwise_singleton _ _, fun b hb c hc => ?_⟩
    have := h.near_before b hb
    rw [List.mem_singleton.1 hc]
    omega
  · rcases List.mem_append.1 hc with hc | hc
    · exact h.waited b (List.mem_cons_of_mem m hb) c hc
    · have := h.near_after b hb
      rw [List.mem_singleton.1 hc]
      omega
  · rcases List.mem_append.1 hb with hb | hb
    · have := h.near_before b hb
      omega
    · rw [List.mem_singleton.1 hb]
      omega
  · have := h.near_after b (List.mem_cons_of_mem m' hb)
    omega

theorem wrap (h : Turn w before m []) (hv : w ≤ v) {first : Nat} {rest : List Nat}
    (heq : before ++ [m + v] = first :: rest) : Turn v [] first rest := by
  have hpos := h.pos
  have hsorted : (first :: rest).Pairwise (· ≤ ·) := by
    rw [← heq]
    refine List.pairwise_append.2 ⟨h.sorted_before, List.pairwise_singleton _ _, fun b hb c hc => ?_⟩
    have := h.near_before b hb
    rw [List.mem_singleton.1 hc]
    omega
  obtain ⟨hleast, hrest⟩ := List.pairwise_cons.1 hsorted
  -- the load that was dealt to last was strictly below the others
  have hbelow : m < first := by
    have hmem : first ∈ before ++ [m + v] := by rw [heq]; exact List.mem_cons_self
    rcases List.mem_append.1 hmem with hmem | hmem
    · exact h.waited m List.mem_cons_self first hmem
    · rw [List.mem_singleton.1 hmem]
      omega
  refine ⟨by omega, .nil, hrest, hleast, fun _ _ _ hc => (by cases hc), fun _ hb => (by cases hb),
    fun b hb => ?_⟩
  have hmem : b ∈ before ++ [m + v] := by rw [heq]; exact List.mem_cons_of_mem _ hb
  rcases List.mem_append.1 hmem with hmem | hmem
  · have := h.near_before b hmem
    omega
  · rw [List.mem_singleton.1 hmem]
    omega

end Turn

theorem succ_mod_of_lt {n k p : Nat} (hk : k % n = p) (hp : p + 1 < n) : (k + 1) % n = p + 1 := by
  rw [← Nat.div_add_mod k n, hk, Nat.add_assoc, Nat.mul_add_mod, Nat.mod_eq_of_lt hp]

theorem succ_mod_of_eq {n k p : Nat} (hk : k % n = p) (hp : p + 1 = n) : (k + 1) % n = 0 := by
  rw [← Nat.div_add_mod k n, hk, Nat.add_assoc, hp, Nat.mul_add_mod, Nat.mod_self]

/-- **Sorted weights are dealt in turn**, from the bin whose turn it is. -/
theorem deal_eq_turns {n w k : Nat} (h : Turn w before m after)
    (hlen : (before ++ m :: after).length = n) (hk : k % n = before.length)
    (hws : (w :: ws).Pairwise (· ≤ ·)) (hsum : (before ++ m :: after).sum + ws.sum ≤ bound) :
    (deal bound (before ++ m :: after) ws).1 = (List.range' k ws.length).map (· % n) := by
  induction ws generalizing w k before m after with
  | nil => rfl
  | cons v ws ih =>
    obtain ⟨hle, hsorted⟩ := List.pairwise_cons.1 hws
    have hv := hle v List.mem_cons_self
    have hpos := h.pos
    rw [List.sum_cons, List.sum_append, List.sum_cons] at hsum
    have hpick : pick bound (before ++ m :: after) = before.length := h.pick_eq (by omega)
    rw [deal, hpick, modify_append_cons, List.length_cons, List.range'_succ, List.map_cons, hk]
    refine congrArg (before.length :: ·) ?_
    rw [List.length_append, List.length_cons] at hlen
    have hsum' : (before ++ (m + v) :: after).sum + ws.sum ≤ bound := by
      rw [List.sum_append, List.sum_cons]
      omega
    cases after with
    | cons m' after =>
      rw [List.append_cons before (m + v)] at hsum' ⊢
      refine ih (h.next hv) (by simpa using hlen) ?_ hsorted hsum'
      rw [List.length_append, List.length_singleton]
      exact succ_mod_of_lt hk (by rw [List.length_cons] at hlen; omega)
    | nil =>
      obtain ⟨first, rest, heq⟩ := List.exists_cons_of_ne_nil (l := before ++ [m + v]) (by simp)
      rw [heq] at hsum' ⊢
      have hlen' : ([] ++ first :: rest).length = n := by
        rw [List.nil_append, ← heq, List.length_append]
        exact hlen
      exact ih (h.wrap hv heq) hlen' (succ_mod_of_eq hk hlen) hsorted hsum'

/-! ## The busiest bin -/

theorem count_turns {n j : Nat} (hj : j < n) (len : Nat) :
    ((List.range' 0 len).map (· % n)).count j = (len + (n - 1 - j)) / n := by
  induction len with
  | zero =>
    rw [Nat.zero_add, Nat.div_eq_of_lt (by omega)]
    rfl
  | succ len ih =>
    rw [List.range'_1_concat, List.map_append, List.count_append, ih, Nat.add_right_comm, Nat.succ_div,
      List.map_singleton, List.count_singleton, Nat.zero_add]
    congr 1
    have hiff : len % n = j ↔ n ∣ len + (n - 1 - j) + 1 := by
      rw [show len + (n - 1 - j) + 1 = len + (n - j) by omega]
      constructor
      · rintro rfl
        refine ⟨len / n + 1, ?_⟩
        have := Nat.div_add_mod len n
        rw [Nat.mul_add, Nat.mul_one]
        omega
      · rintro ⟨q, hq⟩
        have hsub : len = n * (q - 1) + j := by
          cases q with
          | zero => omega
          | succ q =>
            rw [Nat.mul_succ] at hq
            rw [Nat.add_sub_cancel]
            omega
        rw [hsub, Nat.mul_add_mod, Nat.mod_eq_of_lt hj]
    simp only [beq_iff_eq, hiff]

/-- The number of items of the busiest of `n` bins. -/
def busiest (n : Nat) (ws : List Nat) : Nat := ws.count 0 + (heavy ws + (n - 1)) / n

theorem busiest_nil (n : Nat) : busiest n [] = 0 := by
  rw [busiest, List.count_nil, heavy, List.countP_nil, Nat.zero_add, Nat.zero_add]
  rcases Nat.eq_zero_or_pos n with rfl | hn
  · rfl
  · exact Nat.div_eq_of_lt (by omega)

theorem sorted_eq_append (h : ws.Pairwise (· ≤ ·)) :
    ws = List.replicate (ws.count 0) 0 ++ ws.filter (0 < ·) := by
  induction ws with
  | nil => rfl
  | cons w ws ih =>
    obtain ⟨hle, hsorted⟩ := List.pairwise_cons.1 h
    rcases Nat.eq_zero_or_pos w with rfl | hw
    · rw [List.count_cons_self, List.replicate_succ, List.filter_cons_of_neg (by decide),
        List.cons_append, ← ih hsorted]
    · have hpos : ∀ v ∈ w :: ws, 0 < v :=
        List.forall_mem_cons.2 ⟨hw, fun v hv => Nat.lt_of_lt_of_le hw (hle v hv)⟩
      have hzero : (w :: ws).count 0 = 0 :=
        List.count_eq_zero.2 fun hmem => Nat.lt_irrefl 0 (hpos 0 hmem)
      have hall : (w :: ws).filter (0 < ·) = w :: ws :=
        List.filter_eq_self.2 fun v hv => decide_eq_true (hpos v hv)
      rw [hzero, hall]
      rfl

theorem deal_append (ws' : List Nat) :
    (deal bound loads (ws ++ ws')).1 =
      (deal bound loads ws).1 ++ (deal bound (deal bound loads ws).2 ws').1 := by
  induction ws generalizing loads with
  | nil => rfl
  | cons w ws ih => simp only [List.cons_append, deal, ih]

theorem deal_zeros {f : Nat} (h : Front loads f) (hlt : f < loads.length) (hbound : 0 < bound) (z : Nat) :
    deal bound loads (List.replicate z 0) = (List.replicate z f, loads) := by
  induction z with
  | zero => rfl
  | succ z ih =>
    have hsame : loads.modify f (· + 0) = loads := List.modify_id f loads
    rw [List.replicate_succ, deal, h.pick hlt hbound, hsame, ih]
    rfl

theorem deal_fill {f : Nat} (h : Front loads f) (hbound : 0 < bound) (hpos : ∀ w ∈ ws, 0 < w)
    (hroom : f + ws.length ≤ loads.length) : (deal bound loads ws).1 = List.range' f ws.length := by
  induction ws generalizing loads f with
  | nil => rfl
  | cons w ws ih =>
    obtain ⟨hw, hrest⟩ := List.forall_mem_cons.1 hpos
    rw [List.length_cons] at hroom
    have hlt : f < loads.length := by omega
    have hnext := h.modify (w := w) hlt
    rw [if_pos hw] at hnext
    rw [deal, h.pick hlt hbound, List.length_cons, List.range'_succ]
    rw [ih hnext hrest (by rw [List.length_modify]; omega)]

theorem deal_empty {n : Nat} (hn : 0 < n) (hpos : ∀ w ∈ ws, 0 < w) (hws : ws.Pairwise (· ≤ ·))
    (hsum : ws.sum ≤ bound) :
    (deal bound (List.replicate n 0) ws).1 = (List.range' 0 ws.length).map (· % n) := by
  obtain ⟨n, rfl⟩ := Nat.exists_eq_succ_of_ne_zero hn.ne'
  have hturn : Turn 1 [] 0 (List.replicate n 0) := turn_replicate Nat.one_pos n
  have hlen : ([] ++ 0 :: List.replicate n 0).length = n + 1 := by simp
  have hsum' : ([] ++ 0 :: List.replicate n 0).sum + ws.sum ≤ bound := by simpa using hsum
  exact deal_eq_turns hturn hlen (Nat.zero_mod _) (List.pairwise_cons.2 ⟨hpos, hws⟩) hsum'

/-- Zeros at the front of a run of bins that get one item each. -/
theorem count_run {n len : Nat} (hn : 0 < n) (hlen : len ≤ n) (z f : Nat) :
    (∀ j, (List.replicate z f ++ List.range' f len).count j ≤ z + (len + (n - 1)) / n) ∧
      (List.replicate z f ++ List.range' f len).count f = z + (len + (n - 1)) / n := by
  have hshare : (len + (n - 1)) / n = if 0 < len then 1 else 0 := by
    split
    · rw [Nat.div_eq_iff (by omega)]
      omega
    · exact Nat.div_eq_of_lt (by omega)
  have hcount (j : Nat) : (List.range' f len).count j = if f ≤ j ∧ j < f + len then 1 else 0 := by
    rw [List.Nodup.count List.nodup_range']
    simp only [List.mem_range'_1]
  simp only [List.count_append, hcount, hshare, List.count_replicate, beq_iff_eq]
  refine ⟨fun j => ?_, ?_⟩
  · split <;> split <;> split <;> omega
  · rw [if_pos trivial]
    split <;> split <;> omega

/-- Zeros at the first of `n` bins that get the items in turn. -/
theorem count_rounds {n : Nat} (hn : 0 < n) (z len : Nat) :
    (∀ j, (List.replicate z 0 ++ (List.range' 0 len).map (· % n)).count j ≤ z + (len + (n - 1)) / n) ∧
      (List.replicate z 0 ++ (List.range' 0 len).map (· % n)).count 0 = z + (len + (n - 1)) / n := by
  simp only [List.count_append, List.count_replicate, beq_iff_eq]
  refine ⟨fun j => ?_, by rw [if_pos trivial, count_turns hn, Nat.sub_zero]⟩
  rcases Nat.lt_or_ge j n with hj | hj
  · rw [count_turns hj]
    have hle : (len + (n - 1 - j)) / n ≤ (len + (n - 1)) / n := Nat.div_le_div_right (by omega)
    split <;> omega
  · have hnot : ((List.range' 0 len).map (· % n)).count j = 0 := by
      rw [List.count_eq_zero]
      intro hmem
      obtain ⟨k, -, rfl⟩ := List.mem_map.1 hmem
      exact Nat.not_lt.2 hj (Nat.mod_lt k hn)
    rw [hnot, Nat.add_zero]
    split
    · exact Nat.le_add_right _ _
    · exact Nat.zero_le _

theorem deal_sorted {f : Nat} (h : Front loads f) (hlt : f < loads.length) (hbound : 0 < bound)
    (hws : ws.Pairwise (· ≤ ·)) : (deal bound loads ws).1 =
      List.replicate (ws.count 0) f ++ (deal bound loads (ws.filter (0 < ·))).1 := by
  conv_lhs => rw [sorted_eq_append hws]
  rw [deal_append, deal_zeros h hlt hbound]

/-- **What the busiest bin gets**, in a deal that stays below `n`: `q` bins are in front of the last `n`,
and only they may have a load. -/
theorem count_deal {n q f : Nat} (h : Front loads f) (hbound : 0 < bound) (hws : ws.Pairwise (· ≤ ·))
    (hfq : f ≤ q) (hlen : loads.length = q + n) (hsum : ws.sum ≤ bound)
    (hall : ∀ j ∈ (deal bound loads ws).1, j < n) :
    (∀ j, (deal bound loads ws).1.count j ≤ busiest n ws) ∧
      ∃ j, (deal bound loads ws).1.count j = busiest n ws := by
  have hheavy : (ws.filter (0 < ·)).length = heavy ws := (List.countP_eq_length_filter).symm
  have hpos : ∀ w ∈ ws.filter (0 < ·), 0 < w := fun w hw => of_decide_eq_true (List.mem_filter.1 hw).2
  rcases (deal_below_iff h hbound hws hfq hlen).1 hall with rfl | hfits | ⟨rfl, hn⟩
  · rw [busiest_nil]
    exact ⟨fun j => Nat.le_refl _, 0, rfl⟩
  · -- one item at most for each bin behind the front
    rw [deal_sorted h (by omega) hbound hws, deal_fill h hbound hpos (by omega), hheavy]
    have hroom : heavy ws ≤ n := by omega
    obtain ⟨hle, heq⟩ := count_run (by omega) hroom (ws.count 0) f
    exact ⟨hle, f, heq⟩
  · have hnil : f = 0 := by omega
    subst hnil
    have hempty : loads = List.replicate n 0 := by
      obtain ⟨full, empty, rfl, hfull, -⟩ := h
      rw [List.length_eq_zero_iff.1 hfull] at hlen ⊢
      rw [List.nil_append, List.length_replicate, Nat.zero_add] at hlen
      rw [hlen, List.nil_append]
    have hsum' : (ws.filter (0 < ·)).sum ≤ bound := by
      rw [sorted_eq_append hws, List.sum_append] at hsum
      omega
    rw [deal_sorted h (by omega) hbound hws, hempty, deal_empty hn hpos (hws.filter _) hsum', hheavy]
    obtain ⟨hle, heq⟩ := count_rounds hn (ws.count 0) (heavy ws)
    exact ⟨hle, 0, heq⟩

end

end Deal
