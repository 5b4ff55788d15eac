import Mathlib.Data.Finset.Card

/-!
# Caches that evict the least recently used key

The entries stand in the order of their last use, the latest first. Using a key, be it by `get` or
by `put`, moves it to the front, and what then exceeds the capacity is dropped (`use`).

`recent uses` orders the keys that were ever used in the same way. The keys in the cache are the
first `capacity` of them (`keys_use`), and a key is one of these iff fewer than `capacity` others
were used since its last use (`mem_take_recent`).
-/

namespace Lru

variable {κ ν : Type}

structure Cache (κ ν : Type) where
  capacity : Nat
  entries : List (κ × ν)

namespace Cache

def new (capacity : Nat) : Cache κ ν := ⟨capacity, []⟩

def keys (c : Cache κ ν) : List κ := c.entries.map (·.1)

variable [DecidableEq κ]

/-- The value of a key; the order of use stays. -/
def peek (c : Cache κ ν) (k : κ) : Option ν := c.entries.lookup k

/-- Moves the key to the front, with the value `v`. -/
def use (c : Cache κ ν) (k : κ) (v : ν) : Cache κ ν :=
  { c with entries := ((k, v) :: c.entries.filter fun e => e.1 ≠ k).take c.capacity }

def get (c : Cache κ ν) (k : κ) : Option ν × Cache κ ν :=
  match c.peek k with
  | none => (none, c)
  | some v => (some v, c.use k v)

def put (c : Cache κ ν) (k : κ) (v : ν) : Cache κ ν := c.use k v

end Cache

/-! ## Lookup -/

section
variable [DecidableEq κ]

theorem lookup_filter_ne {l : List (κ × ν)} {j k : κ} (h : j ≠ k) :
    (l.filter fun e => e.1 ≠ k).lookup j = l.lookup j := by
  induction l with
  | nil => rfl
  | cons e l ih =>
    by_cases hk : e.1 = k
    · rw [List.filter_cons_of_neg (by simp [hk]), ih, List.lookup_cons,
        beq_false_of_ne (by rwa [hk])]
    · rw [List.filter_cons_of_pos (by simp [hk]), List.lookup_cons, List.lookup_cons, ih]

theorem lookup_of_lookup_take {l : List (κ × ν)} {n : Nat} {k : κ} {v : ν}
    (h : (l.take n).lookup k = some v) : l.lookup k = some v := by
  rw [← List.take_append_drop n l, List.lookup_append, h]
  rfl

theorem lookup_eq_none_iff {l : List (κ × ν)} {k : κ} : l.lookup k = none ↔ k ∉ l.map (·.1) := by
  rw [List.lookup_eq_none_iff]
  simp only [List.mem_map, not_exists, not_and, bne_iff_ne]
  exact ⟨fun h e he hk => h e he hk.symm, fun h e he hk => h e he hk.symm⟩

namespace Cache

theorem peek_use_self {c : Cache κ ν} (h : 0 < c.capacity) (k : κ) (v : ν) :
    (c.use k v).peek k = some v := by
  unfold peek use
  rw [List.take_cons h, List.lookup_cons_self]

theorem use_use (c : Cache κ ν) (k : κ) (v w : ν) : (c.use k v).use k w = c.use k w := by
  unfold use
  cases c.capacity with
  | zero => rfl
  | succ n =>
    have hself : ∀ l : List (κ × ν),
        ((l.filter fun e => e.1 ≠ k).take n).filter (fun e => e.1 ≠ k) =
          (l.filter fun e => e.1 ≠ k).take n := fun l =>
      List.filter_eq_self.2 fun e he => (List.mem_filter.1 (List.mem_of_mem_take he)).2
    simp only [List.take_succ_cons]
    rw [List.filter_cons_of_neg (by simp), hself, List.take_take, Nat.min_self]

/-- Another key keeps its value as long as it stays in the cache. -/
theorem peek_of_peek_use {c : Cache κ ν} {j k : κ} {v w : ν} (hne : j ≠ k)
    (h : (c.use k v).peek j = some w) : c.peek j = some w := by
  have h' := lookup_of_lookup_take h
  rwa [List.lookup_cons, beq_false_of_ne hne, lookup_filter_ne hne] at h'

theorem peek_eq_none_iff {c : Cache κ ν} {k : κ} : c.peek k = none ↔ k ∉ c.keys :=
  lookup_eq_none_iff

end Cache

/-! ## The order of use -/

/-- The keys of a list of uses, the latest use first, each at its latest use. -/
def recent : List κ → List κ
  | [] => []
  | k :: uses => k :: (recent uses).filter (· ≠ k)

theorem mem_recent {k : κ} {uses : List κ} : k ∈ recent uses ↔ k ∈ uses := by
  induction uses with
  | nil => rfl
  | cons j uses ih =>
    simp only [recent, List.mem_cons, List.mem_filter, ih, decide_eq_true_eq]
    by_cases h : k = j <;> simp [h]

theorem nodup_recent (uses : List κ) : (recent uses).Nodup := by
  induction uses with
  | nil => exact List.nodup_nil
  | cons k uses ih =>
    rw [recent, List.nodup_cons]
    exact ⟨by simp, ih.filter _⟩

theorem recent_append (xs ys : List κ) :
    recent (xs ++ ys) = recent xs ++ (recent ys).filter (· ∉ xs) := by
  induction xs with
  | nil => simp [recent]
  | cons x xs ih =>
    rw [List.cons_append, recent, ih, List.filter_append, List.filter_filter, recent,
      List.cons_append]
    congr 2
    apply List.filter_congr
    intro y _
    simp

theorem length_recent (uses : List κ) : (recent uses).length = uses.toFinset.card := by
  rw [← List.toFinset_card_of_nodup (nodup_recent uses)]
  congr 1
  ext k
  rw [List.mem_toFinset, List.mem_toFinset, mem_recent]

/-- Dropping a key from the first `n + 1` leaves the first `n` of the others. -/
theorem take_filter_take {l : List κ} (h : l.Nodup) (n : Nat) (k : κ) :
    ((l.take (n + 1)).filter (· ≠ k)).take n = (l.filter (· ≠ k)).take n := by
  induction l generalizing n with
  | nil => simp
  | cons x l ih =>
    obtain ⟨hx, hl⟩ := List.nodup_cons.1 h
    rw [List.take_succ_cons]
    by_cases hk : x = k
    · subst hk
      have hne : ∀ y ∈ l, decide (y ≠ x) = true := fun y hy =>
        decide_eq_true fun heq => hx (heq ▸ hy)
      rw [List.filter_cons_of_neg (by simp), List.filter_cons_of_neg (by simp),
        List.filter_eq_self.2 hne, List.filter_eq_self.2 fun y hy => hne y (List.mem_of_mem_take hy),
        List.take_take, Nat.min_self]
    · rw [List.filter_cons_of_pos (by simp [hk]), List.filter_cons_of_pos (by simp [hk])]
      cases n with
      | zero => rfl
      | succ n => rw [List.take_succ_cons, List.take_succ_cons, ih hl]

theorem keys_use {c : Cache κ ν} {uses : List κ} (hcap : 0 < c.capacity)
    (h : c.keys = (recent uses).take c.capacity) (k : κ) (v : ν) :
    (c.use k v).keys = (recent (k :: uses)).take c.capacity := by
  obtain ⟨n, hn⟩ : ∃ n, c.capacity = n + 1 := ⟨c.capacity - 1, by omega⟩
  have hkeys : (c.entries.filter fun e => e.1 ≠ k).map (·.1) = c.keys.filter (· ≠ k) := by
    rw [Cache.keys, List.filter_map]
    rfl
  unfold Cache.use
  rw [Cache.keys, List.map_take, List.map_cons, hkeys, h, hn, recent, List.take_succ_cons,
    List.take_succ_cons, take_filter_take (nodup_recent uses)]

/-- A key is among the first `n` iff it was used and fewer than `n` others were after its last
use. -/
theorem mem_take_recent {k : κ} {uses : List κ} {n : Nat} :
    k ∈ (recent uses).take n ↔ k ∈ uses ∧ (uses.takeWhile (· ≠ k)).toFinset.card < n := by
  by_cases hmem : k ∈ uses
  · obtain ⟨since, before, rfl, hk⟩ := List.eq_append_cons_of_mem hmem
    have hsince : (since ++ k :: before).takeWhile (· ≠ k) = since := by
      have hne : ∀ x ∈ since, decide (x ≠ k) = true := fun x hx =>
        decide_eq_true fun heq => hk (heq ▸ hx)
      rw [List.takeWhile_append_of_pos hne, List.takeWhile_cons_of_neg (by simp), List.append_nil]
    have hrec : recent (since ++ k :: before) =
        recent since ++ k :: ((recent before).filter (· ≠ k)).filter (· ∉ since) := by
      rw [recent_append, recent, List.filter_cons_of_pos (by simpa using hk)]
    have hnot : k ∉ (recent since).take n := fun h => hk (mem_recent.1 (List.mem_of_mem_take h))
    rw [and_iff_right hmem, hsince, hrec, List.take_append, length_recent, List.mem_append,
      or_iff_right hnot]
    constructor
    · intro h
      by_contra hge
      rw [Nat.sub_eq_zero_of_le (by omega), List.take_zero] at h
      cases h
    · intro hlt
      rw [List.take_cons (by omega)]
      exact List.mem_cons_self
  · exact ⟨fun h => absurd (mem_recent.1 (List.mem_of_mem_take h)) hmem, fun h => absurd h.1 hmem⟩

end

end Lru
