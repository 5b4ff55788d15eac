import Mathlib.Data.List.Sort
import Mathlib.Data.NNRat.Floor

/-!
# Sets ordered by a key

A `TreeSet` with the comparison `compareOn f` holds one element for each value of the key `f`.
Inserting elements adds their keys, and keeps the elements that were there.

`collect` is what a list becomes that is made into an ordered set at once: it is sorted stably by the
order, and an element that equals the next one is dropped. Order and equality need not agree.
-/

set_option autoImplicit false

open Std

namespace KeySet

variable {α κ : Type} {cmp : α → α → Ordering}

/-- Elements are equal if the comparison says so. -/
abbrev beqOf (cmp : α → α → Ordering) : BEq α := ⟨fun a b => cmp a b == .eq⟩

theorem lawful_beqOf (cmp : α → α → Ordering) : @LawfulBEqCmp α (beqOf cmp) cmp :=
  let := beqOf cmp
  ⟨beq_iff_eq.symm⟩

theorem toList_empty : (∅ : TreeSet α cmp).toList = [] := rfl

section
variable [TransCmp cmp]

/-- The elements of a set after some have been inserted: some of these, and those it had. -/
theorem toList_insertMany (t : TreeSet α cmp) (l : List α) :
    ∃ added, added.Sublist l ∧ (t.insertMany l).toList.Perm (added ++ t.toList) := by
  let := beqOf cmp
  have := lawful_beqOf cmp
  induction l generalizing t with
  | nil => exact ⟨[], .slnil, by simp⟩
  | cons a l ih =>
    obtain ⟨added, hsub, hperm⟩ := ih (t.insert a)
    rw [TreeSet.insertMany_cons]
    have hinsert := TreeSet.toList_insert_perm (t := t) (k := a)
    split at hinsert
    · exact ⟨added, hsub.cons a, hperm.trans (hinsert.append_left added)⟩
    · exact ⟨a :: added, hsub.cons_cons a,
        (hperm.trans (hinsert.append_left added)).trans List.perm_middle⟩

/-- If the size says that no element was dropped, the set has the elements of the list. -/
theorem toList_ofList_perm {l : List α} (h : (TreeSet.ofList l cmp).size = l.length) :
    (TreeSet.ofList l cmp).toList.Perm l := by
  obtain ⟨added, hsub, hperm⟩ := toList_insertMany (∅ : TreeSet α cmp) l
  rw [← TreeSet.ofList_eq_insertMany_empty, toList_empty, List.append_nil] at hperm
  have hlen : added.length = l.length := by
    rw [← hperm.length_eq, TreeSet.length_toList, h]
  exact hsub.eq_of_length hlen ▸ hperm

theorem toList_ofList_of_pairwise {l : List α} (h : l.Pairwise fun a b => cmp a b = .lt) :
    (TreeSet.ofList l cmp).toList = l := by
  have hsize : (TreeSet.ofList l cmp).size = l.length :=
    TreeSet.size_ofList (h.imp fun hlt heq => by rw [hlt] at heq; cases heq)
  refine (toList_ofList_perm hsize).eq_of_pairwise (fun a b _ _ hab hba => ?_)
    TreeSet.ordered_toList h
  exact absurd hba (OrientedCmp.not_lt_of_lt hab)

end

section
variable [Ord κ] [LawfulEqOrd κ] {f : α → κ}

theorem beqOf_iff {a b : α} : (beqOf (compareOn f)).beq a b = true ↔ f b = f a := by
  show (compareOn f a b == .eq) = true ↔ f b = f a
  rw [beq_iff_eq, compareOn, LawfulEqOrd.compare_eq_iff_eq, eq_comm]

theorem pairwise_ne_iff {l : List α} :
    l.Pairwise (fun a b => ¬ compareOn f a b = .eq) ↔ (l.map f).Nodup := by
  rw [List.Nodup, List.pairwise_map]
  simp only [compareOn, LawfulEqOrd.compare_eq_iff_eq, ne_eq]

variable [TransOrd κ]

/-- The keys of the elements. -/
def keys (t : TreeSet α (compareOn f)) : List κ := t.toList.map f

theorem mem_iff {t : TreeSet α (compareOn f)} {a : α} : a ∈ t ↔ f a ∈ keys t := by
  let := beqOf (compareOn f)
  have := lawful_beqOf (compareOn f)
  rw [← TreeSet.contains_iff_mem, ← TreeSet.contains_toList, List.contains_iff_exists_mem_beq, keys,
    List.mem_map]
  refine exists_congr fun b => and_congr_right fun _ => ?_
  exact beqOf_iff

theorem mem_keys_insertMany {t : TreeSet α (compareOn f)} {l : List α} {k : κ} :
    k ∈ keys (t.insertMany l) ↔ k ∈ keys t ∨ k ∈ l.map f := by
  let := beqOf (compareOn f)
  have := lawful_beqOf (compareOn f)
  have hmem {a : α} : f a ∈ keys (t.insertMany l) ↔ f a ∈ keys t ∨ f a ∈ l.map f := by
    rw [← mem_iff, ← mem_iff, TreeSet.mem_insertMany_list, List.contains_iff_exists_mem_beq,
      List.mem_map]
    refine or_congr_right (exists_congr fun b => and_congr_right fun _ => ?_)
    exact beqOf_iff
  constructor
  · intro h
    obtain ⟨a, -, rfl⟩ := List.mem_map.1 h
    exact hmem.1 h
  · intro h
    obtain ⟨a, rfl⟩ : ∃ a, f a = k := by
      rcases h with h | h <;> obtain ⟨a, -, ha⟩ := List.mem_map.1 h <;> exact ⟨a, ha⟩
    exact hmem.2 h

theorem mem_toList_insertMany {t : TreeSet α (compareOn f)} {l : List α} {a : α}
    (h : a ∈ (t.insertMany l).toList) : a ∈ t.toList ∨ f a ∉ keys t ∧ a ∈ l := by
  let := beqOf (compareOn f)
  have := lawful_beqOf (compareOn f)
  induction l generalizing t with
  | nil => exact .inl (by simpa using h)
  | cons b l ih =>
    rw [TreeSet.insertMany_cons] at h
    have hperm := TreeSet.toList_insert_perm (t := t) (k := b)
    rcases ih h with hmem | ⟨hkey, hmem⟩
    · split at hperm
      · exact .inl (hperm.mem_iff.1 hmem)
      · rename_i hnot
        rcases List.mem_cons.1 (hperm.mem_iff.1 hmem) with rfl | hmem
        · refine .inr ⟨fun hk => hnot ?_, List.mem_cons_self⟩
          exact TreeSet.contains_iff_mem.2 (mem_iff.2 hk)
        · exact .inl hmem
    · refine .inr ⟨fun hk => hkey ?_, List.mem_cons_of_mem b hmem⟩
      have hinsert : keys (t.insertMany [b]) = keys (t.insert b) := by
        rw [TreeSet.insertMany_cons, TreeSet.insertMany_nil]
      rw [← hinsert]
      exact mem_keys_insertMany.2 (.inl hk)

theorem mem_of_mem_ofList {l : List α} {a : α}
    (h : a ∈ (TreeSet.ofList l (compareOn f)).toList) : a ∈ l := by
  rw [TreeSet.ofList_eq_insertMany_empty] at h
  rcases mem_toList_insertMany h with hmem | hmem
  · rw [toList_empty] at hmem
    cases hmem
  · exact hmem.2

theorem mem_keys_ofList {l : List α} {k : κ} :
    k ∈ keys (TreeSet.ofList l (compareOn f)) ↔ k ∈ l.map f := by
  rw [TreeSet.ofList_eq_insertMany_empty, mem_keys_insertMany, keys, toList_empty]
  simp

theorem nodup_keys (t : TreeSet α (compareOn f)) : (keys t).Nodup :=
  pairwise_ne_iff.1 TreeSet.distinct_toList

theorem isEmpty_inter_iff {t s : TreeSet α (compareOn f)} :
    (t ∩ s).isEmpty = true ↔ (keys t).Disjoint (keys s) := by
  rw [TreeSet.isEmpty_inter_iff]
  constructor
  · intro h k ht hs
    obtain ⟨a, -, rfl⟩ := List.mem_map.1 ht
    exact h a (mem_iff.2 ht) (mem_iff.2 hs)
  · intro h a ht hs
    exact h (mem_iff.1 ht) (mem_iff.1 hs)

end

/-! ## Collecting a list -/

section
variable [BEq α]

/-- Of equal neighbours the last one stays. -/
def dropRepeats : List α → List α
  | [] => []
  | [a] => [a]
  | a :: b :: l => if a == b then dropRepeats (b :: l) else a :: dropRepeats (b :: l)

/-- The elements of a set that is made of a list. -/
def collect (le : α → α → Prop) [DecidableRel le] (l : List α) : List α :=
  dropRepeats (l.insertionSort le)

theorem length_dropRepeats_le (l : List α) : (dropRepeats l).length ≤ l.length := by
  induction l using dropRepeats.induct with
  | case1 => exact Nat.le_refl _
  | case2 a => exact Nat.le_refl _
  | case3 a b l hab ih =>
    rw [dropRepeats, if_pos hab]
    exact Nat.le_succ_of_le ih
  | case4 a b l hab ih =>
    rw [dropRepeats, if_neg hab]
    exact Nat.succ_le_succ ih

theorem dropRepeats_eq_self {l : List α} (h : l.IsChain fun a b => ¬ (a == b) = true) :
    dropRepeats l = l := by
  induction l using dropRepeats.induct with
  | case1 => rfl
  | case2 a => rfl
  | case3 a b l hab ih => exact absurd hab (List.isChain_cons_cons.1 h).1
  | case4 a b l hab ih => rw [dropRepeats, if_neg hab, ih (List.isChain_cons_cons.1 h).2]

/-- The length says whether an element was dropped. -/
theorem length_dropRepeats_eq_iff {l : List α} :
    (dropRepeats l).length = l.length ↔ l.IsChain fun a b => ¬ (a == b) = true := by
  refine ⟨fun h => ?_, fun h => by rw [dropRepeats_eq_self h]⟩
  induction l using dropRepeats.induct with
  | case1 => exact .nil
  | case2 a => exact .singleton a
  | case3 a b l hab ih =>
    rw [dropRepeats, if_pos hab] at h
    have hle := length_dropRepeats_le (b :: l)
    rw [h, List.length_cons (a := a)] at hle
    omega
  | case4 a b l hab ih =>
    rw [dropRepeats, if_neg hab] at h
    exact .cons_cons hab (ih (Nat.succ.inj h))

variable {le : α → α → Prop} [DecidableRel le] {l : List α}

theorem length_collect_eq_iff : (collect le l).length = l.length ↔
    (l.insertionSort le).IsChain fun a b => ¬ (a == b) = true := by
  rw [collect, ← length_dropRepeats_eq_iff, List.length_insertionSort]

/-- A list of which nothing is dropped is sorted. -/
theorem collect_eq_of_length (h : (collect le l).length = l.length) :
    collect le l = l.insertionSort le :=
  dropRepeats_eq_self (length_collect_eq_iff.1 h)

end

/-! ## Maps -/

theorem toList_insert_last {β : Type} [TransCmp cmp] {t : TreeMap α β cmp} {k : α} {v : β}
    (h : ∀ p ∈ t.toList, cmp p.1 k = .lt) : (t.insert k v).toList = t.toList ++ [(k, v)] := by
  let := beqOf cmp
  have := lawful_beqOf cmp
  have hnew : ∀ p ∈ t.toList, decide (¬ (k == p.1) = true) = true := by
    intro p hp
    rw [decide_eq_true_iff]
    show ¬ (cmp k p.1 == .eq) = true
    rw [OrientedCmp.gt_of_lt (h p hp)]
    decide
  have hperm := TreeMap.toList_insert_perm (t := t) (k := k) (v := v)
  rw [List.filter_eq_self.2 hnew] at hperm
  have hlast := hperm.trans (List.perm_append_singleton (k, v) t.toList).symm
  have hsorted : (t.toList ++ [(k, v)]).Pairwise fun p q => cmp p.1 q.1 = .lt := by
    rw [List.pairwise_append]
    refine ⟨TreeMap.ordered_keys_toList, List.pairwise_singleton _ _, fun p hp q hq => ?_⟩
    rw [List.mem_singleton.1 hq]
    exact h p hp
  refine hlast.eq_of_pairwise (fun p q _ _ hpq hqp => ?_) TreeMap.ordered_keys_toList hsorted
  exact absurd hqp (OrientedCmp.not_lt_of_lt hpq)

end KeySet
