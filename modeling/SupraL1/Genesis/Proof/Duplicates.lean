import SupraL1.Genesis.Proof.Accounts

/-!
# Duplicates in an accounts file

`from_file` decides by the size of a set, and reports by `find_duplicates`, which compares addresses.
The report is exact. The set is ordered by the amounts, and only neighbours in this order are compared
by their addresses, so the decision is wrong for the files that repeat addresses, but none of them by
the next account (`duplicates_exact_iff`).
-/

namespace Genesis.Proof

open Std Fallible
open Move (AccountAddress)

variable {E : Env}

/-! ## The report -/

section
variable {α κ : Type} [BEq α] {f : α → κ}
  (hbeq : ∀ a b : α, (a == b) = true ↔ f a = f b)
include hbeq

theorem contains_iff_key {l : List α} {a : α} : l.contains a = true ↔ f a ∈ l.map f := by
  rw [List.contains_iff_exists_mem_beq, List.mem_map]
  refine exists_congr fun b => and_congr_right fun _ => ?_
  rw [hbeq, eq_comm]

variable [DecidableEq κ]

/-- A key is reported if it is not yet and has its second occurrence in what is left; the first may
have been seen. -/
theorem mem_findDuplicates {seen duplicates vec : List α} {k : κ} :
    k ∈ (findDuplicates seen duplicates vec).map f ↔ k ∉ duplicates.map f ∧
      2 ≤ (if k ∈ seen.map f then 1 else 0) + (vec.map f).count k := by
  induction vec generalizing seen duplicates with
  | nil =>
    simp only [findDuplicates, List.map_nil, List.not_mem_nil, List.count_nil, false_iff]
    split <;> omega
  | cons item vec ih =>
    simp only [findDuplicates, contains_iff_key hbeq, List.map_cons, List.count_cons, beq_iff_eq]
    by_cases hseen : f item ∈ seen.map f
    · rw [if_pos hseen]
      by_cases hdup : f item ∈ duplicates.map f
      · rw [if_pos hdup, ih]
        refine and_congr_right fun hk => ?_
        rw [if_neg fun heq : f item = k => hk (heq ▸ hdup), Nat.add_zero]
      · rw [if_neg hdup, List.map_cons, List.mem_cons, ih, List.map_cons, List.mem_cons, not_or]
        by_cases heq : k = f item
        · subst heq
          simp only [true_or, if_pos hseen, if_true, true_iff]
          exact ⟨hdup, by omega⟩
        · rw [if_neg (Ne.symm heq), Nat.add_zero]
          simp only [heq, false_or, not_false_eq_true, true_and]
    · rw [if_neg hseen, ih]
      simp only [List.map_cons, List.mem_cons]
      refine and_congr_right fun _ => ?_
      by_cases heq : k = f item
      · subst heq
        simp only [true_or, if_true, if_neg hseen]
        omega
      · rw [if_neg (Ne.symm heq)]
        simp only [heq, false_or, Nat.add_zero]

theorem nodup_findDuplicates {seen duplicates vec : List α} :
    ((findDuplicates seen duplicates vec).map f).Nodup := by
  induction vec generalizing seen duplicates with
  | nil => exact List.nodup_nil
  | cons item vec ih =>
    unfold findDuplicates
    split
    · split
      · exact ih
      · rw [List.map_cons, List.nodup_cons]
        refine ⟨fun hmem => ?_, ih⟩
        exact ((mem_findDuplicates hbeq).1 hmem).1 List.mem_cons_self
    · exact ih

end

/-- **The report is exact**: the addresses that occur more than once, each once. -/
theorem findDuplicates_addresses (balances : List AccountBalance) :
    ((findDuplicates [] [] balances).map (·.address)).Nodup ∧
      ∀ x, x ∈ (findDuplicates [] [] balances).map (·.address) ↔
        2 ≤ (balances.map (·.address)).count x := by
  refine ⟨nodup_findDuplicates AccountBalance.beq_iff, fun x => ?_⟩
  rw [mem_findDuplicates AccountBalance.beq_iff]
  simp

/-! ## The decision -/

/-- Two accounts that follow each other in the order of the amounts have one address. Accounts of one
amount are in the order of the file. -/
def RepeatsNeighbour (balances : List AccountBalance) : Prop :=
  ¬ (balances.insertionSort AccountBalance.le).IsChain (·.address ≠ ·.address)

instance (balances : List AccountBalance) : Decidable (RepeatsNeighbour balances) :=
  inferInstanceAs (Decidable (¬ (balances.insertionSort AccountBalance.le).IsChain
    (·.address ≠ ·.address)))

theorem length_collect_iff {balances : List AccountBalance} :
    (KeySet.collect AccountBalance.le balances).length = balances.length ↔
      ¬ RepeatsNeighbour balances := by
  rw [KeySet.length_collect_eq_iff, RepeatsNeighbour, not_not]
  simp only [AccountBalance.beq_iff, ne_eq]

theorem not_nodup_of_repeatsNeighbour {balances : List AccountBalance} (h : RepeatsNeighbour balances) :
    ¬ (balances.map (·.address)).Nodup := by
  intro hnodup
  have hsorted := ((List.perm_insertionSort AccountBalance.le balances).map (·.address)).nodup_iff.2 hnodup
  exact h (List.pairwise_map.1 hsorted).isChain

section
variable {path : String} {balances : List AccountBalance}
  (hfile : E.files.accountBalances path = .ok balances)
include hfile

theorem fromFile_accepts (h : ¬ RepeatsNeighbour balances) :
    AccountBalances.fromFile E path = .ok ⟨balances.insertionSort AccountBalance.le⟩ := by
  have hlength := length_collect_iff.2 h
  rw [← KeySet.collect_eq_of_length hlength]
  unfold AccountBalances.fromFile
  rw [hfile]
  exact if_pos hlength

theorem fromFile_refuses (h : RepeatsNeighbour balances) :
    AccountBalances.fromFile E path =
      toolError (.accountsNotUnique ((findDuplicates [] [] balances).map (·.address))) := by
  have hlength := fun hlength => length_collect_iff.1 hlength h
  unfold AccountBalances.fromFile
  rw [hfile]
  exact if_neg hlength

end

/-- Duplicate detection is exact on a file with these entries: it is accepted if and only if the
addresses are distinct, and then as it is, and otherwise the repeated addresses are reported. -/
structure DuplicatesExact (E : Env) (path : String) (balances : List AccountBalance) : Prop where
  accepted_iff : (∃ a, AccountBalances.fromFile E path = .ok a) ↔ (balances.map (·.address)).Nodup
  entries : ∀ a, AccountBalances.fromFile E path = .ok a → a.balances.Perm balances
  reported : ¬ (balances.map (·.address)).Nodup → ∃ dups,
    AccountBalances.fromFile E path = toolError (.accountsNotUnique dups) ∧ dups.Nodup ∧
      ∀ x, x ∈ dups ↔ 2 ≤ (balances.map (·.address)).count x

/-- **When duplicate detection is exact**: the addresses are distinct, or one is repeated by the next
account in the order of the amounts. -/
theorem duplicates_exact_iff {path : String} {balances : List AccountBalance}
    (hfile : E.files.accountBalances path = .ok balances) :
    DuplicatesExact E path balances ↔
      (balances.map (·.address)).Nodup ∨ RepeatsNeighbour balances := by
  by_cases hrepeats : RepeatsNeighbour balances
  · have herr := fromFile_refuses hfile hrepeats
    have hnot : ∀ a, AccountBalances.fromFile E path ≠ .ok a := by
      intro a ha
      cases herr.symm.trans ha
    obtain ⟨hnodup, hmem⟩ := findDuplicates_addresses balances
    refine ⟨fun _ => .inr hrepeats, fun _ => ⟨⟨?_, fun had => ?_⟩, fun a ha => absurd ha (hnot a),
      fun _ => ⟨_, herr, hnodup, hmem⟩⟩⟩
    · rintro ⟨a, ha⟩
      exact absurd ha (hnot a)
    · exact absurd had (not_nodup_of_repeatsNeighbour hrepeats)
  · have hok := fromFile_accepts hfile hrepeats
    constructor
    · exact fun h => .inl (h.accepted_iff.1 ⟨_, hok⟩)
    · intro h
      have hnodup := h.resolve_right hrepeats
      refine ⟨⟨fun _ => hnodup, fun _ => ⟨_, hok⟩⟩, fun a ha => ?_, fun hno => absurd hnodup hno⟩
      cases hok.symm.trans ha
      exact List.perm_insertionSort _ _

/-- A file that repeats an account, and one with two accounts of one amount. -/
theorem duplicates_exact_small :
    DuplicatesExact (small [0] [oneSchedule] [⟨1, 3⟩, ⟨2, 5⟩, ⟨1, 4⟩] [] []) "delegators"
      [⟨1, 3⟩, ⟨2, 5⟩, ⟨1, 4⟩] ∧
    DuplicatesExact (small [0] [oneSchedule] [⟨1, 3⟩, ⟨2, 3⟩] [] []) "delegators" [⟨1, 3⟩, ⟨2, 3⟩] :=
  ⟨(duplicates_exact_iff rfl).2 (.inr (by decide +kernel)),
    (duplicates_exact_iff rfl).2 (.inl (by decide +kernel))⟩

/-- An address that is repeated with another account in between is accepted. -/
theorem duplicates_not_exact :
    let E := small [0] [oneSchedule] [⟨1, 3⟩, ⟨2, 4⟩, ⟨1, 5⟩] [] []
    ∃ a, AccountBalances.fromFile E "delegators" = .ok a ∧ a.balances.map (·.address) = [1, 2, 1] := by
  decide +kernel

end Genesis.Proof
