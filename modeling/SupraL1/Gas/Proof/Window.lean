import SupraL1.Gas.CircularBuf
import SupraL1.Lib.Ring

/-!
# The window of the circular buffer

`window` reads the cells in the order of insertion. A push slides the window over the batch
(`window_push`), keeps the tracked position at a largest value (`IsMax.push`) and the median at the
middle of the sorted cells (`HasMedian.push`).

The maximum is searched for again only when the batch overwrites its cell. Otherwise its cell is
further `ahead` than the batch reaches, and every insertion keeps it so: a value that takes the
maximum over is the last to be overwritten, and a batch is shorter than the ring.
-/

namespace Gas.MaxCircularBuffer

open Lib.Ring

section
variable {T : Type}

/-- The cells in the order of insertion. -/
def window (b : MaxCircularBuffer T) : List T := unroll b.inner b.index

theorem window_perm (b : MaxCircularBuffer T) : b.window.Perm b.inner := unroll_perm _ _

@[simp] theorem length_window (b : MaxCircularBuffer T) : b.window.length = b.capacity := by
  rw [window, length_unroll, b.length_inner]

theorem window_ne_nil (b : MaxCircularBuffer T) : b.window ≠ [] := fun h =>
  b.inner_ne_nil (List.perm_nil.1 (h ▸ b.window_perm.symm))

theorem getElem?_maxIndex (b : MaxCircularBuffer T) : b.inner[b.maxIndex]? = some b.max :=
  List.getElem?_eq_getElem _

theorem max_mem (b : MaxCircularBuffer T) : b.max ∈ b.inner :=
  List.mem_of_getElem? b.getElem?_maxIndex

theorem max_eq_of_getElem? {b : MaxCircularBuffer T} {x : T} (h : b.inner[b.maxIndex]? = some x) :
    b.max = x :=
  Option.some.inj (b.getElem?_maxIndex.symm.trans h)

theorem window_replace (b : MaxCircularBuffer T) (values : List T)
    (h : b.capacity ≤ values.length) : (b.replace values h).window = slide b.window values := by
  rw [slide_of_length_le (by rwa [length_window]), length_window]
  exact unroll_zero _

/-- The range test covers every way in which a batch can wrap around. -/
theorem le_ahead_of_updatingMax {b : MaxCircularBuffer T} {count : Nat} (hlt : count < b.capacity)
    (h : b.updatingMax count = false) : count ≤ ahead b.capacity b.index b.maxIndex := by
  have hindex := b.index_lt
  simp only [updatingMax, Bool.or_eq_false_iff, Bool.and_eq_false_iff, decide_eq_false_iff_not] at h
  obtain ⟨hnear, hwrap⟩ := h
  unfold ahead
  split
  · omega
  · by_contra hover
    -- the batch goes past the last cell and, from the first one on, past the maximum
    have hmod : (b.index + count) % b.capacity = b.index + count - b.capacity := by
      rw [Nat.mod_eq_sub_mod (by omega), Nat.mod_eq_of_lt (by omega)]
    rw [hmod] at hwrap
    omega

end

section
variable {T : Type} [LinearOrder T]

def IsMax (b : MaxCircularBuffer T) : Prop := ∀ x ∈ b.inner, x ≤ b.max

def HasMedian (b : MaxCircularBuffer T) : Prop :=
  (b.inner.insertionSort (· ≤ ·))[b.capacity / 2]? = some b.median

theorem isMax_updateMaxIndex (b : MaxCircularBuffer T) : b.updateMaxIndex.IsMax := by
  obtain ⟨x, hx, hmax⟩ := lastMax_spec b.inner_ne_nil
  have hx' : b.updateMaxIndex.max = x := max_eq_of_getElem? hx
  intro y hy
  rw [hx']
  exact hmax y hy

theorem sorted_window (b : MaxCircularBuffer T) :
    b.window.insertionSort (· ≤ ·) = b.inner.insertionSort (· ≤ ·) := by
  apply List.Perm.eq_of_sortedLE List.sortedLE_insertionSort List.sortedLE_insertionSort
  exact (List.perm_insertionSort _ _).trans
    (b.window_perm.trans (List.perm_insertionSort _ _).symm)

/-! ## Insertions -/

section
variable [Saturating T]

theorem window_insert (b : MaxCircularBuffer T) (val : T) :
    (b.insert val).window = slide b.window [val] := by
  have hlt : b.index < b.inner.length := by rw [b.length_inner]; exact b.index_lt
  have h := unroll_set hlt val
  rw [b.length_inner] at h
  rw [slide_singleton b.window_ne_nil]
  exact h

theorem insertMany_spec (b : MaxCircularBuffer T) (values : List T) :
    (values.foldl insert b).window = slide b.window values ∧
      (values.foldl insert b).capacity = b.capacity := by
  induction values generalizing b with
  | nil => simp
  | cons val values ih =>
    obtain ⟨hwindow, hcapacity⟩ := ih (b.insert val)
    refine ⟨?_, hcapacity⟩
    rw [List.foldl_cons, hwindow, window_insert, ← slide_append]
    rfl

theorem IsMax.insert {b : MaxCircularBuffer T} (h : b.IsMax) (val : T)
    (hahead : 0 < ahead b.capacity b.index b.maxIndex) : (b.insert val).IsMax := by
  have hlt : b.index < b.inner.length := by rw [b.length_inner]; exact b.index_lt
  by_cases hle : b.max ≤ val
  · have hmax : (b.insert val).max = val := by
      apply max_eq_of_getElem?
      show (b.inner.set b.index val)[if b.max ≤ val then b.index else b.maxIndex]? = some val
      rw [if_pos hle, List.getElem?_set_self hlt]
    intro x hx
    rw [hmax]
    rcases List.mem_or_eq_of_mem_set hx with hx | rfl
    · exact (h x hx).trans hle
    · exact le_rfl
  · have hne : b.index ≠ b.maxIndex := by
      intro heq
      rw [ahead, heq, if_pos (Nat.le_refl _), Nat.sub_self] at hahead
      omega
    have hmax : (b.insert val).max = b.max := by
      apply max_eq_of_getElem?
      show (b.inner.set b.index val)[if b.max ≤ val then b.index else b.maxIndex]? = some b.max
      rw [if_neg hle, List.getElem?_set_ne hne, getElem?_maxIndex]
    intro x hx
    rw [hmax]
    rcases List.mem_or_eq_of_mem_set hx with hx | rfl
    · exact h x hx
    · exact (not_le.1 hle).le

theorem ahead_insert {b : MaxCircularBuffer T} {val : T} {k : Nat}
    (h : k + 1 ≤ ahead b.capacity b.index b.maxIndex) :
    k ≤ ahead (b.insert val).capacity (b.insert val).index (b.insert val).maxIndex := by
  have hbound := ahead_lt b.index_lt b.maxIndex_lt
  show k ≤ ahead b.capacity ((b.index + 1) % b.capacity)
    (if b.max ≤ val then b.index else b.maxIndex)
  split
  · rw [ahead_self b.index_lt]
    omega
  · have hsucc := ahead_succ b.index_lt b.maxIndex_lt (by omega)
    omega

/-- A batch that does not reach the cell of the maximum keeps it. -/
theorem IsMax.insertMany {b : MaxCircularBuffer T} (h : b.IsMax) (values : List T)
    (hahead : values.length ≤ ahead b.capacity b.index b.maxIndex) :
    (values.foldl MaxCircularBuffer.insert b).IsMax := by
  induction values generalizing b with
  | nil => exact h
  | cons val values ih =>
    rw [List.length_cons] at hahead
    exact ih (h.insert val (by omega)) (ahead_insert hahead)

end

/-! ## The new buffer and the update of the median -/

section
variable [Inhabited T]

@[simp] theorem window_updateMedian (b : MaxCircularBuffer T) :
    b.updateMedian.window = b.window := by
  unfold updateMedian
  split <;> rfl

@[simp] theorem capacity_updateMedian (b : MaxCircularBuffer T) :
    b.updateMedian.capacity = b.capacity := by
  unfold updateMedian
  split <;> rfl

theorem isMax_updateMedian {b : MaxCircularBuffer T} (h : b.IsMax) : b.updateMedian.IsMax := by
  unfold updateMedian
  split <;> exact h

theorem hasMedian_updateMedian (b : MaxCircularBuffer T) : b.updateMedian.HasMedian := by
  have hne : b.inner.isEmpty = false := by simp [b.inner_ne_nil]
  have hpos := Nat.zero_lt_of_lt b.index_lt
  have hlen : (b.inner.insertionSort (· ≤ ·)).length = b.capacity := by
    rw [List.length_insertionSort, b.length_inner]
  unfold updateMedian HasMedian
  rw [hne, if_neg Bool.false_ne_true]
  dsimp only
  rw [hlen, List.getD_eq_getElem?_getD, List.getElem?_eq_getElem (by rw [hlen]; omega)]
  rfl

theorem isMax_new (capacity : NonZeroUsize) : (new capacity : MaxCircularBuffer T).IsMax := by
  have hmax : (new capacity : MaxCircularBuffer T).max = default :=
    List.eq_of_mem_replicate (max_mem _)
  intro x hx
  rw [hmax, List.eq_of_mem_replicate hx]

theorem hasMedian_new (capacity : NonZeroUsize) :
    (new capacity : MaxCircularBuffer T).HasMedian := by
  have hlt : capacity.1 / 2 < ((List.replicate capacity.1 (default : T)).insertionSort
      (· ≤ ·)).length := by
    have hpos := capacity.2
    rw [List.length_insertionSort, List.length_replicate]
    omega
  show ((List.replicate capacity.1 default).insertionSort (· ≤ ·))[capacity.1 / 2]? = some default
  rw [List.getElem?_eq_getElem hlt]
  have hmem := List.getElem_mem hlt
  rw [List.mem_insertionSort] at hmem
  rw [List.eq_of_mem_replicate hmem]

end

end

/-! ## Pushes -/

variable {T : Type} [LinearOrder T] [Inhabited T] [Saturating T]

theorem push_cases (b : MaxCircularBuffer T) (values : List T) :
    (values = [] ∧ b.push values = b) ∨
    (values.length < b.capacity ∧ b.updatingMax values.length = false ∧
      b.push values = (values.foldl insert b).updateMedian) ∨
    (values.length < b.capacity ∧
      b.push values = (values.foldl insert b).updateMaxIndex.updateMedian) ∨
    (∃ h : b.capacity ≤ values.length,
      b.push values = (b.replace values h).updateCurrentSum.updateMaxIndex.updateMedian) := by
  unfold push
  split
  · rename_i hempty
    exact .inl ⟨List.isEmpty_iff.1 hempty, rfl⟩
  · split
    · rename_i hlt
      cases hup : b.updatingMax values.length with
      | false => exact .inr (.inl ⟨hlt, rfl, rfl⟩)
      | true => exact .inr (.inr (.inl ⟨hlt, rfl⟩))
    · rename_i hle
      exact .inr (.inr (.inr ⟨Nat.le_of_not_lt hle, rfl⟩))

theorem push_spec (b : MaxCircularBuffer T) (values : List T) :
    (b.push values).window = slide b.window values ∧ (b.push values).capacity = b.capacity := by
  rcases b.push_cases values with ⟨rfl, h⟩ | ⟨-, -, h⟩ | ⟨-, h⟩ | ⟨hle, h⟩ <;> rw [h]
  · simp
  · simpa using b.insertMany_spec values
  · rw [window_updateMedian, capacity_updateMedian]
    exact b.insertMany_spec values
  · rw [window_updateMedian, capacity_updateMedian]
    exact ⟨b.window_replace values hle, rfl⟩

@[simp] theorem window_push (b : MaxCircularBuffer T) (values : List T) :
    (b.push values).window = slide b.window values := (b.push_spec values).1

@[simp] theorem capacity_push (b : MaxCircularBuffer T) (values : List T) :
    (b.push values).capacity = b.capacity := (b.push_spec values).2

theorem pushes_spec (b : MaxCircularBuffer T) (batches : List (List T)) :
    (batches.foldl push b).window = slide b.window batches.flatten ∧
      (batches.foldl push b).capacity = b.capacity := by
  induction batches generalizing b with
  | nil => simp
  | cons values batches ih =>
    obtain ⟨hwindow, hcapacity⟩ := ih (b.push values)
    refine ⟨?_, by rw [List.foldl_cons, hcapacity, capacity_push]⟩
    rw [List.foldl_cons, hwindow, window_push, List.flatten_cons, slide_append]

theorem IsMax.push {b : MaxCircularBuffer T} (h : b.IsMax) (values : List T) :
    (b.push values).IsMax := by
  rcases b.push_cases values with ⟨-, heq⟩ | ⟨hlt, hup, heq⟩ | ⟨-, heq⟩ | ⟨hle, heq⟩ <;> rw [heq]
  · exact h
  · exact isMax_updateMedian (h.insertMany values (le_ahead_of_updatingMax hlt hup))
  · exact isMax_updateMedian (isMax_updateMaxIndex _)
  · exact isMax_updateMedian (isMax_updateMaxIndex _)

theorem HasMedian.push {b : MaxCircularBuffer T} (h : b.HasMedian) (values : List T) :
    (b.push values).HasMedian := by
  rcases b.push_cases values with ⟨-, heq⟩ | ⟨-, -, heq⟩ | ⟨-, heq⟩ | ⟨hle, heq⟩ <;> rw [heq]
  · exact h
  · exact hasMedian_updateMedian _
  · exact hasMedian_updateMedian _
  · exact hasMedian_updateMedian _

/-! ## The history -/

theorem foldl_push_inv {P : MaxCircularBuffer T → Prop} (hpush : ∀ b values, P b → P (b.push values))
    {b : MaxCircularBuffer T} (h : P b) (batches : List (List T)) : P (batches.foldl push b) := by
  induction batches generalizing b with
  | nil => exact h
  | cons values batches ih => exact ih (hpush b values h)

/-- **The statistics of the window.** The cells in ring order are the last `capacity` values of
the zero-filled start and everything pushed, `max` is the largest of them and `median` the one at
position `capacity / 2` once they are sorted. -/
theorem push_follows_history (capacity : NonZeroUsize) (batches : List (List T)) :
    let b := batches.foldl push (new capacity)
    let history := List.replicate capacity.1 default ++ batches.flatten
    b.window = history.drop (history.length - capacity.1) ∧
      (b.max ∈ b.window ∧ ∀ x ∈ b.window, x ≤ b.max) ∧
      (b.window.insertionSort (· ≤ ·))[capacity.1 / 2]? = some b.median := by
  intro b history
  obtain ⟨hwindow, hcapacity⟩ := pushes_spec (new capacity : MaxCircularBuffer T) batches
  have hnew : (new capacity : MaxCircularBuffer T).window = List.replicate capacity.1 default :=
    unroll_zero _
  have hmax : b.IsMax := foldl_push_inv (fun _ values h => h.push values) (isMax_new capacity) batches
  have hmedian : b.HasMedian :=
    foldl_push_inv (fun _ values h => h.push values) (hasMedian_new capacity) batches
  refine ⟨?_, ⟨b.window_perm.mem_iff.2 b.max_mem, ?_⟩, ?_⟩
  · rw [hwindow, hnew, slide]
    congr 1
    rw [List.length_append, List.length_replicate]
    omega
  · intro x hx
    exact hmax x (b.window_perm.mem_iff.1 hx)
  · rw [sorted_window]
    have h : b.capacity = capacity.1 := hcapacity
    rw [← h]
    exact hmedian

end Gas.MaxCircularBuffer
