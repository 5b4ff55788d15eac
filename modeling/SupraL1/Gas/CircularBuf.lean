import Mathlib.Data.List.Sort

/-!
# The circular buffer of gas prices (`gas/circular_buf.rs`)

The buffer overwrites its cells in turn and keeps, beside them, the position of a largest value, a
running sum and the median. The vector has `capacity` cells from the start on and both positions
stay inside it, which the type states, so no access is out of bounds.
-/

namespace Gas

/-- `SaturatingAdd` and `SaturatingSub`. -/
class Saturating (T : Type) where
  saturatingAdd : T → T → T
  saturatingSub : T → T → T

export Saturating (saturatingAdd saturatingSub)

abbrev NonZeroUsize := { n : Nat // 0 < n }

structure MaxCircularBuffer (T : Type) where
  inner : List T
  /-- The cell of the next insertion. -/
  index : Nat
  /-- The cell of the current maximum. -/
  maxIndex : Nat
  currSum : T
  capacity : Nat
  median : T
  length_inner : inner.length = capacity
  index_lt : index < capacity
  maxIndex_lt : maxIndex < capacity

section MaxByKey

variable {α T : Type} [LinearOrder T]

/-- `Iterator::max_by_key`: of several largest elements, the last. -/
def maxByKey (key : α → T) : List α → Option α
  | [] => none
  | x :: xs => some (xs.foldl (fun best y => if key y < key best then best else y) x)

theorem foldl_max_spec (key : α → T) (xs : List α) (x : α) :
    let best := xs.foldl (fun best y => if key y < key best then best else y) x
    best ∈ x :: xs ∧ ∀ y ∈ x :: xs, key y ≤ key best := by
  induction xs generalizing x with
  | nil => simp
  | cons y xs ih =>
    simp only [List.foldl_cons]
    split
    · rename_i hlt
      obtain ⟨hmem, hmax⟩ := ih x
      refine ⟨?_, ?_⟩
      · rcases List.mem_cons.1 hmem with h | h
        · rw [h]; exact List.mem_cons_self
        · exact List.mem_cons_of_mem _ (List.mem_cons_of_mem _ h)
      · have hx := hmax x List.mem_cons_self
        intro z hz
        rcases List.mem_cons.1 hz with rfl | hz
        · exact hx
        · rcases List.mem_cons.1 hz with rfl | hz
          · exact hlt.le.trans hx
          · exact hmax z (List.mem_cons_of_mem _ hz)
    · rename_i hle
      obtain ⟨hmem, hmax⟩ := ih y
      refine ⟨List.mem_cons_of_mem _ hmem, ?_⟩
      intro z hz
      rcases List.mem_cons.1 hz with rfl | hz
      · exact (not_lt.1 hle).trans (hmax y List.mem_cons_self)
      · exact hmax z hz

theorem maxByKey_spec {key : α → T} {xs : List α} {best : α} (h : maxByKey key xs = some best) :
    best ∈ xs ∧ ∀ y ∈ xs, key y ≤ key best := by
  cases xs with
  | nil => cases h
  | cons x xs =>
    cases h
    exact foldl_max_spec key xs x

end MaxByKey

namespace MaxCircularBuffer

variable {T : Type}

def len (b : MaxCircularBuffer T) : Nat := b.inner.length

def max (b : MaxCircularBuffer T) : T :=
  b.inner.get ⟨b.maxIndex, b.length_inner.symm ▸ b.maxIndex_lt⟩

def sum (b : MaxCircularBuffer T) : T := b.currSum

/-- The value that the next insertion overwrites. -/
def oldest (b : MaxCircularBuffer T) : T :=
  b.inner.get ⟨b.index, b.length_inner.symm ▸ b.index_lt⟩

theorem next_lt (b : MaxCircularBuffer T) : (b.index + 1) % b.capacity < b.capacity :=
  Nat.mod_lt _ (Nat.zero_lt_of_lt b.index_lt)

theorem inner_ne_nil (b : MaxCircularBuffer T) : b.inner ≠ [] := by
  have hlen := b.length_inner
  have hlt := b.index_lt
  intro h
  rw [h, List.length_nil] at hlen
  omega

/-! ## The position of the maximum -/

variable [LinearOrder T]

/-- The position that `update_max_index` finds. -/
def lastMax (inner : List T) : Nat := ((maxByKey (·.1) inner.zipIdx).map (·.2)).getD 0

theorem lastMax_spec {inner : List T} (h : inner ≠ []) :
    ∃ x, inner[lastMax inner]? = some x ∧ ∀ y ∈ inner, y ≤ x := by
  obtain ⟨v, vs, rfl⟩ := List.exists_cons_of_ne_nil h
  obtain ⟨best, hbest⟩ : ∃ best, maxByKey (·.1) (v :: vs).zipIdx = some best := ⟨_, rfl⟩
  obtain ⟨hmem, hmax⟩ := maxByKey_spec hbest
  refine ⟨best.1, ?_, ?_⟩
  · rw [lastMax, hbest]
    exact List.mem_zipIdx_iff_getElem?.1 hmem
  · intro y hy
    obtain ⟨i, hi⟩ := List.getElem?_of_mem hy
    exact hmax (y, i) (List.mem_zipIdx_iff_getElem?.2 hi)

theorem lastMax_lt (b : MaxCircularBuffer T) : lastMax b.inner < b.capacity := by
  obtain ⟨x, hx, -⟩ := lastMax_spec b.inner_ne_nil
  rw [← b.length_inner]
  exact (List.getElem?_eq_some_iff.1 hx).1

/-- `update_max_index`. -/
def updateMaxIndex (b : MaxCircularBuffer T) : MaxCircularBuffer T :=
  { b with maxIndex := lastMax b.inner, maxIndex_lt := b.lastMax_lt }

/-- Whether the cell of the maximum is within the range that `count` insertions overwrite. -/
def updatingMax (b : MaxCircularBuffer T) (count : Nat) : Bool :=
  (b.index ≤ b.maxIndex && b.maxIndex < b.index + count) ||
    (b.maxIndex < b.index && b.maxIndex < (b.index + count) % b.capacity)

/-! ## The operations -/

variable [Inhabited T] [Saturating T]

/-- `MaxCircularBuffer::new`. -/
def new (capacity : NonZeroUsize) : MaxCircularBuffer T where
  inner := List.replicate capacity.1 default
  index := 0
  maxIndex := 0
  currSum := default
  capacity := capacity.1
  median := default
  length_inner := List.length_replicate
  index_lt := capacity.2
  maxIndex_lt := capacity.2

/-- `update_current_sum`. -/
def updateCurrentSum (b : MaxCircularBuffer T) : MaxCircularBuffer T :=
  { b with currSum := b.inner.foldl saturatingAdd default }

/-- `update_median`: of an even number of values, the upper one of the two in the middle. -/
def updateMedian (b : MaxCircularBuffer T) : MaxCircularBuffer T :=
  if b.inner.isEmpty then { b with median := default }
  else
    let sorted := b.inner.insertionSort (· ≤ ·)
    { b with median := sorted.getD (sorted.length / 2) default }

/-- The maximum moves to a value at least as large, whether or not its cell is the one that is
overwritten. -/
def insert (b : MaxCircularBuffer T) (val : T) : MaxCircularBuffer T where
  inner := b.inner.set b.index val
  index := (b.index + 1) % b.capacity
  maxIndex := if b.max ≤ val then b.index else b.maxIndex
  currSum := saturatingSub (saturatingAdd b.currSum val) b.oldest
  capacity := b.capacity
  median := b.median
  length_inner := List.length_set.trans b.length_inner
  index_lt := b.next_lt
  maxIndex_lt := by
    split
    · exact b.index_lt
    · exact b.maxIndex_lt

/-- The last `capacity` of the values replace the cells. -/
def replace (b : MaxCircularBuffer T) (values : List T) (h : b.capacity ≤ values.length) :
    MaxCircularBuffer T :=
  { b with
    inner := values.drop (values.length - b.capacity)
    index := 0
    length_inner := by rw [List.length_drop]; omega
    index_lt := Nat.zero_lt_of_lt b.index_lt }

def push (b : MaxCircularBuffer T) (values : List T) : MaxCircularBuffer T :=
  if values.isEmpty then b
  else if h : values.length < b.capacity then
    let inserted := values.foldl insert b
    -- one search for a whole batch, when it has overwritten the maximum
    (if b.updatingMax values.length then inserted.updateMaxIndex else inserted).updateMedian
  else (b.replace values (Nat.le_of_not_lt h)).updateCurrentSum.updateMaxIndex.updateMedian

end MaxCircularBuffer

end Gas
