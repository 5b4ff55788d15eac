import SupraL1.Gas.Proof.Window
import SupraL1.Gas.Statistics
import Mathlib.Algebra.BigOperators.Group.List.Basic
import Mathlib.Algebra.GroupWithZero.Nat

/-!
# The running sum and the mean

An insertion adds the new price to the running sum before it subtracts the oldest one, both
saturating. The running sum never exceeds the sum of the window (`Under`), and it is the sum of the
window (`Exact`) as long as no addition saturates; an addition that does leaves it too small, which
later insertions do not repair. A batch that replaces the whole window sums it up afresh.
-/

namespace Gas

open Lib.Ring

def total (prices : List UInt64) : Nat := (prices.map UInt64.toNat).sum

@[simp] theorem total_nil : total [] = 0 := rfl

@[simp] theorem total_cons (p : UInt64) (prices : List UInt64) :
    total (p :: prices) = p.toNat + total prices := rfl

theorem total_replicate (n : Nat) (p : UInt64) : total (List.replicate n p) = n * p.toNat := by
  simp [total]

theorem total_append (xs ys : List UInt64) : total (xs ++ ys) = total xs + total ys := by
  simp [total]

theorem total_le {prices : List UInt64} {bound : UInt64} (h : ∀ p ∈ prices, p ≤ bound) :
    total prices ≤ prices.length * bound.toNat := by
  induction prices with
  | nil => simp
  | cons p prices ih =>
    have hp : p.toNat ≤ bound.toNat := UInt64.le_iff_toNat_le.1 (h p List.mem_cons_self)
    have hrest := ih fun q hq => h q (List.mem_cons_of_mem _ hq)
    rw [total_cons, List.length_cons, Nat.succ_mul]
    omega

/-! ## Saturating arithmetic -/

theorem toNat_le_maxU64 (a : UInt64) : a.toNat ≤ maxU64 := by
  have h := a.toNat_lt
  unfold maxU64
  omega

@[simp] theorem toNat_saturatingAdd (a b : UInt64) :
    (saturatingAdd a b).toNat = min (a.toNat + b.toNat) maxU64 := by
  show (UInt64.ofNat (min (a.toNat + b.toNat) maxU64)).toNat = _
  rw [UInt64.toNat_ofNat', Nat.mod_eq_of_lt]
  unfold maxU64
  omega

@[simp] theorem toNat_saturatingSub (a b : UInt64) :
    (saturatingSub a b).toNat = a.toNat - b.toNat := by
  have h := a.toNat_lt
  show (UInt64.ofNat (a.toNat - b.toNat)).toNat = _
  rw [UInt64.toNat_ofNat', Nat.mod_eq_of_lt (by omega)]

theorem toNat_foldl_saturatingAdd (prices : List UInt64) (a : UInt64) :
    (prices.foldl saturatingAdd a).toNat = min (a.toNat + total prices) maxU64 := by
  induction prices generalizing a with
  | nil =>
    have h := toNat_le_maxU64 a
    simp only [List.foldl_nil, total_nil]
    omega
  | cons p prices ih =>
    rw [List.foldl_cons, ih, toNat_saturatingAdd, total_cons]
    omega

/-! ## The running sum -/

namespace MaxCircularBuffer

variable {b : MaxCircularBuffer UInt64}

theorem window_eq_cons (b : MaxCircularBuffer UInt64) : b.window = b.oldest :: b.window.tail := by
  have hlt : b.index < b.inner.length := by rw [b.length_inner]; exact b.index_lt
  unfold window unroll
  rw [List.drop_eq_getElem_cons hlt]
  rfl

theorem total_window_insert (b : MaxCircularBuffer UInt64) (val : UInt64) :
    total (b.insert val).window + b.oldest.toNat = total b.window + val.toNat := by
  rw [window_insert, slide_singleton b.window_ne_nil, total_append]
  nth_rewrite 2 [window_eq_cons b]
  simp only [total_cons, total_nil]
  omega

theorem oldest_le_total (b : MaxCircularBuffer UInt64) : b.oldest.toNat ≤ total b.window := by
  rw [window_eq_cons b, total_cons]
  omega

def Under (b : MaxCircularBuffer UInt64) : Prop := b.currSum.toNat ≤ total b.window

def Exact (b : MaxCircularBuffer UInt64) : Prop := b.currSum.toNat = total b.window

theorem toNat_currSum_insert (b : MaxCircularBuffer UInt64) (val : UInt64) :
    (b.insert val).currSum.toNat = min (b.currSum.toNat + val.toNat) maxU64 - b.oldest.toNat := by
  show (saturatingSub (saturatingAdd b.currSum val) b.oldest).toNat = _
  rw [toNat_saturatingSub, toNat_saturatingAdd]

theorem Under.insert (h : b.Under) (val : UInt64) : (b.insert val).Under := by
  have htotal := total_window_insert b val
  unfold Under at h ⊢
  rw [toNat_currSum_insert]
  omega

theorem Exact.insert (h : b.Exact) {val : UInt64} (hfits : total b.window + val.toNat ≤ maxU64) :
    (b.insert val).Exact := by
  have htotal := total_window_insert b val
  have hold := oldest_le_total b
  unfold Exact at h ⊢
  rw [toNat_currSum_insert, h, Nat.min_eq_left hfits]
  omega

@[simp] theorem currSum_updateMedian (b : MaxCircularBuffer UInt64) :
    b.updateMedian.currSum = b.currSum := by
  unfold updateMedian
  split <;> rfl

theorem toNat_currSum_replace (b : MaxCircularBuffer UInt64) (values : List UInt64)
    (h : b.capacity ≤ values.length) :
    (b.replace values h).updateCurrentSum.currSum.toNat =
      min (total (slide b.window values)) maxU64 := by
  have hwindow : (b.replace values h).inner = slide b.window values :=
    (unroll_zero _).symm.trans (b.window_replace values h)
  show ((b.replace values h).inner.foldl saturatingAdd 0).toNat = _
  rw [toNat_foldl_saturatingAdd, hwindow]
  simp

theorem currSum_push (b : MaxCircularBuffer UInt64) (values : List UInt64) :
    (values.length < b.capacity ∧ (b.push values).currSum = (values.foldl insert b).currSum) ∨
    (b.capacity ≤ values.length ∧
      (b.push values).currSum.toNat = min (total (slide b.window values)) maxU64) := by
  rcases b.push_cases values with ⟨rfl, h⟩ | ⟨hlt, -, h⟩ | ⟨hlt, h⟩ | ⟨hle, h⟩ <;> rw [h]
  · exact .inl ⟨Nat.zero_lt_of_lt b.index_lt, rfl⟩
  · exact .inl ⟨hlt, currSum_updateMedian _⟩
  · exact .inl ⟨hlt, currSum_updateMedian _⟩
  · refine .inr ⟨hle, ?_⟩
    rw [currSum_updateMedian]
    exact toNat_currSum_replace b values hle

theorem Under.insertMany (h : b.Under) (values : List UInt64) :
    (values.foldl MaxCircularBuffer.insert b).Under := by
  induction values generalizing b with
  | nil => exact h
  | cons val values ih => exact ih (h.insert val)

theorem Under.push (h : b.Under) (values : List UInt64) : (b.push values).Under := by
  have hmany := h.insertMany values
  unfold Under at hmany ⊢
  rw [(b.insertMany_spec values).1] at hmany
  rw [window_push]
  rcases currSum_push b values with ⟨-, hsum⟩ | ⟨-, hsum⟩ <;> rw [hsum]
  · exact hmany
  · omega

end MaxCircularBuffer

/-! ## Histories without saturation -/

/-- No price of the batch takes the sum of the window before it above `u64::MAX`. -/
def fits : List UInt64 → List UInt64 → Bool
  | _, [] => true
  | w, val :: values => decide (total w + val.toNat ≤ maxU64) && fits (slide w [val]) values

/-- Whether no addition has saturated since the window `w`, given whether none had before: a batch
that replaces the window counts by its own sum only. -/
def unsaturated (w : List UInt64) (before : Bool) : List (List UInt64) → Bool
  | [] => before
  | values :: batches =>
    unsaturated (slide w values)
      (if values.length < w.length then before && fits w values
        else decide (total (slide w values) ≤ maxU64)) batches

namespace MaxCircularBuffer

theorem Exact.insertMany {b : MaxCircularBuffer UInt64} (h : b.Exact) {values : List UInt64}
    (hfits : fits b.window values = true) :
    (values.foldl MaxCircularBuffer.insert b).Exact := by
  induction values generalizing b with
  | nil => exact h
  | cons val values ih =>
    rw [fits, Bool.and_eq_true, decide_eq_true_iff] at hfits
    refine ih (h.insert hfits.1) ?_
    rw [window_insert]
    exact hfits.2

theorem exact_pushes {b : MaxCircularBuffer UInt64} {before : Bool} {batches : List (List UInt64)}
    (h : before = true → b.Exact) (hrun : unsaturated b.window before batches = true) :
    (batches.foldl push b).Exact := by
  induction batches generalizing b before with
  | nil => exact h hrun
  | cons values batches ih =>
    rw [unsaturated, length_window, ← window_push] at hrun
    refine ih (fun hnow => ?_) hrun
    unfold Exact
    rcases currSum_push b values with ⟨hlt, hsum⟩ | ⟨hle, hsum⟩
    · rw [if_pos hlt, Bool.and_eq_true] at hnow
      have hmany := (h hnow.1).insertMany hnow.2
      unfold Exact at hmany
      rw [hsum, hmany, window_push, (b.insertMany_spec values).1]
    · rw [if_neg (Nat.not_lt.2 hle), decide_eq_true_iff, window_push] at hnow
      rw [hsum, window_push, Nat.min_eq_left hnow]

end MaxCircularBuffer

/-! ## The mean -/

namespace OnlineMean

/-- The mean of some prices, rounded to the nearest integer with halves up. -/
def roundedMean (prices : List UInt64) : Nat :=
  (2 * total prices + prices.length) / (2 * prices.length)

/-- What holds of the writer's window after every push. -/
structure Sound (m : OnlineMean) : Prop where
  capacity : m.history.capacity = maxGasHistory.1
  under : m.history.Under
  isMax : m.history.IsMax
  hasMedian : m.history.HasMedian
  mean : m.curMean.toNat = min (m.history.currSum.toNat + 500) maxU64 / 1000

theorem sound_push {m : OnlineMean} (hcapacity : m.history.capacity = maxGasHistory.1)
    (hunder : m.history.Under) (hmax : m.history.IsMax) (hmedian : m.history.HasMedian)
    (values : List UInt64) : (m.push values).Sound where
  capacity := (m.history.capacity_push values).trans hcapacity
  under := hunder.push values
  isMax := hmax.push values
  hasMedian := hmedian.push values
  mean := by
    have hlen : (m.history.push values).len = 1000 := by
      rw [MaxCircularBuffer.len, MaxCircularBuffer.length_inner, MaxCircularBuffer.capacity_push,
        hcapacity]
      rfl
    show (saturatingAdd (m.history.push values).sum (UInt64.ofNat (m.history.push values).len / 2) /
      UInt64.ofNat (m.history.push values).len).toNat = _
    rw [hlen, UInt64.toNat_div, toNat_saturatingAdd]
    rfl

theorem Sound.push {m : OnlineMean} (h : m.Sound) (values : List UInt64) : (m.push values).Sound :=
  sound_push h.capacity h.under h.isMax h.hasMedian values

theorem sound_new (startValue : UInt64) : (new startValue).Sound := by
  refine sound_push rfl ?_ (MaxCircularBuffer.isMax_new _) (MaxCircularBuffer.hasMedian_new _) _
  exact Nat.zero_le _

theorem sound_pushes {m : OnlineMean} (h : m.Sound) (batches : List (List UInt64)) :
    (batches.foldl push m).Sound := by
  induction batches generalizing m with
  | nil => exact h
  | cons values batches ih => exact ih (h.push values)

theorem history_push (m : OnlineMean) (values : List UInt64) :
    (m.push values).history = m.history.push values := rfl

theorem history_pushes (m : OnlineMean) (batches : List (List UInt64)) :
    (batches.foldl push m).history = batches.foldl MaxCircularBuffer.push m.history := by
  induction batches generalizing m with
  | nil => rfl
  | cons values batches ih => exact ih (m.push values)

theorem Sound.length_window {m : OnlineMean} (h : m.Sound) : m.history.window.length = 1000 :=
  (m.history.length_window).trans h.capacity

theorem Sound.mean_of_exact {m : OnlineMean} (h : m.Sound) (hexact : m.history.Exact)
    (hfits : total m.history.window + m.history.window.length / 2 ≤ maxU64) :
    m.mean.toNat = roundedMean m.history.window := by
  have hlen := h.length_window
  have hmean := h.mean
  unfold MaxCircularBuffer.Exact at hexact
  rw [hlen] at hfits
  rw [hexact, Nat.min_eq_left hfits] at hmean
  show m.curMean.toNat = _
  unfold roundedMean
  rw [hmean, hlen]
  omega

theorem history_new (startValue : UInt64) : (new startValue).history =
    (MaxCircularBuffer.new maxGasHistory).push (List.replicate maxGasHistory.1 startValue) := by
  rw [new, history_push]

theorem window_start : (MaxCircularBuffer.new maxGasHistory : MaxCircularBuffer UInt64).window =
    List.replicate maxGasHistory.1 0 := unroll_zero _

/-- **The mean is exact** whenever the sum of the window and half its length fit in a `u64`, if
since the last batch that replaced the whole window, or else since the start, no insertion has taken
the sum of the window and the new price above `u64::MAX`. -/
theorem mean_exact_of_unsaturated (startValue : UInt64) (batches : List (List UInt64))
    (hrun : unsaturated (List.replicate maxGasHistory.1 0) true
      (List.replicate maxGasHistory.1 startValue :: batches) = true)
    (hfits : total (batches.foldl push (new startValue)).history.window +
      (batches.foldl push (new startValue)).history.window.length / 2 ≤ maxU64) :
    (batches.foldl push (new startValue)).mean.toNat =
      roundedMean (batches.foldl push (new startValue)).history.window := by
  refine (sound_pushes (sound_new startValue) batches).mean_of_exact ?_ hfits
  have hstart : (MaxCircularBuffer.new maxGasHistory).Exact := by
    unfold MaxCircularBuffer.Exact
    rw [window_start, total_replicate]
    rfl
  rw [history_pushes, history_new, ← List.foldl_cons]
  rw [← window_start] at hrun
  exact MaxCircularBuffer.exact_pushes (fun _ => hstart) hrun

theorem window_new (startValue : UInt64) :
    (new startValue).history.window = List.replicate maxGasHistory.1 startValue := by
  rw [history_new, MaxCircularBuffer.window_push, window_start, slide_of_length_le (by simp)]
  simp only [List.length_replicate, Nat.sub_self, List.drop_zero]

theorem toNat_currSum_new (startValue : UInt64) :
    (new startValue).history.currSum.toNat = min (1000 * startValue.toNat) maxU64 := by
  have hwindow := window_new startValue
  rw [history_new] at hwindow ⊢
  rw [MaxCircularBuffer.window_push] at hwindow
  rcases MaxCircularBuffer.currSum_push (.new maxGasHistory)
    (List.replicate maxGasHistory.1 startValue) with ⟨hlt, -⟩ | ⟨-, hsum⟩
  · rw [List.length_replicate] at hlt
    exact absurd hlt (Nat.lt_irrefl _)
  · rw [hsum, hwindow, total_replicate]
    rfl

theorem push_one_spec (startValue val : UInt64) :
    total ([[val]].foldl push (new startValue)).history.window + startValue.toNat =
        1000 * startValue.toNat + val.toNat ∧
      ([[val]].foldl push (new startValue)).history.window.length = 1000 ∧
      ([[val]].foldl push (new startValue)).history.currSum.toNat =
        min (min (1000 * startValue.toNat) maxU64 + val.toNat) maxU64 - startValue.toNat := by
  have hcapacity := (sound_new startValue).capacity
  have hwindow := window_new startValue
  have hold : (new startValue).history.oldest = startValue := by
    refine List.eq_of_mem_replicate (n := maxGasHistory.1) ?_
    rw [← hwindow, MaxCircularBuffer.window_eq_cons]
    exact List.mem_cons_self
  have htotal := MaxCircularBuffer.total_window_insert (new startValue).history val
  rw [hold, MaxCircularBuffer.window_insert, hwindow, total_replicate] at htotal
  rw [List.foldl_cons, List.foldl_nil, history_push, MaxCircularBuffer.window_push, hwindow,
    length_slide, List.length_replicate]
  refine ⟨htotal, rfl, ?_⟩
  rcases MaxCircularBuffer.currSum_push (new startValue).history [val] with ⟨-, hsum⟩ | ⟨hle, -⟩
  · rw [hsum, List.foldl_cons, List.foldl_nil, MaxCircularBuffer.toNat_currSum_insert, hold,
      toNat_currSum_new]
  · rw [hcapacity, List.length_singleton] at hle
    exact absurd hle (by decide)

theorem mean_exact_of_unsaturated_hundred :
    ([[200]].foldl push (new 100)).mean.toNat =
      roundedMean ([[200]].foldl push (new 100)).history.window := by
  obtain ⟨htotal, hlen, -⟩ := push_one_spec 100 200
  refine mean_exact_of_unsaturated 100 [[200]] ?_ ?_
  · have hwindow : slide (List.replicate maxGasHistory.1 0) (List.replicate maxGasHistory.1 100) =
        List.replicate maxGasHistory.1 (100 : UInt64) := by
      rw [slide_of_length_le (by simp), List.length_replicate, List.length_replicate, Nat.sub_self,
        List.drop_zero]
    rw [unsaturated, unsaturated, unsaturated, hwindow, List.length_replicate,
      List.length_replicate, if_neg (Nat.lt_irrefl _), fits, fits, total_replicate]
    decide
  · rw [hlen]
    have hstart : (100 : UInt64).toNat = 100 := rfl
    have hval : (200 : UInt64).toNat = 200 := rfl
    rw [hstart, hval] at htotal
    unfold maxU64
    omega

/-- A running sum that has lost 1385 to a saturation gives a mean that is too small. -/
theorem Sound.mean_ne {m : OnlineMean} (h : m.Sound)
    (htotal : total m.history.window = 18428297329635843447)
    (hsum : m.history.currSum.toNat = 18428297329635842062) :
    m.mean.toNat ≠ roundedMean m.history.window := by
  have hmean : m.mean.toNat = min (m.history.currSum.toNat + 500) maxU64 / 1000 := h.mean
  unfold roundedMean
  rw [hmean, htotal, hsum, h.length_window]
  decide

/-- With a price of `2 ^ 64 / 1000 + 2` in every cell, the sum is above `u64::MAX` and the running
sum is not; a single price of 0 then brings the sum back into the range. -/
theorem mean_not_exact : ¬ ∀ (startValue : UInt64) (batches : List (List UInt64)),
    total (batches.foldl push (new startValue)).history.window +
      (batches.foldl push (new startValue)).history.window.length / 2 ≤ maxU64 →
    (batches.foldl push (new startValue)).mean.toNat =
      roundedMean (batches.foldl push (new startValue)).history.window := by
  intro h
  obtain ⟨startValue, hstart⟩ : ∃ v : UInt64, v.toNat = 18446744073709553 :=
    ⟨18446744073709553, rfl⟩
  obtain ⟨htotal, hlen, hsum⟩ := push_one_spec startValue 0
  have hval : (0 : UInt64).toNat = 0 := rfl
  rw [hstart, hval] at htotal hsum
  refine (sound_pushes (sound_new startValue) [[0]]).mean_ne (by omega) ?_
    (h startValue [[0]] ?_)
  · rw [hsum]
    decide
  · rw [hlen]
    unfold maxU64
    omega

end OnlineMean

end Gas
