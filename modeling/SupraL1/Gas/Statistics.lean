import SupraL1.Gas.CircularBuf
import SupraL1.Lib.Pool
import Mathlib.Logic.Function.Basic

/-!
# The gas price statistics (`gas/online_mean.rs`, `gas/mod.rs`)

The writer pushes the gas prices of executed transactions into a window of the last 1000 and
publishes mean, maximum and median on a `tokio::sync::watch` channel; readers borrow the value of
the channel. A borrow takes a read lock that it holds until its guard is dropped, and `send_replace`
takes the write lock. `statistics` borrows three times in one expression: its guards are temporaries
of the function's tail expression, so each of them lives until the whole triple is built.
-/

namespace Gas

/-! ## `u64` -/

instance linearOrderU64 : LinearOrder UInt64 where
  le_refl := UInt64.le_refl
  le_trans _ _ _ := UInt64.le_trans
  le_antisymm _ _ := UInt64.le_antisymm
  le_total := UInt64.le_total
  lt_iff_le_not_ge a b := by
    simp only [UInt64.le_iff_toNat_le, UInt64.lt_iff_toNat_lt]
    omega
  toDecidableLE := inferInstance
  toDecidableEq := inferInstance
  toDecidableLT := inferInstance

/-- `u64::MAX`. -/
def maxU64 : Nat := 2 ^ 64 - 1

instance saturatingU64 : Saturating UInt64 where
  saturatingAdd a b := UInt64.ofNat (min (a.toNat + b.toNat) maxU64)
  saturatingSub a b := UInt64.ofNat (a.toNat - b.toNat)

/-! ## `OnlineMean` -/

/-- `MAX_GAS_HISTORY`. -/
def maxGasHistory : NonZeroUsize := ⟨1000, by decide⟩

structure OnlineMean where
  curMean : UInt64
  history : MaxCircularBuffer UInt64

namespace OnlineMean

def push (m : OnlineMean) (values : List UInt64) : OnlineMean :=
  let history := m.history.push values
  let len := UInt64.ofNat history.len
  ⟨saturatingAdd history.sum (len / 2) / len, history⟩

/-- `OnlineMean::new`: the window is filled with the start value. -/
def new (startValue : UInt64) : OnlineMean :=
  push ⟨0, .new maxGasHistory⟩ (List.replicate maxGasHistory.1 startValue)

def max (m : OnlineMean) : UInt64 := m.history.max

def mean (m : OnlineMean) : UInt64 := m.curMean

def median (m : OnlineMean) : UInt64 := m.history.median

end OnlineMean

/-! ## The monitor -/

structure GasPriceStatistics where
  mean : UInt64
  max : UInt64
  median : UInt64
  deriving DecidableEq, Repr

/-- `MVM_MIN_GAS_UNIT_PRICE`. -/
def mvmMinGasUnitPrice : UInt64 := 100

/-- `GasPriceStatistics::mvm_new`. -/
def GasPriceStatistics.mvmNew : GasPriceStatistics :=
  ⟨mvmMinGasUnitPrice, mvmMinGasUnitPrice, mvmMinGasUnitPrice⟩

/-- What is maintained for a kind of transactions: the writer's window and the channel to the
readers, with the guards of its current value that are alive and every value published so far. -/
structure Monitored where
  mean : OnlineMean
  value : GasPriceStatistics
  guards : Nat
  published : List GasPriceStatistics

namespace Monitored

/-- `send_replace`, which waits until no guard is alive. -/
def sendReplace (m : Monitored) (statistics : GasPriceStatistics) : Option Monitored :=
  if m.guards = 0 then
    some { m with value := statistics, published := m.published ++ [statistics] }
  else none

/-- `borrow`. -/
def borrow (m : Monitored) : Monitored := { m with guards := m.guards + 1 }

/-- The end of an expression in which `count` guards were created. -/
def dropGuards (m : Monitored) (count : Nat) : Monitored := { m with guards := m.guards - count }

end Monitored

section Monitor

variable {TransactionKind : Type} [DecidableEq TransactionKind]

/-- `gas_stats_per_tx_kind` of the aggregated writer and of the aggregated readers. -/
abbrev GasStats (TransactionKind : Type) := TransactionKind → Option Monitored

/-- `gas_monitor`: the writer and the readers, which maintain the prices of the Move VM only. -/
def gasMonitor (moveVm : TransactionKind) : GasStats TransactionKind :=
  Function.update (fun _ => none) moveVm
    (some ⟨.new mvmMinGasUnitPrice, .mvmNew, 0, [.mvmNew]⟩)

/-- A call, by what it does next. A call of `statistics` keeps what it has read. -/
inductive Process (TransactionKind : Type) where
  | pushGasPrices (kind : TransactionKind) (gasPrices : List UInt64)
  | pushed
  | statistics (kind : TransactionKind)
  | readMean (kind : TransactionKind) (mean : UInt64)
  | readMax (kind : TransactionKind) (mean max : UInt64)
  | readMedian (kind : TransactionKind) (mean max median : UInt64)
  | returned (kind : TransactionKind) (result : Option GasPriceStatistics)

inductive Call (TransactionKind : Type) where
  | pushGasPrices (kind : TransactionKind) (gasPrices : List UInt64)
  | statistics (kind : TransactionKind)

/-- `push_gas_price`: the writer's own window is read by no one else, so the push is part of the
step that publishes. -/
def pushGasPrice (m : Monitored) (gasPrices : List UInt64) : Option Monitored :=
  let mean := m.mean.push gasPrices
  { m with mean }.sendReplace ⟨mean.mean, mean.max, mean.median⟩

/-- One borrow or one publication. -/
def step (_ : Unit) (s : GasStats TransactionKind) :
    Process TransactionKind →
      Option (GasStats TransactionKind × Process TransactionKind × List (Process TransactionKind))
  | .pushGasPrices kind gasPrices =>
    match s kind with
    | none => some (s, .pushed, [])
    | some m => (pushGasPrice m gasPrices).map fun m =>
      (Function.update s kind (some m), .pushed, [])
  | .statistics kind =>
    match s kind with
    | none => some (s, .returned kind none, [])
    | some m => some (Function.update s kind (some m.borrow), .readMean kind m.value.mean, [])
  | .readMean kind mean =>
    (s kind).map fun m =>
      (Function.update s kind (some m.borrow), .readMax kind mean m.value.max, [])
  | .readMax kind mean max =>
    (s kind).map fun m =>
      (Function.update s kind (some m.borrow), .readMedian kind mean max m.value.median, [])
  | .readMedian kind mean max median =>
    (s kind).map fun m =>
      (Function.update s kind (some (m.dropGuards 3)),
        .returned kind (some ⟨mean, max, median⟩), [])
  | .pushed | .returned .. => none

/-- The calls of the writer and of any number of readers. -/
def calls : Pool.Machine (Call TransactionKind) Unit (GasStats TransactionKind)
    (Process TransactionKind) where
  init
    | .pushGasPrices kind gasPrices => .pushGasPrices kind gasPrices
    | .statistics kind => .statistics kind
  step := step

def start (moveVm : TransactionKind) : Pool.Config (GasStats TransactionKind)
    (Process TransactionKind) := ⟨gasMonitor moveVm, []⟩

end Monitor

end Gas
