import SupraL1.Consensus.Types

/-!
# The persistent store and the record of what happens outside the process

`ChainStore` is the part of `rocksstore::ChainStore` the assembler uses: the certified blocks by
height, the batches by key and the three last-state items. The store itself is outside the
repository; a read returns what the last write put there, and every operation may fail.

`World` is the store together with `log`, the sequence of everything the process did to the
outside: its writes, the blocks it handed to the executor, its sync requests and its
acknowledgements, in order. A crash keeps the writes of a prefix of `log` (`ChainStore.replay`).
The environment answers on the whole `log`: an operation may fail now and work later, and an
executor with a state of its own is a function of the calls it has seen.
-/

namespace Consensus

/-- One atomic write to the persistent store. -/
inductive Write where
  | batch (key : Hash) (bytes : Bytes)
  | certifiedBlock (b : CertifiedBlock)
  | committedBlock (b : CertifiedBlock)
  | executedBlock (b : ExecutedBlock)
  | epochBoundaryBlockQC (qc : SmrQC)
  deriving DecidableEq, Repr

structure ChainStore where
  certifiedBlock : Nat → Option CertifiedBlock
  batch : Hash → Option Bytes
  committedBlock : Option CertifiedBlock
  executedBlock : Option ExecutedBlock
  epochBoundaryBlockQC : Option SmrQC

namespace ChainStore

def empty : ChainStore := ⟨fun _ => none, fun _ => none, none, none, none⟩

/-- The store after a write. A certified block is indexed by its height. -/
def apply (c : ChainStore) : Write → ChainStore
  | .batch k v => { c with batch := Function.update c.batch k (some v) }
  | .certifiedBlock b =>
    { c with certifiedBlock := Function.update c.certifiedBlock b.height (some b) }
  | .committedBlock b => { c with committedBlock := some b }
  | .executedBlock b => { c with executedBlock := some b }
  | .epochBoundaryBlockQC qc => { c with epochBoundaryBlockQC := some qc }

end ChainStore

/-- What the process does to the outside. -/
inductive Event where
  | write (w : Write)
  /-- A write the store refused. -/
  | writeFault (w : Write) (e : StoreError)
  /-- A block handed to the executor, with the committee. -/
  | execute (b : CertifiedBlock) (c : ValidatorCommittee)
  /-- The executor returned `Ok((epoch_changed, _))`. -/
  | executed (b : CertifiedBlock) (epochChanged : Bool)
  /-- `RpcServerMessage::Block(height)` sent to the block provider. -/
  | request (h : Nat)
  | requestFault (h : Nat) (e : RpcClientError)
  /-- `Ack` sent to the epoch manager. -/
  | ack
  deriving DecidableEq, Repr

/-- The store that survives when the process stops after the events of a log. -/
def ChainStore.replay (c : ChainStore) : List Event → ChainStore
  | [] => c
  | .write w :: es => (c.apply w).replay es
  | _ :: es => c.replay es

structure World where
  chain : ChainStore
  log : List Event

namespace World

def emit (w : World) (e : Event) : World := { w with log := w.log ++ [e] }

def write (w : World) (x : Write) : World := { chain := w.chain.apply x, log := w.log ++ [.write x] }

@[simp] theorem emit_chain (w : World) (e : Event) : (w.emit e).chain = w.chain := rfl
@[simp] theorem emit_log (w : World) (e : Event) : (w.emit e).log = w.log ++ [e] := rfl
@[simp] theorem write_chain (w : World) (x : Write) : (w.write x).chain = w.chain.apply x := rfl
@[simp] theorem write_log (w : World) (x : Write) : (w.write x).log = w.log ++ [Event.write x] := rfl

end World

/-- The operations on the store that can fail. -/
inductive StoreOp where
  | readCommittedBlock
  | readExecutedBlock
  | readCertifiedBlock (h : Nat)
  | hydrate (b : CertifiedBlock)
  | readBatch (k : Hash)
  | write (w : Write)
  deriving DecidableEq, Repr

/-- What the block store uses of the crates outside the repository. -/
structure StoreEnv where
  /-- Whether an operation fails at this point of the log. -/
  fails : StoreOp → List Event → Option StoreError
  /-- `SmrBlock::correctly_extends(qc)`. -/
  correctlyExtends : SmrBlock → SmrQC → Bool
  /-- Whether `ExecutedBlock::finalize` succeeds. -/
  finalizes : ExecutedBlock → Bool

/-- No operation of the store fails. -/
def StoreEnv.Reliable (E : StoreEnv) : Prop := ∀ op log, E.fails op log = none

/-- The same environment with a store that works. -/
def StoreEnv.reliable (E : StoreEnv) : StoreEnv := { E with fails := fun _ _ => none }

@[simp] theorem StoreEnv.reliable_fails (E : StoreEnv) (op : StoreOp) (log : List Event) :
    E.reliable.fails op log = none := rfl

namespace ChainStore

theorem replay_append (c : ChainStore) (l l' : List Event) :
    c.replay (l ++ l') = (c.replay l).replay l' := by
  induction l generalizing c with
  | nil => rfl
  | cons e l ih => cases e <;> exact ih _

theorem replay_write (c : ChainStore) (l : List Event) (w : Write) :
    c.replay (l ++ [Event.write w]) = (c.replay l).apply w := by rw [replay_append]; rfl

/-- An event that is not a write leaves the store as it is. -/
theorem replay_other (c : ChainStore) (l : List Event) {e : Event} (h : ∀ w, e ≠ .write w) :
    c.replay (l ++ [e]) = c.replay l := by
  rw [replay_append]
  cases e with
  | write w => exact absurd rfl (h w)
  | _ => rfl

end ChainStore

end Consensus
