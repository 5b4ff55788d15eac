import SupraL1.Consensus.ChainStore

/-!
# Serving certified blocks (`rest/api_server_state.rs`)

The API server reads the same persistent store that the assembler writes. A certified block is
read by its height; with batches, the batch of every item of its payload is read as well, in the
order of the payload.
-/

namespace Rest

open Consensus

/-- The variants of `ApiServerError` that reading a certified block can give. -/
inductive ApiServerError where
  | storeError (e : StoreError)
  /-- `InconsistentStoreState`: the block at a height includes a batch that is not in the store. -/
  | batchNotFound (height : Nat) (hash : Hash)
  deriving DecidableEq, Repr

structure ConsensusBlock where
  certifiedBlock : CertifiedBlock
  batches : Option (List PackedSmrBatch)
  deriving DecidableEq, Repr

/-- A read of the store, with `?`. -/
def read {α : Type} (E : StoreEnv) (w : World) (op : StoreOp) (a : α) : Except ApiServerError α :=
  match E.fails op w.log with
  | some e => .error (.storeError e)
  | none => .ok a

/-- The loop of `get_batches_for_certified_block` over the hashes of the payload. -/
def getBatches (E : StoreEnv) (w : World) (height : Nat) :
    List Hash → Except ApiServerError (List PackedSmrBatch)
  | [] => .ok []
  | hash :: rest => do
    match ← read E w (.readBatch hash) (w.chain.batch hash) with
    | none => .error (.batchNotFound height hash)
    | some batch =>
      let batches ← getBatches E w height rest
      return ⟨hash, batch⟩ :: batches

/-- `get_batches_for_certified_block`. -/
def getBatchesForCertifiedBlock (E : StoreEnv) (w : World) (b : CertifiedBlock) :
    Except ApiServerError (List PackedSmrBatch) :=
  getBatches E w b.height (b.block.payload.map (·.storeKey))

/-- `get_certified_block`. -/
def getCertifiedBlock (E : StoreEnv) (w : World) (height : Nat) (withBatches : Bool) :
    Except ApiServerError (Option ConsensusBlock) := do
  match ← read E w (.readCertifiedBlock height) (w.chain.certifiedBlock height) with
  | none => return none
  | some stored =>
    let certifiedBlock ← read E w (.hydrate stored) stored
    if withBatches then
      let batches ← getBatchesForCertifiedBlock E w certifiedBlock
      return some ⟨certifiedBlock, some batches⟩
    else return some ⟨certifiedBlock, none⟩

/-! ## A store that can be read -/

section
variable {E : StoreEnv} (hrel : E.Reliable) {w : World}
include hrel

theorem read_reliable {α : Type} (op : StoreOp) (a : α) : read E w op a = .ok a := by
  unfold read
  rw [hrel]

/-- The batches are served in the order of the payload. -/
theorem getBatches_reliable {height : Nat} {hashes : List Hash} {batchOf : Hash → Bytes}
    (h : ∀ k ∈ hashes, w.chain.batch k = some (batchOf k)) :
    getBatches E w height hashes = .ok (hashes.map fun k => ⟨k, batchOf k⟩) := by
  induction hashes with
  | nil => rfl
  | cons k rest ih =>
    unfold getBatches
    rw [read_reliable hrel, h k List.mem_cons_self, ih fun k' hk => h k' (List.mem_cons_of_mem k hk)]
    rfl

/-- A stored block whose batches are in the store is served with them. -/
theorem getCertifiedBlock_reliable {height : Nat} {b : CertifiedBlock} {batchOf : Hash → Bytes}
    (hb : w.chain.certifiedBlock height = some b)
    (h : ∀ item ∈ b.block.payload, w.chain.batch item.storeKey = some (batchOf item.storeKey)) :
    getCertifiedBlock E w height true = .ok (some ⟨b, some (b.block.payload.map fun item =>
      ⟨item.storeKey, batchOf item.storeKey⟩)⟩) := by
  have hget : getBatches E w b.height (b.block.payload.map (·.storeKey)) =
      .ok ((b.block.payload.map (·.storeKey)).map fun k => ⟨k, batchOf k⟩) := by
    refine getBatches_reliable hrel fun k hk => ?_
    obtain ⟨item, hitem, rfl⟩ := List.mem_map.1 hk
    exact h item hitem
  unfold getCertifiedBlock
  rw [read_reliable hrel, hb]
  show (read E w (.hydrate b) b >>= fun stored => getBatchesForCertifiedBlock E w stored >>=
    fun batches => pure (some (ConsensusBlock.mk stored (some batches)))) = _
  rw [read_reliable hrel]
  show (getBatches E w b.height (b.block.payload.map (·.storeKey)) >>=
    fun batches => pure (some (ConsensusBlock.mk b (some batches)))) = _
  rw [hget, List.map_map]
  rfl

end

end Rest
