import SupraL1.Consensus.Assembler

/-!
# The lives of a node (`cli/start_server.rs`)

`start_rpc_server` opens the persistent store, initializes the block store on it, creates the
assembler and spawns its main loop. `Life` is one such start with all that the outside decides: the
environment, the configured bucket size, the epoch states of the verifier, the triggers of the main
loop, and after how many events the process stops, by a crash or by an operator. What survives is
the store that the events up to there have made, and the next life starts on it.
-/

namespace Consensus

open EState ChainStateAssembler

structure Life where
  env : Env
  warranter : Warranter env
  /-- `certified_block_cache_bucket_size` of the configuration. -/
  bucketSize : Nat
  /-- The epoch states `BlockVerifier::new` takes from the epoch manager. -/
  epochStates : EpochStates
  triggers : List Trigger
  /-- The number of events after which the process stops. -/
  stop : Nat

namespace Life

/-- The part of `start_rpc_server` that builds the assembler and runs it, as the events of a
process that nothing stops: it ends where `initialize` or `new` fails, or the main loop returns. -/
def startRpcServer (L : Life) (genesis : CertifiedBlock) (chain : ChainStore) : List Event :=
  match BlockStore.initializeStore L.env.toStoreEnv genesis
      (BlockStore.new ⟨chain, []⟩ L.bucketSize) with
  | .error _ st => st.store.log
  | .ok _ st =>
    match new L.env L.warranter st L.epochStates with
    | (.error _, w) => w.log
    | (.ok s, _) => (after (run L.env L.triggers) s).log

/-- The events up to the point where the process stops. -/
def events (L : Life) (genesis : CertifiedBlock) (chain : ChainStore) : List Event :=
  (L.startRpcServer genesis chain).take L.stop

end Life

/-- The events of one life after the other, each on the store the one before has left. -/
def history (genesis : CertifiedBlock) (chain : ChainStore) : List Life → List (List Event)
  | [] => []
  | L :: lives =>
    L.events genesis chain :: history genesis (chain.replay (L.events genesis chain)) lives

/-- The store that is left after the lives of a node, from its first start on. -/
def storeAfter (genesis : CertifiedBlock) (lives : List Life) : ChainStore :=
  ChainStore.empty.replay (history genesis ChainStore.empty lives).flatten

end Consensus
