import SupraL1.Lib.Run
import SupraL1.Consensus.Node
import SupraL1.Rest.ApiServerState

/-!
# A node that syncs from another one

With `RpcSync::Rest` (`setup_client`) the block provider of a node is another RPC node, and a sync
request is a call of that node's consensus block endpoint. The client in between is outside the
repository; it may lose, delay and repeat messages. A `Round` is a stretch of time in which anything
may happen and at whose end the pending request, if there is one, is answered by the peer and the
feedback channel is served once.
-/

namespace Consensus

open EState ChainStateAssembler

/-- The message that the endpoint's answer for a height makes, if the peer has the block. -/
def syncBlock (P : StoreEnv) (peer : World) (height : Nat) : Option RpcBlockData :=
  match Rest.getCertifiedBlock P peer height true with
  | .ok (some ⟨b, some batches⟩) => some (.syncBlock ⟨b, batches⟩)
  | _ => none

structure Round where
  /-- What happens before the answer. -/
  others : List Trigger
  /-- The peer's history when it is asked. -/
  peer : List Life

namespace Round

/-- The answer to the pending request, and one turn of the feedback channel; `P` are the operations
of the peer's store. -/
def closing (P : StoreEnv) (genesis : CertifiedBlock) (r : Round) (s : ChainStateAssembler) :
    List Trigger :=
  (s.synchronizer.pendingSyncRequest.bind
    (syncBlock P ⟨storeAfter genesis r.peer, []⟩)).toList.map Trigger.incomingBlock ++
      [Trigger.readyToExecute]

/-- The state after a round. -/
def play (E : Env) (P : StoreEnv) (genesis : CertifiedBlock) (s : ChainStateAssembler) (r : Round) :
    ChainStateAssembler :=
  steps (doStep E) (steps (doStep E) s r.others) (r.closing P genesis (steps (doStep E) s r.others))

end Round

end Consensus
