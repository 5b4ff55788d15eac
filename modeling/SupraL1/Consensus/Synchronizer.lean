import SupraL1.Consensus.State

/-!
# The synchronizer (`consensus/synchronizer.rs`)

At most one sync request is pending at a time. The timer decides only when `retry` runs and is
not part of the state: the assembler may be triggered by it at any point.
-/

namespace Consensus

open EState

namespace SynchronizationContext

/-- `post_sync_request`. -/
def postSyncRequest (E : Env) (blockHeight : Nat) : AssemblerM Unit := fun s =>
  match E.sendFails blockHeight s.log with
  | some e => .error (.rpcInternalError e) (s.emit (.requestFault blockHeight e))
  | none => .ok () (s.emit (.request blockHeight))

/-- `retry`: posts the pending request one more time. -/
def retry (E : Env) : AssemblerM Unit := do
  let s ← get
  match s.synchronizer.pendingSyncRequest with
  | some blockHeight => postSyncRequest E blockHeight
  | none => pure ()

/-- The pending request is set before it is posted, and stays when the post fails. -/
def setPending (p : Option Nat) (s : ChainStateAssembler) : ChainStateAssembler :=
  { s with synchronizer := ⟨p⟩ }

/-- `try_post_sync_request`. -/
def tryPostSyncRequest (E : Env) (height : Nat) : AssemblerM Unit := do
  let s ← get
  match s.synchronizer.pendingSyncRequest with
  | none =>
    modify (setPending (some height))
    postSyncRequest E height
  | some ongoingSyncHeight =>
    if ongoingSyncHeight = height then pure ()
    else throw (.fatal (.ongoingSyncRequest ongoingSyncHeight height))

/-- `clear`. -/
def clear (height : Nat) : AssemblerM Unit :=
  modify fun s => if s.synchronizer.pendingSyncRequest = some height then setPending none s else s

end SynchronizationContext

end Consensus
