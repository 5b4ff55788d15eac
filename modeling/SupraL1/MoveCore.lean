import SupraL1.Consensus.Types

/-!
# Addresses, modules, resource types and the status of a transaction

These are declared in `move_core_types` and `transactions`. A tag or a module id is compared and
passed on as a whole, so it is kept as its encoding.
-/

namespace Move

open Consensus (Bytes)

/-- `account_address::AccountAddress`: 32 bytes. -/
abbrev AccountAddress := BitVec 256

/-- `language_storage::ModuleId`. -/
structure ModuleId where
  encoded : Bytes
  deriving DecidableEq, Repr

/-- `language_storage::StructTag`. -/
structure StructTag where
  encoded : Bytes
  deriving DecidableEq, Repr

/-- `transactions::TxExecutionStatus`. -/
inductive TxExecutionStatus where
  | success
  | fail
  | invalid
  | pending
  | pendingAfterExecution
  deriving DecidableEq, Repr

end Move
