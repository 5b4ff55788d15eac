import SupraL1.MoveCore

/-!
# Keys and errors of the genesis tools (`genesis/error.rs`)
-/

namespace Genesis

open Consensus (Bytes)
open Move (AccountAddress)

/-- `socrypto::PublicKey`: 32 bytes. -/
abbrev PublicKey := BitVec 256

/-- The variants of `GenesisToolError` that the modelled tools give. -/
inductive GenesisToolError where
  | signatureError (message : String)
  | io (message : String)
  | accountsNotUnique (addresses : List AccountAddress)
  | notEnoughFoundationMultisigMembers
  | mintableSupplyExceeded (total cap : Nat)
  | insufficientAllocation (total cap : Nat)
  | missingDefaultDelegationPoolSchedule
  | notEnoughFoundationDelegationPools
  | invalidPBOOwnerStake (missing minted : Nat)
  deriving DecidableEq, Repr

/-- The variants of `CliError` that the modelled tools give themselves, and all others by the
message. -/
inductive CliError where
  | generalError (message : String)
  | genesisToolError (e : GenesisToolError)
  | other (message : String)
  deriving DecidableEq, Repr

/-- How a tool ends early. -/
inductive Failure where
  | error (e : CliError)
  | panic (message : String)
  deriving DecidableEq, Repr

abbrev Outcome := Except Failure

/-- `Err(CliError::GeneralError(..))`. -/
def generalError {α : Type} (message : String) : Outcome α := .error (.error (.generalError message))

/-- `Err(GenesisToolError::.. .into())`. -/
def toolError {α : Type} (e : GenesisToolError) : Outcome α := .error (.error (.genesisToolError e))

/-- `panic!`, a failed `expect` or an index out of bounds. -/
def panics {α : Type} (message : String) : Outcome α := .error (.panic message)

end Genesis
