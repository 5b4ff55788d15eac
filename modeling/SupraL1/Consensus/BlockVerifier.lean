import SupraL1.Consensus.Types

/-!
# The block verifier (`consensus/block_verifier.rs`)
-/

namespace Consensus

/-- The parts of the message of `report_byzantine_behaviour`. -/
structure ByzantineReport where
  msg : String
  fullBlock : FullBlock
  cause : Option String
  deriving DecidableEq, Repr

inductive VerificationResult where
  | success
  | oldEpochBlock
  | futureEpochBlock
  | invalidBlock (e : ByzantineReport)
  deriving DecidableEq, Repr

/-- `report_byzantine_behaviour`. -/
def reportByzantineBehaviour (msg : String) (fullBlock : FullBlock) (error : Option String) :
    VerificationResult := .invalidBlock ⟨msg, fullBlock, error⟩

/-- What the verifier uses of the crates outside the repository. -/
structure VerifierEnv where
  /-- `CertifiedBlock::is_commit_certified`. -/
  isCommitCertified : CertifiedBlock → Bool
  /-- `FullBlock::check_consistency`. -/
  checkConsistency : FullBlock → Except String Unit
  /-- `ValidatorCommittee::verify`. -/
  committeeVerify : ValidatorCommittee → CertifiedBlock → Except String Unit

/-- `BlockVerifier::verify`: the root block and blocks that are not commit-certified are
byzantine, blocks of another epoch are told apart, and a block of the current epoch has to be
consistent and, unless `skipQcVerification`, certified by the current committee. -/
def BlockVerifier.verify (V : VerifierEnv) (skipQcVerification : Bool) (epochStates : EpochStates)
    (fullBlock : FullBlock) : VerificationResult :=
  if fullBlock.base.height = 0 then
    reportByzantineBehaviour "Received root block" fullBlock none
  else if V.isCommitCertified fullBlock.base = false then
    reportByzantineBehaviour "The block provider sent a block that is not commit-certified"
      fullBlock none
  else
    match compare fullBlock.base.epoch epochStates.current.committee.epoch with
    | .lt => .oldEpochBlock
    | .gt => .futureEpochBlock
    | .eq =>
      match V.checkConsistency fullBlock with
      | .error msg => reportByzantineBehaviour msg fullBlock none
      | .ok () =>
        if skipQcVerification then .success
        else
          match V.committeeVerify epochStates.current.committee fullBlock.base with
          | .error e =>
            reportByzantineBehaviour
              ("Safety Failure: Received a block with an invalid Commit Certificate.\n" ++
                "WARNING: Your block provider may be malicious! ") fullBlock (some e)
          | .ok () => .success

/-- What an accepted block has passed. -/
theorem BlockVerifier.verify_success {V : VerifierEnv} {skip : Bool} {v : EpochStates}
    {fb : FullBlock} (h : verify V skip v fb = .success) :
    fb.base.height ≠ 0 ∧ fb.base.epoch = v.current.committee.epoch ∧
      V.checkConsistency fb = .ok () := by
  unfold verify reportByzantineBehaviour at h
  split at h
  · cases h
  rename_i hz
  split at h
  · cases h
  split at h
  · cases h
  · cases h
  · rename_i heq
    refine ⟨hz, Nat.compare_eq_eq.1 heq, ?_⟩
    split at h
    · cases h
    · assumption

end Consensus
