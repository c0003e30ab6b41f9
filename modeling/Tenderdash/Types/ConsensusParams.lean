import Tenderdash.Types.Basic

/-!
Consensus parameters: what the application may change with a block, how a change is applied and
validated, and the hash by which a header names them. Durations are counted in nanoseconds.
-/

namespace Tenderdash

open Lib Go

structure BlockParams where
  maxBytes : ℤ
  maxGas : ℤ
  deriving DecidableEq, Repr

structure EvidenceLimits where
  maxAgeNumBlocks : ℤ
  maxAgeDuration : ℤ
  maxBytes : ℤ
  deriving DecidableEq, Repr

structure ValidatorParams where
  pubKeyTypes : List String
  votingPowerThreshold : Option ℕ
  deriving DecidableEq, Repr

structure VersionParams where
  appVersion : ℕ
  consensusVersion : ℤ
  deriving DecidableEq, Repr

structure SynchronyParams where
  precision : ℤ
  messageDelay : ℤ
  deriving DecidableEq, Repr

structure TimeoutParams where
  propose : ℤ
  proposeDelta : ℤ
  vote : ℤ
  voteDelta : ℤ
  deriving DecidableEq, Repr

structure ConsensusParams where
  block : BlockParams
  evidence : EvidenceLimits
  validator : ValidatorParams
  version : VersionParams
  synchrony : SynchronyParams
  timeout : TimeoutParams
  /-- `ABCIParams.RecheckTx`. -/
  recheckTx : Bool
  deriving DecidableEq, Repr

structure SynchronyParamsProto where
  precision : Option ℤ
  messageDelay : Option ℤ
  deriving DecidableEq, Repr

structure TimeoutParamsProto where
  propose : Option ℤ
  proposeDelta : Option ℤ
  vote : Option ℤ
  voteDelta : Option ℤ
  deriving DecidableEq, Repr

/-- Consensus parameters in protobuf form, as an update: groups that are missing stay. -/
structure ConsensusParamsProto where
  block : Option BlockParams
  evidence : Option EvidenceLimits
  validator : Option ValidatorParams
  version : Option VersionParams
  synchrony : Option SynchronyParamsProto
  timeout : Option TimeoutParamsProto
  recheckTx : Option Bool
  deriving DecidableEq, Repr

def ConsensusParamsProto.empty : ConsensusParamsProto := ⟨none, none, none, none, none, none, none⟩

namespace ConsensusParams

/-- `UpdateConsensusParams` for an update that is not nil. -/
def updateConsensusParams (params : ConsensusParams) (params2 : ConsensusParamsProto) : ConsensusParams where
  block := params2.block.getD params.block
  evidence := params2.evidence.getD params.evidence
  validator := params2.validator.getD params.validator
  version := params2.version.getD params.version
  synchrony := match params2.synchrony with
    | none => params.synchrony
    | some s => ⟨s.precision.getD params.synchrony.precision, s.messageDelay.getD params.synchrony.messageDelay⟩
  timeout := match params2.timeout with
    | none => params.timeout
    | some t => ⟨t.propose.getD params.timeout.propose, t.proposeDelta.getD params.timeout.proposeDelta,
        t.vote.getD params.timeout.vote, t.voteDelta.getD params.timeout.voteDelta⟩
  recheckTx := params2.recheckTx.getD params.recheckTx

/-- `ABCIPubKeyTypesToNames`. -/
def pubKeyTypeNames : List String := ["ed25519", "secp256k1", "bls12381"]

def validateConsensusParams (params : ConsensusParams) : Go String Unit := do
  failIf (params.block.maxBytes ≤ 0) "block.MaxBytes must be greater than 0"
  failIf (params.block.maxBytes > maxBlockSizeBytes) "block.MaxBytes is too big"
  failIf (params.block.maxGas < -1) "block.MaxGas must be greater or equal to -1"
  failIf (params.evidence.maxAgeNumBlocks ≤ 0) "evidence.MaxAgeNumBlocks must be greater than 0"
  failIf (params.evidence.maxAgeDuration ≤ 0) "evidence.MaxAgeDuration must be greater than 0 if provided"
  failIf (params.evidence.maxBytes > params.block.maxBytes) "evidence.MaxBytesEvidence is greater than upper bound"
  failIf (params.evidence.maxBytes < 0) "evidence.MaxBytes must be non negative"
  failIf (params.synchrony.messageDelay ≤ 0) "synchrony.MessageDelay must be greater than 0"
  failIf (params.synchrony.precision ≤ 0) "synchrony.Precision must be greater than 0"
  -- the message names the wrong field here
  failIf (params.timeout.propose ≤ 0) "timeout.ProposeDelta must be greater than 0"
  failIf (params.timeout.proposeDelta ≤ 0) "timeout.ProposeDelta must be greater than 0"
  failIf (params.timeout.vote ≤ 0) "timeout.Vote must be greater than 0"
  failIf (params.timeout.voteDelta ≤ 0) "timeout.VoteDelta must be greater than 0"
  failIf (params.validator.pubKeyTypes.length = 0) "len(Validator.PubKeyTypes) must be greater than 0"
  failIf (¬ params.validator.pubKeyTypes.all fun keyType => pubKeyTypeNames.contains keyType)
    "params.Validator.PubKeyTypes is an unknown pubkey type"

/-- Three of the parameters are covered. -/
def hashConsensusParams (C : Crypto) (params : ConsensusParams) : Bytes :=
  C.checksum (Wire.varintField 1 params.block.maxBytes ++ Wire.varintField 2 params.block.maxGas ++
    Wire.varintField 3 params.version.consensusVersion)

/-- `DefaultConsensusParams`. -/
def default : ConsensusParams where
  block := ⟨22020096, -1⟩
  evidence := ⟨100000, 48 * 3600 * 10 ^ 9, 1048576⟩
  validator := ⟨["bls12381"], none⟩
  version := ⟨0, 0⟩
  synchrony := ⟨505 * 10 ^ 6, 12 * 10 ^ 9⟩
  timeout := ⟨3 * 10 ^ 9, 5 * 10 ^ 8, 10 ^ 9, 5 * 10 ^ 8⟩
  recheckTx := true

lemma validateConsensusParams_default : default.validateConsensusParams = .ok () := by decide

end ConsensusParams

end Tenderdash
