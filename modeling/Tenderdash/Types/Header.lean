import Tenderdash.Types.PartSet
import Tenderdash.Types.Proposal
import Tenderdash.Types.ValidatorSet

/-!
Block headers, what a block store keeps of a block beside its parts, and the hash by which a header
names a validator set.
-/

namespace Tenderdash

open Lib

structure ConsensusVersion where
  block : ℕ
  app : ℕ
  deriving DecidableEq, Repr

structure Header where
  version : ConsensusVersion
  chainID : String
  height : ℤ
  coreChainLockedHeight : ℕ
  time : Timestamp
  lastBlockID : BlockID
  lastCommitHash : Bytes
  dataHash : Bytes
  validatorsHash : Bytes
  nextValidatorsHash : Bytes
  consensusHash : Bytes
  nextConsensusHash : Bytes
  appHash : Bytes
  resultsHash : Bytes
  evidenceHash : Bytes
  proposerProTxHash : Bytes
  proposedAppVersion : ℕ
  deriving DecidableEq, Repr

/-- The round is the one of the commit the node saw. -/
structure BlockMeta where
  blockID : BlockID
  blockSize : ℤ
  header : Header
  numTxs : ℤ
  round : ℤ
  hasCoreChainLock : Bool
  deriving DecidableEq, Repr

/-- `Hash` of a validator set: it covers the threshold key and the quorum hash, not the members. A set
without one of them has the hash nil. -/
def ValidatorSet.hash (C : Crypto) (vals : ValidatorSet) : Bytes :=
  match vals.thresholdPublicKey with
  | none => []
  | some key => if vals.quorumHash = [] then [] else Merkle.root C.merkle [key.bytes, vals.quorumHash]

def sampleHeader (height : ℤ) (vals : ValidatorSet) : Header where
  version := ⟨0, 0⟩
  chainID := "chain"
  height := height
  coreChainLockedHeight := 0
  time := ⟨height, 0⟩
  lastBlockID := BlockID.nil
  lastCommitHash := []
  dataHash := []
  validatorsHash := vals.hash Crypto.sample
  nextValidatorsHash := vals.hash Crypto.sample
  consensusHash := []
  nextConsensusHash := []
  appHash := []
  resultsHash := []
  evidenceHash := []
  proposerProTxHash := (sampleValidator 0).proTxHash
  proposedAppVersion := 0

end Tenderdash
