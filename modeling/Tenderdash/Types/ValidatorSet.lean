import Tenderdash.Lib.Assoc
import Tenderdash.Lib.Tally
import Tenderdash.Types.SignItem

/-!
Validators, validator sets, and the two thresholds of a set: the voting power that makes a majority,
which an operator may configure, and the power that threshold recovery needs, which the quorum type
fixes.
-/

namespace Tenderdash

open Lib

structure Validator where
  proTxHash : Bytes
  pubKey : Option PubKey
  votingPower : ℤ
  deriving DecidableEq, Repr

def defaultDashVotingPower : ℤ := 100

/-- Number of members and threshold of the quorum types with a fixed definition, by the number of the type. -/
def quorumParams : List (LLMQType × ℕ × ℕ) :=
  [(1, 50, 30), (2, 400, 240), (3, 400, 340), (4, 100, 67), (5, 60, 45), (6, 25, 17),
    (101, 12, 6), (102, 3, 2), (103, 4, 2), (104, 3, 2), (105, 8, 4), (106, 3, 2), (107, 12, 8)]

instance neZero_int63 : NeZero (2 ^ 63) := ⟨by decide⟩

/-- A validator set. `ValidateBasic` rejects a threshold power above the largest `int64`, so that
none is built here. -/
structure ValidatorSet where
  validators : List Validator
  thresholdPublicKey : Option PubKey
  quorumHash : Bytes
  quorumType : LLMQType
  hasPublicKeys : Bool
  votingPowerThreshold : Fin (2 ^ 63)
  deriving DecidableEq, Repr

namespace ValidatorSet

variable (vals : ValidatorSet) (proTxHash : Bytes) {val : Validator}

def size : ℕ := vals.validators.length

def powers : List ℤ := vals.validators.map (·.votingPower)

def getByIndex (index : ℤ) : Option Validator :=
  if index < 0 then none else vals.validators[index.toNat]?

def hasProTxHash : Bool :=
  proTxHash.length ≠ 0 ∧ vals.validators.any fun val => val.proTxHash = proTxHash

/-- The index of `GetByProTxHash`, which is -1 for a hash that is not in the set. -/
def indexByProTxHash : ℤ :=
  match vals.validators.findIdx? fun val => val.proTxHash = proTxHash with
  | some index => index
  | none => -1

def totalVotingPower : ℤ := vals.size * defaultDashVotingPower

def quorumTypeThresholdCount : ℕ :=
  match quorumParams.lookup vals.quorumType with
  | some (_, threshold) => threshold
  | none => vals.size * 2 / 3 + 1

/-- The power needed to recover a threshold signature. -/
def quorumTypeThresholdVotingPower : ℤ :=
  vals.quorumTypeThresholdCount * defaultDashVotingPower

/-- The power that makes a majority. -/
def quorumVotingThresholdPower : ℤ :=
  if 0 < vals.votingPowerThreshold.val then (vals.votingPowerThreshold.val : ℤ)
  else vals.quorumTypeThresholdVotingPower

lemma getByIndex_eq_some {vals : ValidatorSet} {index : ℤ} :
    vals.getByIndex index = some val ↔ 0 ≤ index ∧ vals.validators[index.toNat]? = some val := by
  unfold getByIndex
  split
  · simp; omega
  · simp; omega

@[simp] lemma powers_length (vals : ValidatorSet) : vals.powers.length = vals.size := by simp [powers, size]

lemma powers_getElem? {vals : ValidatorSet} {i : ℕ}
    (h : vals.validators[i]? = some val) : vals.powers[i]? = some val.votingPower := by simp [powers, h]

lemma quorumTypeThresholdCount_pos (vals : ValidatorSet) : 0 < vals.quorumTypeThresholdCount := by
  unfold quorumTypeThresholdCount
  split
  · next h =>
    have hm := mem_of_lookup h
    simp only [quorumParams, List.mem_cons, Prod.mk.injEq, List.not_mem_nil, or_false] at hm
    omega
  · omega

lemma quorumTypeThresholdVotingPower_pos (vals : ValidatorSet) : 0 < vals.quorumTypeThresholdVotingPower := by
  have := vals.quorumTypeThresholdCount_pos
  unfold quorumTypeThresholdVotingPower defaultDashVotingPower
  omega

lemma quorumVotingThresholdPower_pos (vals : ValidatorSet) : 0 < vals.quorumVotingThresholdPower := by
  have := vals.quorumTypeThresholdVotingPower_pos
  unfold quorumVotingThresholdPower
  split <;> omega

end ValidatorSet

/-! ### Sample data -/

def sampleValidator (i : ℕ) : Validator :=
  ⟨List.replicate proTxHashSize (UInt8.ofNat (i + 1)),
    some ⟨0, List.replicate pubKeySize (UInt8.ofNat (i + 1))⟩, defaultDashVotingPower⟩

/-- A sample set of `n` validators whose quorum type has no fixed definition. -/
def sampleValidators (n : ℕ) : ValidatorSet where
  validators := (List.range n).map sampleValidator
  thresholdPublicKey := some ⟨0, List.replicate pubKeySize 1⟩
  quorumHash := List.replicate quorumHashSize 7
  quorumType := 100
  hasPublicKeys := true
  votingPowerThreshold := 0

def sampleBlockID (b : UInt8) : BlockID :=
  ⟨List.replicate hashSize b, ⟨1, List.replicate hashSize b⟩, List.replicate hashSize b⟩

end Tenderdash
