import Tenderdash.Types.ConsensusParams
import Tenderdash.Types.ValidatorSet

/-!
Changing a validator set: a list of changes is checked, sorted and merged into the members of the set,
which are kept in the order of their hashes. A set is created by the same function from an empty one.
-/

namespace Tenderdash

open Lib Go

/-- `bytes.Compare` says less. -/
def bytesLess (a b : Bytes) : Bool := a.map UInt8.toNat < b.map UInt8.toNat

def maxTotalVotingPower : ℤ := (2 ^ 63 - 1) / 8

namespace Validator

def validateBasic (val : Validator) : Go String Unit := do
  failIf (val.proTxHash = []) "validator does not have a provider transaction hash"
  failIf (val.votingPower < 0) "validator has negative voting power"
  failIf (val.proTxHash.length ≠ proTxHashSize) "validator proTxHash is the wrong size"

def validatePubKey (val : Validator) : Go String Unit :=
  match val.pubKey with
  | none => Go.fail "validator does not have a public key"
  | some key => failIf (key.bytes.length ≠ pubKeySize) "validator PubKey is the wrong size"

end Validator

/-- `sort.Sort` by `ValidatorsByProTxHashes`. -/
def sortByProTxHash (vals : List Validator) : List Validator :=
  vals.insertionSort fun a b => bytesLess b.proTxHash a.proTxHash = false

/-- The scan of `processChanges` over the sorted changes: updates and removals. -/
def splitChanges : Bytes → List Validator → Go String (List Validator × List Validator)
  | _, [] => .ok ([], [])
  | prev, val :: rest => do
    failIf (val.proTxHash = prev) "duplicate entry"
    failIf (val.votingPower < 0) "voting power can't be negative"
    failIf (val.votingPower > maxTotalVotingPower)
      "to prevent clipping/overflow, voting power can't be higher than the maximum"
    let (updates, removals) ← splitChanges val.proTxHash rest
    .ok (if val.votingPower = 0 then (updates, val :: removals) else (val :: updates, removals))

def processChanges (changes : List Validator) : Go String (List Validator × List Validator) :=
  splitChanges [] (sortByProTxHash changes)

namespace ValidatorSet

variable (vals : ValidatorSet) (recoverKey : List PubKey → List Bytes → Go String PubKey) (updates : List Validator)

/-- `GetByProTxHash`, the validator. -/
def getByProTxHash (proTxHash : Bytes) : Option Validator :=
  vals.validators.find? fun val => val.proTxHash = proTxHash

/-- The voting power removed. -/
def verifyRemovals (deletes : List Validator) : Go String ℤ := do
  let powers ← deletes.mapM fun val =>
    match vals.getByProTxHash val.proTxHash with
    | none => (Go.fail "failed to find validator to remove" : Go String ℤ)
    | some known => .ok known.votingPower
  if deletes.length > vals.size then Go.crash "more deletes than validators"
  else .ok powers.sum

def powerDelta (update : Validator) : ℤ :=
  match vals.getByProTxHash update.proTxHash with
  | none => update.votingPower
  | some known => update.votingPower - known.votingPower

/-- The running total of `verifyUpdates`. -/
def verifyTotal : ℤ → List ℤ → Go String Unit
  | _, [] => .ok ()
  | total, delta :: rest =>
    if total + delta > maxTotalVotingPower then
      Go.fail "total voting power of resulting valset exceeds max"
    else verifyTotal (total + delta) rest

def verifyUpdates (removedPower : ℤ) : Go String Unit := do
  failIf (updates.any fun val => val.votingPower ≠ 0 ∧ val.votingPower ≠ 100)
    "voting power of a node can only be 0 or 100"
  verifyTotal (vals.totalVotingPower - removedPower) ((updates.map vals.powerDelta).insertionSort (· ≤ ·))

def numNewValidators : ℕ :=
  (updates.filter fun val => !vals.hasProTxHash val.proTxHash).length

/-- The merge of `applyUpdates`: of two validators with one hash the update is taken. -/
def applyUpdates : List Validator → List Validator → List Validator
  | [], updates => updates
  | existing, [] => existing
  | e :: existing, u :: updates =>
    if bytesLess e.proTxHash u.proTxHash then e :: applyUpdates existing (u :: updates)
    else if e.proTxHash = u.proTxHash then u :: applyUpdates existing updates
    else u :: applyUpdates (e :: existing) updates
termination_by existing updates => existing.length + updates.length

def applyRemovals : List Validator → List Validator → Go String (List Validator)
  | existing, [] => .ok existing
  | [], _ :: _ => Go.crash "index out of range"
  | e :: existing, d :: deletes =>
    if e.proTxHash = d.proTxHash then applyRemovals existing deletes
    else do
      let rest ← applyRemovals existing (d :: deletes)
      .ok (e :: rest)

def updateWithChangeSet (changes : List Validator) (allowDeletes : Bool)
    (newThresholdPublicKey : Option PubKey) (newQuorumHash : Bytes) : Go String ValidatorSet :=
  if changes = [] then .ok vals
  else do
    failIf (newThresholdPublicKey = none) "the new threshold public key can not be nil"
    failIf (newQuorumHash = []) "the new quorum hash can not be nil"
    let (updates, deletes) ← processChanges changes
    failIf (allowDeletes = false ∧ deletes ≠ []) "cannot process validators with voting power 0"
    failIf (vals.numNewValidators updates = 0 ∧ vals.size = deletes.length)
      "applying the validator changes would result in empty set"
    let removedVotingPower ← vals.verifyRemovals deletes
    vals.verifyUpdates updates removedVotingPower
    let members ← applyRemovals (applyUpdates (sortByProTxHash vals.validators) updates) deletes
    .ok { vals with
      validators := sortByProTxHash members
      thresholdPublicKey := newThresholdPublicKey
      quorumHash := newQuorumHash }

/-- The threshold power a set takes from the parameters. A threshold above the largest `int64` does not
pass `ValidateBasic`. -/
def withThreshold (threshold : Option ℕ) : Go String ValidatorSet :=
  match threshold with
  | none => .ok vals
  | some power =>
    if h : power < 2 ^ 63 then .ok { vals with votingPowerThreshold := ⟨power, h⟩ }
    else Go.fail "voting power threshold is too large"

/-- An error of the update is a panic. -/
def newValidatorSetCheckPublicKeys (valz : List Validator) (newThresholdPublicKey : Option PubKey)
    (quorumType : LLMQType) (quorumHash : Bytes) (params : ValidatorParams) : Go String ValidatorSet := do
  let hasPublicKeys := valz.all fun val =>
    match val.pubKey with
    | none => false
    | some key => key.bytes ≠ []
  let empty ← withThreshold ⟨[], none, quorumHash, quorumType, hasPublicKeys, 0⟩ params.votingPowerThreshold
  match empty.updateWithChangeSet valz false newThresholdPublicKey quorumHash with
  | .ok vals => .ok vals
  | .error (.err msg) => Go.crash ("Cannot create validator set: " ++ msg)
  | .error (.panicked msg) => Go.crash msg

def strictVotingPowerFloor : ℤ := vals.totalVotingPower * 2 / 3 + 1

def validateStrictFloor : Go String Unit :=
  let threshold := vals.quorumVotingThresholdPower
  let totalPower := vals.totalVotingPower
  if vals.size = 1 ∨ vals.size = 2 then
    failIf (totalPower ≠ threshold) "quorum voting power must be equal to threshold"
  else if vals.size = 3 then
    failIf (threshold < totalPower * 2 / 3) "voting threshold is less than 2/3 of quorum voting power"
  else failIf (threshold < vals.strictVotingPowerFloor) "voting threshold MUST be at least 2/3*power+1"

def validateThreshold : Go String Unit :=
  let threshold := vals.quorumVotingThresholdPower
  let totalPower := vals.totalVotingPower
  if totalPower ≤ 0 ∨ threshold ≤ 0 then
    Go.fail "invalid quorum: total voting power and threshold must both be > 0"
  else if threshold > totalPower then Go.fail "threshold exceeds total voting power"
  else if 0 < vals.votingPowerThreshold.val then .ok ()
  else match quorumParams.lookup vals.quorumType with
    | none => vals.validateStrictFloor
    | some (typeMembers, typeThreshold) => do
      failIf (vals.size > typeMembers) "validator set exceeds the quorum type's maximum"
      failIf (threshold ≠ typeThreshold * defaultDashVotingPower)
        "threshold does not match the quorum type's canonical threshold"

/-- Recovering the key of the quorum from the members' keys is the crypto library's. -/
def thresholdPublicKeyValid (vals : ValidatorSet) : Go String Unit :=
  match vals.thresholdPublicKey with
  | none => Go.fail "threshold public key is not set"
  | some key => do
    failIf (key.bytes.length ≠ pubKeySize) "threshold public key is wrong size"
    if vals.hasPublicKeys then
      match vals.validators with
      | [] => .ok ()
      | [val] => failIf (val.pubKey ≠ some key) "incorrect threshold public key"
      | members => do
        let recovered ← recoverKey (members.filterMap (·.pubKey)) (members.map (·.proTxHash))
        failIf (recovered ≠ key) "incorrect recovered threshold public key"
    else .ok ()

/-- `ValidateBasic` of a set whose proposer is its first validator. -/
def validateBasic (vals : ValidatorSet) : Go String Unit := do
  failIf (vals.size = 0) "validator set is nil or empty"
  vals.validators.forM fun val => do
    val.validateBasic
    if vals.hasPublicKeys then val.validatePubKey else .ok ()
  vals.thresholdPublicKeyValid recoverKey
  failIf (vals.quorumHash = []) "quorum hash is not set"
  failIf (vals.quorumHash.length ≠ quorumHashSize) "quorum hash is wrong size"
  vals.validateThreshold

end ValidatorSet

/-- `abci.ValidatorSetUpdate`, its keys and hashes decoded. -/
structure ValidatorSetUpdate where
  validatorUpdates : List Validator
  thresholdPublicKey : Option PubKey
  quorumHash : Bytes
  deriving DecidableEq, Repr

namespace ValidatorSetUpdate

variable (typeName : PubKey → String)

/-- Which names the key types of the parameters have is an answer of the crypto library. -/
def validateValidatorUpdates (updates : List Validator) (params : ValidatorParams) : Go String Unit :=
  updates.forM fun val =>
    if val.votingPower < 0 then Go.fail "voting power can't be negative"
    else if val.votingPower = 0 then .ok ()
    else do
      failIf (val.pubKey.any fun key => !params.pubKeyTypes.contains (typeName key))
        "validator is using pubkey which is unsupported for consensus"
      failIf (val.proTxHash = []) "validator does not have a protxhash, which is needed for consensus"
      failIf (val.proTxHash.length ≠ proTxHashSize) "validator is using protxhash, which is not the required length"

def validateValidatorSetUpdate (update : Option ValidatorSetUpdate) (params : ValidatorParams) : Go String Unit :=
  match update with
  | none => .ok ()
  | some update => do
    failIf (update.validatorUpdates ≠ [] ∧ update.thresholdPublicKey = none)
      "received validator updates without a threshold public key"
    validateValidatorUpdates typeName update.validatorUpdates params

/-- Nothing at all without a threshold key. -/
def validatorUpdatesFromValidatorSet (update : Option ValidatorSetUpdate) :
    Go String (List Validator × Option PubKey × Bytes) :=
  match update with
  | none => .ok ([], none, [])
  | some update => do
    update.validatorUpdates.forM (·.validateBasic)
    match update.thresholdPublicKey with
    | none => .ok ([], none, [])
    | some key => do
      failIf (update.quorumHash.length ≠ quorumHashSize) "validator set update must have a quorum hash of 32 bytes"
      .ok (update.validatorUpdates, some key, update.quorumHash)

end ValidatorSetUpdate

/-- What the crypto library answers about public keys. -/
structure KeyOracle where
  /-- `RecoverThresholdPublicKeyFromPublicKeys`. -/
  recoverKey : List PubKey → List Bytes → Go String PubKey
  /-- The name of a key's type. -/
  typeName : PubKey → String

/-- The set `valsetUpdate` makes before it is validated. Without validator updates the quorum hash, the
threshold key and the threshold power can still change. -/
def changeValSet (validatorUpdates : List Validator) (thresholdPubKey : Option PubKey) (quorumHash : Bytes)
    (currentVals : ValidatorSet) (params : ValidatorParams) : Go String ValidatorSet :=
  if validatorUpdates ≠ [] then
    if currentVals.quorumHash = quorumHash then do
      let updated ← currentVals.updateWithChangeSet validatorUpdates true thresholdPubKey quorumHash
      updated.withThreshold params.votingPowerThreshold
    else
      ValidatorSet.newValidatorSetCheckPublicKeys validatorUpdates thresholdPubKey
        currentVals.quorumType quorumHash params
  else
    ({ currentVals with
      quorumHash := if quorumHash = [] then currentVals.quorumHash else quorumHash
      thresholdPublicKey := thresholdPubKey.orElse fun _ => currentVals.thresholdPublicKey }
      ).withThreshold params.votingPowerThreshold

/-- The set of the next height. -/
def valsetUpdate (keys : KeyOracle) (vu : Option ValidatorSetUpdate) (currentVals : ValidatorSet)
    (params : ValidatorParams) : Go String ValidatorSet := do
  ValidatorSetUpdate.validateValidatorSetUpdate keys.typeName vu params
  let (validatorUpdates, thresholdPubKey, quorumHash) ←
    ValidatorSetUpdate.validatorUpdatesFromValidatorSet vu
  let nValSet ← changeValSet validatorUpdates thresholdPubKey quorumHash currentVals params
  nValSet.validateBasic keys.recoverKey
  .ok nValSet

variable {currentVals vals : ValidatorSet} {vu : Option ValidatorSetUpdate} {params : ValidatorParams}
  {keys : KeyOracle}

lemma validateBasic_of_valsetUpdate
    (h : valsetUpdate keys vu currentVals params = .ok vals) : vals.validateBasic keys.recoverKey = .ok () := by
  obtain ⟨_, -, h⟩ := of_bind h
  obtain ⟨_, -, h⟩ := of_bind h
  obtain ⟨_, -, h⟩ := of_bind h
  obtain ⟨_, hv, h⟩ := of_bind h
  cases h
  exact hv

lemma ValidatorSet.withThreshold_eq_ok {vals' : ValidatorSet} {threshold : Option ℕ}
    (h : vals.withThreshold threshold = .ok vals') :
    vals'.quorumType = vals.quorumType ∧ vals'.hasPublicKeys = vals.hasPublicKeys := by
  unfold withThreshold at h
  split at h
  · cases h
    exact ⟨rfl, rfl⟩
  split_ifs at h
  · cases h
    exact ⟨rfl, rfl⟩
  · cases h

lemma valsetUpdate_of_no_updates
    (hvu : ∀ update ∈ vu, update.validatorUpdates = []) (h : valsetUpdate keys vu currentVals params = .ok vals) :
    vals.quorumType = currentVals.quorumType ∧ vals.hasPublicKeys = currentVals.hasPublicKeys := by
  obtain ⟨_, -, h⟩ := of_bind h
  obtain ⟨⟨updates, key, quorumHash⟩, hu, h⟩ := of_bind h
  obtain ⟨nValSet, hc, h⟩ := of_bind h
  obtain ⟨_, -, h⟩ := of_bind h
  cases h
  have hn : updates = [] := by
    cases vu with
    | none =>
      cases hu
      rfl
    | some update =>
      obtain ⟨_, -, hu⟩ := of_bind hu
      split at hu
      · cases hu
        rfl
      obtain ⟨_, -, hu⟩ := of_bind hu
      cases hu
      exact hvu update rfl
  unfold changeValSet at hc
  rw [if_neg (not_not.mpr hn)] at hc
  have hk := ValidatorSet.withThreshold_eq_ok hc
  exact hk

lemma ValidatorSet.size_pos_of_validateBasic {recoverKey : List PubKey → List Bytes → Go String PubKey}
    (h : vals.validateBasic recoverKey = .ok ()) : 0 < vals.size := by
  obtain ⟨_, hs, -⟩ := of_bind h
  exact pos_of_ne_zero (failIf_eq_ok.mp hs)

end Tenderdash
