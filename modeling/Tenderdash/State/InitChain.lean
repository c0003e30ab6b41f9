import Tenderdash.State.State

/-!
The state after `InitChain`. A node whose application has no block yet asks it for the initial state, at every
start.
-/

namespace Tenderdash.Execution

open Lib Go CurrentRoundState ValidatorSet

structure ResponseInitChain where
  appHash : Bytes
  consensusParams : Option ConsensusParamsProto
  validatorSetUpdate : ValidatorSetUpdate
  nextCoreChainLockUpdate : Option CoreChainLock
  initialCoreHeight : ℕ
  genesisTime : Option Timestamp
  deriving DecidableEq, Repr

namespace ResponseInitChain

/-- `RoundParamsFromInitChain`. -/
def roundParams (res : ResponseInitChain) : RoundParams :=
  ⟨res.appHash, [], res.consensusParams, some res.validatorSetUpdate, res.nextCoreChainLockUpdate, .initChain, 0⟩

def validatorParams {keys : KeyOracle} (res : ResponseInitChain) (genDoc : GenesisDoc keys) : ValidatorParams :=
  (res.consensusParams.bind (·.validator)).getD genDoc.consensusParams.validator

end ResponseInitChain

/-- `UpdateState` of a round state. -/
def CurrentRoundState.updateState (candidate : CurrentRoundState) (target : State) : State :=
  { target with
    lastBlockRound := candidate.round
    lastAppHash := candidate.appHash
    lastResultsHash := candidate.resultsHash
    consensusParams := candidate.nextConsensusParams
    lastHeightConsensusParamsChanged := candidate.lastHeightConsensusParamsChanged
    version := ⟨target.version.block, candidate.nextConsensusParams.version.appVersion⟩
    validators := candidate.nextValidators
    lastHeightValidatorsChanged := candidate.lastHeightValidatorsChanged
    lastCoreChainLockedBlockHeight := match candidate.coreChainLock with
      | some chainLock => chainLock.coreBlockHeight
      | none => target.lastCoreChainLockedBlockHeight }

section InitState

variable (C : Crypto) {keys : KeyOracle} (typeValid : LLMQType → Bool) (genDoc : GenesisDoc keys)
  (res : ResponseInitChain)

/-- The quorum type of the initial validators: the state's, or that of the genesis document. -/
def initQuorumType (quorumType : LLMQType) : LLMQType :=
  if typeValid quorumType then quorumType else genDoc.validators.quorumType

/-- The validators that the update of `InitChain` is applied to: none, if it names validators. -/
def initValidators (validators : ValidatorSet) : Go String ValidatorSet :=
  if res.validatorSetUpdate.validatorUpdates ≠ [] then
    ValidatorSet.withThreshold ⟨[], none, [], initQuorumType typeValid genDoc validators.quorumType, false, 0⟩
      (res.validatorParams genDoc).votingPowerThreshold
  else .ok validators

/-- The state that `execInitChain` saves, from a state before the first block. -/
def initState (state : State) : Go String State := do
  let validators ← initValidators typeValid genDoc res state.validators
  let state := { state with
    validators := validators
    lastBlockTime := res.genesisTime.getD state.lastBlockTime }
  let candidate ← CurrentRoundState.newCurrentRoundState C keys res.roundParams state
  .ok { candidate.updateState state with
    lastCoreChainLockedBlockHeight := res.initialCoreHeight
    lastResultsHash := Merkle.root C.merkle [] }

end InitState

/-! ### The initial state is stable -/

lemma updateConsensusParams_idem (params : ConsensusParams) (updates : ConsensusParamsProto) :
    (params.updateConsensusParams updates).updateConsensusParams updates = params.updateConsensusParams updates := by
  have hgd : ∀ {β : Type} (o : Option β) (d : β), o.getD (o.getD d) = o.getD d := by
    intro β o d
    cases o <;> rfl
  obtain ⟨block, evidence, validator, version, synchrony, timeout, recheckTx⟩ := updates
  unfold ConsensusParams.updateConsensusParams
  simp only [hgd]
  cases synchrony <;> cases timeout <;> simp only [hgd]

lemma CurrentRoundState.populateConsensusParams_idem {rp : RoundParams} {base base' : State}
    {params : ConsensusParams} {changed : ℤ} (h : populateConsensusParams rp base = .ok (params, changed))
    (hp : base'.consensusParams = params) (hc : base'.lastHeightConsensusParamsChanged = changed)
    (hh : base'.nextHeight = base.nextHeight) : populateConsensusParams rp base' = .ok (params, changed) := by
  unfold populateConsensusParams at h ⊢
  split at h
  · rw [hp, hc]
  split_ifs at h ⊢
  · rw [hp, hc]
  obtain ⟨_, hv, h⟩ := of_bind h
  cases h
  dsimp only
  rw [hp, updateConsensusParams_idem, hh, hv]
  rfl

variable {vals currentVals : ValidatorSet} {key : Option PubKey} {quorumHash : Bytes} {params : ValidatorParams}
  {vu : Option ValidatorSetUpdate} {updates : List Validator}

lemma quorumType_of_updateWithChangeSet {vals' : ValidatorSet} {changes : List Validator} {allowDeletes : Bool}
    (h : vals.updateWithChangeSet changes allowDeletes key quorumHash = .ok vals') :
    vals'.quorumType = vals.quorumType := by
  unfold updateWithChangeSet at h
  split_ifs at h
  · cases h
    rfl
  obtain ⟨_, -, h⟩ := of_bind h
  obtain ⟨_, -, h⟩ := of_bind h
  obtain ⟨_, -, h⟩ := of_bind h
  obtain ⟨_, -, h⟩ := of_bind h
  obtain ⟨_, -, h⟩ := of_bind h
  obtain ⟨_, -, h⟩ := of_bind h
  obtain ⟨_, -, h⟩ := of_bind h
  obtain ⟨_, -, h⟩ := of_bind h
  cases h
  rfl

lemma quorumType_of_changeValSet
    (h : changeValSet updates key quorumHash currentVals params = .ok vals) :
    vals.quorumType = currentVals.quorumType := by
  unfold changeValSet at h
  split at h
  · split at h
    · obtain ⟨updated, hu, h⟩ := of_bind h
      exact (withThreshold_eq_ok h).1.trans (quorumType_of_updateWithChangeSet hu)
    · obtain ⟨empty, he, h⟩ := of_bind h
      split at h
      next hu =>
        cases h
        exact (quorumType_of_updateWithChangeSet hu).trans (withThreshold_eq_ok he).1
      all_goals cases h
  · have hk := withThreshold_eq_ok h
    exact hk.1

lemma changeValSet_nil_idem (h : changeValSet [] key quorumHash currentVals params = .ok vals) :
    changeValSet [] key quorumHash vals params = .ok vals := by
  unfold changeValSet withThreshold at h ⊢
  simp only [ne_eq, not_true_eq_false, if_false] at h ⊢
  split at h
  · cases h
    cases key <;> by_cases hq : quorumHash = [] <;> simp [hq]
  split at h
  next hp =>
    cases h
    rw [dif_pos hp]
    cases key <;> by_cases hq : quorumHash = [] <;> simp [hq]
  next => cases h

lemma valsetUpdate_congr {currentVals' : ValidatorSet}
    {keys : KeyOracle} (h : valsetUpdate keys vu currentVals params = .ok vals)
    (hs : ∀ updates key quorumHash,
      ValidatorSetUpdate.validatorUpdatesFromValidatorSet vu = .ok (updates, key, quorumHash) →
      changeValSet updates key quorumHash currentVals params = .ok vals →
      changeValSet updates key quorumHash currentVals' params = .ok vals) :
    valsetUpdate keys vu currentVals' params = .ok vals := by
  obtain ⟨_, hv, h⟩ := of_bind h
  obtain ⟨⟨updates, key, quorumHash⟩, hu, h⟩ := of_bind h
  obtain ⟨nValSet, hc, h⟩ := of_bind h
  obtain ⟨_, hb, h⟩ := of_bind h
  cases h
  refine bind_eq_ok.mpr ⟨_, hv, bind_eq_ok.mpr ⟨_, hu, ?_⟩⟩
  exact bind_eq_ok.mpr ⟨_, hs updates key quorumHash hu hc, bind_eq_ok.mpr ⟨_, hb, rfl⟩⟩

lemma quorumType_of_valsetUpdate {keys : KeyOracle}
    (h : valsetUpdate keys vu currentVals params = .ok vals) : vals.quorumType = currentVals.quorumType := by
  obtain ⟨_, -, h⟩ := of_bind h
  obtain ⟨⟨updates, key, quorumHash⟩, -, h⟩ := of_bind h
  obtain ⟨nValSet, hc, h⟩ := of_bind h
  obtain ⟨_, -, h⟩ := of_bind h
  cases h
  exact quorumType_of_changeValSet hc

section Stable

variable {C : Crypto} {keys : KeyOracle} {typeValid : LLMQType → Bool} {genDoc : GenesisDoc keys}
  {res : ResponseInitChain}

lemma initQuorumType_idem (quorumType : LLMQType) :
    initQuorumType typeValid genDoc (initQuorumType typeValid genDoc quorumType) =
      initQuorumType typeValid genDoc quorumType := by
  unfold initQuorumType
  split_ifs <;> rfl

lemma updates_eq_nil {update : ValidatorSetUpdate} {key : Option PubKey}
    {quorumHash : Bytes} (hn : update.validatorUpdates = [])
    (h : ValidatorSetUpdate.validatorUpdatesFromValidatorSet (some update) = .ok (updates, key, quorumHash)) :
    updates = [] := by
  obtain ⟨_, -, h⟩ := of_bind h
  split at h
  · cases h
    rfl
  obtain ⟨_, -, h⟩ := of_bind h
  cases h
  exact hn

lemma initValidators_idem {validators base vals : ValidatorSet} {params : ValidatorParams}
    (hb : initValidators typeValid genDoc res validators = .ok base)
    (h : valsetUpdate keys (some res.validatorSetUpdate) base params = .ok vals) :
    ∃ base', initValidators typeValid genDoc res vals = .ok base' ∧
      valsetUpdate keys (some res.validatorSetUpdate) base' params = .ok vals := by
  unfold initValidators at hb ⊢
  split at hb
  next hn =>
    -- the update starts from an empty set of the same quorum type
    refine ⟨base, ?_, h⟩
    have ht : vals.quorumType = initQuorumType typeValid genDoc validators.quorumType :=
      (quorumType_of_valsetUpdate h).trans (withThreshold_eq_ok hb).1
    rw [if_pos hn, ht, initQuorumType_idem]
    exact hb
  next hn =>
    cases hb
    refine ⟨vals, if_neg hn, valsetUpdate_congr h fun updates key quorumHash hu hc => ?_⟩
    rw [updates_eq_nil (not_not.mp hn) hu] at hc ⊢
    exact changeValSet_nil_idem hc

/-- **The initial state is stable.** A node that asks its application again before the first block has the
same state. -/
theorem initState_idem {state state' : State} (h : initState C typeValid genDoc res state = .ok state') :
    initState C typeValid genDoc res state' = .ok state' := by
  obtain ⟨base, hb, h⟩ := of_bind h
  obtain ⟨candidate, hc, h⟩ := of_bind h
  cases h
  obtain ⟨⟨params, changed⟩, hp, hc⟩ := of_bind hc
  obtain ⟨vals, hv, hc⟩ := of_bind hc
  cases hc
  obtain ⟨base', hb', hv'⟩ := initValidators_idem hb (mapErr_eq_ok.mp hv)
  refine bind_eq_ok.mpr ⟨base', hb', bind_eq_ok.mpr ⟨_, bind_eq_ok.mpr ⟨(params, changed), ?_,
    bind_eq_ok.mpr ⟨vals, mapErr_eq_ok.mpr hv', rfl⟩⟩, ?_⟩⟩
  · exact populateConsensusParams_idem hp rfl rfl rfl
  · cases res.genesisTime <;> rfl

end Stable

lemma lastBlockHeight_of_initState {C : Crypto} {keys : KeyOracle} {typeValid : LLMQType → Bool}
    {genDoc : GenesisDoc keys} {res : ResponseInitChain} {state state' : State}
    (h : initState C typeValid genDoc res state = .ok state') :
    state'.lastBlockHeight = state.lastBlockHeight ∧ state'.initialHeight = state.initialHeight ∧
      state'.lastAppHash = res.appHash := by
  obtain ⟨base, hb, h⟩ := of_bind h
  obtain ⟨candidate, hc, h⟩ := of_bind h
  have hf := isFor_of_new hc
  cases h
  exact ⟨rfl, rfl, hf.appHash_eq⟩

end Tenderdash.Execution
