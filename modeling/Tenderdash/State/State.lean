import Tenderdash.Types.Header
import Tenderdash.Types.ValidatorUpdates

/-!
The state between two blocks, and what a block changes in it.

The application answers a proposal with `RoundParams`. From them and the state before the block the
round state is computed: the hashes the block's header has to carry, and the validators and parameters
of the next height. When the block is committed the round state goes into the state.
-/

namespace Tenderdash.Execution

open Lib Go

structure CoreChainLock where
  coreBlockHeight : ℕ
  coreBlockHash : Bytes
  signature : Bytes
  deriving DecidableEq, Repr

/-- The proposer index of its validator sets is 0 and is left out. -/
structure State where
  version : ConsensusVersion
  chainID : String
  initialHeight : ℤ
  lastBlockHeight : ℤ
  lastBlockRound : ℤ
  lastBlockID : BlockID
  lastBlockTime : Timestamp
  lastCoreChainLockedBlockHeight : ℕ
  validators : ValidatorSet
  lastValidators : ValidatorSet
  lastHeightValidatorsChanged : ℤ
  consensusParams : ConsensusParams
  lastHeightConsensusParamsChanged : ℤ
  lastResultsHash : Bytes
  lastAppHash : Bytes
  deriving DecidableEq, Repr

def blockProtocol : ℕ := 14

/-- `NewEmptyValidatorSet`. -/
def emptyValidatorSet : ValidatorSet := ⟨[], none, [], 0, false, 0⟩

/-- A genesis document, completed: the first height is positive and the set of validators is valid. -/
structure GenesisDoc (keys : KeyOracle) where
  chainID : String
  initialHeight : ℤ
  genesisTime : Timestamp
  initialCoreChainLockedHeight : ℕ
  validators : ValidatorSet
  consensusParams : ConsensusParams
  appHash : Bytes
  one_le_initialHeight : 1 ≤ initialHeight
  validators_valid : validators.validateBasic keys.recoverKey = .ok ()

def makeGenesisState {keys : KeyOracle} (genDoc : GenesisDoc keys) : State where
  version := ⟨blockProtocol, 0⟩
  chainID := genDoc.chainID
  initialHeight := genDoc.initialHeight
  lastBlockHeight := 0
  lastBlockRound := 0
  lastBlockID := BlockID.nil
  lastBlockTime := genDoc.genesisTime
  lastCoreChainLockedBlockHeight := genDoc.initialCoreChainLockedHeight
  validators := genDoc.validators
  lastValidators := emptyValidatorSet
  lastHeightValidatorsChanged := genDoc.initialHeight
  consensusParams := genDoc.consensusParams
  lastHeightConsensusParamsChanged := genDoc.initialHeight
  lastResultsHash := []
  lastAppHash := genDoc.appHash

/-- The height of the next block (`CurrentRoundState.GetHeight` for its base). -/
def State.nextHeight (state : State) : ℤ :=
  if state.lastBlockHeight = 0 then state.initialHeight else state.lastBlockHeight + 1

/-! ### The round state -/

inductive Source where
  | initChain
  | prepareProposal
  | processProposal
  deriving DecidableEq, Repr

/-- Results of transactions are in the encoding that is hashed. -/
structure RoundParams where
  appHash : Bytes
  txResults : List Bytes
  consensusParamUpdates : Option ConsensusParamsProto
  validatorSetUpdate : Option ValidatorSetUpdate
  coreChainLock : Option CoreChainLock
  source : Source
  round : ℤ
  deriving DecidableEq, Repr

structure CurrentRoundState where
  base : State
  round : ℤ
  appHash : Bytes
  resultsHash : Bytes
  coreChainLock : Option CoreChainLock
  nextConsensusParams : ConsensusParams
  lastHeightConsensusParamsChanged : ℤ
  nextValidators : ValidatorSet
  lastHeightValidatorsChanged : ℤ
  deriving DecidableEq, Repr

namespace CurrentRoundState

variable (rp : RoundParams) (base : State)

/-- The parameters of the next height and the height they changed at. -/
def populateConsensusParams : Go String (ConsensusParams × ℤ) :=
  match rp.consensusParamUpdates with
  | none => .ok (base.consensusParams, base.lastHeightConsensusParamsChanged)
  | some updates =>
    if updates = ConsensusParamsProto.empty then
      .ok (base.consensusParams, base.lastHeightConsensusParamsChanged)
    else do
      let nextParams := base.consensusParams.updateConsensusParams updates
      nextParams.validateConsensusParams.mapErr ("error updating consensus params: " ++ ·)
      .ok (nextParams, base.nextHeight + 1)

def changesValidators : Bool :=
  rp.source ≠ .initChain && rp.validatorSetUpdate.any fun update => update.validatorUpdates ≠ []

/-- A chain lock that is not higher than the last one is dropped. -/
def populateChainlock : Option CoreChainLock :=
  rp.coreChainLock.filter fun chainLock =>
    decide (base.lastCoreChainLockedBlockHeight < chainLock.coreBlockHeight)

def newCurrentRoundState (C : Crypto) (keys : KeyOracle) (rp : RoundParams) (base : State) :
    Go String CurrentRoundState := do
  let (nextConsensusParams, paramsChanged) ← populateConsensusParams rp base
  let nextValidators ← (valsetUpdate keys rp.validatorSetUpdate base.validators
    nextConsensusParams.validator).mapErr ("validator set updates: " ++ ·)
  .ok {
    base := base
    round := rp.round
    appHash := rp.appHash
    resultsHash := Merkle.root C.merkle rp.txResults
    coreChainLock := populateChainlock rp base
    nextConsensusParams := nextConsensusParams
    lastHeightConsensusParamsChanged := paramsChanged
    nextValidators := nextValidators
    lastHeightValidatorsChanged :=
      if changesValidators rp then base.nextHeight + 1 else base.lastHeightValidatorsChanged }

end CurrentRoundState

/-- `State.Update`, with `UpdateState` of the round state. -/
def State.update (state : State) (blockID : BlockID) (header : Header)
    (candidateState : CurrentRoundState) : State where
  version := ⟨state.version.block, candidateState.nextConsensusParams.version.appVersion⟩
  chainID := state.chainID
  initialHeight := state.initialHeight
  lastBlockHeight := header.height
  lastBlockRound := candidateState.round
  lastBlockID := blockID
  lastBlockTime := header.time
  lastCoreChainLockedBlockHeight := match candidateState.coreChainLock with
    | some chainLock => chainLock.coreBlockHeight
    | none => state.lastCoreChainLockedBlockHeight
  validators := candidateState.nextValidators
  lastValidators := state.validators
  lastHeightValidatorsChanged := candidateState.lastHeightValidatorsChanged
  consensusParams := candidateState.nextConsensusParams
  lastHeightConsensusParamsChanged := candidateState.lastHeightConsensusParamsChanged
  lastResultsHash := candidateState.resultsHash
  lastAppHash := candidateState.appHash

/-! ### What a round state is computed to -/

structure CurrentRoundState.IsFor (keys : KeyOracle) (rp : RoundParams) (base : State)
    (candidate : CurrentRoundState) : Prop where
  base_eq : candidate.base = base
  round_eq : candidate.round = rp.round
  appHash_eq : candidate.appHash = rp.appHash
  coreChainLock_eq : candidate.coreChainLock = populateChainlock rp base
  params_eq : populateConsensusParams rp base =
    .ok (candidate.nextConsensusParams, candidate.lastHeightConsensusParamsChanged)
  validators_eq : valsetUpdate keys rp.validatorSetUpdate base.validators
    candidate.nextConsensusParams.validator = .ok candidate.nextValidators
  changed_eq : candidate.lastHeightValidatorsChanged =
    if changesValidators rp then base.nextHeight + 1 else base.lastHeightValidatorsChanged

lemma CurrentRoundState.isFor_of_new {C : Crypto} {keys : KeyOracle} {rp : RoundParams} {base : State}
    {candidate : CurrentRoundState} (h : newCurrentRoundState C keys rp base = .ok candidate) :
    candidate.IsFor keys rp base := by
  obtain ⟨⟨params, changed⟩, hp, h⟩ := of_bind h
  obtain ⟨vals, hv, h⟩ := of_bind h
  cases h
  exact ⟨rfl, rfl, rfl, rfl, hp, mapErr_eq_ok.mp hv, rfl⟩

lemma CurrentRoundState.populateConsensusParams_cases {rp : RoundParams} {base : State} {params : ConsensusParams}
    {changed : ℤ} (h : populateConsensusParams rp base = .ok (params, changed)) :
    (params = base.consensusParams ∧ changed = base.lastHeightConsensusParamsChanged) ∨
      changed = base.nextHeight + 1 := by
  unfold populateConsensusParams at h
  split at h
  · cases h
    exact .inl ⟨rfl, rfl⟩
  split_ifs at h
  · cases h
    exact .inl ⟨rfl, rfl⟩
  obtain ⟨_, -, h⟩ := of_bind h
  cases h
  exact .inr rfl

end Tenderdash.Execution
