import Tenderdash.Consensus.ProposerSelector
import Tenderdash.State.State

/-!
The state store: the state itself, and by height the validators and the parameters in force. A full set is
written only where it changed and at checkpoints; elsewhere the record points back to the height of the last
change. Stored values decode to what was encoded.
-/

namespace Tenderdash.Execution

open Lib SelectProposer

structure ValidatorsInfo where
  validatorSet : Option ValidatorSet
  lastHeightChanged : ℤ
  deriving DecidableEq, Repr

structure ConsensusParamsInfo where
  consensusParams : Option ConsensusParams
  lastHeightChanged : ℤ
  deriving DecidableEq, Repr

/-- `dbStore`. -/
structure StateStore where
  state : Option State
  validators : List (ℤ × ValidatorsInfo)
  params : List (ℤ × ConsensusParamsInfo)
  deriving DecidableEq, Repr

def valSetCheckpointInterval : ℤ := 100000

namespace StateStore

def new : StateStore := ⟨none, [], []⟩

/-! ### Writing -/

/-- The record that `saveValidatorsInfo` writes. -/
def validatorsInfo (height lastHeightChanged : ℤ) (valSet : ValidatorSet) : ValidatorsInfo where
  validatorSet :=
    if height = lastHeightChanged ∨ height % valSetCheckpointInterval = 0 then some valSet else none
  lastHeightChanged := lastHeightChanged

/-- The record that `saveConsensusParamsInfo` writes. -/
def paramsInfo (height changeHeight : ℤ) (params : ConsensusParams) : ConsensusParamsInfo where
  consensusParams := if changeHeight = height then some params else none
  lastHeightChanged := changeHeight

/-- The height that `save` writes the records of a state for. -/
def saveHeight (state : State) : ℤ :=
  if state.lastBlockHeight + 1 = 1 then state.initialHeight else state.lastBlockHeight + 1

/-- The height of the last change of validators that `save` writes. -/
def saveValidatorsChanged (state : State) : ℤ :=
  if state.lastBlockHeight + 1 = 1 then state.initialHeight else state.lastHeightValidatorsChanged

variable (store : StateStore) (C : Crypto) (params : ConsensusParams)

/-- All writes are in one batch. -/
def save (state : State) : Go String StateStore := do
  let height := saveHeight state
  let validatorsChanged := saveValidatorsChanged state
  Go.failIf (validatorsChanged > height) "lastHeightChanged cannot be greater than ValidatorsInfo height"
  .ok {
    state := some state
    validators := upsert height (fun _ => validatorsInfo height validatorsChanged state.validators) store.validators
    params := upsert height
      (fun _ => paramsInfo height state.lastHeightConsensusParamsChanged state.consensusParams) store.params }

/-! ### Reading -/

def lastStoredHeightFor (height lastHeightChanged : ℤ) : ℤ :=
  max (height - height % valSetCheckpointInterval) lastHeightChanged

/-- The stored set for a height. -/
def loadValidators (height : ℤ) : Go String ValidatorSet :=
  match store.validators.lookup height with
  | none => Go.fail "failed to load validators info"
  | some valInfo =>
    match valInfo.validatorSet with
    | some valSet => .ok valSet
    | none =>
      match store.validators.lookup (lastStoredHeightFor height valInfo.lastHeightChanged) with
      | none => Go.fail "couldn't find validators at last stored height"
      | some stored =>
        match stored.validatorSet with
        | none => Go.fail "couldn't find validators at last stored height"
        | some valSet => .ok valSet

def loadConsensusParams (height : ℤ) : Go String ConsensusParams :=
  match store.params.lookup height with
  | none => Go.fail "could not find consensus params"
  | some info =>
    match info.consensusParams with
    | some params => .ok params
    | none =>
      match (store.params.lookup info.lastHeightChanged).bind (·.consensusParams) with
      | none => Go.fail "couldn't find consensus params at the height of the last change"
      | some params => .ok params

def newProposerSelector (vset : Rotation) (height round : ℤ) (bs : BlockStore) : Go String Selector :=
  if params.version.consensusVersion = 0 then Selector.new C .height vset height round (some bs)
  else if params.version.consensusVersion = 1 then
    Selector.new C .heightRound vset height round (some bs)
  else Go.fail "unknown consensus version"

def proposerFromMeta (valSet : ValidatorSet) (blockMeta : BlockMeta)
    (height : ℤ) (bs : BlockStore) : Go String Rotation := do
  let vset ← (Rotation.setProposer ⟨valSet, 0⟩ blockMeta.header.proposerProTxHash).mapErr
    ("could not set proposer: " ++ ·)
  let strategy ← (newProposerSelector C params vset blockMeta.header.height blockMeta.round bs).mapErr
    ("failed to create validator scoring strategy: " ++ ·)
  let strategy ← (strategy.updateHeightRound C height 0 (some bs)).mapErr ("failed to update validator scores: " ++ ·)
  .ok strategy.rotation

def firstProposer (valSet : ValidatorSet) : Go String Rotation :=
  match valSet.getByIndex 0 with
  | none => Go.crash "nil pointer dereference"
  | some val => Rotation.setProposer ⟨valSet, 0⟩ val.proTxHash

/-- The search for the proposer in `LoadValidators`. -/
def findProposer (store : StateStore) (valSet : ValidatorSet) (height : ℤ) (bs : BlockStore) : Go String Rotation :=
  -- the proposer at height 1 is the first validator
  if height = 1 then firstProposer valSet
  else
    let params := (store.loadConsensusParams height).toOption.getD ConsensusParams.default
    match bs.loadBlockMeta height with
    | some blockMeta => proposerFromMeta C params valSet blockMeta blockMeta.header.height bs
    | none =>
      -- the proposer of the previous block is advanced, unless the quorum changes
      match bs.loadBlockMeta (height - 1) with
      | none => Go.fail "could not find block meta"
      | some prevMeta =>
        if prevMeta.header.validatorsHash ≠ prevMeta.header.nextValidatorsHash then
          if prevMeta.header.nextValidatorsHash ≠ valSet.hash C then
            Go.fail "next validators hash mismatch"
          else firstProposer valSet
        else proposerFromMeta C params valSet prevMeta height bs

/-- `LoadValidators`: the set for a height and its proposer in round 0. -/
def loadValidatorsWithProposer (store : StateStore) (height : ℤ) (bs : BlockStore) : Go String Rotation := do
  let valSet ← store.loadValidators height
  store.findProposer C valSet height bs

end StateStore

end Tenderdash.Execution
