import Tenderdash.Evidence.Pool
import Tenderdash.State.State
import Tenderdash.Types.Commit

/-!
Validating and finalizing a block (`internal/state`): the checks of a block against the state before it,
the cache that spares the checks of a block whose hash has passed them, the checks against the round
state that are never spared, and the new state.
-/

namespace Tenderdash.Execution

open Lib Go

def before (t u : Timestamp) : Bool := t.seconds < u.seconds || (t.seconds = u.seconds && t.nanos < u.nanos)

/-- A block. Its time is one that a block off the wire can have. -/
structure Block where
  header : Header
  txs : List Bytes
  coreChainLock : Option CoreChainLock
  evidence : List Evidence.DuplicateVoteEvidence
  lastCommit : Option Commit
  time_valid : header.time.valid = true
  deriving DecidableEq

structure Env where
  crypto : Crypto
  keys : KeyOracle
  /-- The Merkle root over the encoded fields of a header. -/
  headerRoot : Header → Bytes
  headerRoot_length : ∀ h, (headerRoot h).length = hashSize
  txsHash : List Bytes → Bytes
  evidenceHash : List Evidence.DuplicateVoteEvidence → Bytes
  evidenceByteSize : List Evidence.DuplicateVoteEvidence → ℤ
  evidenceValidateBasic : Evidence.DuplicateVoteEvidence → Go String Unit

/-- What the hash of a header covers: a number of 32 bits has no encoding, so the core chain locked height
is left out. -/
def hashed (header : Header) : Header := { header with coreChainLockedHeight := 0 }

namespace Env

/-- `Header.Hash`. -/
def headerHash (env : Env) (header : Header) : Bytes :=
  if header.validatorsHash = [] then [] else env.headerRoot (hashed header)

/-- `Commit.Hash`. -/
def commitHash (env : Env) (commit : Commit) : Bytes := env.crypto.checksum commit.thresholdBlockSignature

/-- `fillHeader`, which `Block.Hash` calls. -/
def fillHeader (env : Env) (block : Block) : Block :=
  match block.lastCommit with
  | none => block
  | some commit =>
    { block with
      header := { block.header with
        lastCommitHash := if block.header.lastCommitHash = [] then env.commitHash commit
          else block.header.lastCommitHash
        dataHash := if block.header.dataHash = [] then env.txsHash block.txs else block.header.dataHash
        evidenceHash := if block.header.evidenceHash = [] then env.evidenceHash block.evidence
          else block.header.evidenceHash }
      time_valid := block.time_valid }

/-- `Block.Hash` of a block whose header is filled. -/
def blockHash (env : Env) (block : Block) : Bytes :=
  if block.lastCommit = none then [] else env.headerHash block.header

end Env

/-! ### Basic validation -/

/-- `Header.ValidateBasic`. -/
def validateHeader (h : Header) : Go String Unit := do
  failIf (h.version.block ≠ blockProtocol) "block protocol is incorrect"
  failIf (h.chainID.utf8ByteSize > 50) "chainID is too long"
  failIf (h.height < 0) "negative Height"
  failIf (h.height = 0) "zero Height"
  h.lastBlockID.validateBasic
  validateHash h.lastCommitHash
  validateHash h.dataHash
  validateHash h.evidenceHash
  failIf (h.proposerProTxHash.length ≠ hashSize) "invalid ProposerProTxHash length"
  validateHash h.validatorsHash
  validateHash h.nextValidatorsHash
  validateHash h.consensusHash
  validateHash h.nextConsensusHash
  validateHash h.resultsHash

def CoreChainLock.validateBasic (cl : CoreChainLock) : Go String Unit := do
  failIf (cl.coreBlockHeight = 0) "zero Chain Lock Height"
  failIf (cl.coreBlockHash = []) "chain lock block hash is empty"
  failIf (cl.coreBlockHash.length ≠ hashSize) "chain lock block hash is wrong size"
  failIf (cl.signature = []) "chain lock signature is empty"
  failIf (cl.signature.length ≠ signatureSize) "chain lock signature is wrong size"

def validateChainLock (chainLock : Option CoreChainLock) : Go String Unit :=
  match chainLock with
  | none => .ok ()
  | some cl => cl.validateBasic

def Block.validateBasic (env : Env) (block : Block) : Go String Unit := do
  validateHeader block.header
  validateChainLock block.coreChainLock
  match block.lastCommit with
  | none => Go.fail "nil LastPrecommits"
  | some commit => do
    commit.validateBasic
    failIf (env.commitHash commit ≠ block.header.lastCommitHash) "wrong Header.LastCommitHash"
    failIf (env.txsHash block.txs ≠ block.header.dataHash) "wrong Header.DataHash"
    block.evidence.forM env.evidenceValidateBasic
    failIf (env.evidenceHash block.evidence ≠ block.header.evidenceHash) "wrong Header.EvidenceHash"

/-! ### Validation against the state -/

section

variable (C : Crypto) (state : State) (block : Block) (lastCommit : VerifiedCommit)

def verifyLastCommit : Go String Unit :=
  match verifyCommitUnlessVerified C (some state.lastValidators) state.chainID state.lastBlockID
      (block.header.height - 1) block.lastCommit lastCommit with
  | .error msg => Go.crash msg
  | .ok (_, some _) => Go.fail "error validating block"
  | .ok (_, none) => .ok ()

/-- The check of the last commit in `validateBlock`: the first block has none. -/
def validateLastCommit : Go String Unit :=
  if block.header.height = state.initialHeight then
    failIf (block.lastCommit.any fun commit => commit.thresholdBlockSignature.length ≠ 0)
      "initial block can't have ThresholdBlockSignature set"
  else verifyLastCommit C state block lastCommit

/-- The check of the last commit against the round state: the cache says nothing about the last commit, so
that it is verified again. -/
def reverifyLastCommit : Go String Unit :=
  if block.header.height > state.initialHeight then verifyLastCommit C state block lastCommit
  else .ok ()

end

/-- The check of the block's time in `validateBlock`. -/
def validateTime (state : State) (header : Header) : Go String Unit :=
  if header.height > state.initialHeight then
    failIf (before state.lastBlockTime header.time = false) "block time not greater than last block time"
  else if header.height = state.initialHeight then
    failIf (before header.time state.lastBlockTime) "block time is before genesis time"
  else Go.fail "block height lower than initial height"

def validateBlock (env : Env) (state : State) (block : Block) (lastCommit : VerifiedCommit) : Go String Unit := do
  block.validateBasic env
  validateChainLock block.coreChainLock
  failIf (block.header.version.block ≠ state.version.block) "wrong Block.Header.Version.Block"
  failIf (block.header.chainID ≠ state.chainID) "wrong Block.Header.ChainID"
  failIf (state.lastBlockHeight = 0 ∧ block.header.height ≠ state.initialHeight)
    "wrong Block.Header.Height for initial block"
  failIf (state.lastBlockHeight > 0 ∧ block.header.height ≠ state.lastBlockHeight + 1) "wrong Block.Header.Height"
  failIf (block.header.lastBlockID ≠ state.lastBlockID) "wrong Block.Header.LastBlockID"
  failIf (block.header.consensusHash ≠ state.consensusParams.hashConsensusParams env.crypto)
    "wrong Block.Header.ConsensusHash"
  failIf (block.header.validatorsHash ≠ state.validators.hash env.crypto) "wrong Block.Header.ValidatorsHash"
  validateLastCommit env.crypto state block lastCommit
  failIf (block.header.proposerProTxHash.length ≠ hashSize) "wrong ProposerProTxHash size"
  failIf (state.validators.hasProTxHash block.header.proposerProTxHash = false)
    "block.Header.ProposerProTxHash is not a validator"
  validateTime state block.header
  failIf (env.evidenceByteSize block.evidence > state.consensusParams.evidence.maxBytes) "evidence overflow"

def validateCoreChainLock (block : Block) (state : State) : Go String Unit :=
  match block.coreChainLock with
  | none =>
    failIf (block.header.coreChainLockedHeight ≠ state.lastCoreChainLockedBlockHeight)
      "wrong Block.Header.CoreChainLockedHeight when no new Chain Lock"
  | some chainLock => do
    failIf (block.header.coreChainLockedHeight ≠ chainLock.coreBlockHeight) "wrong Block.Header.CoreChainLockedHeight"
    failIf (block.header.coreChainLockedHeight ≤ state.lastCoreChainLockedBlockHeight)
      "wrong Block.Header.CoreChainLockedHeight: not higher than the previous one"

/-! ### The executor -/

/-- The cache: the headers of the blocks that have passed validation at this height. The source keeps
their hashes only, and looks a block up by its hash. -/
abbrev Cache := List Header

namespace Env

variable (env : Env) (cache : Cache) (state : State) (uncommittedState : CurrentRoundState)

def cached (block : Block) : Bool :=
  cache.any fun header => env.headerHash header = env.blockHash block

/-- `ValidateBlock`, for a block whose header is filled; the evidence pool's verdict is an answer. -/
def validateBlockCached (block : Block) (lastCommit : VerifiedCommit) (evidenceOk : Bool) : Go String Cache :=
  if env.cached cache block then .ok cache
  else do
    validateBlock env state block lastCommit
    failIf (evidenceOk = false) "invalid evidence"
    .ok (block.header :: cache)

def validateBlockWithRoundState
    (block : Block) (lastCommit : VerifiedCommit) (evidenceOk : Bool) : Go String Cache := do
  let cache ← env.validateBlockCached cache state block lastCommit evidenceOk
  failIf (uncommittedState.appHash ≠ [] ∧ block.header.appHash ≠ uncommittedState.appHash) "wrong Block.Header.AppHash"
  failIf (uncommittedState.resultsHash ≠ [] ∧ block.header.resultsHash ≠ uncommittedState.resultsHash)
    "wrong Block.Header.ResultsHash"
  reverifyLastCommit env.crypto state block lastCommit
  failIf (block.header.nextValidatorsHash ≠ uncommittedState.nextValidators.hash env.crypto)
    "wrong Block.Header.NextValidatorsHash"
  failIf (block.header.nextConsensusHash ≠
    uncommittedState.nextConsensusParams.hashConsensusParams env.crypto) "wrong Block.Header.ConsensusHash"
  validateCoreChainLock block state
  .ok cache

/-- The new state, if every check and every write succeeds. -/
def finalizeBlock (blockID : BlockID)
    (block : Block) (lastCommit : VerifiedCommit) (evidenceOk : Bool) : Go String State := do
  let _ ← env.validateBlockWithRoundState cache state uncommittedState block lastCommit evidenceOk
  .ok (state.update blockID block.header uncommittedState)

end Env

/-! ### Delivering a block to the application -/

structure Response where
  appHash : Bytes
  txResults : List Bytes
  consensusParamUpdates : Option ConsensusParamsProto
  validatorSetUpdate : Option ValidatorSetUpdate
  deriving DecidableEq, Repr

/-- How a block came to the application: a block of another node is processed, and a block of one's own is
prepared, the application naming a chain lock. -/
inductive Delivery where
  | process (block : Block) (resp : Response) (round : ℤ)
  | prepare (draft : Block) (resp : Response) (coreChainLockUpdate : Option CoreChainLock) (round : ℤ)

def CurrentRoundState.updateBlock (C : Crypto) (candidate : CurrentRoundState) (target : Block) : Block where
  header := { target.header with
    appHash := candidate.appHash
    resultsHash := candidate.resultsHash
    nextValidatorsHash := candidate.nextValidators.hash C
    nextConsensusHash := candidate.nextConsensusParams.hashConsensusParams C
    coreChainLockedHeight := match candidate.coreChainLock with
      | some chainLock => chainLock.coreBlockHeight
      | none => candidate.base.lastCoreChainLockedBlockHeight }
  txs := target.txs
  coreChainLock := candidate.coreChainLock
  evidence := target.evidence
  lastCommit := target.lastCommit
  time_valid := target.time_valid

namespace Delivery

/-- `RoundParamsFromProcessProposal` and `RoundParamsFromPrepareProposal`. -/
def roundParams : Delivery → RoundParams
  | process block resp round =>
    ⟨resp.appHash, resp.txResults, resp.consensusParamUpdates, resp.validatorSetUpdate,
      block.coreChainLock, .processProposal, round⟩
  | prepare _ resp coreChainLockUpdate round =>
    ⟨resp.appHash, resp.txResults, resp.consensusParamUpdates, resp.validatorSetUpdate,
      coreChainLockUpdate, .prepareProposal, round⟩

def block (C : Crypto) (candidate : CurrentRoundState) : Delivery → Block
  | process block _ _ => block
  | prepare draft _ _ _ => candidate.updateBlock C draft

/-- `ProcessProposal` and `CreateProposalBlock`, from the application's response on: the round state and
the block, whose header is filled when it is hashed. -/
def deliver (env : Env) (state : State) (d : Delivery) : Go String (CurrentRoundState × Block) := do
  failIf (d.roundParams.appHash.length ≠ hashSize) "apphash has wrong size"
  let candidate ← CurrentRoundState.newCurrentRoundState env.crypto env.keys d.roundParams state
  .ok (candidate, env.fillHeader (d.block env.crypto candidate))

end Delivery

/-! ### Sample data -/

def sampleCrypto : Crypto :=
  { Crypto.sample with
    verifySignatureDigest := fun _ key digest sig => sig = key ++ digest ++ List.replicate 16 0 }

def sampleKeys : KeyOracle where
  recoverKey keys _ := match keys with
    | key :: _ => .ok key
    | [] => Go.fail "no keys"
  typeName _ := "bls12381"

def sampleEnv : Env where
  crypto := sampleCrypto
  keys := sampleKeys
  headerRoot header := fitHash (Wire.varintField 1 header.height ++ Wire.varintField 2 header.time.seconds)
  headerRoot_length _ := fitHash_length _
  txsHash txs := fitHash txs.flatten
  evidenceHash _ := List.replicate hashSize 0
  evidenceByteSize evidence := evidence.length
  evidenceValidateBasic _ := .ok ()

def sampleGenesis (n : ℕ) (h : (sampleValidators n).validateBasic sampleKeys.recoverKey = .ok ()) :
    GenesisDoc sampleKeys where
  chainID := "chain"
  initialHeight := 1
  genesisTime := ⟨0, 0⟩
  initialCoreChainLockedHeight := 0
  validators := sampleValidators n
  consensusParams := ConsensusParams.default
  appHash := []
  one_le_initialHeight := le_refl 1
  validators_valid := h

lemma sampleValidators_valid : (sampleValidators 1).validateBasic sampleKeys.recoverKey = .ok () := by decide +kernel

lemma sampleTime_valid :
    (Timestamp.mk (makeGenesisState (sampleGenesis 1 sampleValidators_valid)).nextHeight 0).valid = true := by
  decide +kernel

def sampleDraft (state : State) (lastCommit : Commit) (h : (Timestamp.mk state.nextHeight 0).valid = true) : Block where
  header :=
    { sampleHeader state.nextHeight state.validators with
      version := ⟨blockProtocol, 0⟩
      lastBlockID := state.lastBlockID
      validatorsHash := state.validators.hash sampleCrypto
      consensusHash := state.consensusParams.hashConsensusParams sampleCrypto }
  txs := []
  coreChainLock := none
  evidence := []
  lastCommit := some lastCommit
  time_valid := h

def noCommit : Commit := ⟨0, 0, BlockID.nil, [], [], []⟩

def sampleLastCommit (blockID : BlockID) : Commit :=
  { sampleCommit blockID with
    thresholdBlockSignature := (sampleCommit blockID).thresholdBlockSignature ++ List.replicate 16 0 }

def sampleResponse (b : UInt8) : Response := ⟨List.replicate hashSize b, [], none, none⟩

end Tenderdash.Execution
