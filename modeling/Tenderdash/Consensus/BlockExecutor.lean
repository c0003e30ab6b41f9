import Tenderdash.Consensus.StateData

/-!
Where consensus meets its environment: the application that prepares, processes and finalizes blocks
and extends votes, the signer, and the clocks and configuration of the node. What they answer during an
event is a `World`; the number of outputs made before is an argument of an answer, so that the same
question may get different answers.

On top of it stand the functions that keep the round state in step with the application, and the two
decisions of a voter: what to prevote and how to sign.
-/

namespace Tenderdash

open Lib Go

structure Config where
  C : Crypto
  /-- The block encoded by a byte string. -/
  decode : Bytes → Option Block
  proTxHash : Bytes
  hasPrivValidator : Bool
  replayMode : Bool
  waitForTxs : Bool
  /-- `CreateEmptyBlocksInterval` is positive. -/
  createEmptyBlocksInterval : Bool
  dontAutoPropose : Bool

structure World where
  processProposal : ℕ → Block → ℤ → Except ProcessError CurrentRoundState
  validateBlock : ℕ → ChainState → CurrentRoundState → Block → Bool
  verifyVoteExtension : ℕ → Vote → Except String Bool
  extendVote : ℕ → Vote → Except String (List VoteExtension)
  createProposalBlock : ℕ → ℤ → ℤ → Except String (Block × PartSet Bytes × CurrentRoundState)
  /-- The state after the block, and whether the next block is wanted immediately. -/
  finalizeBlock : ℕ → ChainState → CurrentRoundState → BlockID → Commit → Except String (ChainState × Bool)
  /-- The signature of the vote and the extensions with theirs. -/
  signVote : ℕ → Vote → Option (Bytes × List VoteExtension)
  signProposal : ℕ → ProposalProto → Option Bytes
  getProposer : ℤ → ℤ → Option Validator
  newProposerSelector : Bool
  /-- The time of the last block is still ahead of the clock. -/
  proposerWaits : Bool
  mayPropose : Bool
  proposalIsTimely : Bool
  validBlockIsTimely : Bool
  chainLockIsValid : Block → Bool
  walSynced : Bool
  publishesCommit : Bool
  connected : String → Bool
  budget : Option VerificationBudget
  partProofAllowed : Bool

/-- The budget a message is verified on: none for the node's own messages and for replayed ones. -/
def World.peerBudget (W : World) (peerID : String) (fromReplay : Bool) : Option VerificationBudget :=
  if peerID = "" ∨ fromReplay then none else W.budget

namespace StateData

/-! ### Processing the proposal block -/

variable (W : World) (cfg : Config) (sd : StateData) (commit : Commit) (proposal : ProposalProto)

def processedFor (round : ℤ) : Bool :=
  sd.proposalBlock.any fun block =>
    sd.currentRoundState.source = .processProposal ∧ sd.currentRoundState.matchesBlock block round ∧
      sd.processedBlockID.isNil = false ∧
      sd.processedBlockID = blockIDOf sd.proposalBlock sd.proposalBlockParts

def ensureProcess (round : ℤ) : Outcome Unit :=
  match sd.proposalBlock with
  | none => (sd, .error .proposalBlockNotSet)
  | some block =>
    if sd.processedFor round then (sd, .ok ())
    else match W.processProposal sd.outputs.length block round with
      | .error why =>
        ({ sd.emit (.processProposal block round false) with
            currentRoundState := .empty
            processedBlockID := .nil }, .error (.processProposal why))
      | .ok crs =>
        ({ sd.emit (.processProposal block round true) with
            currentRoundState := crs
            processedBlockID := blockIDOf sd.proposalBlock sd.proposalBlockParts }, .ok ())

def mustEnsureProcess (round : ℤ) : Except String StateData :=
  match sd.ensureProcess W round with
  | (sd, .ok ()) => .ok sd
  | (_, .error _) => .error "ProcessProposal abci method"

def validate : Except String Bool :=
  match sd.proposalBlock with
  | none => .error "nil pointer dereference"
  | some block => .ok (W.validateBlock sd.outputs.length sd.state sd.currentRoundState block)

def mustValidate : Except String Unit := do
  if ← sd.validate W then return () else .error "invalid block"

def ensureOwnRound : Outcome Unit :=
  let processed := sd.currentRoundState.round
  match sd.proposal with
  | none => (sd, .ok ())
  | some proposal =>
    if processed = sd.round ∨ sd.processedFor processed = false ∨
        blockIDOf sd.proposalBlock sd.proposalBlockParts ≠ proposal.blockID then (sd, .ok ())
    else sd.ensureProcess W sd.round

/-! ### Checking the extensions of a commit -/

def refuseUnprocessedCommit : Except ConsensusError Unit :=
  if sd.processedFor commit.round then .ok ()
  else match sd.expectations.lookup commit with
    | none => .ok ()
    | some exp =>
      if exp.fits commit = false ∨ exp.rejected then .error .extensionsRejected else .ok ()

def expectedExtensions : Except String (StateData × List (Option VoteExtensionProto)) := do
  let vote : Vote := ⟨.precommit, commit.height, commit.round, commit.blockID, [], 0, [], []⟩
  let extensions ← W.extendVote sd.outputs.length vote
  return (sd.emit (.extendVote commit.height commit.round commit.blockID),
    (extensions.filter VoteExtension.isThresholdRecoverable).map fun ext => some ext.proto)

/-- The expectation for a commit the application has just rejected: the known one, or one learned
while the block is processed for the commit's round. -/
def learnExpectation : Except String StateData :=
  match sd.expectations.lookup commit with
  | some _ => .ok sd
  | none =>
    if sd.processedFor commit.round then do
      let (sd, extensions) ← sd.expectedExtensions W commit
      return { sd with expectations := sd.expectations.learn commit extensions }
    else .ok sd

def rememberRejection : StateData :=
  match sd.expectations.lookup commit with
  | some exp =>
    if exp.fits commit then
      { sd with expectations := sd.expectations.store commit { exp with rejected := true } }
    else sd
  | none => sd

def verifyCommitExtensions : Except String (Outcome Unit) := do
  if (sd.expectations.lookup commit).any fun exp => exp.rejected ∧ exp.fits commit then
    return (sd, .error .extensionsRejected)
  else match ← commit.getCanonicalVote.settle with
    | .error msg => return (sd, .error (.invalidExtensions msg))
    | .ok vote =>
      let ok ← W.verifyVoteExtension sd.outputs.length vote
      let sd := sd.emit (.verifyVoteExtension vote ok)
      if ok then return (sd, .ok ())
      else
        let sd ← sd.learnExpectation W commit
        return (sd.rememberRejection commit, .error .extensionsRejected)

def verifyProcessedCommit : Except String (Outcome Unit) := do
  match sd.refuseUnprocessedCommit commit with
  | .error e => return (sd, .error e)
  | .ok () =>
    match sd.ensureProcess W commit.round with
    | (_, .error (.processProposal .clientStopped)) =>
      .error "ABCI client stopped, Tenderdash needs to be restarted"
    | (sd, .error e) => return (sd, .error e)
    | (sd, .ok ()) =>
      if ← sd.validate W then sd.verifyCommitExtensions W commit
      else return (sd, .error .committedInvalidBlock)

def verifyHeldCommit : Except String (Outcome Unit) :=
  match sd.verifyCommitBlock commit with
  | .error e => .ok (sd, .error e)
  | .ok false => .ok (sd, .error .blockNotHeld)
  | .ok true => sd.verifyProcessedCommit W commit

/-! ### Signing -/

/-- `signVote`, which asks for extensions of a precommit for a block; the vote the signer is asked
for is an output. -/
def signVote (type : SignedMsgType) (blockID : BlockID) : Except String StateData :=
  if W.walSynced = false then .ok sd
  else do
    let vote : Vote := ⟨type, sd.height, sd.round, blockID, cfg.proTxHash,
      sd.validators.indexByProTxHash cfg.proTxHash, [], []⟩
    let (sd, vote) ← (if type = .precommit ∧ blockID.isNil = false then do
        let extensions ← W.extendVote sd.outputs.length vote
        return (sd.emit (.extendVote sd.height sd.round blockID), { vote with voteExtensions := extensions })
      else .ok (sd, vote))
    let sd := sd.emit (.signVote vote)
    match W.signVote sd.outputs.length vote with
    | none => return sd
    | some (signature, extensions) =>
      return sd.emit (.sendVote { vote with blockSignature := signature, voteExtensions := extensions })

def signAddVote (type : SignedMsgType) (blockID : BlockID) : Except String StateData :=
  if cfg.hasPrivValidator = false ∨ sd.validators.hasProTxHash cfg.proTxHash = false then .ok sd
  else sd.signVote W cfg type blockID

/-! ### Prevoting -/

def isValidForPrevote : Go String Unit :=
  match sd.proposalBlock, sd.proposal with
  | none, _ => Go.fail "proposal-block is nil"
  | _, none => Go.fail "proposal is nil"
  | some block, some proposal => do
    failIf (proposal.timestamp ≠ block.time) "proposal timestamp not equal"
    failIf (cfg.replayMode = false ∧
        hashesTo sd.proposalBlock ((sd.validBlock.map (·.hash)).getD []) = false ∧
        W.proposalIsTimely = false) "proposal is not timely"
    failIf (W.chainLockIsValid block = false) "proposal-block chain lock is invalid"
    if proposal.polRound = -1 then
      match W.getProposer sd.height sd.round with
      | none => Go.fail "get proposal proposer"
      | some proposer =>
        failIf (block.proposerProTxHash ≠ proposer.proTxHash) "proposal-block proposer does not match round proposer"

def checkProposalBlock : Bool :=
  proposal.polRound = -1 ∧ (sd.lockedRound = -1 ∨
    blockIDOf sd.proposalBlock sd.proposalBlockParts = blockIDOf sd.lockedBlock sd.lockedBlockParts)

def checkPrevoteMaj23 : Bool :=
  twoThirdsMajority (sd.votes.prevotes proposal.polRound) = some (blockIDOf sd.proposalBlock sd.proposalBlockParts) ∧
    0 ≤ proposal.polRound ∧ proposal.polRound < sd.round ∧
    (sd.lockedRound ≤ proposal.polRound ∨
      blockIDOf sd.proposalBlock sd.proposalBlockParts = blockIDOf sd.lockedBlock sd.lockedBlockParts)

/-- A nil proposal has been ruled out before. -/
def shouldVoteBeSent : Bool :=
  sd.proposal.any fun proposal => sd.checkProposalBlock proposal || sd.checkPrevoteMaj23 proposal

/-- `prevoter.Do`. An error of `ProcessProposal` other than a rejection is fatal. -/
def prevote : Except String (Outcome Unit) := do
  match ← (sd.isValidForPrevote W cfg).settle with
  | .error _ => return (← sd.signAddVote W cfg .prevote .nil, .ok ())
  | .ok () =>
    match sd.ensureProcess W sd.round with
    | (sd, .error e) =>
      if e = .processProposal .blockRejected ∨ e = .processProposal .invalidBlock then
        return (← sd.signAddVote W cfg .prevote .nil, .error e)
      else .error "ProcessProposal"
    | (sd, .ok ()) =>
      sd.mustValidate W
      let blockID := if sd.shouldVoteBeSent then sd.blockID else .nil
      return (← sd.signAddVote W cfg .prevote blockID, .ok ())

/-! ### Proposing -/

/-- `blockExecutor.create` and the part set made from its block. The first block and a block after a
known commit can be made; without one there is no block. -/
def createProposalBlock (round : ℤ) : Except String (Outcome (Option (Block × PartSet Bytes))) :=
  if cfg.hasPrivValidator = false then
    .ok (sd, .error (.createProposal "cannot create proposal block on non-validator"))
  else if sd.height ≠ sd.state.initialHeight ∧ sd.lastCommit = none then .ok (sd, .ok none)
  else do
    let (block, parts, crs) ← W.createProposalBlock sd.outputs.length sd.height round
    return ({ sd.emit (.prepareProposal sd.height round) with
        currentRoundState := crs
        processedBlockID := .nil }, .ok (some (block, parts)))

def makeProposal (height round polRound : ℤ) (block : Block) (parts : Option (PartSet Bytes)) : ProposalProto where
  height := height
  round := round
  polRound := polRound
  blockID := blockIDOf (some block) parts
  timestamp := block.time
  signature := []
  coreChainLockedHeight := block.coreChainLockedHeight

/-- The second half of `Proposaler.Create`: the proposal is signed and sent. -/
def sendProposal (parts : Option (PartSet Bytes)) : Outcome Unit :=
  match W.signProposal sd.outputs.length proposal with
  | none => (sd, .error .signProposal)
  | some signature => (sd.emit (.sendProposal { proposal with signature := signature } parts), .ok ())

/-- `Proposaler.Create`. A valid block is proposed again with its round, if it is still timely. -/
def createProposal (height round : ℤ) : Except String (Outcome Unit) :=
  match sd.validBlock, W.validBlockIsTimely with
  | some block, true =>
    .ok (sd.sendProposal W (makeProposal height round sd.validRound block sd.validBlockParts) sd.validBlockParts)
  | _, _ => do
    match ← sd.createProposalBlock W cfg round with
    | (sd, .error e) => return (sd, .error e)
    | (_, .ok none) => .error "nil pointer dereference"
    | (sd, .ok (some (block, parts))) =>
      return sd.sendProposal W (makeProposal height round (-1) block (some parts)) (some parts)

end StateData

end Tenderdash
