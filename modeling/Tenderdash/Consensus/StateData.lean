import Tenderdash.Consensus.CommitCandidates
import Tenderdash.Consensus.HeightVoteSet
import Tenderdash.Types.PartSet
import Tenderdash.Types.Proposal

/-!
The state of the consensus machine of one node: what it knows about the current round, the block it is
collecting, the block it is locked on, the last block it saw a majority of prevotes for, and a commit
that waits for its block; and the functions that write those fields.

A pointer that may be nil is an option. Pointers are shared between the fields for the proposed, the
locked and the valid block, which is invisible here: a part set is complete, and no longer changes, by
the time its block is copied to another field. Times are left out. What the node tells the outside
world is appended to a list of outputs.
-/

namespace Tenderdash

open Lib

/-! ### Rounds and blocks -/

/-- `RoundStepType`. -/
inductive RoundStep where
  | newHeight
  | newRound
  | propose
  | prevote
  | prevoteWait
  | precommit
  | precommitWait
  | applyCommit
  deriving DecidableEq, Repr

def RoundStep.code : RoundStep → ℕ
  | newHeight => 1
  | newRound => 2
  | propose => 3
  | prevote => 4
  | prevoteWait => 5
  | precommit => 6
  | precommitWait => 7
  | applyCommit => 8

instance : LE RoundStep := ⟨fun a b => a.code ≤ b.code⟩

instance : LT RoundStep := ⟨fun a b => a.code < b.code⟩

instance (a b : RoundStep) : Decidable (a ≤ b) := inferInstanceAs (Decidable (a.code ≤ b.code))

instance (a b : RoundStep) : Decidable (a < b) := inferInstanceAs (Decidable (a.code < b.code))

lemma RoundStep.le_iff {a b : RoundStep} : a ≤ b ↔ a.code ≤ b.code := Iff.rfl

@[simp] lemma RoundStep.not_le {a b : RoundStep} : ¬ a ≤ b ↔ b < a := Nat.not_le

/-- A block: the hashes computed from it, the header of the part set made from it, and the fields of
its header that consensus reads. -/
structure Block where
  hash : Bytes
  stateID : Bytes
  partSetHeader : PartSetHeader
  height : ℤ
  time : Timestamp
  appHash : Bytes
  resultsHash : Bytes
  proposerProTxHash : Bytes
  coreChainLockedHeight : ℕ
  deriving DecidableEq, Repr

def PartSet.header (ps : PartSet Bytes) : PartSetHeader := ⟨ps.total, ps.hash⟩

/-- A nil part set has none. -/
def hasHeader (ps : Option (PartSet Bytes)) (header : PartSetHeader) : Bool :=
  ps.any fun ps => ps.header = header

/-- `Block.BlockID`: nil for a nil block and for one without a hash. A nil part set is made from the
block. -/
def blockIDOf (block : Option Block) (parts : Option (PartSet Bytes)) : BlockID :=
  match block with
  | none => .nil
  | some b =>
    if b.hash.length = 0 then .nil
    else ⟨b.hash, (parts.map PartSet.header).getD b.partSetHeader, b.stateID⟩

def hashesTo (block : Option Block) (hash : Bytes) : Bool :=
  hash.length ≠ 0 ∧ block.any fun b => b.hash = hash

@[simp] lemma blockIDOf_none (parts : Option (PartSet Bytes)) : blockIDOf none parts = .nil := rfl

@[simp] lemma BlockID.isNil_nil : BlockID.nil.isNil = true := rfl

inductive RoundSource where
  | unset
  | initChain
  | prepareProposal
  | processProposal
  deriving DecidableEq, Repr

/-- The application's answer to the last proposal it prepared or processed. -/
structure CurrentRoundState where
  source : RoundSource
  height : ℤ
  round : ℤ
  appHash : Bytes
  resultsHash : Bytes
  deriving DecidableEq, Repr

def CurrentRoundState.empty : CurrentRoundState := ⟨.unset, 0, 0, [], []⟩

def CurrentRoundState.matchesBlock (crs : CurrentRoundState) (block : Block) (round : ℤ) : Bool :=
  crs.height = block.height ∧ crs.round = round ∧ crs.appHash = block.appHash ∧ crs.resultsHash = block.resultsHash

structure ChainState where
  chainID : String
  initialHeight : ℤ
  lastBlockHeight : ℤ
  validators : ValidatorSet
  maxBytes : ℤ
  lastCoreChainLockedBlockHeight : ℕ

def ChainState.nextHeight (state : ChainState) : ℤ :=
  if state.lastBlockHeight + 1 = 1 then state.initialHeight else state.lastBlockHeight + 1

structure TimeoutInfo where
  height : ℤ
  round : ℤ
  step : RoundStep
  deriving DecidableEq, Repr

/-- What a node asks of its application, its signer, its ticker and its stores, and what it sends. -/
inductive Output where
  | prepareProposal (height round : ℤ)
  | processProposal (block : Block) (round : ℤ) (ok : Bool)
  | extendVote (height round : ℤ) (blockID : BlockID)
  | verifyVoteExtension (vote : Vote) (ok : Bool)
  | signVote (vote : Vote)
  | sendVote (vote : Vote)
  | sendProposal (proposal : ProposalProto) (parts : Option (PartSet Bytes))
  | scheduleTimeout (ti : TimeoutInfo)
  | saveBlock (block : Option Block) (commit : Commit)
  | finalizeBlock (height : ℤ) (blockID : BlockID) (commit : Commit)
  | reportConflictingVotes (voteA voteB : Vote)
  | reportPeer (peerID : String)

inductive ProcessError where
  | blockRejected
  | invalidBlock
  | clientStopped
  | other (msg : String)
  deriving DecidableEq, Repr

inductive ConsensusError where
  | invalidCommit (msg : String)
  | verifyCommit (why : CommitError)
  | retainedBlock
  | commitHeader
  | commitHash
  | commitStateID
  | blockNotHeld
  | applyWithoutBlock
  | invalidExtensions (msg : String)
  | extensionsRejected
  | proposalBlockNotSet
  | processProposal (why : ProcessError)
  | committedInvalidBlock
  | publishCommit
  | vote (why : VoteError)
  | validatorIndex
  | voteExtensionRejected
  | restoreRound (why : ConsensusError)
  | privValidatorNotSet
  | part (why : PartSetError)
  | partsTooBig
  | decodeBlock
  | proposalPOLRound
  | proposalCoreHeight
  | proposalBlockID
  | proposalForCommit
  | proposalForPartSet
  | proposalSignature
  | unableToVerifyProposal
  | getProposer
  | createProposal (msg : String)
  | signProposal
  | budgetExhausted
  deriving DecidableEq, Repr

/-- `RoundState` and the committed state, with what the actions keep next to them. -/
structure StateData where
  height : ℤ
  round : ℤ
  step : RoundStep
  validators : ValidatorSet
  proposal : Option ProposalProto
  proposalBlock : Option Block
  proposalBlockParts : Option (PartSet Bytes)
  lockedRound : ℤ
  lockedBlock : Option Block
  lockedBlockParts : Option (PartSet Bytes)
  commit : Option Commit
  validRound : ℤ
  validBlock : Option Block
  validBlockParts : Option (PartSet Bytes)
  votes : HeightVoteSet
  commitRound : ℤ
  lastCommit : Option Commit
  triggeredTimeoutPrecommit : Bool
  proposeNextBlockImmediately : Bool
  processedBlockID : BlockID
  currentRoundState : CurrentRoundState
  state : ChainState
  candidates : CommitCandidates
  expectations : CommitExpectations
  outputs : List Output

/-- What a call that did not panic leaves behind: the state data, and the value or error it
returned. -/
abbrev Outcome (α : Type) := StateData × Except ConsensusError α

namespace StateData

variable (C : Crypto) (sd : StateData) (commit : Commit)

def emit (o : Output) : StateData := { sd with outputs := sd.outputs ++ [o] }

def scheduleTimeout (height round : ℤ) (step : RoundStep) : StateData :=
  sd.emit (.scheduleTimeout ⟨height, round, step⟩)

def scheduled (ti : TimeoutInfo) : Bool :=
  sd.outputs.any fun
    | .scheduleTimeout asked => asked = ti
    | _ => false

def updateRoundStep (round : ℤ) (step : RoundStep) : StateData :=
  { sd with round := round, step := step }

def isProposalComplete : Bool :=
  match sd.proposal with
  | none => false
  | some proposal =>
    sd.proposalBlock.isSome ∧ (proposal.polRound < 0 ∨ hasTwoThirdsMajority (sd.votes.prevotes proposal.polRound))

def blockID : BlockID :=
  if sd.proposalBlock.isSome ∧ sd.proposalBlockParts.isSome then
    blockIDOf sd.proposalBlock sd.proposalBlockParts
  else
    match sd.proposal with
    | some proposal =>
      if sd.height = proposal.height ∧ sd.round = proposal.round then proposal.blockID
      else blockIDOf sd.proposalBlock sd.proposalBlockParts
    | none => blockIDOf sd.proposalBlock sd.proposalBlockParts

/-! ### The valid and the locked block -/

/-- A valid block with the same ID is kept. -/
def updateValidBlock : StateData :=
  let sd := { sd with validRound := sd.round }
  if blockIDOf sd.validBlock sd.validBlockParts ≠ blockIDOf sd.proposalBlock sd.proposalBlockParts then
    { sd with
      validBlock := sd.proposalBlock
      validBlockParts := sd.proposalBlockParts }
  else sd

def updateLockedBlock : StateData :=
  { sd with
    lockedRound := sd.round
    lockedBlock := sd.proposalBlock
    lockedBlockParts := sd.proposalBlockParts }

/-! ### The block the round collects -/

def dropStaleProposal (blockID : BlockID) : StateData :=
  match sd.proposal with
  | none => sd
  | some proposal => if proposal.blockID = blockID then sd else { sd with proposal := none }

def retargetTo (blockID : BlockID) : StateData :=
  let sd := sd.dropStaleProposal blockID
  if hasHeader sd.proposalBlockParts blockID.partSetHeader = false then
    { sd with
      proposalBlock := none
      proposalBlockParts := some (.newFromHeader blockID.partSetHeader.total blockID.partSetHeader.hash) }
  else if hashesTo sd.proposalBlock blockID.hash = false then { sd with proposalBlock := none }
  else sd

def adoptCommit : StateData :=
  { sd.retargetTo commit.blockID with commit := some commit }

def holdsProposalBlock (blockID : BlockID) : Bool :=
  hashesTo sd.proposalBlock blockID.hash ∧ hasHeader sd.proposalBlockParts blockID.partSetHeader

def replaceProposalBlockOnLockedBlock (blockID : BlockID) : StateData :=
  if hashesTo sd.lockedBlock blockID.hash then
    { sd.dropStaleProposal blockID with
      proposalBlock := sd.lockedBlock
      proposalBlockParts := sd.lockedBlockParts }
  else sd

def updateStateData (blockID : BlockID) : StateData :=
  let sd := sd.replaceProposalBlockOnLockedBlock blockID
  if sd.holdsProposalBlock blockID then sd else sd.retargetTo blockID

/-! ### Commits -/

def verifyCommitSignatures (budget : Option VerificationBudget) : Go CommitError Unit :=
  ValidatorSet.verifyCommit C sd.validators sd.state.chainID commit.blockID sd.height commit budget

def readyToApplyCommit (ignoreProposalBlock : Bool)
    (budget : Option VerificationBudget) : Except String (Outcome Bool) := do
  match ← commit.validateBasic.settle with
  | .error msg => return (sd, .error (.invalidCommit msg))
  | .ok () =>
    if commit.height ≠ sd.height then return (sd, .ok false)
    else match ← (sd.verifyCommitSignatures C commit budget).settle with
      | .error why => return (sd, .error (.verifyCommit why))
      | .ok () =>
        if sd.proposalBlock.isSome ∧ sd.proposalBlockParts.any (·.isComplete) ∧
            hasHeader sd.proposalBlockParts commit.blockID.partSetHeader ∧
            hashesTo sd.proposalBlock commit.blockID.hash = false then
          return (sd, .error .retainedBlock)
        else if ignoreProposalBlock then return (sd.adoptCommit commit, .ok true)
        else if sd.holdsProposalBlock commit.blockID then return (sd, .ok true)
        else return (sd.adoptCommit commit, .ok false)

def verifyCommitBlock : Except ConsensusError Bool :=
  match sd.proposalBlock with
  | none => .ok false
  | some block =>
    if hasHeader sd.proposalBlockParts commit.blockID.partSetHeader = false then .error .commitHeader
    else if hashesTo (some block) commit.blockID.hash = false then .error .commitHash
    else if block.stateID ≠ commit.blockID.stateID then .error .commitStateID
    else .ok true

/-! ### A new height -/

def atHeight (state : ChainState) (lastCommit : Option Commit) (votes : HeightVoteSet)
    (crs : CurrentRoundState) (processedBlockID : BlockID) (candidates : CommitCandidates)
    (expectations : CommitExpectations) (outputs : List Output) : StateData where
  height := state.nextHeight
  round := 0
  step := .newHeight
  validators := state.validators
  proposal := none
  proposalBlock := none
  proposalBlockParts := none
  lockedRound := -1
  lockedBlock := none
  lockedBlockParts := none
  commit := none
  validRound := -1
  validBlock := none
  validBlockParts := none
  votes := votes
  commitRound := -1
  lastCommit := lastCommit
  triggeredTimeoutPrecommit := false
  proposeNextBlockImmediately := false
  processedBlockID := processedBlockID
  currentRoundState := crs
  state := state
  candidates := candidates
  expectations := expectations
  outputs := outputs

/-- The last commit of `updateToState`. -/
def nextLastCommit (state : ChainState) (commit : Option Commit) : Except String (Option Commit) :=
  if state.lastBlockHeight = 0 then .ok none
  else match commit with
    | some commit => .ok (some commit)
    | none =>
      if -1 < sd.commitRound then
        match sd.votes.precommits sd.commitRound with
        | none => .error "wanted to form a commit, but precommits didn't have 2/3+"
        | some precommits =>
          if precommits.maj23.isSome then return some (← precommits.makeCommit)
          else .error "wanted to form a commit, but precommits didn't have 2/3+"
      else match sd.lastCommit with
        | some commit => .ok (some commit)
        | none => .error "last commit cannot be empty after initial block"

/-- The state that is not empty is the case here; the proposer selector of the new height may fail. -/
def updateToState (sd : StateData) (state : ChainState) (commit : Option Commit)
    (newProposerSelector : Bool) : Except String StateData :=
  if -1 < sd.commitRound ∧ 0 < sd.height ∧ sd.height ≠ state.lastBlockHeight then
    .error "updateToState() expected another state height"
  else if 0 < sd.state.lastBlockHeight ∧ sd.state.lastBlockHeight + 1 ≠ sd.height then
    .error "inconsistent committedState.LastBlockHeight+1 vs cs.Height"
  else if 0 < sd.state.lastBlockHeight ∧ sd.height = sd.state.initialHeight then
    .error "inconsistent committedState.LastBlockHeight, expected 0 for initial height"
  else if state.lastBlockHeight < sd.state.lastBlockHeight then .ok sd
  else do
    let lastCommit ← sd.nextLastCommit state commit
    if newProposerSelector = false then .error "error creating proposer selector"
    let votes ← HeightVoteSet.new state.chainID state.nextHeight state.validators
    return atHeight state lastCommit votes sd.currentRoundState sd.processedBlockID sd.candidates
      sd.expectations sd.outputs

/-- The state data of a node that starts, with round 0 scheduled. Above the first block the last
commit is loaded from the store. -/
def initial (state : ChainState) (lastCommit : Option Commit) : Except String StateData := do
  let lastCommit ← (if state.lastBlockHeight = 0 then .ok none
    else if lastCommit.isSome then .ok lastCommit
    else .error "last commit cannot be empty after initial block")
  let votes ← HeightVoteSet.new state.chainID state.nextHeight state.validators
  let sd := atHeight state lastCommit votes .empty .nil ⟨0, []⟩ ⟨0, fun _ => none⟩ []
  return sd.scheduleTimeout sd.height 0 .newHeight

end StateData

end Tenderdash
