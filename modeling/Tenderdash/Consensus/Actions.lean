import Tenderdash.Consensus.BlockExecutor

/-!
The actions that move a node from step to step. Every action checks that it is not late, does its work
and, on its way out, sets the round and the step. An action that dispatches another one calls it; the
calls form no cycle. Actions whose error no caller reads return the state data alone.
-/

namespace Tenderdash.StateData

open Lib

/-! ### Voting -/

variable (W : World) (cfg : Config) (sd : StateData) (height round : ℤ)

/-- `EnterPrevoteAction`. -/
def enterPrevote : Except String (Outcome Unit) :=
  if sd.height ≠ height ∨ round < sd.round ∨ (sd.round = round ∧ .prevote ≤ sd.step) then
    .ok (sd, .ok ())
  else do
    let (sd, result) ← sd.prevote W cfg
    return (sd.updateRoundStep round .prevote, result)

/-- `EnterPrevoteWaitAction`. -/
def enterPrevoteWait : Except String StateData :=
  if sd.height ≠ height ∨ round < sd.round ∨ (sd.round = round ∧ .prevoteWait ≤ sd.step) then .ok sd
  else if hasTwoThirdsAny (sd.votes.prevotes round) = false then
    .error "entering prevote wait step, but prevotes does not have any +2/3 votes"
  else .ok ((sd.scheduleTimeout height round .prevoteWait).updateRoundStep round .prevoteWait)

def relock (round : ℤ) : StateData := { sd with lockedRound := round }

/-- What `EnterPrecommitAction` does before it sets the step. A block is precommitted only if it is
this round's proposal and this round's prevotes have a majority for it; the node then locks on it. -/
def precommit (round : ℤ) : Except String StateData :=
  match twoThirdsMajority (sd.votes.prevotes round) with
  | none => sd.signAddVote W cfg .precommit .nil
  | some blockID =>
    if sd.votes.polInfo.1 < round then .error "this POLRound should be the round"
    else if blockID.isNil then sd.signAddVote W cfg .precommit .nil
    else match sd.proposal, sd.proposalBlock with
      | some proposal, some block =>
        if proposal.timestamp ≠ block.time then sd.signAddVote W cfg .precommit .nil
        else if blockIDOf sd.proposalBlock sd.proposalBlockParts = blockID then do
          let sd ← sd.mustEnsureProcess W round
          sd.mustValidate W
          if blockIDOf sd.lockedBlock sd.lockedBlockParts = blockID then
            (sd.relock round).signAddVote W cfg .precommit blockID
          else do
            let sd ← sd.updateLockedBlock.signAddVote W cfg .precommit blockID
            return sd.updateValidBlock
        else if blockIDOf sd.lockedBlock sd.lockedBlockParts = blockID then
          sd.signAddVote W cfg .precommit .nil
        else (sd.retargetTo blockID).signAddVote W cfg .precommit .nil
      | _, _ => sd.signAddVote W cfg .precommit .nil

/-- `EnterPrecommitAction`. -/
def enterPrecommit : Except String StateData :=
  if sd.height ≠ height ∨ round < sd.round ∨ (sd.round = round ∧ .precommit ≤ sd.step) then .ok sd
  else do
    let sd ← sd.precommit W cfg round
    return sd.updateRoundStep round .precommit

/-- `EnterPrecommitWaitAction`. -/
def enterPrecommitWait : Except String StateData :=
  if sd.height ≠ height ∨ round < sd.round ∨ (sd.round = round ∧ sd.triggeredTimeoutPrecommit) then
    .ok sd
  else if hasTwoThirdsAny (sd.votes.precommits round) = false then
    .error "entering precommit wait step, but precommits does not have any +2/3 votes"
  else .ok { sd.scheduleTimeout height round .precommitWait with triggeredTimeoutPrecommit := true }

/-! ### New rounds -/

def isProposer : Bool :=
  (W.getProposer sd.height sd.round).any fun proposer =>
    cfg.proTxHash ≠ [] ∧ proposer.proTxHash = cfg.proTxHash

def applyingCommit : Bool :=
  sd.commit.any fun commit => sd.holdsProposalBlock commit.blockID

/-- `EnterProposeAction`. -/
def enterPropose : Except String (Outcome Unit) :=
  if sd.height ≠ height ∨ round < sd.round ∨ (sd.round = round ∧ .propose ≤ sd.step) then
    .ok (sd, .ok ())
  else if sd.isProposer W cfg ∧ sd.applyingCommit = false ∧ W.proposerWaits then
    .ok (sd.scheduleTimeout height round .newRound, .ok ())
  else do
    let proposes := sd.isProposer W cfg ∧ sd.applyingCommit = false ∧ cfg.replayMode = false ∧ W.mayPropose
    let sd := sd.scheduleTimeout height round .propose
    let (sd, result) ← (if proposes then sd.createProposal W cfg height round else .ok (sd, .ok ()))
    let sd := sd.updateRoundStep round .propose
    if sd.isProposalComplete then
      let (sd, _) ← sd.enterPrevote W cfg height round
      return (sd, result)
    else return (sd, result)

/-- The proposal of the last round is dropped; the block of a parked commit stays the one the node
collects. -/
def resetProposal : StateData :=
  let sd := { sd with proposal := none }
  match sd.commit with
  | some commit => sd.retargetTo commit.blockID
  | none => { sd with proposalBlock := none, proposalBlockParts := none }

def startRound (round : ℤ) : Except String StateData := do
  let sd := sd.updateRoundStep round .newRound
  let sd := if round = 0 then sd else sd.resetProposal
  let votes ← sd.votes.setRound (round + 1)
  return { sd with votes := votes, triggeredTimeoutPrecommit := false }

/-- `EnterNewRoundAction`. -/
def enterNewRound : Except String (Outcome Unit) :=
  if sd.height ≠ height ∨ round < sd.round ∨ (sd.round = round ∧ sd.step ≠ .newHeight) then
    .ok (sd, .ok ())
  else do
    let sd ← sd.startRound round
    if (W.getProposer sd.height sd.round).isNone then .error "failed to get proposer"
    else if cfg.waitForTxs ∧ round = 0 ∧ sd.state.initialHeight ≠ sd.height ∧
        sd.proposeNextBlockImmediately = false then
      if cfg.createEmptyBlocksInterval then
        return (sd.scheduleTimeout height round .newRound, .ok ())
      else return (sd, .ok ())
    else if cfg.dontAutoPropose then return (sd, .ok ())
    else sd.enterPropose W cfg height round

/-! ### Applying a commit -/

def finalizedBlockID (block : Block) : BlockID :=
  ⟨block.hash, (sd.proposalBlockParts.map PartSet.header).getD ⟨0, []⟩, block.stateID⟩

/-- `ApplyCommitAction`, for a commit that is not nil. -/
def applyCommit (commit : Commit) : Except String (Outcome Unit) :=
  match sd.verifyCommitBlock commit, sd.proposalBlock with
  | .error e, _ => .ok (sd, .error e)
  | .ok true, some block => do
    let sd ← sd.mustEnsureProcess W commit.round
    sd.mustValidate W
    let sd := sd.emit (.saveBlock (some block) commit)
    if W.walSynced = false then .error "failed to write EndHeightMessage to consensus WAL"
    let blockID := sd.finalizedBlockID block
    let (state, immediately) ← W.finalizeBlock sd.outputs.length sd.state sd.currentRoundState blockID commit
    let sd := sd.emit (.finalizeBlock sd.height blockID commit)
    let sd ← sd.updateToState state (some commit) W.newProposerSelector
    let sd := if immediately then { sd with proposeNextBlockImmediately := true } else sd
    return (sd.scheduleTimeout sd.height 0 .newHeight, .ok ())
  | _, _ => .ok (sd, .error .applyWithoutBlock)

def finalizeCommit (height : ℤ) : Except String StateData :=
  if sd.height ≠ height ∨ sd.step ≠ .applyCommit then .ok sd
  else match sd.votes.precommits sd.commitRound with
    | none => .error "cannot finalize commit; commit does not have 2/3 majority"
    | some precommits =>
      match precommits.maj23 with
      | none => .error "cannot finalize commit; commit does not have 2/3 majority"
      | some blockID =>
        if hasHeader sd.proposalBlockParts blockID.partSetHeader = false then
          .error "expected ProposalBlockParts header to be commit header"
        else if hashesTo sd.proposalBlock blockID.hash = false then
          .error "cannot finalize commit; proposal block does not hash to commit hash"
        else do
          let seenCommit ← precommits.makeCommit
          match sd.refuseUnprocessedCommit seenCommit with
          | .error _ => return sd
          | .ok () =>
            let sd ← sd.mustEnsureProcess W seenCommit.round
            match ← sd.verifyCommitExtensions W seenCommit with
            | (sd, .error _) => return sd
            | (sd, .ok ()) =>
              let (sd, _) ← sd.applyCommit W seenCommit
              return sd

/-- `TryFinalizeCommitAction`. -/
def tryFinalizeCommit (W : World) (sd : StateData) (height : ℤ) : Except String StateData :=
  if sd.height ≠ height then .error "tryFinalizeCommit() cs.Height vs height"
  else match twoThirdsMajority (sd.votes.precommits sd.commitRound) with
    | none => .ok sd
    | some blockID =>
      if blockID.isNil ∨ hashesTo sd.proposalBlock blockID.hash = false then .ok sd
      else sd.finalizeCommit W height

def atCommit (commitRound : ℤ) : StateData :=
  { sd.updateRoundStep sd.round .applyCommit with commitRound := commitRound }

/-- `EnterCommitAction`. -/
def enterCommit (height commitRound : ℤ) : Except String StateData :=
  if sd.height ≠ height ∨ .applyCommit ≤ sd.step then .ok sd
  else match twoThirdsMajority (sd.votes.precommits commitRound) with
    | none => .error "RunActionCommit() expects +2/3 precommits"
    | some blockID => ((sd.updateStateData blockID).atCommit commitRound).tryFinalizeCommit W height

/-- `AddCommitAction`. The next height starts at once. -/
def addCommit (commit : Commit) : Except String (Outcome Unit) :=
  let sd := sd.updateStateData commit.blockID
  if sd.proposalBlock.isNone then .ok (sd, .ok ())
  else do
    match ← (sd.atCommit commit.round).applyCommit W commit with
    | (sd, .error e) => return (sd, .error e)
    | (sd, .ok ()) =>
      if W.publishesCommit = false then return (sd, .error .publishCommit)
      else
        let (sd, _) ← sd.enterNewRound W cfg sd.height 0
        return (sd, .ok ())

/-! ### A complete proposal -/

def validateOnComplete : StateData :=
  match twoThirdsMajority (sd.votes.prevotes sd.round) with
  | none => sd
  | some blockID =>
    if blockID.isNil = false ∧ sd.validRound < sd.round ∧
        blockIDOf sd.proposalBlock sd.proposalBlockParts = blockID then sd.updateValidBlock
    else sd

/-- `ProposalCompletedAction`. -/
def proposalCompleted (height : ℤ) : Except String (Outcome Unit) := do
  let hasTwoThirds := hasTwoThirdsMajority (sd.votes.prevotes sd.round)
  let sd := sd.validateOnComplete
  if sd.step ≤ .propose ∧ sd.isProposalComplete then
    match ← sd.enterPrevote W cfg height sd.round with
    | (sd, .error e) => return (sd, .error e)
    | (sd, .ok ()) =>
      if hasTwoThirds then return (← sd.enterPrecommit W cfg height sd.round, .ok ())
      else return (sd, .ok ())
  else if sd.step = .applyCommit then return (← sd.tryFinalizeCommit W height, .ok ())
  else return (sd, .ok ())

end Tenderdash.StateData
