import Tenderdash.Consensus.Actions

/-!
The consensus machine of one node: how it handles proposals, block parts, votes, commits, timeouts and
the claims of peers, one event after the other. An error of a handler is logged and its changes are
kept; a panic stops the node.
-/

namespace Tenderdash

open Lib

namespace StateData

/-! ### Commits from peers -/

variable (W : World) (cfg : Config) (sd : StateData) (proposal : ProposalProto) (vote : Vote)

/-- A forged signature gets its sender reported. -/
def handleCommitVerifyError (e : ConsensusError) (peerID : String) (fromReplay : Bool) : StateData :=
  match e with
  | .verifyCommit (.invalidSignature _) => if fromReplay then sd else sd.emit (.reportPeer peerID)
  | _ => sd

def queueCandidate (parked commit : Commit) (peerID : String) (fromReplay : Bool) : Except String (Outcome Unit) := do
  match ← commit.validateBasic.settle with
  | .error msg => return (sd, .error (.invalidCommit msg))
  | .ok () =>
    let key := newCommitKey commit
    if key = newCommitKey parked ∨ sd.candidates.holds sd.height peerID key then return (sd, .ok ())
    else match ← (sd.verifyCommitSignatures cfg.C commit (W.peerBudget peerID fromReplay)).settle with
      | .error why => return (sd, .error (.verifyCommit why))
      | .ok () =>
        return ({ sd with
          candidates := sd.candidates.add W.connected sd.height commit peerID fromReplay }, .ok ())

/-- `prepareCommitForApply` for a commit whose block is to be checked. -/
def prepareCommitForApply (commit : Commit) (budget : Option VerificationBudget) : Except String (Outcome Bool) := do
  match ← sd.readyToApplyCommit cfg.C commit false budget with
  | (sd, .error e) => return (sd, .error e)
  | (sd, .ok false) => return (sd, .ok false)
  | (sd, .ok true) =>
    match sd.verifyCommitBlock commit with
    | .error e => return (sd, .error e)
    | .ok false => return (sd, .ok false)
    | .ok true =>
      match ← sd.verifyProcessedCommit W commit with
      | (sd, .error e) => return (sd, .error e)
      | (sd, .ok ()) => return (sd, .ok true)

/-- The end of `TryAddCommitAction`, for a commit of the current or an earlier round. -/
def addCurrentCommit (commit : Commit) (peerID : String) (fromReplay : Bool) : Except String (Outcome Unit) := do
  match ← sd.prepareCommitForApply W cfg commit (W.peerBudget peerID fromReplay) with
  | (sd, .error e) => return (sd.handleCommitVerifyError e peerID fromReplay, .error e)
  | (sd, .ok false) => return (sd, .ok ())
  | (sd, .ok true) =>
    if sd.holdsProposalBlock commit.blockID = false then return (sd, .ok ())
    else addCommit W cfg { sd with commit := some commit } commit

/-- The branch of `TryAddCommitAction` for a commit of a later round, once it is adopted. A held block
is checked before the round changes. -/
def addLaterCommit (commit : Commit) (peerID : String) (fromReplay : Bool) : Except String (Outcome Unit) := do
  let held := sd.holdsProposalBlock commit.blockID
  match ← (if held then sd.verifyHeldCommit W commit else .ok (sd, .ok ())) with
  | (sd, .error e) =>
    return (handleCommitVerifyError { sd with commit := none } e peerID fromReplay, .error e)
  | (sd, .ok ()) =>
    match ← sd.enterNewRound W cfg sd.height commit.round with
    | (sd, .error e) => return (sd, .error e)
    | (sd, .ok ()) =>
      if held ∧ sd.holdsProposalBlock commit.blockID then sd.addCommit W cfg commit
      else return (sd, .ok ())

/-- `TryAddCommitAction`. -/
def tryAddCommit (commit : Commit) (peerID : String) (fromReplay : Bool) : Except String (Outcome Unit) := do
  match sd.commit with
  | some parked =>
    if commit.height = sd.height then
      match ← sd.queueCandidate W cfg parked commit peerID fromReplay with
      | (sd, .error e) => return (sd.handleCommitVerifyError e peerID fromReplay, .error e)
      | (sd, .ok ()) => return (sd, .ok ())
    else return (sd, .ok ())
  | none =>
    if commit.height = sd.height ∧ sd.round < commit.round then
      match ← sd.readyToApplyCommit cfg.C commit true (W.peerBudget peerID fromReplay) with
      | (sd, .error e) => return (sd.handleCommitVerifyError e peerID fromReplay, .error e)
      | (sd, .ok true) => sd.addLaterCommit W cfg commit peerID fromReplay
      | (sd, .ok false) => sd.addCurrentCommit W cfg commit peerID fromReplay
    else sd.addCurrentCommit W cfg commit peerID fromReplay

/-! ### Block parts -/

/-- The rank of a round in `selectParkedCommit`: the round already processed comes first, the others
in the order they appear. -/
def commitRank (commits : List Commit) (commit : Commit) : ℤ :=
  if sd.processedFor sd.currentRoundState.round ∧ commit.round = sd.currentRoundState.round then -1
  else commits.findIdx fun other => other.round = commit.round

def orderCommits (commits : List Commit) : List Commit :=
  commits.insertionSort fun a b => sd.commitRank commits a ≤ sd.commitRank commits b

/-- The loop of `selectParkedCommit`. -/
def tryCommits (W : World) : List Commit → StateData → Except String (StateData × Option Commit)
  | [], sd => .ok (sd, none)
  | commit :: rest, sd => do
    match ← sd.verifyHeldCommit W commit with
    | (sd, .ok ()) => return ({ sd with commit := some commit }, some commit)
    | (sd, .error _) => tryCommits W rest sd

def selectParkedCommit (parked : Commit) : Except String (StateData × Option Commit) :=
  let (candidates, queued) := sd.candidates.take sd.height
  let sd := { sd with commit := none, candidates := candidates }
  let commits := parked :: queued.map (·.commit)
  tryCommits W (sd.orderCommits commits) sd

def readParts (ps : PartSet Bytes) : Bytes :=
  (ps.parts.map fun part => (part.map (·.bytes)).getD []).flatten

/-- The proposal once its block is complete: a proposal for other bytes is dropped, the fields its
signature does not cover are taken from the block. -/
def correctedProposal (block : Block) : Option ProposalProto :=
  let derived := blockIDOf (some block) sd.proposalBlockParts
  sd.proposal.bind fun proposal =>
    if derived.hash ≠ proposal.blockID.hash ∨ derived.partSetHeader ≠ proposal.blockID.partSetHeader then none
    else some { proposal with
      coreChainLockedHeight := block.coreChainLockedHeight
      blockID := derived }

/-- Whether the part was added. -/
def addProposalBlockPart (height : ℤ) (part : Part Bytes) : Except String (Outcome Bool) :=
  match sd.proposalBlockParts with
  | none => .ok (sd, .ok false)
  | some parts =>
    if sd.height ≠ height ∨ W.partProofAllowed = false then .ok (sd, .ok false)
    else match parts.addPart cfg.C.merkle part with
      | (_, .error (.panicked msg)) => .error msg
      | (_, .error (.err e)) => .ok (sd, .error (.part e))
      | (parts, .ok added) =>
        let sd := { sd with proposalBlockParts := some parts }
        if sd.state.maxBytes < (parts.byteSize : ℤ) then .ok (sd, .error .partsTooBig)
        else if added = false ∨ parts.isComplete = false then .ok (sd, .ok added)
        else match cfg.decode (readParts parts) with
          | none => .ok (sd, .error .decodeBlock)
          | some block =>
            let sd := { sd with
              proposal := sd.correctedProposal block
              proposalBlock := some block }
            match sd.commit with
            | none => .ok (sd, .ok added)
            | some parked => do
              match ← sd.selectParkedCommit W parked with
              | (sd, none) => return (sd, .ok added)
              | (sd, some commit) =>
                match ← sd.addCommit W cfg commit with
                | (sd, .error e) => return (sd, .error e)
                | (sd, .ok ()) => return (sd, .ok added)

/-- `AddProposalBlockPartAction`. A parked commit that was rejected leaves a complete block to the
ordinary flow. -/
def addBlockPart (height : ℤ) (part : Part Bytes) : Except String (Outcome Unit) := do
  let commitNotExist := sd.commit.isNone
  match ← sd.addProposalBlockPart W cfg height part with
  | (sd, .error e) => return (sd, .error e)
  | (sd, .ok added) =>
    let commitRejected := commitNotExist = false ∧ sd.commit.isNone ∧ sd.height = height
    if added ∧ (commitNotExist ∨ commitRejected) ∧ sd.proposalBlockParts.any (·.isComplete) then
      sd.proposalCompleted W cfg height
    else return (sd, .ok ())

/-! ### Votes -/

/-- `addVoteUpdateValidBlockMw`, after the vote was added. -/
def updateValidOnPolka : StateData :=
  match twoThirdsMajority (sd.votes.prevotes vote.round) with
  | none => sd
  | some blockID =>
    if blockID.isNil ∨ vote.round ≤ sd.validRound ∨ vote.round ≠ sd.round then sd
    else
      let sd := if blockIDOf sd.proposalBlock sd.proposalBlockParts = blockID then sd.updateValidBlock else sd
      sd.retargetTo blockID

/-- `addVoteDispatchPrevoteMw`, after the vote was added. -/
def dispatchPrevote : Except String StateData :=
  let prevotes := sd.votes.prevotes vote.round
  if sd.round < vote.round ∧ hasTwoThirdsAny prevotes then do
    let (sd, _) ← sd.enterNewRound W cfg sd.height vote.round
    return sd
  else if sd.round = vote.round ∧ .prevote ≤ sd.step then
    if (twoThirdsMajority prevotes).any fun blockID => sd.isProposalComplete || blockID.isNil then
      sd.enterPrecommit W cfg sd.height vote.round
    else if hasTwoThirdsAny prevotes then sd.enterPrevoteWait sd.height vote.round
    else .ok sd
  else if (sd.proposal.any fun proposal => 0 ≤ proposal.polRound ∧ proposal.polRound = vote.round) ∧
      sd.isProposalComplete then do
    let (sd, _) ← sd.enterPrevote W cfg sd.height sd.round
    return sd
  else .ok sd

/-- `addVoteDispatchPrecommitMw`, after the vote was added. -/
def dispatchPrecommit : Except String StateData :=
  let precommits := sd.votes.precommits vote.round
  let height := sd.height
  match twoThirdsMajority precommits with
  | none =>
    if sd.round ≤ vote.round ∧ hasTwoThirdsAny precommits then do
      let (sd, _) ← sd.enterNewRound W cfg height vote.round
      sd.enterPrecommitWait height vote.round
    else .ok sd
  | some blockID => do
    let (sd, _) ← sd.enterNewRound W cfg height vote.round
    let sd ← sd.enterPrecommit W cfg height vote.round
    if blockID.isNil then sd.enterPrecommitWait height vote.round
    else
      let sd ← sd.enterCommit W height vote.round
      let (sd, _) ← sd.enterNewRound W cfg sd.height 0
      return sd

/-- `addVoteToVoteSetFunc`, with the middlewares that run once the vote is added. -/
def addToVoteSet (ref : VoteRef) (check : VoteSet.VoteCheck) : Except String (Outcome Bool) := do
  let (votes, added, err) ← sd.votes.addVote cfg.C ref check
  let sd := { sd with votes := votes }
  match added, err with
  | _, some e => return (sd, .error (.vote e))
  | false, none => return (sd, .ok false)
  | true, none =>
    match ref.vote.type with
    | .prevote => return (← (sd.updateValidOnPolka ref.vote).dispatchPrevote W cfg ref.vote, .ok true)
    | _ => return (← sd.dispatchPrecommit W cfg ref.vote, .ok true)

def knowsVote : Bool :=
  ((sd.votes.getVoteSet vote.round vote.type).bind fun vs => slot vs.votes vote.validatorIndex.toNat).any
    fun existing => existing.blockSignature = vote.blockSignature ∧
      fingerprint cfg.C existing.voteExtensions = fingerprint cfg.C vote.voteExtensions

/-- `addVoteVerifyVoteExtensionMw`: the precommit of another validator for a block is verified, and
shown to the application, before it is stored. -/
def addPrecommit (ref : VoteRef) (budget : Option VerificationBudget) : Except String (Outcome Bool) := do
  let vote := ref.vote
  if vote.blockID.isNil ∨ vote.validatorProTxHash = cfg.proTxHash then
    sd.addToVoteSet W cfg ref (.verify budget)
  else if sd.knowsVote cfg vote then return (sd, .ok false)
  else match sd.state.validators.getByIndex vote.validatorIndex with
    | none => return (sd, .error .validatorIndex)
    | some val =>
      let vals := sd.state.validators
      match ← (verifyVoteSignatures cfg.C (some ref) sd.state.chainID vals.quorumType vals.quorumHash
        val.pubKey val.proTxHash budget).settle with
      | .error e => return (sd, .error (.vote e))
      | .ok verified =>
        match sd.ensureOwnRound W with
        | (sd, .error e) => return (sd, .error (.restoreRound e))
        | (sd, .ok ()) =>
          let ok ← W.verifyVoteExtension sd.outputs.length vote
          let sd := sd.emit (.verifyVoteExtension vote ok)
          if ok then sd.addToVoteSet W cfg ref (.verified verified)
          else return (sd, .error .voteExtensionRejected)

/-- `addVoteErrorMw`: conflicting votes of another validator go to the evidence pool. -/
def handleVoteError (e : ConsensusError) : Outcome Bool :=
  match e with
  | .vote (.conflictingVotes voteA voteB) =>
    if cfg.hasPrivValidator = false then (sd, .error .privValidatorNotSet)
    else if vote.validatorProTxHash = cfg.proTxHash then (sd, .error e)
    else (sd.emit (.reportConflictingVotes voteA voteB), .error e)
  | _ => (sd, .error e)

/-- `AddVoteAction`. -/
def addVote (ref : VoteRef) (peerID : String) (fromReplay : Bool) : Except String (Outcome Bool) := do
  let vote := ref.vote
  let budget := W.peerBudget peerID fromReplay
  if vote.height ≠ sd.height ∨ sd.validators.hasPublicKeys = false then return (sd, .ok false)
  else if vote.validatorIndex < 0 ∨ sd.validators.size ≤ vote.validatorIndex then
    return (sd, .error .validatorIndex)
  else
    let result ← (match vote.type with
      | .prevote => sd.addToVoteSet W cfg ref (.verify budget)
      | .precommit => sd.addPrecommit W cfg ref budget
      | _ => .ok (sd, .ok false))
    match result with
    | (sd, .error e) => return sd.handleVoteError cfg vote e
    | (sd, .ok added) => return (sd, .ok added)

/-! ### Proposals -/

def roundStateRefusal : Except ConsensusError Unit :=
  if sd.commit.any fun commit => commit.height = proposal.height ∧ commit.round = proposal.round ∧
      proposal.blockID ≠ commit.blockID then .error .proposalForCommit
  else if sd.proposalBlockParts.isSome ∧ hasHeader sd.proposalBlockParts proposal.blockID.partSetHeader = false then
    .error .proposalForPartSet
  else .ok ()

def verifyProposalForNonValidatorSet : Except ConsensusError Unit :=
  match sd.commit with
  | none => .error .unableToVerifyProposal
  | some commit =>
    if commit.height ≠ proposal.height ∨ commit.round ≠ proposal.round then
      .error .unableToVerifyProposal
    else if proposal.blockID ≠ commit.blockID then .error .proposalForCommit
    else .ok ()

/-- `verifyProposal`, for a proposal of the current height and round. -/
def verifyProposal (budget : Option VerificationBudget) : Except String (Except ConsensusError Unit) := do
  match W.getProposer sd.height sd.round with
  | none => return .error .getProposer
  | some proposer =>
    match sd.roundStateRefusal proposal, proposer.pubKey with
    | .error e, _ => return .error e
    | .ok (), none => return sd.verifyProposalForNonValidatorSet proposal
    | .ok (), some key =>
      if budget.any fun allow => allow [] 1 = false then return .error .budgetExhausted
      else
        let vals := sd.state.validators
        match ← (proposal.signID cfg.C sd.state.chainID vals.quorumType vals.quorumHash).settle with
        | .error msg => .error msg
        | .ok signID =>
          if key.verifySignatureDigest cfg.C signID proposal.signature then return .ok ()
          else return .error .proposalSignature

def checkProposal : Except ConsensusError Unit :=
  if proposal.polRound < -1 ∨ (0 ≤ proposal.polRound ∧ proposal.round ≤ proposal.polRound) then
    .error .proposalPOLRound
  else if proposal.coreChainLockedHeight < sd.state.lastCoreChainLockedBlockHeight then
    .error .proposalCoreHeight
  else match sd.proposalBlock, sd.proposalBlockParts with
    | some block, some _ =>
      if blockIDOf sd.proposalBlock sd.proposalBlockParts ≠ proposal.blockID then
        .error .proposalBlockID
      else if block.coreChainLockedHeight ≠ proposal.coreChainLockedHeight then
        .error .proposalCoreHeight
      else .ok ()
    | _, _ => .ok ()

/-- `Proposaler.Set`. -/
def setProposal (budget : Option VerificationBudget) : Except String (Outcome Unit) := do
  if sd.proposal.isSome ∨ proposal.height ≠ sd.height ∨ proposal.round ≠ sd.round then
    return (sd, .ok ())
  else if sd.commit.any fun commit =>
      hasHeader sd.proposalBlockParts commit.blockID.partSetHeader ∧
        proposal.blockID ≠ commit.blockID then return (sd, .ok ())
  else match sd.checkProposal proposal with
    | .error e => return (sd, .error e)
    | .ok () =>
      match ← sd.verifyProposal W cfg proposal budget with
      | .error e => return (sd, .error e)
      | .ok () =>
        let header := proposal.blockID.partSetHeader
        return ({ sd with
          proposal := some proposal
          proposalBlockParts := sd.proposalBlockParts.getD (.newFromHeader header.total header.hash) },
          .ok ())

/-! ### Timeouts and transactions -/

def handleTimeout (ti : TimeoutInfo) : Except String StateData :=
  if ti.height ≠ sd.height ∨ ti.round < sd.round ∨ (ti.round = sd.round ∧ ti.step < sd.step) then
    .ok sd
  else match ti.step with
    | .newHeight => do
      let (sd, _) ← sd.enterNewRound W cfg ti.height 0
      return sd
    | .newRound => do
      let (sd, _) ← sd.enterPropose W cfg ti.height ti.round
      return sd
    | .propose => do
      let (sd, _) ← sd.enterPrevote W cfg ti.height ti.round
      return sd
    | .prevoteWait => sd.enterPrecommit W cfg ti.height ti.round
    | .precommitWait => do
      let sd ← sd.enterPrecommit W cfg ti.height ti.round
      let (sd, _) ← sd.enterNewRound W cfg ti.height (ti.round + 1)
      return sd
    | _ => .error "invalid timeout step"

def handleTxsAvailable : Except String StateData :=
  if sd.round ≠ 0 then .ok sd
  else match sd.step with
    | .newHeight =>
      if sd.state.initialHeight = sd.height then .ok sd
      else .ok (sd.scheduleTimeout sd.height 0 .newRound)
    | .newRound => do
      let (sd, _) ← sd.enterPropose W cfg sd.height sd.round
      return sd
    | _ => .ok sd

end StateData

/-! ### Events -/

/-- A vote as it reaches the machine: one from a peer passed `ValidateBasic` in the reactor, and one of
the node itself is made to. -/
structure VoteMessage where
  ref : VoteRef
  valid : ref.vote.validateBasic = .ok ()

/-- What a node reacts to. The empty peer ID marks the node's own messages. A claim of a peer goes from
the reactor straight to the vote sets. -/
inductive Event where
  | proposal (proposal : ProposalProto) (peerID : String) (fromReplay : Bool)
  | blockPart (height : ℤ) (part : Part Bytes) (peerID : String) (fromReplay : Bool)
  | vote (msg : VoteMessage) (peerID : String) (fromReplay : Bool)
  | commit (commit : Commit) (peerID : String) (fromReplay : Bool)
  | timeout (ti : TimeoutInfo)
  | txsAvailable
  | peerMaj23 (height round : ℤ) (type : SignedMsgType) (peerID : String) (blockID : BlockID)

namespace StateData

/-- The write-ahead log takes a message before it is handled. It fails for the node's own messages
only. -/
def logMessage (W : World) (peerID : String) (fromReplay : Bool) : Except String Unit :=
  if peerID = "" ∧ fromReplay = false ∧ W.walSynced = false then .error "failed to write msg to consensus WAL"
  else .ok ()

/-- One turn of `receiveRoutine`. The ticker fires what it was asked for and nothing else. -/
def handle (W : World) (cfg : Config) (sd : StateData) : Event → Except String StateData
  | .proposal proposal peerID fromReplay => do
    logMessage W peerID fromReplay
    let (sd, _) ← sd.setProposal W cfg proposal (W.peerBudget peerID fromReplay)
    return sd
  | .blockPart height part peerID fromReplay => do
    logMessage W peerID fromReplay
    let (sd, _) ← sd.addBlockPart W cfg height part
    return sd
  | .vote msg peerID fromReplay => do
    logMessage W peerID fromReplay
    let (sd, _) ← sd.addVote W cfg msg.ref peerID fromReplay
    return sd
  | .commit commit peerID fromReplay => do
    logMessage W peerID fromReplay
    let (sd, _) ← sd.tryAddCommit W cfg commit peerID fromReplay
    return sd
  | .timeout ti => if sd.scheduled ti then sd.handleTimeout W cfg ti else .ok sd
  | .txsAvailable => sd.handleTxsAvailable W cfg
  | .peerMaj23 height round type peerID blockID =>
    .ok { sd with votes := (sd.votes.setPeerMaj23 height round type peerID blockID).1 }

end StateData

end Tenderdash
