import Tenderdash.Types.Proto

/-!
What a node remembers of a peer: the height and round the peer is at, and bit arrays of the votes and
block parts it has.

An array has no label of its own. Which votes its bits stand for follows from the height and the rounds
recorded beside it, so a change of those says something new about every bit that stays. The array of
precommits is read under two labels, the peer's own round and the round of its last commit, and the array
of the catch-up commit can be the very array of the precommits.
-/

namespace Tenderdash

open Lib

inductive VoteArray where
  | prevotes
  | precommits
  | catchupCommit
  | proposalPOL
  deriving DecidableEq, Repr

/-- `PeerRoundState`, without the start time. The flag says that `CatchupCommit` and `Precommits` point to
one array, and is false while they are nil. -/
structure PeerRoundState where
  height : ℤ
  round : ℤ
  step : ℕ
  proposal : Bool
  proposalBlockPartSetHeader : PartSetHeader
  proposalBlockParts : Option BitArray
  proposalPOLRound : ℤ
  proposalPOL : Option BitArray
  prevotes : Option BitArray
  precommits : Option BitArray
  lastCommitRound : ℤ
  hasCommit : Bool
  catchupCommitRound : ℤ
  catchupCommit : Option BitArray
  sameArray : Bool
  deriving DecidableEq

namespace PeerRoundState

/-- The state of `NewPeerState`. -/
def new : PeerRoundState where
  height := 0
  round := -1
  step := 0
  proposal := false
  proposalBlockPartSetHeader := ⟨0, []⟩
  proposalBlockParts := none
  proposalPOLRound := -1
  proposalPOL := none
  prevotes := none
  precommits := none
  lastCommitRound := -1
  hasCommit := false
  catchupCommitRound := -1
  catchupCommit := none
  sameArray := false

/-! ### Votes -/

variable (prs : PeerRoundState) (height round : ℤ) (header : PartSetHeader)

/-- The array that `getVoteBitArray` looks in. -/
def locate (votesType : SignedMsgType) : Option VoteArray :=
  if isVoteTypeValid votesType = false then none
  else if prs.height = height then
    if prs.round = round then
      if votesType = .prevote then some .prevotes else some .precommits
    else if prs.catchupCommitRound = round then
      if votesType = .prevote then none else some .catchupCommit
    else if prs.proposalPOLRound = round then
      if votesType = .prevote then some .proposalPOL else none
    else none
  else if prs.height = height + 1 then
    if prs.lastCommitRound = round then
      if votesType = .prevote then none else some .precommits
    else none
  else none

def read : VoteArray → Option BitArray
  | .prevotes => prs.prevotes
  | .precommits => prs.precommits
  | .catchupCommit => prs.catchupCommit
  | .proposalPOL => prs.proposalPOL

/-- Change the array that a field points to, and with it what a second pointer shows. -/
def write (bA : BitArray) : VoteArray → PeerRoundState
  | .prevotes => { prs with prevotes := some bA }
  | .precommits =>
    { prs with
      precommits := some bA
      catchupCommit := if prs.sameArray then some bA else prs.catchupCommit }
  | .catchupCommit =>
    { prs with
      catchupCommit := some bA
      precommits := if prs.sameArray then some bA else prs.precommits }
  | .proposalPOL => { prs with proposalPOL := some bA }

def getVoteBitArray (votesType : SignedMsgType) : Option BitArray :=
  (prs.locate height round votesType).bind prs.read

/-- Replace the array that `getVoteBitArray` returns; nil is left alone. -/
def updateVotes (votesType : SignedMsgType) (f : BitArray → Option BitArray) : PeerRoundState :=
  match prs.locate height round votesType with
  | none => prs
  | some field =>
    match (prs.read field).bind f with
    | none => prs
    | some bA => prs.write bA field

/-- An index outside of the array changes nothing. -/
def setHasVote (voteType : SignedMsgType) (index : ℤ) : PeerRoundState :=
  prs.updateVotes height round voteType fun psVotes => psVotes.setIndex index

def ensureCatchupCommitRound (numValidators : ℕ) : PeerRoundState :=
  if prs.height ≠ height then prs
  else if prs.catchupCommitRound = round then prs
  else if round = prs.round then
    { prs with
      catchupCommitRound := round
      catchupCommit := prs.precommits
      sameArray := prs.precommits.isSome }
  else
    { prs with
      catchupCommitRound := round
      catchupCommit := BitArray.newBitArray numValidators
      sameArray := false }

def ensureVoteBitArrays (height : ℤ) (numValidators : ℕ) : PeerRoundState :=
  if prs.height = height then
    { prs with
      prevotes := prs.prevotes.or (BitArray.newBitArray numValidators)
      precommits := prs.precommits.or (BitArray.newBitArray numValidators)
      catchupCommit := prs.catchupCommit.or (BitArray.newBitArray numValidators)
      proposalPOL := prs.proposalPOL.or (BitArray.newBitArray numValidators) }
  else prs

/-- What `PickVoteToSend` prepares for a set of votes. -/
def pickVoteToSend (isCommit : Bool) (size : ℕ) : PeerRoundState :=
  if size = 0 then prs
  else
    let prs := if isCommit then prs.ensureCatchupCommitRound height round size else prs
    prs.ensureVoteBitArrays height size

/-! ### Proposals and parts -/

def setHasProposal (height round polRound : ℤ) (header : PartSetHeader) : PeerRoundState :=
  if prs.height ≠ height ∨ prs.round ≠ round then prs
  else if prs.proposal then prs
  else if prs.proposalBlockParts ≠ none then { prs with proposal := true }
  else
    { prs with
      proposal := true
      proposalBlockPartSetHeader := header
      proposalBlockParts := BitArray.newBitArray header.total
      proposalPOLRound := polRound
      proposalPOL := none }

def initProposalBlockParts : PeerRoundState :=
  if prs.proposalBlockParts ≠ none then prs
  else
    { prs with
      proposalBlockPartSetHeader := header
      proposalBlockParts := BitArray.newBitArray header.total }

def updateProposalBlockParts : PeerRoundState :=
  { prs with
    proposalBlockPartSetHeader := header
    proposalBlockParts := BitArray.newBitArray header.total }

def setHasProposalBlockPart (index : ℕ) : PeerRoundState :=
  if prs.height ≠ height ∨ prs.round ≠ round then prs
  else
    match prs.proposalBlockParts.bind fun parts => parts.setIndex index with
    | none => prs
    | some parts => { prs with proposalBlockParts := some parts }

/-! ### Messages -/

def setHasCommit : PeerRoundState :=
  if prs.height < height ∨ prs.height = height ∧ prs.round ≤ round then
    { prs with height := height, round := round, step := 3, hasCommit := true }
  else prs

/-- `SetHasCommit`. -/
def setHasCommitMessage : PeerRoundState :=
  let prs := prs.setHasCommit height round
  if prs.height < height ∨ prs.height = height ∧ prs.round < round then
    { prs with
      proposalBlockPartSetHeader := header
      proposalBlockParts := BitArray.newBitArray header.total
      proposalPOLRound := -1
      proposalPOL := none }
  else prs

/-- `CompareHRS` is positive. -/
def later (h₁ r₁ : ℤ) (s₁ : ℕ) (h₂ r₂ : ℤ) (s₂ : ℕ) : Bool :=
  h₂ < h₁ ∨ h₁ = h₂ ∧ (r₂ < r₁ ∨ r₁ = r₂ ∧ s₂ < s₁)

def applyNewRoundStepMessage (step : ℕ) (lastCommitRound : ℤ) : PeerRoundState :=
  if later height round step prs.height prs.round prs.step = false then prs
  else
    let moved : PeerRoundState := { prs with height := height, round := round, step := step }
    let cleared : PeerRoundState :=
      if prs.height ≠ height ∨ prs.round ≠ round then
        { moved with
          proposal := false
          proposalBlockPartSetHeader := ⟨0, []⟩
          proposalBlockParts := none
          proposalPOLRound := -1
          proposalPOL := none
          prevotes := none
          precommits := none
          sameArray := false
          hasCommit := false }
      else moved
    let caughtUp : PeerRoundState :=
      if prs.height = height ∧ prs.round ≠ round ∧ round = prs.catchupCommitRound then
        { cleared with precommits := prs.catchupCommit, sameArray := prs.catchupCommit.isSome }
      else cleared
    if prs.height ≠ height then
      { caughtUp with
        lastCommitRound := lastCommitRound
        catchupCommitRound := -1
        catchupCommit := none
        sameArray := false }
    else caughtUp

def applyNewValidBlockMessage (blockParts : BitArray) (isCommit : Bool) : PeerRoundState :=
  if prs.height ≠ height then prs
  else if prs.round ≠ round ∧ isCommit = false then prs
  else { prs with proposalBlockPartSetHeader := header, proposalBlockParts := some blockParts }

def applyProposalPOLMessage (height polRound : ℤ) (pol : BitArray) : PeerRoundState :=
  if prs.height ≠ height then prs
  else if prs.proposalPOLRound ≠ polRound then prs
  else { prs with proposalPOL := some pol }

def applyHasVoteMessage (type : SignedMsgType) (index : ℤ) : PeerRoundState :=
  if prs.height ≠ height then prs else prs.setHasVote height round type index

def applyHasCommitMessage : PeerRoundState :=
  if prs.height ≠ height then prs else prs.setHasCommit height round

def applyVoteSetBitsMessage (type : SignedMsgType)
    (msgVotes : BitArray) (ourVotes : Option BitArray) : PeerRoundState :=
  prs.updateVotes height round type fun votes =>
    match ourVotes with
    | none => some (votes.update msgVotes)
    | some ourVotes => some (votes.update ((votes.sub ourVotes).or msgVotes))

/-! ### Runs -/

/-- What changes the state of a peer. A vote, proposal, commit or part is sent to the peer or received
from it. A part is named by its place and, for the record, by the part set it is of. -/
inductive Op where
  | newRoundStep (height round : ℤ) (step : ℕ) (lastCommitRound : ℤ)
  | newValidBlock (height round : ℤ) (header : PartSetHeader) (blockParts : BitArray) (isCommit : Bool)
  | proposalPOL (height polRound : ℤ) (pol : BitArray)
  | hasVote (height round : ℤ) (type : SignedMsgType) (index : ℤ)
  | hasCommit (height round : ℤ)
  | voteSetBits (height round : ℤ) (type : SignedMsgType) (votes : BitArray) (ourVotes : Option BitArray)
  | commit (height round : ℤ) (header : PartSetHeader)
  | vote (height round : ℤ) (type : SignedMsgType) (index : ℤ)
  | proposal (height round polRound : ℤ) (header : PartSetHeader)
  | part (height round : ℤ) (header : PartSetHeader) (index : ℕ)
  | ensureVoteBitArrays (height : ℤ) (numValidators : ℕ)
  | pickVoteToSend (height round : ℤ) (isCommit : Bool) (size : ℕ)
  | initProposalBlockParts (header : PartSetHeader)
  | updateProposalBlockParts (header : PartSetHeader)
  deriving DecidableEq

def apply : Op → PeerRoundState
  | .newRoundStep height round step lastCommitRound =>
    prs.applyNewRoundStepMessage height round step lastCommitRound
  | .newValidBlock height round header blockParts isCommit =>
    prs.applyNewValidBlockMessage height round header blockParts isCommit
  | .proposalPOL height polRound pol => prs.applyProposalPOLMessage height polRound pol
  | .hasVote height round type index => prs.applyHasVoteMessage height round type index
  | .hasCommit height round => prs.applyHasCommitMessage height round
  | .voteSetBits height round type votes ourVotes =>
    prs.applyVoteSetBitsMessage height round type votes ourVotes
  | .commit height round header => prs.setHasCommitMessage height round header
  | .vote height round type index => prs.setHasVote height round type index
  | .proposal height round polRound header => prs.setHasProposal height round polRound header
  | .part height round _ index => prs.setHasProposalBlockPart height round index
  | .ensureVoteBitArrays height numValidators => prs.ensureVoteBitArrays height numValidators
  | .pickVoteToSend height round isCommit size => prs.pickVoteToSend height round isCommit size
  | .initProposalBlockParts header => prs.initProposalBlockParts header
  | .updateProposalBlockParts header => prs.updateProposalBlockParts header

namespace Op

def TellsVote (height round : ℤ) (type : SignedMsgType) (i : ℕ) : Op → Prop
  | .proposalPOL h r pol => h = height ∧ r = round ∧ type = .prevote ∧ pol.getIndex i = true
  | .hasVote h r t index => h = height ∧ r = round ∧ t = type ∧ index = i
  | .voteSetBits h r t votes _ => h = height ∧ r = round ∧ t = type ∧ votes.getIndex i = true
  | .vote h r t index => h = height ∧ r = round ∧ t = type ∧ index = i
  | _ => False

def TellsPart (header : PartSetHeader) (i : ℕ) : Op → Prop
  | .newValidBlock _ _ psh blockParts _ => psh = header ∧ blockParts.getIndex i = true
  | .part _ _ psh index => psh = header ∧ index = i
  | _ => False

end Op

def ToldVote (past : List Op) (height round : ℤ) (type : SignedMsgType) (i : ℕ) : Prop :=
  ∃ op ∈ past, op.TellsVote height round type i

def ToldPart (past : List Op) (header : PartSetHeader) (i : ℕ) : Prop :=
  ∃ op ∈ past, op.TellsPart header i

end PeerRoundState

end Tenderdash
