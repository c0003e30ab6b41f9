import Tenderdash.Consensus.EventMoves

/-!
What is kept along an event. The handlers of commits, of block parts and of precommits are made up of a few actions,
and what these keep up the handlers keep up: `Kept`. The commits a node acts on may be assumed to be of a kind.
-/

namespace Tenderdash

open Lib Go HeightVoteSet Same

namespace StateData

variable {W : World} {cfg : Config} {sd sd' : StateData} {height round : ℤ} {result : Except ConsensusError Unit}
  {blockID : BlockID} {vote : Vote}

/-! ### Entering a step leaves the votes alone -/

lemma enterPrevote_votes (h : sd.enterPrevote W cfg height round = .ok (sd', result)) : sd'.votes = sd.votes := by
  unfold enterPrevote at h
  split at h
  · cases h
    rfl
  obtain ⟨⟨sd₁, result₁⟩, hp, h⟩ := of_bind h
  cases h
  obtain ⟨sd₂, blockID, ⟨_, _, _, _, -, rfl⟩, ⟨_, rfl, -⟩, -⟩ := prevote_spec hp
  rfl

lemma enterPrecommit_votes (h : sd.enterPrecommit W cfg height round = .ok sd') : sd'.votes = sd.votes := by
  unfold enterPrecommit at h
  split at h
  · cases h
    rfl
  obtain ⟨sd₂, hp, h⟩ := of_bind h
  cases h
  rcases precommit_cases hp with ⟨sd₁, hs₁, ⟨_, rfl, -⟩⟩ |
    ⟨blockID, sd₁, -, -, -, ⟨_, _, _, _, -, rfl⟩, ⟨-, ⟨_, rfl, -⟩⟩ | ⟨sd₃, ⟨_, rfl, -⟩, rfl⟩⟩
  · rcases hs₁ with rfl | ⟨blockID, rfl⟩
    · rfl
    · obtain ⟨proposal, heq | ⟨parts, heq⟩⟩ := retargetTo_cases sd blockID <;> rw [heq] <;> rfl
  · rfl
  unfold updateValidBlock
  dsimp only
  split <;> rfl

lemma startRound_votes (h : sd.startRound round = .ok sd') : Evolves Same sd.votes sd'.votes := by
  obtain ⟨votes, hv, h⟩ := of_bind h
  cases h
  have hs : (if round = 0 then sd.updateRoundStep round .newRound
      else (sd.updateRoundStep round .newRound).resetProposal).votes = sd.votes := by
    split
    · rfl
    obtain ⟨proposal, ⟨-, heq⟩ | ⟨parts, heq⟩⟩ :=
      resetProposal_cases (sd.updateRoundStep round .newRound) <;> rw [heq] <;> rfl
  rw [← hs]
  exact evolves_setRound hv

lemma entered_votes (W : World) (cfg : Config) : Entered W cfg fun sd sd' => Evolves Same sd.votes sd'.votes where
  refl sd := .refl refl sd.votes
  trans h h' := h.of_same h'
  scheduled sd _ _ _ := .refl refl sd.votes
  started := startRound_votes
  consulted hc := by
    obtain ⟨_, _, _, _, -, rfl⟩ := hc.talks
    exact .refl refl _
  proposing sd _ := .refl refl sd.votes
  prevote hpr := enterPrevote_votes hpr ▸ .refl refl _
  prevoteWait hw := by
    unfold enterPrevoteWait at hw
    split_ifs at hw <;> cases hw <;> exact .refl refl _
  precommit hp := enterPrecommit_votes hp ▸ .refl refl _

lemma majority_at_commit {sd₁ : StateData}
    (hm : twoThirdsMajority (sd.votes.precommits vote.round) = some blockID)
    (hn : sd.enterNewRound W cfg height vote.round = .ok (sd₁, result))
    (hp : sd₁.enterPrecommit W cfg height vote.round = .ok sd') :
    twoThirdsMajority (sd'.votes.precommits vote.round) = some blockID := by
  rw [enterPrecommit_votes hp]
  refine ((entered_votes W cfg).newRound hn).majority_mono (t := .precommit) (fun vs vs' hs h => ?_) hm
  rw [show vs' = vs from hs, h]

/-! ### Handlers -/

structure Kept (W : World) (cfg : Config) (ok : Commit → Prop) (P : StateData → Prop) : Prop
    extends Entered W cfg fun sd sd' => P sd → P sd' where
  precommitWait : ∀ {sd sd' height round}, enterPrecommitWait sd height round = .ok sd' → P sd → P sd'
  validated : ∀ {sd}, P sd → P sd.updateValidBlock
  polka : ∀ {sd} vote, P sd → P (updateValidOnPolka sd vote)
  applied : ∀ {sd sd' commit result}, applyCommit W sd commit = .ok (sd', result) → P sd → P sd'
  decided : ∀ {sd blockID} commitRound, twoThirdsMajority (sd.votes.precommits commitRound) = some blockID →
    blockID.isNil = false → P sd → P ((sd.updateStateData blockID).atCommit commitRound)
  collecting : ∀ {sd commit}, ok commit → P sd → P (sd.updateStateData commit.blockID)
  committing : ∀ {sd commit}, ok commit → P sd → P ((sd.updateStateData commit.blockID).atCommit commit.round)
  parked : ∀ {sd : StateData} {commit}, ok commit → P sd → P { sd with commit := some commit }
  adopted : ∀ {sd commit}, ok commit → P sd → P (sd.adoptCommit commit)
  queued : ∀ {sd : StateData} {commit} peerID fromReplay, ok commit → P sd →
    P { sd with candidates := sd.candidates.add W.connected sd.height commit peerID fromReplay }
  givenUp : ∀ {sd : StateData}, P sd → P { sd with commit := none }
  selected : ∀ {sd sd' parked found}, selectParkedCommit W sd parked = .ok (sd', found) → sd.commit = some parked →
    P sd → P sd' ∧ ∀ commit ∈ found, ok commit
  added : ∀ {sd : StateData} {parts parts' part added}, sd.proposalBlockParts = some parts →
    parts.addPart cfg.C.merkle part = (parts', added) → P sd → P { sd with proposalBlockParts := some parts' }
  completed : ∀ {sd : StateData} {block parts} proposal, parts.isComplete = true →
    cfg.decode (readParts parts) = some block →
    P { sd with proposalBlockParts := some parts } →
    P { sd with proposal := proposal, proposalBlock := some block, proposalBlockParts := some parts }

namespace Kept

variable {ok : Commit → Prop} {P : StateData → Prop} (hP : Kept W cfg ok P) {commit : Commit} {part : Part Bytes}

include hP

lemma finalizeCommit (h : sd.finalizeCommit W height = .ok sd') (hsd : P sd) : P sd' := by
  unfold StateData.finalizeCommit at h
  split at h
  · cases h
    exact hsd
  split at h
  · cases h
  split at h
  · cases h
  split_ifs at h
  obtain ⟨commit, -, h⟩ := of_bind h
  split at h
  · cases h
    exact hsd
  obtain ⟨sd₁, hp, h⟩ := of_bind h
  obtain ⟨⟨sd₂, verified⟩, hv, h⟩ := of_bind h
  have h₂ : P sd₂ := hP.consulted ((mustEnsureProcess_consults hp).tail (.asked hv)) hsd
  cases verified with
  | error e =>
    cases h
    exact h₂
  | ok _ =>
    obtain ⟨⟨sd₃, result⟩, ha, h⟩ := of_bind h
    cases h
    exact hP.applied ha h₂

lemma tryFinalizeCommit (h : sd.tryFinalizeCommit W height = .ok sd') (hsd : P sd) : P sd' := by
  unfold StateData.tryFinalizeCommit at h
  split at h
  · cases h
  split at h
  · cases h
    exact hsd
  split at h
  · cases h
    exact hsd
  · exact hP.finalizeCommit h hsd

lemma enterCommit {commitRound : ℤ}
    (hm : twoThirdsMajority (sd.votes.precommits commitRound) = some blockID) (hn : blockID.isNil = false)
    (h : sd.enterCommit W height commitRound = .ok sd') (hsd : P sd) : P sd' := by
  unfold StateData.enterCommit at h
  rw [hm] at h
  split at h
  · cases h
    exact hsd
  · exact hP.tryFinalizeCommit h (hP.decided commitRound hm hn hsd)

lemma addCommit (hok : ok commit) (h : sd.addCommit W cfg commit = .ok (sd', result)) (hsd : P sd) : P sd' := by
  rcases addCommit_cases h with ⟨-, rfl⟩ | ⟨sd₁, applied, ha, he⟩
  · exact hP.collecting hok hsd
  have h₁ : P sd₁ := hP.applied ha (hP.committing hok hsd)
  rcases he with rfl | ⟨-, entered, hn⟩
  · exact h₁
  · exact hP.newRound hn h₁

lemma validateOnComplete (hsd : P sd) : P sd.validateOnComplete := by
  unfold StateData.validateOnComplete
  split
  · exact hsd
  split
  · exact hP.validated hsd
  · exact hsd

lemma proposalCompleted (h : sd.proposalCompleted W cfg height = .ok (sd', result)) (hsd : P sd) : P sd' := by
  have hv := hP.validateOnComplete hsd
  rcases proposalCompleted_cases h with ⟨-, sd₁, entered, hp, rfl | hpr⟩ | hf | ⟨-, rfl⟩
  · exact hP.prevote hp hv
  · exact hP.precommit hpr (hP.prevote hp hv)
  · exact hP.tryFinalizeCommit hf hv
  · exact hv

lemma dispatchPrecommit (h : sd.dispatchPrecommit W cfg vote = .ok sd') (hsd : P sd) : P sd' := by
  rcases dispatchPrecommit_cases h with rfl | ⟨sd₁, entered, hn, he⟩
  · exact hsd
  have h₁ : P sd₁ := hP.newRound hn hsd
  rcases he with hw | ⟨sd₂, hp, he⟩
  · exact hP.precommitWait hw h₁
  have h₂ : P sd₂ := hP.precommit hp h₁
  rcases he with hw | ⟨blockID, sd₃, entered, hm, hni, hc, hn'⟩
  · exact hP.precommitWait hw h₂
  · exact hP.newRound hn' (hP.enterCommit (majority_at_commit hm hn hp) hni hc h₂)

section Vote

variable {ref : VoteRef} {outcome : Except ConsensusError Bool}

lemma addToVoteSet {check : VoteSet.VoteCheck} (h : sd.addToVoteSet W cfg ref check = .ok (sd', outcome))
    (hv : ∀ {votes added err}, sd.votes.addVote cfg.C ref check = .ok (votes, added, err) →
      P { sd with votes := votes }) : P sd' := by
  obtain ⟨votes, added, err, ha, he⟩ := addToVoteSet_cases h
  rcases he with rfl | hd | ⟨-, hd⟩
  · exact hv ha
  · exact hP.dispatchPrevote hd (hP.polka _ (hv ha))
  · exact hP.dispatchPrecommit hd (hv ha)

lemma addVote {peerID : String} {fromReplay : Bool} (h : sd.addVote W cfg ref peerID fromReplay = .ok (sd', outcome))
    (hsd : P sd) (hv : ∀ {sd₁ check votes added err}, P sd₁ → VoteSet.VoteCheck.Minted cfg.C check →
      sd.votes.addVote cfg.C ref check = .ok (votes, added, err) → P { sd₁ with votes := votes }) : P sd' := by
  obtain ⟨sd₁, sd₂, hs, hst, hr⟩ := addVote_cases h
  have h₁ : P sd₁ := hP.consulted hs.consults hsd
  have hsa : sd₁.votes = sd.votes := congrArg View.votes hs.consults.view
  have h₂ : P sd₂ := by
    rcases hst with rfl | ⟨check, stored, hm, ha⟩
    · exact h₁
    · exact hP.addToVoteSet ha fun ha => hv h₁ hm (hsa ▸ ha)
  rcases hr with rfl | ⟨e, hr⟩
  · exact h₂
  · exact hP.consulted (handleVoteError_consults W hr) h₂

end Vote

section Peers

variable {peerID : String} {fromReplay : Bool}

lemma addCurrentCommit (hok : sd.view.Verifies cfg.C commit → ok commit)
    (h : sd.addCurrentCommit W cfg commit peerID fromReplay = .ok (sd', result)) (hsd : P sd) : P sd' := by
  rcases addCurrentCommit_cases h with ⟨sd₁, hc, rfl | ⟨e, rfl⟩ | ⟨hv, ha⟩⟩ | ⟨hv, rfl⟩
  · exact hP.consulted hc.consults hsd
  · exact hP.consulted (hc.consults.trans (handleCommitVerifyError_consults W sd₁ e peerID fromReplay)) hsd
  · exact hP.addCommit (hok hv) ha (hP.parked (hok hv) (hP.consulted hc.consults hsd))
  · exact hP.adopted (hok hv) hsd

lemma addLaterCommit (hok : ok commit) (h : sd.addLaterCommit W cfg commit peerID fromReplay = .ok (sd', result))
    (hsd : P sd) : P sd' := by
  obtain ⟨sd₁, hc, ⟨e, rfl⟩ | ⟨sd₂, entered, hn, he⟩⟩ := addLaterCommit_cases h
  · exact hP.consulted (handleCommitVerifyError_consults W _ e peerID fromReplay)
      (hP.givenUp (hP.consulted hc.consults hsd))
  have h₂ : P sd₂ := hP.newRound hn (hP.consulted hc.consults hsd)
  rcases he with rfl | ha
  · exact h₂
  · exact hP.addCommit hok ha h₂

lemma tryAddCommit (hok : sd.view.Verifies cfg.C commit → ok commit)
    (h : sd.tryAddCommit W cfg commit peerID fromReplay = .ok (sd', result)) (hsd : P sd) : P sd' := by
  cases tryAddCommit_cases h with
  | ignored => exact hsd
  | refused e => exact hP.consulted (handleCommitVerifyError_consults W sd e peerID fromReplay) hsd
  | queued _ hv => exact hP.queued peerID fromReplay (hok hv) hsd
  | current _ h => exact hP.addCurrentCommit hok h hsd
  | later _ hv h => exact hP.addLaterCommit (hok hv) h (hP.adopted (hok hv) hsd)

end Peers

lemma addProposalBlockPart {added : Except ConsensusError Bool}
    (h : sd.addProposalBlockPart W cfg height part = .ok (sd', added)) (hsd : P sd) : P sd' := by
  unfold StateData.addProposalBlockPart at h
  split at h
  · cases h
    exact hsd
  next parts hpa =>
  split at h
  · cases h
    exact hsd
  split at h
  · cases h
  · cases h
    exact hsd
  next parts' new hn =>
  have h₁ := hP.added hpa hn hsd
  dsimp only at h
  split at h
  · cases h
    exact h₁
  split at h
  · cases h
    exact h₁
  next hc =>
  simp only [not_or, Bool.not_eq_false] at hc
  split at h
  · cases h
    exact h₁
  next block hd =>
  have h₂ := hP.completed (correctedProposal { sd with proposalBlockParts := some parts' } block) hc.2 hd h₁
  split at h
  · cases h
    exact h₂
  next parked hp =>
  obtain ⟨⟨sd₁, found⟩, hs, h⟩ := of_bind h
  obtain ⟨h₃, hok⟩ := hP.selected hs hp h₂
  cases found with
  | none =>
    cases h
    exact h₃
  | some commit =>
    obtain ⟨⟨sd₂, r⟩, ha, h⟩ := of_bind h
    have h₄ := hP.addCommit (hok commit rfl) ha h₃
    cases r <;> cases h <;> exact h₄

lemma addBlockPart (h : sd.addBlockPart W cfg height part = .ok (sd', result)) (hsd : P sd) : P sd' := by
  obtain ⟨⟨sd₁, added⟩, hp, h⟩ := of_bind h
  have h₁ : P sd₁ := hP.addProposalBlockPart hp hsd
  cases added with
  | error e =>
    cases h
    exact h₁
  | ok added =>
    dsimp only at h
    split at h
    · exact hP.proposalCompleted h h₁
    cases h
    exact h₁

end Kept

end StateData

end Tenderdash
