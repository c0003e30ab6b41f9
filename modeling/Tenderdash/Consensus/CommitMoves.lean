import Tenderdash.Consensus.ActionMoves

/-!
Commits are moves. A block is applied only with a majority of precommits for it or a commit that is parked,
and the height then ends: `applyCommit_moves`. The actions around it, and the branches a commit from a peer
takes, are sequences of moves that end with it or leave the commit parked.
-/

namespace Tenderdash.StateData

open Lib Go HeightVoteSet List Bool

variable {W : World} {cfg : Config} {sd sd' : StateData} {I : Intake}

def Answers (W : World) (I : Intake) : Prop :=
  ∀ n state crs blockID commit next immediately,
    W.finalizeBlock n state crs blockID commit = .ok (next, immediately) → I.next next

/-! ### Applying a commit -/

variable {commit : Commit} {result : Except ConsensusError Unit} {height : ℤ} {budget : Option VerificationBudget}
  {state : ChainState} {blockID : BlockID} {commitRound : ℤ} {selector : Bool} {C : Crypto}

lemma verifyCommitBlock_spec (h : sd.verifyCommitBlock commit = .ok true) {block : Block}
    (hb : sd.proposalBlock = some block) :
    commit.blockID.isNil = false ∧ sd.finalizedBlockID block = commit.blockID := by
  unfold verifyCommitBlock at h
  rw [hb] at h
  dsimp only at h
  split_ifs at h with hhe hh hs
  obtain ⟨parts, hp, heq⟩ := (Option.any_eq_true ..).mp (eq_true_of_not_eq_false hhe)
  simp only [hashesTo, Option.any_some, decide_eq_true_eq, not_eq_false] at hh
  simp only [decide_eq_true_eq] at heq
  obtain ⟨hl, hh⟩ := hh
  constructor
  · simp [BlockID.isNil, hl]
  unfold finalizedBlockID
  rw [hp, hh, not_not.mp hs]
  simp [heq]

lemma updateToState_spec {commit : Option Commit}
    (h : sd.updateToState state commit selector = .ok sd') (hp : 1 ≤ sd.height) (hr : 0 ≤ sd.commitRound) :
    state.lastBlockHeight = sd.height ∧ ∃ lastCommit votes,
      new state.chainID state.nextHeight state.validators = .ok votes ∧
      sd' = atHeight state lastCommit votes sd.currentRoundState sd.processedBlockID sd.candidates
        sd.expectations sd.outputs := by
  unfold updateToState at h
  split_ifs at h with h₁ h₂ h₃ h₄ hs
  · -- the state is never an older one
    omega
  · obtain ⟨_, -, h⟩ := of_bind h
    cases h
  obtain ⟨lastCommit, -, h⟩ := of_bind h
  obtain ⟨votes, hv, h⟩ := of_bind h
  cases h
  exact ⟨by omega, lastCommit, votes, hv, rfl⟩

lemma updateToState_view
    {block : Option Block} (ht : Talks sd sd') (hp : 1 ≤ sd.view.height)
    (hr : 0 ≤ sd.view.commitRound) {sd₂ : StateData}
    (h : ((sd'.emit (.saveBlock block commit)).emit (.finalizeBlock sd'.height blockID commit)).updateToState
      state (some commit) selector = .ok sd₂) :
    state.lastBlockHeight = sd.view.height ∧ ∃ votes,
      new state.chainID state.nextHeight state.validators = .ok votes ∧
      (sd₂.scheduleTimeout sd₂.height 0 .newHeight).view = sd.view.next state votes blockID := by
  have hv := ht.view
  have hp' : 1 ≤ sd'.view.height := hv ▸ hp
  have hr' : 0 ≤ sd'.view.commitRound := hv ▸ hr
  obtain ⟨hl, lastCommit, votes, hvo, rfl⟩ := updateToState_spec h hp' hr'
  refine ⟨hl.trans (congrArg View.height hv), votes, hvo, ?_⟩
  simp only [view, View.mk.injEq] at hv
  rw [scheduleTimeout_view]
  simp only [view, atHeight, emit, View.next, View.start, filterMap_append, filterMap_cons,
    filterMap_nil, Output.asked, Output.tick, Output.finalized, append_nil, identify_none,
    Option.isSome_none, hv]

lemma applyCommit_moves (ha : Answers W I) (h : sd.applyCommit W commit = .ok (sd', result)) (hpo : 1 ≤ sd.view.height)
    (hr : 0 ≤ sd.view.commitRound)
    (hd : (∃ r, sd.view.majority r = some commit.blockID) ∨ ∃ c, sd.view.parked = some c ∧ c.blockID = commit.blockID) :
    Moves I sd.view sd'.view := by
  unfold applyCommit at h
  split at h
  · cases h
    exact .refl
  · next block hv hb =>
    obtain ⟨sd₁, hp, h⟩ := of_bind h
    have ht := (mustEnsureProcess_consults hp).talks
    obtain ⟨_, -, h⟩ := of_bind h
    dsimp only at h
    split_ifs at h
    · cases h
    obtain ⟨⟨state, immediately⟩, hs, h⟩ := of_bind h
    obtain ⟨sd₂, hu, h⟩ := of_bind h
    cases h
    obtain ⟨hn, hbi⟩ := verifyCommitBlock_spec hv hb
    have hb' : (sd₁.emit (.saveBlock (some block) commit)).finalizedBlockID block = commit.blockID := by
      obtain ⟨_, _, _, _, -, rfl⟩ := ht
      exact hbi
    rw [hb'] at hu
    obtain ⟨hl, votes, hvo, hvi⟩ := updateToState_view ht hpo hr hu
    -- the wish of the application does not show
    have hsa : ∀ sd₃, sd₃ = (if immediately = true then { sd₂ with proposeNextBlockImmediately := true } else sd₂) →
        (sd₃.scheduleTimeout sd₃.height 0 .newHeight).view = sd.view.next state votes commit.blockID := by
      rintro _ rfl
      rw [← hvi]
      split <;> rfl
    rw [hsa _ rfl]
    exact .single (.apply state votes commit.blockID (ha _ _ _ _ _ _ _ hs) hl hvo hn hd)
  · cases h
    exact .refl

/-! ### The commit step -/

lemma updateStateData_cases (sd : StateData) (blockID : BlockID) :
    ∃ proposal, sd.updateStateData blockID = { sd with proposal := proposal } ∨
      sd.updateStateData blockID = { sd with
        proposal := proposal, proposalBlock := sd.lockedBlock, proposalBlockParts := sd.lockedBlockParts } ∨
      ∃ parts, sd.updateStateData blockID =
        { sd with proposal := proposal, proposalBlock := none, proposalBlockParts := parts } := by
  obtain ⟨proposal, hr⟩ : ∃ proposal,
      sd.replaceProposalBlockOnLockedBlock blockID = { sd with proposal := proposal } ∨
      sd.replaceProposalBlockOnLockedBlock blockID = { sd with
        proposal := proposal, proposalBlock := sd.lockedBlock, proposalBlockParts := sd.lockedBlockParts } := by
    obtain ⟨proposal, hd⟩ := dropStaleProposal_eq sd blockID
    unfold replaceProposalBlockOnLockedBlock
    rw [hd]
    split
    · exact ⟨proposal, .inr rfl⟩
    · exact ⟨sd.proposal, .inl rfl⟩
  unfold updateStateData
  dsimp only
  split
  · exact ⟨proposal, hr.imp_right .inl⟩
  obtain ⟨proposal', heq | ⟨parts, heq⟩⟩ := retargetTo_cases (sd.replaceProposalBlockOnLockedBlock blockID) blockID
  · rw [heq]
    rcases hr with hr | hr <;> rw [hr]
    · exact ⟨proposal', .inl rfl⟩
    · exact ⟨proposal', .inr (.inl rfl)⟩
  rw [heq]
  rcases hr with hr | hr <;> rw [hr] <;> exact ⟨proposal', .inr (.inr ⟨parts, rfl⟩)⟩

lemma atCommit_moves (sd : StateData) (blockID : BlockID) (hr : 0 ≤ commitRound) :
    Moves I sd.view ((sd.updateStateData blockID).atCommit commitRound).view := by
  obtain ⟨proposal, heq | heq | ⟨parts, heq⟩⟩ := updateStateData_cases sd blockID
  · rw [heq]
    exact .single (.enterCommit commitRound hr)
  · rw [heq]
    exact .head (.enterCommit commitRound hr) (.single (.retake rfl))
  rw [heq]
  exact .head (.enterCommit commitRound hr) (.single (.drop parts.isSome))

lemma atCommit_frame (sd : StateData) (blockID : BlockID) (commitRound : ℤ) :
    ((sd.updateStateData blockID).atCommit commitRound).view.height = sd.view.height ∧
      ((sd.updateStateData blockID).atCommit commitRound).view.parked = sd.view.parked := by
  obtain ⟨proposal, heq | heq | ⟨parts, heq⟩⟩ := updateStateData_cases sd blockID <;> rw [heq] <;> exact ⟨rfl, rfl⟩

lemma blockID_of_makeCommit {vs : VoteSet} (h : vs.makeCommit = .ok commit) (hm : vs.maj23 = some blockID) : commit.blockID = blockID := by
  unfold VoteSet.makeCommit at h
  split at h
  · cases h
  rw [hm] at h
  dsimp only at h
  split at h
  · cases h
  unfold VoteSet.newCommit at h
  dsimp only at h
  split at h
  · cases h
  cases h
  rfl

section

variable (ha : Answers W I)

include ha

lemma finalizeCommit_moves (hpo : 1 ≤ sd.view.height)
    (hr : sd.view.step = .applyCommit → 0 ≤ sd.view.commitRound)
    (h : sd.finalizeCommit W height = .ok sd') : Moves I sd.view sd'.view := by
  unfold finalizeCommit at h
  split at h
  · cases h
    exact .refl
  next hl =>
  have hs : sd.view.step = .applyCommit := not_not.mp (not_or.mp hl).2
  split at h
  · cases h
  next precommits hp =>
  split at h
  · cases h
  next blockID hm =>
  split_ifs at h
  obtain ⟨seenCommit, hse, h⟩ := of_bind h
  split at h
  · cases h
    exact .refl
  obtain ⟨sd₁, hpr, h⟩ := of_bind h
  obtain ⟨⟨sd₂, result⟩, hv, h⟩ := of_bind h
  have hvi := Consults.view ((mustEnsureProcess_consults hpr).tail (.asked hv))
  cases result with
  | error e =>
    cases h
    rw [hvi]
  | ok _ =>
    obtain ⟨⟨sd₃, result⟩, hap, h⟩ := of_bind h
    cases h
    have hd : sd.view.majority sd.view.commitRound = some seenCommit.blockID := by
      rw [blockID_of_makeCommit hse hm]
      show twoThirdsMajority (sd.votes.precommits sd.commitRound) = _
      rw [hp]
      exact hm
    rw [← hvi] at hpo hr hd hs ⊢
    exact applyCommit_moves ha hap hpo (hr hs) (.inl ⟨_, hd⟩)

lemma tryFinalizeCommit_moves (hp : 1 ≤ sd.view.height)
    (hr : sd.view.step = .applyCommit → 0 ≤ sd.view.commitRound)
    (h : sd.tryFinalizeCommit W height = .ok sd') : Moves I sd.view sd'.view := by
  unfold tryFinalizeCommit at h
  split at h
  · cases h
  split at h
  · cases h
    exact .refl
  split at h
  · cases h
    exact .refl
  · exact finalizeCommit_moves ha hp hr h

lemma enterCommit_moves (hp : 1 ≤ sd.view.height)
    (hr : 0 ≤ commitRound) (h : sd.enterCommit W height commitRound = .ok sd') : Moves I sd.view sd'.view := by
  unfold enterCommit at h
  split at h
  · cases h
    exact .refl
  split at h
  · cases h
  next blockID _ =>
  refine (atCommit_moves sd blockID hr).trans ?_
  refine tryFinalizeCommit_moves ha ?_ (fun _ => hr) h
  rw [(atCommit_frame sd blockID commitRound).1]
  exact hp

lemma addCommit_moves (h : sd.addCommit W cfg commit = .ok (sd', result)) (hpo : 1 ≤ sd.view.height)
    (hr : 0 ≤ commit.round) (hp : sd.view.parked = some commit) : Moves I sd.view sd'.view := by
  rcases addCommit_cases h with ⟨hn, rfl⟩ | ⟨sd₁, applied, hap, he⟩
  · -- the block is collected
    obtain ⟨proposal, heq | heq | ⟨parts, heq⟩⟩ := updateStateData_cases sd commit.blockID
    · rw [heq]
      exact .refl
    · rw [heq] at hn ⊢
      have hv : view { sd with
          proposal := proposal, proposalBlock := sd.lockedBlock, proposalBlockParts := sd.lockedBlockParts } =
          { sd.view with held := none, heldParts := sd.lockedBlockParts.isSome } := by
        simp only [view, show sd.lockedBlock = none from hn, identify_none]
      rw [hv]
      exact .single (.drop _)
    · rw [heq]
      exact .single (.drop parts.isSome)
  obtain ⟨hh, hp'⟩ := atCommit_frame sd commit.blockID commit.round
  have hm : Moves I sd.view sd₁.view := (atCommit_moves sd commit.blockID hr).trans
    (applyCommit_moves ha hap (hh.symm ▸ hpo) hr (.inr ⟨commit, hp'.trans hp, rfl⟩))
  rcases he with rfl | ⟨-, entered, hne⟩
  · exact hm
  · exact hm.trans (enterNewRound_advance hne).1.moves

end

/-! ### Commits from peers -/

lemma verifies_of_verifyCommitSignatures (hv : commit.validateBasic = .ok ())
    (hh : commit.height = sd.height) (h : sd.verifyCommitSignatures C commit budget = .ok ()) :
    sd.view.Verifies C commit := ⟨hh, (Commit.validateBasic_spec hv).1, budget, h⟩

lemma park_moves (hp : sd.view.parked = none) (hle : sd.view.queuedFor ≤ sd.view.height) (hg : I.given commit)
    (hv : sd.view.Verifies I.C commit) : Moves I sd.view { sd.view with parked := some commit } := by
  refine .single (.commits (some commit) sd.view.queuedFor sd.view.queued ?_ hle ?_ ?_)
  · rintro c ⟨⟩
    exact .inr (.inr ⟨hg, hv⟩)
  · exact fun heq c hc => .inl ⟨heq, hc⟩
  intro _ hs
  rw [hp] at hs
  cases hs

lemma readyToApplyCommit_cases {ignoreProposalBlock : Bool} {result : Except ConsensusError Bool}
    (h : sd.readyToApplyCommit C commit ignoreProposalBlock budget = .ok (sd', result)) :
    (sd' = sd ∧ (result = .ok true → ignoreProposalBlock = false ∧ sd.view.Verifies C commit)) ∨
    (sd' = sd.adoptCommit commit ∧ sd.view.Verifies C commit ∧ result = .ok ignoreProposalBlock) := by
  obtain ⟨valid, hva, h⟩ := of_bind h
  cases valid with
  | error msg =>
    cases h
    exact .inl ⟨rfl, nofun⟩
  | ok _ =>
    dsimp only at h
    split at h
    · cases h
      exact .inl ⟨rfl, nofun⟩
    next hh =>
    obtain ⟨verified, hve, h⟩ := of_bind h
    cases verified with
    | error why =>
      cases h
      exact .inl ⟨rfl, nofun⟩
    | ok _ =>
      have hv := verifies_of_verifyCommitSignatures (settle_eq_ok_ok.mp hva) (not_not.mp hh) (settle_eq_ok_ok.mp hve)
      split_ifs at h with hr hi hho
      · cases h
        exact .inl ⟨rfl, nofun⟩
      · cases h
        exact .inr ⟨rfl, hv, by rw [hi]⟩
      · cases h
        exact .inl ⟨rfl, fun _ => ⟨eq_false_iff.mpr hi, hv⟩⟩
      cases h
      exact .inr ⟨rfl, hv, by rw [eq_false_iff.mpr hi]⟩

inductive Tried (W : World) (cfg : Config) (sd : StateData) (commit : Commit) (peerID : String) (fromReplay : Bool) :
    StateData → Prop
  | ignored : Tried W cfg sd commit peerID fromReplay sd
  | refused (e : ConsensusError) :
      Tried W cfg sd commit peerID fromReplay (sd.handleCommitVerifyError e peerID fromReplay)
  | queued {parked : Commit} (hp : sd.commit = some parked) (hv : sd.view.Verifies cfg.C commit) :
      Tried W cfg sd commit peerID fromReplay { sd with
        candidates := sd.candidates.add W.connected sd.height commit peerID fromReplay }
  | current {sd' : StateData} {result : Except ConsensusError Unit} (hn : sd.commit = none)
      (h : sd.addCurrentCommit W cfg commit peerID fromReplay = .ok (sd', result)) :
      Tried W cfg sd commit peerID fromReplay sd'
  | later {sd' : StateData} {result : Except ConsensusError Unit} (hn : sd.commit = none)
      (hv : sd.view.Verifies cfg.C commit)
      (h : (sd.adoptCommit commit).addLaterCommit W cfg commit peerID fromReplay = .ok (sd', result)) :
      Tried W cfg sd commit peerID fromReplay sd'

lemma queueCandidate_cases {parked : Commit} {peerID : String} {fromReplay : Bool} (hp : sd.commit = some parked)
    (hh : commit.height = sd.height) (h : sd.queueCandidate W cfg parked commit peerID fromReplay = .ok (sd', result)) :
    sd' = sd ∨ (result = .ok () ∧ Tried W cfg sd commit peerID fromReplay sd') := by
  obtain ⟨valid, hva, h⟩ := of_bind h
  cases valid with
  | error msg =>
    cases h
    exact .inl rfl
  | ok _ =>
    dsimp only at h
    split at h
    · cases h
      exact .inl rfl
    obtain ⟨verified, hv, h⟩ := of_bind h
    cases verified with
    | error why =>
      cases h
      exact .inl rfl
    | ok _ =>
      cases h
      exact .inr ⟨rfl, .queued hp (verifies_of_verifyCommitSignatures (settle_eq_ok_ok.mp hva) hh
        (settle_eq_ok_ok.mp hv))⟩

lemma tryAddCommit_cases {peerID : String} {fromReplay : Bool}
    (h : sd.tryAddCommit W cfg commit peerID fromReplay = .ok (sd', result)) :
    Tried W cfg sd commit peerID fromReplay sd' := by
  unfold tryAddCommit at h
  split at h
  · next parked hp =>
    split at h
    · next hh =>
      obtain ⟨⟨sd₁, queued⟩, hq, h⟩ := of_bind h
      rcases queueCandidate_cases hp hh hq with rfl | ⟨rfl, ht⟩
      · cases queued <;> cases h
        · exact .refused _
        · exact .ignored
      cases h
      exact ht
    · cases h
      exact .ignored
  · next hn =>
    split at h
    · obtain ⟨⟨sd₁, ready⟩, hr, h⟩ := of_bind h
      rcases readyToApplyCommit_cases hr with ⟨rfl, hno⟩ | ⟨rfl, hv, rfl⟩
      · match ready with
        | .error e =>
          cases h
          exact .refused e
        | .ok true => exact absurd (hno rfl).1 (by decide)
        | .ok false => exact .current hn h
      · exact .later hn hv h
    · exact .current hn h

lemma adoptCommit_moves (hp : sd.view.parked = none) (hle : sd.view.queuedFor ≤ sd.view.height) (hg : I.given commit)
    (hv : sd.view.Verifies I.C commit) : Moves I sd.view (sd.adoptCommit commit).view := by
  refine (park_moves hp hle hg hv).trans ?_
  unfold adoptCommit
  obtain ⟨proposal, heq | ⟨parts, heq⟩⟩ := retargetTo_cases sd commit.blockID
  · rw [heq]
    exact .refl
  rw [heq]
  exact .single (.drop parts.isSome)

lemma givenUp_view (hp : sd.view.parked = none) (ht : Talks (sd.adoptCommit commit) sd') :
    StateData.view { sd' with commit := none } = (sd.retargetTo commit.blockID).view := by
  change { sd'.view with parked := none } = _
  rw [ht.view]
  change { (sd.retargetTo commit.blockID).view with parked := none } = _
  obtain ⟨proposal, heq | ⟨parts, heq⟩⟩ := retargetTo_cases sd commit.blockID <;> rw [heq, ← hp] <;> rfl

lemma prepareCommitForApply_cases {result : Except ConsensusError Bool}
    (h : sd.prepareCommitForApply W cfg commit budget = .ok (sd', result)) :
    (Checked W sd commit sd' ∧ (result = .ok true → sd.view.Verifies cfg.C commit)) ∨
    (sd' = sd.adoptCommit commit ∧ sd.view.Verifies cfg.C commit ∧ result = .ok false) := by
  obtain ⟨⟨sd₁, ready⟩, hr, h⟩ := of_bind h
  rcases readyToApplyCommit_cases hr with ⟨rfl, hv⟩ | ⟨rfl, hv, rfl⟩
  · match ready with
    | .error e =>
      cases h
      exact .inl ⟨.inl rfl, nofun⟩
    | .ok false =>
      cases h
      exact .inl ⟨.inl rfl, nofun⟩
    | .ok true =>
      dsimp only at h
      split at h
      · cases h
        exact .inl ⟨.inl rfl, nofun⟩
      · cases h
        exact .inl ⟨.inl rfl, nofun⟩
      obtain ⟨⟨sd₂, processed⟩, hp, h⟩ := of_bind h
      cases processed <;> cases h
      · exact .inl ⟨.inr ⟨_, hp⟩, nofun⟩
      · exact .inl ⟨.inr ⟨_, hp⟩, fun _ => (hv rfl).2⟩
  · cases h
    exact .inr ⟨rfl, hv, rfl⟩

section Peers

variable {commit : Commit} {peerID : String} {fromReplay : Bool} {result : Except ConsensusError Unit}

lemma addCurrentCommit_cases (h : sd.addCurrentCommit W cfg commit peerID fromReplay = .ok (sd', result)) :
    (∃ sd₁, Checked W sd commit sd₁ ∧ (sd' = sd₁ ∨ (∃ e, sd' = sd₁.handleCommitVerifyError e peerID fromReplay) ∨
      (sd.view.Verifies cfg.C commit ∧
        addCommit W cfg { sd₁ with commit := some commit } commit = .ok (sd', result)))) ∨
    (sd.view.Verifies cfg.C commit ∧ sd' = sd.adoptCommit commit) := by
  obtain ⟨⟨sd₁, prepared⟩, hp, h⟩ := of_bind h
  rcases prepareCommitForApply_cases hp with ⟨hc, hv⟩ | ⟨rfl, hv, rfl⟩
  · refine .inl ⟨sd₁, hc, ?_⟩
    match prepared with
    | .error e =>
      cases h
      exact .inr (.inl ⟨e, rfl⟩)
    | .ok false =>
      cases h
      exact .inl rfl
    | .ok true =>
      dsimp only at h
      split at h
      · cases h
        exact .inl rfl
      · exact .inr (.inr ⟨hv rfl, h⟩)
  · cases h
    exact .inr ⟨hv, rfl⟩

lemma addCurrentCommit_moves (ha : Answers W I) (hC : I.C = cfg.C) (hg : I.given commit)
    (hs : sd.view.Sane) (hp : sd.view.parked = none)
    (h : sd.addCurrentCommit W cfg commit peerID fromReplay = .ok (sd', result)) : Moves I sd.view sd'.view := by
  rcases addCurrentCommit_cases h with ⟨sd₁, hc, he⟩ | ⟨hv, rfl⟩
  · rw [← hc.consults.view] at hs hp ⊢
    rcases he with rfl | ⟨e, rfl⟩ | ⟨hv, had⟩
    · exact .refl
    · rw [(handleCommitVerifyError_consults W sd₁ e peerID fromReplay).view]
    rw [← hC, ← hc.consults.view] at hv
    exact (park_moves hp hs.queuedFor_le hg hv).trans (addCommit_moves ha had hs.height_pos hv.2.1 rfl)
  · rw [← hC] at hv
    exact adoptCommit_moves hp hs.queuedFor_le hg hv

lemma addLaterCommit_moves (han : Answers W I) (hg : I.given commit) (hs : sd.view.Sane)
    (hp : sd.view.parked = none) (hv : sd.view.Verifies I.C commit)
    (h : (sd.adoptCommit commit).addLaterCommit W cfg commit peerID fromReplay = .ok (sd', result)) :
    Moves I sd.view sd'.view := by
  obtain ⟨sd₁, hc, ⟨e, rfl⟩ | ⟨sd₂, entered, hn, he⟩⟩ := addLaterCommit_cases h
  · rw [(handleCommitVerifyError_consults W _ e peerID fromReplay).view, givenUp_view hp hc.consults.talks]
    exact (retargetTo_advance sd commit.blockID).moves
  have ha := (enterNewRound_advance (I := I) hn).1
  rw [hc.consults.view] at ha
  have hm := (adoptCommit_moves hp hs.queuedFor_le hg hv).trans ha.moves
  rcases he with rfl | had
  · exact hm
  have hh : sd₂.view.height = sd.view.height :=
    ha.height_eq.trans (retargetTo_advance (I := I) sd commit.blockID).height_eq
  exact hm.trans (addCommit_moves han had (by rw [hh]; exact hs.height_pos) hv.2.1 ha.parked_eq)

lemma tryAddCommit_moves (ha : Answers W I) (hC : I.C = cfg.C) (hg : I.given commit) (hs : sd.view.Sane)
    (h : sd.tryAddCommit W cfg commit peerID fromReplay = .ok (sd', result)) : Moves I sd.view sd'.view := by
  cases tryAddCommit_cases h with
  | ignored => exact .refl
  | refused e => rw [(handleCommitVerifyError_consults W _ e peerID fromReplay).view]
  | queued hp hv =>
    rw [← hC] at hv
    refine .single (.commits sd.view.parked _ _ (fun c => .inl) ?_ ?_ ?_)
    · exact (CommitCandidates.resetUnless_height sd.candidates sd.height).le
    · intro _ c hc
      obtain ⟨other, ho, rfl⟩ := mem_map.mp hc
      rcases CommitCandidates.mem_add ho with heq | ⟨hf, hol⟩
      · rw [heq]
        exact .inr ⟨hg, hv⟩
      · exact .inl ⟨hf, mem_map_of_mem hol⟩
    · intro _ _ hn
      rw [show sd.view.parked = some _ from hp] at hn
      cases hn
  | current hn h => exact addCurrentCommit_moves ha hC hg hs hn h
  | later hn hv h =>
    rw [← hC] at hv
    exact addLaterCommit_moves ha hg hs hn hv h

end Peers

end Tenderdash.StateData
