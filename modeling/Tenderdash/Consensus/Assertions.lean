import Tenderdash.Consensus.LockInvariant
import Tenderdash.Consensus.SlotEvents

/-!
The assertions of the commit step. `finalizeCommit` panics without a majority of precommits, or if the part set
or the block the node holds is not the one of the majority; `EnterCommit` panics without a majority.

`Recovering` is the machine over what a node does when one of these assertions fails. If it panics, it is the
machine itself (`recovering_panics`).
-/

namespace Tenderdash.StateData

open Lib Go Run HeightVoteSet List Option

/-! ### What a failed assertion does -/

def finalizeCommitFails (sd : StateData) : Option String :=
  match twoThirdsMajority (sd.votes.precommits sd.commitRound) with
  | none => some "cannot finalize commit; commit does not have 2/3 majority"
  | some blockID =>
    if hasHeader sd.proposalBlockParts blockID.partSetHeader = false then
      some "expected ProposalBlockParts header to be commit header"
    else if hashesTo sd.proposalBlock blockID.hash = false then
      some "cannot finalize commit; proposal block does not hash to commit hash"
    else none

namespace Recovering

section Recover

variable (recover : String → StateData → Except String StateData)

variable (W : World) (cfg : Config) (sd : StateData) (ref : VoteRef)

def finalizeCommit (height : ℤ) : Except String StateData :=
  if sd.height ≠ height ∨ sd.step ≠ .applyCommit then .ok sd
  else match sd.finalizeCommitFails with
    | some msg => recover msg sd
    | none => sd.finalizeCommit W height

/-- `TryFinalizeCommitAction`. -/
def tryFinalizeCommit (W : World) (sd : StateData) (height : ℤ) : Except String StateData :=
  if sd.height ≠ height then .error "tryFinalizeCommit() cs.Height vs height"
  else match twoThirdsMajority (sd.votes.precommits sd.commitRound) with
    | none => .ok sd
    | some blockID =>
      if blockID.isNil ∨ hashesTo sd.proposalBlock blockID.hash = false then .ok sd
      else finalizeCommit recover W sd height

/-- `EnterCommitAction`. -/
def enterCommit (height commitRound : ℤ) : Except String StateData :=
  if sd.height ≠ height ∨ .applyCommit ≤ sd.step then .ok sd
  else match twoThirdsMajority (sd.votes.precommits commitRound) with
    | none => recover "RunActionCommit() expects +2/3 precommits" sd
    | some blockID => tryFinalizeCommit recover W ((sd.updateStateData blockID).atCommit commitRound) height

/-- `ProposalCompletedAction`. -/
def proposalCompleted (height : ℤ) : Except String (Outcome Unit) :=
  if sd.validateOnComplete.step = .applyCommit then do
    return (← tryFinalizeCommit recover W sd.validateOnComplete height, .ok ())
  else sd.proposalCompleted W cfg height

/-- `AddProposalBlockPartAction`. -/
def addBlockPart (height : ℤ) (part : Part Bytes) : Except String (Outcome Unit) := do
  let commitNotExist := sd.commit.isNone
  match ← sd.addProposalBlockPart W cfg height part with
  | (sd, .error e) => return (sd, .error e)
  | (sd, .ok added) =>
    let commitRejected := commitNotExist = false ∧ sd.commit.isNone ∧ sd.height = height
    if added ∧ (commitNotExist ∨ commitRejected) ∧ sd.proposalBlockParts.any (·.isComplete) then
      proposalCompleted recover W cfg sd height
    else return (sd, .ok ())

/-- `addVoteDispatchPrecommitMw`. -/
def dispatchPrecommit (vote : Vote) : Except String StateData :=
  match twoThirdsMajority (sd.votes.precommits vote.round) with
  | none => sd.dispatchPrecommit W cfg vote
  | some blockID =>
    if blockID.isNil then sd.dispatchPrecommit W cfg vote
    else do
      let height := sd.height
      let (sd, _) ← sd.enterNewRound W cfg height vote.round
      let sd ← sd.enterPrecommit W cfg height vote.round
      let sd ← enterCommit recover W sd height vote.round
      let (sd, _) ← sd.enterNewRound W cfg sd.height 0
      return sd

/-- `addVoteToVoteSetFunc`, for a precommit. -/
def addToVoteSet (check : VoteSet.VoteCheck) : Except String (Outcome Bool) := do
  let (votes, added, err) ← sd.votes.addVote cfg.C ref check
  let sd := { sd with votes := votes }
  match added, err with
  | _, some e => return (sd, .error (.vote e))
  | false, none => return (sd, .ok false)
  | true, none => return (← dispatchPrecommit recover W cfg sd ref.vote, .ok true)

/-- `addVoteVerifyVoteExtensionMw`. -/
def addPrecommit (budget : Option VerificationBudget) : Except String (Outcome Bool) := do
  let vote := ref.vote
  if vote.blockID.isNil ∨ vote.validatorProTxHash = cfg.proTxHash then
    addToVoteSet recover W cfg sd ref (.verify budget)
  else if sd.knowsVote cfg vote then return (sd, .ok false)
  else match sd.state.validators.getByIndex vote.validatorIndex with
    | none => return (sd, .error .validatorIndex)
    | some val =>
      let vals := sd.state.validators
      match ← (verifyVoteSignatures cfg.C (some ref) sd.state.chainID vals.quorumType vals.quorumHash
        val.pubKey val.proTxHash budget).settle with
      | .error e => return (sd, .error (.vote e))
      | .ok verified =>
        match sd.ensureOwnRound W with
        | (sd, .error e) => return (sd, .error (.restoreRound e))
        | (sd, .ok ()) =>
          let ok ← W.verifyVoteExtension sd.outputs.length vote
          let sd := sd.emit (.verifyVoteExtension vote ok)
          if ok then addToVoteSet recover W cfg sd ref (.verified verified)
          else return (sd, .error .voteExtensionRejected)

/-- `AddVoteAction`, for a precommit. -/
def addVote (peerID : String) (fromReplay : Bool) : Except String (Outcome Bool) := do
  let vote := ref.vote
  if vote.height ≠ sd.height ∨ sd.validators.hasPublicKeys = false then return (sd, .ok false)
  else if vote.validatorIndex < 0 ∨ sd.validators.size ≤ vote.validatorIndex then
    return (sd, .error .validatorIndex)
  else match ← addPrecommit recover W cfg sd ref (W.peerBudget peerID fromReplay) with
    | (sd, .error e) => return sd.handleVoteError cfg vote e
    | (sd, .ok added) => return (sd, .ok added)

/-- One turn of `receiveRoutine`. Only block parts and precommits lead to the assertions. -/
def handle : Event → Except String StateData
  | .blockPart height part peerID fromReplay => do
    logMessage W peerID fromReplay
    let (sd, _) ← addBlockPart recover W cfg sd height part
    return sd
  | .vote msg peerID fromReplay =>
    if msg.ref.vote.type = .precommit then do
      logMessage W peerID fromReplay
      let (sd, _) ← addVote recover W cfg sd msg.ref peerID fromReplay
      return sd
    else sd.handle W cfg (.vote msg peerID fromReplay)
  | event => sd.handle W cfg event

end Recover

def panics (msg : String) (_ : StateData) : Except String StateData := .error msg

variable {recover : String → StateData → Except String StateData} {W : World} {cfg : Config}
  {real : BlockID → Prop} {sd sd' : StateData} {height round : ℤ} {blockID : BlockID}

def Safe (recover : String → StateData → Except String StateData) (cfg : Config) (real : BlockID → Prop)
    (sd : StateData) : Prop := recover = panics ∨ Coherent cfg real sd

def SafeFor (recover : String → StateData → Except String StateData) (cfg : Config) (real : BlockID → Prop)
    (sd : StateData) (event : Event) : Prop := recover = panics ∨ (Coherent cfg real sd ∧ sd.Genuine cfg real event)

lemma finalizeCommitFails_eq_none (hreal : Real cfg real) (h : Coherent cfg real sd)
    (hst : sd.step = .applyCommit) (hn : blockID.isNil = false)
    (hm : twoThirdsMajority (sd.votes.precommits sd.commitRound) = some blockID)
    (hha : hashesTo sd.proposalBlock blockID.hash = true) : sd.finalizeCommitFails = none := by
  obtain ⟨target, ht, hh⟩ := h.target hst
  obtain ⟨block, hb, hh'⟩ : ∃ block, sd.proposalBlock = some block ∧ block.hash = blockID.hash := by
    simp only [hashesTo, decide_eq_true_eq] at hha
    simpa using (any_eq_true _ _).mp hha.2
  obtain ⟨ps, hps, hc, hde⟩ := h.proposal.decodes block hb
  have hg := h.proposal.gathered ps hps
  rw [mem_def.mp hps] at hh
  simp only [hasHeader, any_some, decide_eq_true_eq] at hh
  have hs : target.hash = blockID.hash := (hreal.bytes target ht ps hg hc hh block hde).symm.trans hh'
  have hd := hreal.header target blockID ht (h.majority _ _ _ hn hm) hs
  have hhs : hasHeader sd.proposalBlockParts blockID.partSetHeader = true := by
    rw [mem_def.mp hps]
    simp only [hasHeader, any_some, decide_eq_true_eq]
    exact hh.trans hd
  unfold finalizeCommitFails
  rw [hm]
  simp [hhs, hha]

lemma finalizeCommit_of_fails {msg : String} (hn : ¬ (sd.height ≠ height ∨ sd.step ≠ .applyCommit))
    (h : sd.finalizeCommitFails = some msg) : sd.finalizeCommit W height = .error msg := by
  unfold StateData.finalizeCommit
  unfold finalizeCommitFails at h
  rw [if_neg hn]
  cases hp : sd.votes.precommits sd.commitRound with
  | none =>
    rw [hp] at h
    cases h
    rfl
  | some precommits =>
    rw [hp, show twoThirdsMajority (some precommits) = precommits.maj23 from rfl] at h
    dsimp only
    cases hm : precommits.maj23 with
    | none =>
      rw [hm] at h
      cases h
      rfl
    | some blockID =>
      rw [hm] at h
      dsimp only at h ⊢
      split_ifs at h with hh hha <;> cases h
      · rw [if_pos hh]
      · rw [if_neg hh, if_pos hha]

lemma finalizeCommit_panics (W : World) (sd : StateData) (height : ℤ) :
    finalizeCommit panics W sd height = sd.finalizeCommit W height := by
  unfold finalizeCommit
  by_cases hl : sd.height ≠ height ∨ sd.step ≠ .applyCommit
  · rw [if_pos hl, StateData.finalizeCommit, if_pos hl]
  rw [if_neg hl]
  cases hf : sd.finalizeCommitFails with
  | none => rfl
  | some msg => exact (finalizeCommit_of_fails hl hf).symm

section

variable (hreal : Real cfg real) (h : Safe recover cfg real sd)

include hreal h

lemma tryFinalizeCommit_eq (W : World) (height : ℤ) :
    tryFinalizeCommit recover W sd height = sd.tryFinalizeCommit W height := by
  unfold tryFinalizeCommit StateData.tryFinalizeCommit
  by_cases hh : sd.height ≠ height
  · rw [if_pos hh, if_pos hh]
  rw [if_neg hh, if_neg hh]
  cases hm : twoThirdsMajority (sd.votes.precommits sd.commitRound) with
  | none => rfl
  | some blockID =>
    dsimp only
    by_cases hs : blockID.isNil = true ∨ hashesTo sd.proposalBlock blockID.hash = false
    · rw [if_pos hs, if_pos hs]
    rw [if_neg hs, if_neg hs]
    rcases h with rfl | h
    · exact finalizeCommit_panics W sd height
    obtain ⟨hn, hha⟩ := not_or.mp hs
    unfold finalizeCommit
    by_cases hl : sd.height ≠ height ∨ sd.step ≠ .applyCommit
    · rw [if_pos hl, StateData.finalizeCommit, if_pos hl]
    rw [if_neg hl, finalizeCommitFails_eq_none hreal h (not_not.mp (not_or.mp hl).2)
      (Bool.eq_false_iff.mpr hn) hm (Bool.eq_true_of_not_eq_false hha)]

lemma enterCommit_eq {commitRound : ℤ}
    (hm : twoThirdsMajority (sd.votes.precommits commitRound) = some blockID) (hn : blockID.isNil = false)
    (W : World) (height : ℤ) : enterCommit recover W sd height commitRound = sd.enterCommit W height commitRound := by
  unfold enterCommit StateData.enterCommit
  rw [hm]
  by_cases hl : sd.height ≠ height ∨ .applyCommit ≤ sd.step
  · rw [if_pos hl, if_pos hl]
  rw [if_neg hl, if_neg hl]
  exact tryFinalizeCommit_eq hreal
    (h.imp_right fun h => h.toStored.atCommit (h.majority _ _ _ hn hm) commitRound) W height

lemma proposalCompleted_eq (W : World) (height : ℤ) :
    proposalCompleted recover W cfg sd height = sd.proposalCompleted W cfg height := by
  unfold proposalCompleted
  by_cases hs : sd.validateOnComplete.step = .applyCommit
  · rw [if_pos hs, StateData.proposalCompleted]
    rw [if_neg, if_pos hs, tryFinalizeCommit_eq hreal (h.imp_right (kept_coherent W cfg real).validateOnComplete)]
    rintro ⟨hle, -⟩
    rw [hs] at hle
    exact absurd hle (by decide)
  · rw [if_neg hs]

lemma addBlockPart_eq (W : World) (height : ℤ)
    (part : Part Bytes) : addBlockPart recover W cfg sd height part = sd.addBlockPart W cfg height part := by
  refine bind_congr_ok fun ⟨sd₁, added⟩ ha => ?_
  cases added with
  | error e => rfl
  | ok added =>
    dsimp only
    rw [proposalCompleted_eq hreal (h.imp_right ((kept_coherent W cfg real).addProposalBlockPart ha))]

lemma dispatchPrecommit_eq (W : World) (vote : Vote) :
    dispatchPrecommit recover W cfg sd vote = sd.dispatchPrecommit W cfg vote := by
  unfold dispatchPrecommit
  cases hm : twoThirdsMajority (sd.votes.precommits vote.round) with
  | none => rfl
  | some blockID =>
    dsimp only
    by_cases hn : blockID.isNil = true
    · rw [if_pos hn]
    rw [if_neg hn, StateData.dispatchPrecommit]
    rw [hm]
    refine bind_congr_ok fun ⟨sd₁, _⟩ hne => bind_congr_ok fun sd₂ hp => ?_
    have hk := kept_coherent W cfg real
    rw [if_neg hn, enterCommit_eq hreal (h.imp_right fun h => hk.precommit hp (hk.newRound hne h))
      (majority_at_commit hm hne hp) (Bool.eq_false_iff.mpr hn)]

end

section Vote

variable {msg : VoteMessage} {peerID : String} {fromReplay : Bool}

section

variable (hreal : Real cfg real) (h : SafeFor recover cfg real sd (.vote msg peerID fromReplay))
  (htype : msg.ref.vote.type = .precommit)

include hreal h htype

lemma addToVoteSet_eq {check : VoteSet.VoteCheck} (hm : check.Minted cfg.C)
    (W : World) : addToVoteSet recover W cfg sd msg.ref check = sd.addToVoteSet W cfg msg.ref check := by
  refine bind_congr_ok fun ⟨votes, added, err⟩ ha => ?_
  have hs : Safe recover cfg real { sd with votes := votes } :=
    h.imp_right fun h => h.1.votes (h.2 check votes added err hm ha)
  dsimp only
  rewrite [htype, dispatchPrecommit_eq hreal hs]
  cases err <;> cases added <;> rfl

lemma addPrecommit_eq {budget : Option VerificationBudget}
    (W : World) : addPrecommit recover W cfg sd msg.ref budget = sd.addPrecommit W cfg msg.ref budget := by
  unfold addPrecommit StateData.addPrecommit
  rw [addToVoteSet_eq hreal h htype (show VoteSet.VoteCheck.Minted cfg.C (.verify budget) from trivial)]
  by_cases ho : msg.ref.vote.blockID.isNil = true ∨ msg.ref.vote.validatorProTxHash = cfg.proTxHash
  · rw [if_pos ho, if_pos ho]
  rw [if_neg ho, if_neg ho]
  by_cases hk : sd.knowsVote cfg msg.ref.vote = true
  · rw [if_pos hk, if_pos hk]
  rw [if_neg hk, if_neg hk]
  cases sd.state.validators.getByIndex msg.ref.vote.validatorIndex with
  | none => rfl
  | some val =>
    refine bind_congr_ok fun verified hv => ?_
    cases verified with
    | error e => rfl
    | ok verified =>
      have hm : (VoteSet.VoteCheck.verified verified).Minted cfg.C := ⟨_, _, _, _, _, _, _, settle_eq_ok_ok.mp hv⟩
      dsimp only
      rcases hr : sd.ensureOwnRound W with ⟨sd₁, e | _⟩
      · rfl
      refine bind_congr_ok fun ok _ => ?_
      have hs : Shown W sd msg.ref.vote (sd₁.emit (.verifyVoteExtension msg.ref.vote ok)) := .seen hr ok
      have ht := hs.consults.talks
      rw [addToVoteSet_eq hreal (h.imp_right fun h => ⟨h.1.talks ht, h.2.talks ht⟩) htype hm]

lemma addVote_eq (W : World) :
    addVote recover W cfg sd msg.ref peerID fromReplay = sd.addVote W cfg msg.ref peerID fromReplay := by
  unfold addVote StateData.addVote
  dsimp only
  rewrite [htype, addPrecommit_eq hreal h htype]
  rfl

end

end Vote

lemma handle_eq (hreal : Real cfg real) {event : Event} (h : SafeFor recover cfg real sd event) (W : World) :
    handle recover W cfg sd event = sd.handle W cfg event := by
  cases event with
  | blockPart height part peerID fromReplay =>
    simp only [handle, StateData.handle, addBlockPart_eq hreal (h.imp_right And.left)]
  | vote msg peerID fromReplay =>
    by_cases htype : msg.ref.vote.type = .precommit
    · simp only [handle, StateData.handle, if_pos htype, addVote_eq hreal h htype]
    · simp only [handle, if_neg htype]
  | _ => rfl

theorem recovering_panics (W : World) (cfg : Config) (sd : StateData) (event : Event) :
    handle panics W cfg sd event = sd.handle W cfg event := by
  have hreal : Real cfg fun _ => False := ⟨nofun, nofun⟩
  exact handle_eq hreal (.inl rfl) W

end Recovering

/-! ### Runs -/

def SlotsHold (cfg : Config) (sd : StateData) : Prop :=
  ∀ slot ∈ [(sd.proposalBlock, sd.proposalBlockParts), (sd.lockedBlock, sd.lockedBlockParts),
      (sd.validBlock, sd.validBlockParts)],
    ∀ b ∈ slot.1, ∃ ps ∈ slot.2, ps.isComplete = true ∧ cfg.decode (readParts ps) = some b

variable {cfg : Config} {real : BlockID → Prop} {sd : StateData} {state : ChainState} {lastCommit : Option Commit}

lemma Coherent.slotsHold (h : Coherent cfg real sd) : sd.SlotsHold cfg := by
  intro slot hs
  simp only [mem_cons, not_mem_nil, or_false] at hs
  rcases hs with rfl | rfl | rfl
  · exact h.proposal.decodes
  · exact h.locked.decodes
  · exact h.valid.decodes

lemma coherent_initial (cfg : Config) (real : BlockID → Prop) (h : initial state lastCommit = .ok sd) :
    Coherent cfg real sd := by
  obtain ⟨_, -, h⟩ := of_bind h
  obtain ⟨votes, hv, h⟩ := of_bind h
  cases h
  refine Stored.coherent ⟨.empty nofun, .empty nofun, .empty nofun, fun r t B _ hm => ?_, nofun, nofun⟩
    (show RoundStep.newHeight ≠ .applyCommit by decide)
  exact (not_majority_new hv hm).elim

def genuine (cfg : Config) (real : BlockID → Prop) (node : Option StateData) (input : World × Event) : Prop :=
  ∀ sd ∈ node, sd.Genuine cfg real input.2

def forReal (real : BlockID → Prop) : Event → Prop
  | .vote msg _ _ => msg.ref.vote.blockID.isNil = true ∨ real msg.ref.vote.blockID
  | .commit commit _ _ => real commit.blockID
  | _ => True

lemma Coherent.genuine {event : Event} (h : Coherent cfg real sd) (hf : forReal real event) :
    sd.Genuine cfg real event := by
  cases event with
  | vote msg peerID fromReplay =>
    intro check votes added err _ had r t B hn hm
    obtain ⟨vs', hg', hv'⟩ := bind_eq_some_iff.mp hm
    obtain ⟨vs, ha, hfr⟩ := (evolves_addVote had).comes r t vs' hg'
    have ho : vs.maj23 = some B → real B := by
      intro hvs
      rcases hfr with hg | ⟨-, rfl⟩
      · exact h.majority r t B hn (bind_eq_some_iff.mpr ⟨vs, hg, hvs⟩)
      · cases hvs
    rcases ha with rfl | ⟨-, -, hv⟩
    · exact ho hv'
    rcases VoteSet.addVote_maj23 hv with hvs | ⟨-, hm⟩
    · exact ho (hvs ▸ hv')
    · obtain rfl := hm B hv'
      exact hf.resolve_left (Bool.eq_false_iff.mp hn)
  | commit commit peerID fromReplay => exact fun _ => hf
  | _ => trivial

lemma genuine_run {inputs : List (World × Event)} (hf : ∀ input ∈ inputs, forReal real input.2)
    {node : Option StateData} (hn : ∀ sd ∈ node, Coherent cfg real sd) :
    Admitted (turn cfg) (genuine cfg real) node inputs := by
  induction inputs generalizing node with
  | nil => trivial
  | cons input inputs ih =>
    have hg : genuine cfg real node input := fun sd hsd => (hn sd hsd).genuine (hf input mem_cons_self)
    refine ⟨hg, ih (fun input hm => hf input (mem_cons_of_mem _ hm)) fun sd' hs' => ?_⟩
    obtain ⟨sd, rfl, hh⟩ := turn_eq_some hs'
    exact (hn sd rfl).handle (hg sd rfl) hh

/-- **The slots are coherent and no assertion fails.** In every run in which two thirds vote for real blocks
only, a block in a slot is the one its complete part set decodes to, and it does not matter what a node would
do if an assertion of the commit step failed. -/
theorem slots_coherent (cfg : Config) (state : ChainState) (lastCommit : Option Commit) (real : BlockID → Prop)
    (hreal : Real cfg real) (inputs : List (World × Event))
    (hgenuine : Admitted (turn cfg) (genuine cfg real) (initial state lastCommit).toOption inputs)
    (sd : StateData) (h : reached cfg state lastCommit inputs = some sd) :
    sd.SlotsHold cfg ∧ ∀ W event, sd.Genuine cfg real event →
      ∀ recover, Recovering.handle recover W cfg sd event = sd.handle W cfg event := by
  have hc : Coherent cfg real sd :=
    run_turn (P := Coherent cfg real) (fun {_ sd _} h hok _ hh => h.handle (hok sd rfl) hh) hgenuine
      (fun _ hs₀ => coherent_initial cfg real (toOption_eq_some.mp hs₀)) sd h
  exact ⟨hc.slotsHold, fun W event he recover =>
    Recovering.handle_eq hreal (.inr ⟨hc, he⟩) W⟩

lemma real_lockID : Real lockConfig (· = lockID) where
  bytes := by
    rintro _ rfl ps - - - b hb
    have hb : (if readParts ps = [9] then some lockBlock else none) = some b := hb
    split at hb
    · cases hb
      rfl
    · cases hb
  header := by
    rintro _ _ rfl rfl -
    rfl

/-- The node locks on the block, and would go on the same way whatever a failed assertion did. -/
theorem lockingRound_slots : ∃ sd, reached lockConfig lockState none lockingRound = some sd ∧
    sd.lockedBlock = some lockBlock ∧ sd.SlotsHold lockConfig := by
  have he : (reached lockConfig lockState none lockingRound).map (·.lockedBlock) = some (some lockBlock) := by
    decide +kernel
  obtain ⟨sd, hsd, hl⟩ := map_eq_some_iff.mp he
  refine ⟨sd, hsd, hl, (slots_coherent lockConfig lockState none (· = lockID) real_lockID lockingRound ?_ sd hsd).1⟩
  refine genuine_run (fun input hi => ?_) fun sd₀ hs₀ =>
    coherent_initial lockConfig _ (toOption_eq_some.mp hs₀)
  simp only [lockingRound, map_cons, map_nil, mem_cons, not_mem_nil, or_false] at hi
  rcases hi with rfl | rfl | rfl | rfl | rfl | rfl
  · trivial
  · trivial
  · trivial
  all_goals exact .inr (by decide +kernel)

end Tenderdash.StateData
