import Tenderdash.Consensus.Transitions
import Tenderdash.Consensus.View

/-!
The actions of a node are moves of its view.

What an action does to its environment and to the round state the application answered with is not in
the view (`Talks`), and signing adds to the list of votes the node asked for (`Signs`). Each action is
then a sequence of moves, under the one condition its callers meet: the round it is entered for is not
ahead of the node's.
-/

namespace Tenderdash

open Lib Go HeightVoteSet List Bool Output

/-! ### The view of state data -/

namespace Output

def asked : Output → Option Vote
  | signVote vote => some vote
  | _ => none

def tick : Output → Option TimeoutInfo
  | scheduleTimeout ti => some ti
  | _ => none

def finalized : Output → Option (ℤ × BlockID)
  | finalizeBlock height blockID _ => some (height, blockID)
  | _ => none

def Silent (o : Output) : Prop := o.asked = none ∧ o.tick = none ∧ o.finalized = none

end Output

def identify (block : Option Block) (parts : Option (PartSet Bytes)) : Option BlockID :=
  block.map fun b => blockIDOf (some b) parts

@[simp] lemma identify_none (parts : Option (PartSet Bytes)) : identify none parts = none := rfl

@[simp] lemma identify_some (b : Block) (parts : Option (PartSet Bytes)) :
    identify (some b) parts = some (blockIDOf (some b) parts) := rfl

@[simp] lemma isSome_identify (block : Option Block) (parts : Option (PartSet Bytes)) :
    (identify block parts).isSome = block.isSome := by
  cases block <;> rfl

variable {blockID : BlockID}

lemma identify_eq_some {block : Option Block} {parts : Option (PartSet Bytes)}
    (hn : blockID.isNil = false) : identify block parts = some blockID ↔ blockIDOf block parts = blockID := by
  cases block with
  | some b => simp
  | none =>
    simp only [identify_none, blockIDOf_none]
    constructor
    · nofun
    rintro rfl
    cases hn

namespace StateData

def view (sd : StateData) : View where
  height := sd.height
  round := sd.round
  step := sd.step
  triggered := sd.triggeredTimeoutPrecommit
  validators := sd.validators
  chainID := sd.state.chainID
  held := identify sd.proposalBlock sd.proposalBlockParts
  heldParts := sd.proposalBlockParts.isSome
  lockedRound := sd.lockedRound
  locked := identify sd.lockedBlock sd.lockedBlockParts
  lockedParts := sd.lockedBlockParts.isSome
  validRound := sd.validRound
  valid := identify sd.validBlock sd.validBlockParts
  commitRound := sd.commitRound
  parked := sd.commit
  queuedFor := sd.candidates.height
  queued := sd.candidates.candidates.map (·.commit)
  votes := sd.votes
  asked := sd.outputs.filterMap Output.asked
  ticks := sd.outputs.filterMap Output.tick
  finalized := sd.outputs.filterMap Output.finalized

lemma filterMap_silent {β : Type} {f : Output → Option β} {outputs : List Output}
    (h : ∀ o ∈ outputs, f o = none) : outputs.filterMap f = [] :=
  filterMap_eq_nil_iff.mpr h

/-! ### What the view does not show -/

def Talks (sd sd' : StateData) : Prop :=
  ∃ crs processed expectations outputs, (∀ o ∈ outputs, Output.Silent o) ∧
    sd' = { sd with
      currentRoundState := crs
      processedBlockID := processed
      expectations := expectations
      outputs := sd.outputs ++ outputs }

lemma Talks.refl (sd : StateData) : Talks sd sd :=
  ⟨sd.currentRoundState, sd.processedBlockID, sd.expectations, [], by simp, by rw [append_nil]⟩

lemma Talks.trans {a b c : StateData} (h : Talks a b) (h' : Talks b c) : Talks a c := by
  obtain ⟨_, _, _, outputs, hs, rfl⟩ := h
  obtain ⟨crs, processed, expectations, outputs', hs', rfl⟩ := h'
  refine ⟨crs, processed, expectations, outputs ++ outputs', ?_, by rw [← append_assoc]⟩
  intro o ho
  rcases mem_append.mp ho with ho | ho
  · exact hs o ho
  · exact hs' o ho

lemma Talks.view {sd sd' : StateData} (h : Talks sd sd') : sd'.view = sd.view := by
  obtain ⟨crs, processed, expectations, outputs, hs, rfl⟩ := h
  have ha := filterMap_silent fun o ho => (hs o ho).1
  have ht := filterMap_silent fun o ho => (hs o ho).2.1
  have hf := filterMap_silent fun o ho => (hs o ho).2.2
  simp only [StateData.view, filterMap_append, ha, ht, hf, append_nil]

variable {W : World} {cfg : Config} {sd sd' : StateData}

lemma silent_of_passing {o : Output} (h : o.passing = true) : o.Silent := by
  cases o <;> first | exact ⟨rfl, rfl, rfl⟩ | cases h

lemma Consult.talks (h : Consult W sd sd') : Talks sd sd' := by
  cases h with
  | said ho => exact ⟨_, _, _, [_], by simpa using silent_of_passing ho, rfl⟩
  | asked hv =>
    obtain ⟨expectations, outputs, hp, rfl⟩ := verifyCommitExtensions_asks hv
    exact ⟨_, _, expectations, outputs, fun o ho => silent_of_passing (hp o ho), rfl⟩
  | processed block round crs | failed block round | prepared round crs =>
    exact ⟨_, _, _, [_], by simpa using ⟨rfl, rfl, rfl⟩, rfl⟩

lemma Consults.talks (h : Consults W sd sd') : Talks sd sd' := by
  induction h with
  | refl => exact .refl sd
  | tail _ hl ih => exact ih.trans hl.talks

lemma Consults.view (h : Consults W sd sd') : sd'.view = sd.view := h.talks.view

variable {round : ℤ} {result : Except ConsensusError Unit} {commit : Commit} {type : SignedMsgType}

/-! ### Signing -/

def Signs (sd : StateData) (type : SignedMsgType) (blockID : BlockID) (sd' : StateData) : Prop :=
  ∃ outputs, sd' = { sd with outputs := sd.outputs ++ outputs } ∧
    (∀ vote ∈ outputs.filterMap Output.asked, sd.view.IsVote type blockID vote) ∧
    (outputs.filterMap Output.asked).length ≤ 1 ∧
    outputs.filterMap Output.tick = [] ∧ outputs.filterMap Output.finalized = []

lemma Signs.view (h : Signs sd type blockID sd') :
    ∃ asked, (∀ vote ∈ asked, sd.view.IsVote type blockID vote) ∧ asked.length ≤ 1 ∧
      sd'.view = { sd.view with asked := sd.view.asked ++ asked } := by
  obtain ⟨outputs, rfl, ha, ho, ht, hf⟩ := h
  refine ⟨_, ha, ho, ?_⟩
  simp only [view, filterMap_append, ht, hf, append_nil]

lemma signAddVote_signs (h : sd.signAddVote W cfg type blockID = .ok sd') : Signs sd type blockID sd' := by
  have hn : Signs sd type blockID sd := ⟨[], by rw [append_nil], by simp, by simp, rfl, rfl⟩
  unfold signAddVote at h
  split at h
  · cases h
    exact hn
  unfold signVote at h
  split at h
  · cases h
    exact hn
  obtain ⟨⟨sd₁, vote⟩, he, h⟩ := of_bind h
  -- the extensions are asked for first
  have hv : sd.view.IsVote type blockID vote ∧ ∃ outputs,
      (∀ o ∈ outputs, Output.Silent o) ∧ sd₁ = { sd with outputs := sd.outputs ++ outputs } := by
    split at he
    · obtain ⟨extensions, -, he⟩ := of_bind he
      cases he
      exact ⟨⟨rfl, rfl, rfl, rfl⟩, [.extendVote sd.height sd.round blockID],
        by simp [Output.Silent, asked, tick, finalized], rfl⟩
    cases he
    exact ⟨⟨rfl, rfl, rfl, rfl⟩, [], by simp, by rw [append_nil]⟩
  obtain ⟨hv, outputs, hs, rfl⟩ := hv
  have ha := filterMap_silent fun o ho => (hs o ho).1
  have ht := filterMap_silent fun o ho => (hs o ho).2.1
  have hf := filterMap_silent fun o ho => (hs o ho).2.2
  dsimp only at h
  split at h <;> cases h
  · refine ⟨outputs ++ [.signVote vote], by simp [emit], ?_, ?_, ?_, ?_⟩
    · simpa [ha, asked] using hv
    · simp [ha, asked]
    · simp [ht, tick]
    · simp [hf, finalized]
  · next signature extensions _ =>
    refine ⟨outputs ++ [.signVote vote, .sendVote
      { vote with blockSignature := signature, voteExtensions := extensions }],
      by simp [emit], ?_, ?_, ?_, ?_⟩
    · simpa [ha, asked] using hv
    · simp [ha, asked]
    · simp [ht, tick]
    · simp [hf, finalized]

/-! ### Voting -/

structure Advance (I : Intake) (v v' : View) : Prop where
  moves : Moves I v v'
  height_eq : v'.height = v.height
  round_le : v.round ≤ v'.round
  parked_eq : v'.parked = v.parked
  held : v'.held = v.held ∨ v'.held = none

namespace Advance

variable {I : Intake} {v v' v'' : View}

lemma refl (I : Intake) (v : View) : Advance I v v := ⟨.refl, rfl, le_refl _, rfl, .inl rfl⟩

lemma trans (h : Advance I v v') (h' : Advance I v' v'') : Advance I v v'' := by
  refine ⟨h.moves.trans h'.moves, h'.height_eq.trans h.height_eq, h.round_le.trans h'.round_le,
    h'.parked_eq.trans h.parked_eq, ?_⟩
  rcases h'.held with heq | hn
  · rw [heq]
    exact h.held
  · exact .inr hn

lemma collects (h : Advance I v v') (hv : v.parked.isSome → v.held = none) : v'.parked.isSome → v'.held = none := by
  intro hp
  rw [h.parked_eq] at hp
  rcases h.held with heq | hn
  · rw [heq]
    exact hv hp
  · exact hn

end Advance

lemma isSome_of_isValidForPrevote (h : sd.isValidForPrevote W cfg = .ok ()) : sd.proposalBlock.isSome := by
  unfold isValidForPrevote at h
  split at h
  · cases h
  · cases h
  next hb _ =>
  rw [hb]
  rfl

lemma mayPrevote_of_shouldVoteBeSent (h : sd.shouldVoteBeSent = true) (hn : blockID.isNil = false)
    (hh : blockIDOf sd.proposalBlock sd.proposalBlockParts = blockID) : sd.view.MayPrevote blockID := by
  have hl : blockIDOf sd.proposalBlock sd.proposalBlockParts =
      blockIDOf sd.lockedBlock sd.lockedBlockParts → sd.view.locked = some blockID := by
    intro heq
    exact (identify_eq_some hn).mpr (heq.symm.trans hh)
  refine ⟨(identify_eq_some hn).mpr hh, ?_⟩
  obtain ⟨proposal, -, hru⟩ := (Option.any_eq_true ..).mp h
  rcases or_eq_true_iff.mp hru with hf | hpo
  · simp only [checkProposalBlock, decide_and, and_eq_true, decide_eq_true_eq] at hf
    exact hf.2.imp id fun heq => .inl (hl heq)
  simp only [checkPrevoteMaj23, decide_eq_true_eq] at hpo
  obtain ⟨hp, -, hlt, hr⟩ := hpo
  rw [hh] at hp
  rcases hr with hle | heq
  · exact .inr (.inr ⟨proposal.polRound, hlt, hle, hp⟩)
  · exact .inr (.inl (hl heq))

variable {result : Except ConsensusError Unit} {height round : ℤ}

lemma prevote_spec (h : sd.prevote W cfg = .ok (sd', result)) :
    ∃ sd₁ blockID, Talks sd sd₁ ∧ Signs sd₁ .prevote blockID sd' ∧
      ((sd.view.held.isSome → sd.view.heldParts = true) → blockID.isNil = false → sd.view.MayPrevote blockID) := by
  obtain ⟨valid, hv, h⟩ := of_bind h
  cases valid with
  | error e =>
    obtain ⟨sd₁, hs, h⟩ := of_bind h
    cases h
    exact ⟨sd, .nil, .refl sd, signAddVote_signs hs, fun _ => nofun⟩
  | ok _ =>
    rcases hpr : sd.ensureProcess W sd.round with ⟨sd₁, e | _⟩
    · simp only [hpr] at h
      split at h
      · obtain ⟨sd₂, hs, h⟩ := of_bind h
        cases h
        exact ⟨sd₁, .nil, (ensureProcess_consults hpr).talks, signAddVote_signs hs, fun _ => nofun⟩
      · cases h
    · simp only [hpr] at h
      obtain ⟨_, -, h⟩ := of_bind h
      obtain ⟨sd₂, hs, h⟩ := of_bind h
      cases h
      refine ⟨sd₁, _, (ensureProcess_consults hpr).talks, signAddVote_signs hs, fun hpa hn => ?_⟩
      have hbl := isSome_of_isValidForPrevote (settle_eq_ok_ok.mp hv)
      have hpa : sd.proposalBlockParts.isSome := hpa ((isSome_identify ..).trans hbl)
      obtain ⟨crs, processed, expectations, outputs, -, rfl⟩ := (ensureProcess_consults hpr).talks
      split at hn
      · next hse =>
        have hid : ∀ sd : StateData, sd.proposalBlock.isSome → sd.proposalBlockParts.isSome →
            sd.blockID = blockIDOf sd.proposalBlock sd.proposalBlockParts := by
          intro sd hb hp
          rw [blockID, if_pos ⟨hb, hp⟩]
        rw [if_pos hse]
        exact mayPrevote_of_shouldVoteBeSent hse hn (hid _ hbl hpa).symm
      · cases hn

variable {I : Intake} {step : RoundStep}

lemma entered (hr : round ≤ sd.round)
    (h : ¬(sd.height ≠ height ∨ round < sd.round ∨ (sd.round = round ∧ step ≤ sd.step))) :
    height = sd.height ∧ round = sd.round ∧ sd.step < step := by
  obtain ⟨hh, h⟩ := not_or.mp h
  obtain ⟨hlt, h⟩ := not_or.mp h
  have heq : round = sd.round := by omega
  exact ⟨(not_not.mp hh).symm, heq, Nat.not_le.mp fun hle => h ⟨heq.symm, hle⟩⟩

lemma enterPrevote_advance (hr : round ≤ sd.round) (h : sd.enterPrevote W cfg height round = .ok (sd', result)) :
    Advance I sd.view sd'.view := by
  unfold enterPrevote at h
  split at h
  · cases h
    exact .refl I _
  next hl =>
  obtain ⟨-, rfl, hst⟩ := entered hr hl
  obtain ⟨⟨sd₂, result'⟩, hvo, h⟩ := of_bind h
  cases h
  obtain ⟨sd₁, blockID, ht, hs, hru⟩ := prevote_spec hvo
  obtain ⟨asked, ha, ho, hv⟩ := hs.view
  rw [ht.view] at ha hv
  have hn : (sd₂.updateRoundStep sd.round .prevote).view =
      { sd.view with asked := sd.view.asked ++ asked, step := .prevote } := by
    change { sd₂.view with round := sd.round, step := .prevote } = _
    rw [hv]
    rfl
  rw [hn]
  exact ⟨.single (.prevote blockID asked hst ha hru ho), rfl, le_refl _, rfl, .inl rfl⟩

lemma scheduleTimeout_view (sd : StateData) (height round : ℤ) (step : RoundStep) :
    (sd.scheduleTimeout height round step).view =
      { sd.view with ticks := sd.view.ticks ++ [⟨height, round, step⟩] } := by
  simp [view, scheduleTimeout, emit, filterMap_append, asked, tick, finalized]

lemma scheduleTimeout_advance (step : RoundStep) (hh : height = sd.height) (hr : round ≤ sd.round) :
    Advance I sd.view (sd.scheduleTimeout height round step).view := by
  rw [scheduleTimeout_view]
  exact ⟨.single (.schedule _ hh hr), rfl, le_refl _, rfl, .inl rfl⟩

lemma await_advance (sd : StateData) (hs : sd.step < step) (hc : step < .applyCommit) :
    Advance I sd.view ((sd.scheduleTimeout sd.height sd.round step).updateRoundStep sd.round step).view := by
  change Advance I sd.view { (sd.scheduleTimeout sd.height sd.round step).view with round := sd.round, step := step }
  rw [scheduleTimeout_view]
  exact ⟨.single (.await step hs hc), rfl, le_refl _, rfl, .inl rfl⟩

lemma enterPrevoteWait_advance (hr : round ≤ sd.round)
    (h : sd.enterPrevoteWait height round = .ok sd') : Advance I sd.view sd'.view := by
  unfold enterPrevoteWait at h
  split at h
  · cases h
    exact .refl I _
  next hl =>
  obtain ⟨rfl, rfl, hs⟩ := entered hr hl
  split at h
  · cases h
  cases h
  exact await_advance sd hs (by decide)

lemma enterPrecommitWait_advance (hr : round ≤ sd.round)
    (h : sd.enterPrecommitWait height round = .ok sd') : Advance I sd.view sd'.view := by
  unfold enterPrecommitWait at h
  split at h
  · cases h
    exact .refl I _
  next hl =>
  obtain ⟨hh, hl⟩ := not_or.mp hl
  have hr : round = sd.round := by omega
  obtain rfl := not_not.mp hh
  subst hr
  split at h
  · cases h
  cases h
  change Advance I sd.view { (sd.scheduleTimeout sd.height sd.round .precommitWait).view with triggered := true }
  rw [scheduleTimeout_view]
  exact ⟨.single .trigger, rfl, le_refl _, rfl, .inl rfl⟩

lemma dropStaleProposal_eq (sd : StateData) (blockID : BlockID) :
    ∃ proposal, sd.dropStaleProposal blockID = { sd with proposal := proposal } := by
  unfold dropStaleProposal
  split
  · exact ⟨sd.proposal, rfl⟩
  split
  · exact ⟨sd.proposal, rfl⟩
  · exact ⟨none, rfl⟩

lemma retargetTo_cases (sd : StateData) (blockID : BlockID) :
    ∃ proposal, sd.retargetTo blockID = { sd with proposal := proposal } ∨
      ∃ parts, sd.retargetTo blockID =
        { sd with proposal := proposal, proposalBlock := none, proposalBlockParts := parts } := by
  obtain ⟨proposal, hd⟩ := dropStaleProposal_eq sd blockID
  refine ⟨proposal, ?_⟩
  unfold retargetTo
  rw [hd]
  dsimp only
  split
  · exact .inr ⟨_, rfl⟩
  split
  · exact .inr ⟨_, rfl⟩
  · exact .inl rfl

lemma retargetTo_advance (sd : StateData) (blockID : BlockID) : Advance I sd.view (sd.retargetTo blockID).view := by
  obtain ⟨proposal, heq | ⟨parts, heq⟩⟩ := retargetTo_cases sd blockID
  · rw [heq]
    exact .refl I _
  rw [heq]
  exact ⟨.single (.drop parts.isSome), rfl, le_refl _, rfl, .inr rfl⟩

lemma updateValidBlock_view (hn : blockID.isNil = false)
    (hh : blockIDOf sd.proposalBlock sd.proposalBlockParts = blockID) :
    sd.updateValidBlock.view = { sd.view with validRound := sd.round, valid := some blockID } := by
  have hh' := (identify_eq_some hn).mpr hh
  unfold updateValidBlock
  dsimp only
  split
  · simp only [view, hh']
  next hs =>
  have hv := (identify_eq_some hn).mpr ((not_not.mp hs).trans hh)
  simp only [view, hv]

lemma precommitNil_advance (sd : StateData) (hs : sd.step < .precommit) (h : Signs sd .precommit .nil sd') :
    Advance I sd.view (sd'.updateRoundStep sd.round .precommit).view := by
  obtain ⟨asked, ha, ho, hv⟩ := h.view
  change Advance I sd.view { sd'.view with round := sd.round, step := .precommit }
  rw [hv]
  exact ⟨.single (.precommitNil asked hs ha ho), rfl, le_refl _, rfl, .inl rfl⟩

lemma precommit_cases (h : sd.precommit W cfg round = .ok sd') :
    (∃ sd₁, (sd₁ = sd ∨ ∃ blockID, sd₁ = sd.retargetTo blockID) ∧ Signs sd₁ .precommit .nil sd') ∨
    ∃ blockID sd₁, blockID.isNil = false ∧
      twoThirdsMajority (sd.votes.prevotes round) = some blockID ∧
      blockIDOf sd.proposalBlock sd.proposalBlockParts = blockID ∧ Talks sd sd₁ ∧
      ((blockIDOf sd₁.lockedBlock sd₁.lockedBlockParts = blockID ∧ Signs (sd₁.relock round) .precommit blockID sd') ∨
        ∃ sd₂, Signs sd₁.updateLockedBlock .precommit blockID sd₂ ∧ sd' = sd₂.updateValidBlock) := by
  have hnv : ∀ {sd'}, sd.signAddVote W cfg .precommit .nil = .ok sd' →
      ∃ sd₁, (sd₁ = sd ∨ ∃ blockID, sd₁ = sd.retargetTo blockID) ∧ Signs sd₁ .precommit .nil sd' :=
    fun h => ⟨sd, .inl rfl, signAddVote_signs h⟩
  unfold precommit at h
  split at h
  · exact .inl (hnv h)
  next blockID hp =>
  split at h
  · cases h
  split at h
  · exact .inl (hnv h)
  next hn =>
  split at h
  · split at h
    · exact .inl (hnv h)
    · split at h
      · next hh =>
        obtain ⟨sd₁, hpr, h⟩ := of_bind h
        obtain ⟨_, -, h⟩ := of_bind h
        refine .inr ⟨blockID, sd₁, by simpa using hn, hp, hh, (mustEnsureProcess_consults hpr).talks, ?_⟩
        split at h
        · next hl => exact .inl ⟨hl, signAddVote_signs h⟩
        obtain ⟨sd₂, hs, h⟩ := of_bind h
        cases h
        exact .inr ⟨sd₂, signAddVote_signs hs, rfl⟩
      · split at h
        · exact .inl (hnv h)
        · exact .inl ⟨_, .inr ⟨blockID, rfl⟩, signAddVote_signs h⟩
  · exact .inl (hnv h)

lemma enterPrecommit_advance (hr : round ≤ sd.round) (hco : I.regular → sd.view.parked.isSome → sd.view.held = none)
    (h : sd.enterPrecommit W cfg height round = .ok sd') : Advance I sd.view sd'.view := by
  unfold enterPrecommit at h
  split at h
  · cases h
    exact .refl I _
  next hlt =>
  obtain ⟨-, rfl, hst⟩ := entered hr hlt
  obtain ⟨sd₂, hp, hla⟩ := of_bind h
  cases hla
  rcases precommit_cases hp with ⟨sd₁, hs₁, hs⟩ | ⟨blockID, sd₁, hn, hpo, hh, ht, ⟨hl, hs⟩ | ⟨sd₃, hs, rfl⟩⟩
  · -- nil, perhaps after giving up the block
    rcases hs₁ with rfl | ⟨blockID, rfl⟩
    · exact precommitNil_advance _ hst hs
    refine (retargetTo_advance sd blockID).trans ?_
    obtain ⟨proposal, heq | ⟨parts, heq⟩⟩ := retargetTo_cases sd blockID
    · rw [heq] at hs ⊢
      exact precommitNil_advance { sd with proposal := proposal } hst hs
    rw [heq] at hs ⊢
    exact precommitNil_advance { sd with
      proposal := proposal, proposalBlock := none, proposalBlockParts := parts } hst hs
  · -- the lock is renewed
    have hh' := (identify_eq_some hn).mpr hh
    obtain ⟨asked, ha, ho, hv⟩ := hs.view
    have hs₁ : (sd₁.relock sd.round).view = { sd.view with lockedRound := sd.round } := by
      change { sd₁.view with lockedRound := sd.round } = _
      rw [ht.view]
    have hl' : sd.view.locked = some blockID := by
      rw [← ht.view]
      exact (identify_eq_some hn).mpr hl
    rw [hs₁] at ha hv
    change Advance I sd.view { sd₂.view with round := sd.round, step := .precommit }
    rw [hv]
    refine ⟨.single (.relock blockID asked hst ha hn hpo hh' hl' (fun hre => ?_) ho), rfl, le_refl _, rfl, .inl rfl⟩
    refine Option.eq_none_iff_forall_not_mem.mpr fun c hc => ?_
    have hno := hco hre (Option.isSome_of_mem hc)
    rw [show sd.view.held = some blockID from hh'] at hno
    cases hno
  · -- the node locks on the block
    have hh' : sd.view.held = some blockID := (identify_eq_some hn).mpr hh
    obtain ⟨asked, ha, ho, hv⟩ := hs.view
    have hs₁ : sd₁.updateLockedBlock.view = { sd.view with
        lockedRound := sd.round, locked := some blockID, lockedParts := sd.view.heldParts } := by
      change { sd₁.view with lockedRound := sd₁.view.round, locked := sd₁.view.held
                             lockedParts := sd₁.view.heldParts } = _
      rw [ht.view, hh']
      rfl
    have hh₃ : sd₃.round = sd.round ∧ blockIDOf sd₃.proposalBlock sd₃.proposalBlockParts = blockID := by
      obtain ⟨_, _, _, _, -, rfl⟩ := ht
      obtain ⟨_, rfl, -⟩ := hs
      exact ⟨rfl, hh⟩
    rw [hs₁] at ha hv
    change Advance I sd.view { sd₃.updateValidBlock.view with round := sd.round, step := .precommit }
    rw [updateValidBlock_view hn hh₃.2, hv, hh₃.1]
    exact ⟨.single (.lock blockID asked hst ha hn hpo hh' ho), rfl, le_refl _, rfl, .inl rfl⟩

/-! ### New rounds -/

lemma enterPropose_advance (hr : round ≤ sd.round) (h : sd.enterPropose W cfg height round = .ok (sd', result)) :
    Advance I sd.view sd'.view := by
  unfold enterPropose at h
  split at h
  · cases h
    exact .refl I _
  next hl =>
  obtain ⟨rfl, rfl, hst⟩ := entered hr hl
  split at h
  · cases h
    exact scheduleTimeout_advance .newRound rfl (le_refl _)
  obtain ⟨⟨sd₁, result₁⟩, hc, h⟩ := of_bind h
  have ht : Talks (sd.scheduleTimeout sd.height sd.round .propose) sd₁ := by
    split at hc
    · exact (createProposal_consults hc).talks
    cases hc
    exact .refl _
  have hs : Advance I sd.view (sd₁.updateRoundStep sd.round .propose).view := by
    change Advance I _ { sd₁.view with round := sd.round, step := .propose }
    rw [ht.view]
    exact await_advance sd hst (by decide)
  dsimp only at h
  split at h
  · obtain ⟨⟨sd₂, result₂⟩, hp, h⟩ := of_bind h
    cases h
    exact hs.trans (enterPrevote_advance (le_refl _) hp)
  cases h
  exact hs

lemma resetProposal_cases (sd : StateData) :
    ∃ proposal, (sd.commit.isSome ∧ sd.resetProposal = { sd with proposal := proposal }) ∨
      ∃ parts, sd.resetProposal =
        { sd with proposal := proposal, proposalBlock := none, proposalBlockParts := parts } := by
  unfold resetProposal
  dsimp only
  split
  · next commit hc =>
    obtain ⟨proposal, heq | ⟨parts, heq⟩⟩ := retargetTo_cases { sd with proposal := none } commit.blockID
    · exact ⟨proposal, .inl ⟨by rw [hc]; rfl, heq⟩⟩
    · exact ⟨proposal, .inr ⟨parts, heq⟩⟩
  · exact ⟨none, .inr ⟨none, rfl⟩⟩

lemma startRound_step (h : sd.startRound round = .ok sd') : sd'.step = .newRound := by
  obtain ⟨votes, -, h⟩ := of_bind h
  cases h
  split
  · rfl
  obtain ⟨proposal, ⟨-, heq⟩ | ⟨parts, heq⟩⟩ := resetProposal_cases (sd.updateRoundStep round .newRound) <;>
    rw [heq] <;> rfl

lemma startRound_advance (hl : sd.round < round ∨ (sd.round = round ∧ sd.step = .newHeight))
    (h : sd.startRound round = .ok sd') : Advance I sd.view sd'.view ∧ sd'.round = round := by
  obtain ⟨votes, hvo, h⟩ := of_bind h
  cases h
  have hle : sd.round ≤ round := by omega
  -- the vote sets of the round are added
  have hm : Evolves Same sd.votes votes → ∀ {v : View}, v.votes = sd.votes → Move I v { v with votes := votes } := by
    intro he v hv
    rw [← hv] at he
    refine .votes votes (he.imp ?_) fun _ hse => ?_
    · rintro r t vs _ rfl
      exact I.change_refl r t _
    intro hn hst B hni hp
    refine hse hn hst B hni ?_
    have hsa := he.majority_eq (r := v.round) (t := .prevote) fun vs vs' hs => by rw [show vs' = vs from hs]
    exact hsa.symm.trans hp
  by_cases hz : round = 0
  · rw [if_pos hz] at hvo ⊢
    exact ⟨⟨.head (.newRound round hl (absurd hz))
      (.single (hm (evolves_setRound hvo) rfl)), rfl, hle, rfl, .inl rfl⟩, rfl⟩
  rw [if_neg hz] at hvo ⊢
  obtain ⟨proposal, ⟨hc, heq⟩ | ⟨parts, heq⟩⟩ := resetProposal_cases (sd.updateRoundStep round .newRound)
  · rw [heq] at hvo ⊢
    refine ⟨⟨.head (.newRound round hl fun _ hn => ?_)
      (.single (hm (evolves_setRound hvo) rfl)), rfl, hle, rfl, .inl rfl⟩, rfl⟩
    change sd.commit.isSome at hc
    rw [show sd.commit = none from hn] at hc
    cases hc
  · rw [heq] at hvo ⊢
    exact ⟨⟨.head (.drop parts.isSome) (.head (.newRound round hl fun _ _ => rfl)
      (.single (hm (evolves_setRound hvo) rfl))), rfl, hle, rfl, .inr rfl⟩, rfl⟩

lemma enterNewRound_advance (h : sd.enterNewRound W cfg height round = .ok (sd', result)) :
    Advance I sd.view sd'.view ∧ (height = sd.height → round ≤ sd'.round) := by
  unfold enterNewRound at h
  split at h
  · cases h
    exact ⟨.refl I _, by omega⟩
  next hl =>
  obtain ⟨hh, hl⟩ := not_or.mp hl
  obtain ⟨hlt, hl⟩ := not_or.mp hl
  have hn : sd.round < round ∨ (sd.round = round ∧ sd.step = .newHeight) := by
    by_cases heq : sd.round = round
    · exact .inr ⟨heq, not_not.mp fun hne => hl ⟨heq, hne⟩⟩
    · exact .inl (by omega)
  obtain ⟨sd₁, hs, h⟩ := of_bind h
  obtain ⟨ha, hr⟩ := startRound_advance (I := I) hn hs
  have hh₁ : height = sd₁.height := (not_not.mp hh).symm.trans ha.height_eq.symm
  have hre : Advance I sd₁.view sd'.view := by
    split at h
    · cases h
    split at h
    · split at h <;> cases h
      · exact scheduleTimeout_advance .newRound hh₁ hr.ge
      · exact .refl I _
    split at h
    · cases h
      exact .refl I _
    · exact enterPropose_advance hr.ge h
  exact ⟨ha.trans hre, fun _ => hr.ge.trans hre.round_le⟩

end StateData

end Tenderdash
