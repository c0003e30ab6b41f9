import Tenderdash.Consensus.Contract

/-!
The dialogue of a node with its application. An application may keep one execution context, that of the
block it prepared or processed last, so the node records which that is: the round state the application
answered with, and the ID of the block.

What an event does to this record is a sequence of deeds: the application is asked to prepare or to
process a block, a block is finalized, the queue of commits changes, or nothing of the kind happens.
`handle_deeds` takes every event apart that way.
-/

namespace Tenderdash

open Lib Go Bool

def lastCall (outputs : List Output) : Option Output := (outputs.filter Output.isProposalCall).getLast?

/-- `ProcessProposal` returns the result of the round it was asked for, and only if it matches the header
of the block. -/
def World.Answers (W : World) : Prop :=
  ∀ n block round crs, W.processProposal n block round = .ok crs →
    crs.source = .processProposal ∧ crs.matchesBlock block round = true

namespace StateData

/-! ### Deeds -/

structure Decoded (cfg : Config) (sd : StateData) : Prop where
  proposal : ∀ block ∈ sd.proposalBlock, ∃ bytes, cfg.decode bytes = some block
  locked : ∀ block ∈ sd.lockedBlock, ∃ bytes, cfg.decode bytes = some block
  valid : ∀ block ∈ sd.validBlock, ∃ bytes, cfg.decode bytes = some block

structure KeepsRecord (cfg : Config) (W : World) (sd sd' : StateData) : Prop where
  outputs : ∃ outputs, sd'.outputs = sd.outputs ++ outputs ∧ ∀ o ∈ outputs, o.quiet = true
  currentRoundState : sd'.currentRoundState = sd.currentRoundState
  processedBlockID : sd'.processedBlockID = sd.processedBlockID
  candidates : sd'.candidates = sd.candidates
  decoded : Decoded cfg sd → Decoded cfg sd'
  sound : ∀ shape, W.KeepsContract shape → sd.expectations.Sound shape → sd'.expectations.Sound shape

inductive Deed (cfg : Config) (W : World) : StateData → StateData → Prop
  | quiet {sd sd' : StateData} (h : KeepsRecord cfg W sd sd') : Deed cfg W sd sd'
  | processed {sd : StateData} (block : Block) (round : ℤ) (crs : CurrentRoundState)
      (hb : sd.proposalBlock = some block)
      (ha : W.processProposal sd.outputs.length block round = .ok crs) :
      Deed cfg W sd { sd.emit (.processProposal block round true) with
        currentRoundState := crs
        processedBlockID := blockIDOf sd.proposalBlock sd.proposalBlockParts }
  | failed {sd : StateData} (block : Block) (round : ℤ) :
      Deed cfg W sd { sd.emit (.processProposal block round false) with
        currentRoundState := .empty
        processedBlockID := .nil }
  | prepared {sd : StateData} (round : ℤ) (crs : CurrentRoundState) :
      Deed cfg W sd { sd.emit (.prepareProposal sd.height round) with
        currentRoundState := crs
        processedBlockID := .nil }
  /-- The block of a commit is finalized while it is the one on record, for the round of the commit. -/
  | finalized {sd : StateData} (block : Block) (commit : Commit) (hb : sd.proposalBlock = some block)
      (hc : sd.verifyCommitBlock commit = .ok true)
      (hr : W.Answers → sd.processedBlockID = blockIDOf sd.proposalBlock sd.proposalBlockParts ∧
        sd.currentRoundState.round = commit.round) :
      Deed cfg W sd (sd.emit (.finalizeBlock sd.height (sd.finalizedBlockID block) commit))
  | queued {sd : StateData} (commit : Commit) (peerID : String) (fromReplay : Bool) :
      Deed cfg W sd { sd with
        candidates := sd.candidates.add W.connected sd.height commit peerID fromReplay }
  | taken {sd : StateData} :
      Deed cfg W sd { sd with commit := none, candidates := (sd.candidates.take sd.height).1 }

abbrev Deeds (cfg : Config) (W : World) : StateData → StateData → Prop := Relation.ReflTransGen (Deed cfg W)

variable {W : World} {cfg : Config} {sd sd' sd₁ : StateData} {height round : ℤ}
  {result : Except ConsensusError Unit}

lemma Deeds.quiet (h : KeepsRecord cfg W sd sd') : Deeds cfg W sd sd' := .single (.quiet h)

def recorded (sd : StateData) :=
  (sd.outputs, sd.currentRoundState, sd.processedBlockID, sd.candidates, sd.expectations)

def slots (sd : StateData) := (sd.proposalBlock, sd.lockedBlock, sd.validBlock)

lemma Deeds.unseen (hr : sd'.recorded = sd.recorded) (hd : Decoded cfg sd → Decoded cfg sd') : Deeds cfg W sd sd' := by
  simp only [recorded, Prod.mk.injEq] at hr
  obtain ⟨ho, hcr, hp, hc, he⟩ := hr
  exact .quiet ⟨⟨[], by rw [ho, List.append_nil], by simp⟩, hcr, hp, hc, hd, fun _ _ hs => he ▸ hs⟩

lemma Deeds.same (hr : sd'.recorded = sd.recorded) (hs : sd'.slots = sd.slots) : Deeds cfg W sd sd' := by
  simp only [slots, Prod.mk.injEq] at hs
  obtain ⟨hp, hl, hv⟩ := hs
  refine .unseen hr fun h => ⟨?_, ?_, ?_⟩
  · rw [hp]
    exact h.proposal
  · rw [hl]
    exact h.locked
  rw [hv]
  exact h.valid

lemma deeds_emit (sd : StateData) {o : Output} (ho : o.quiet = true) : Deeds cfg W sd (sd.emit o) :=
  .quiet ⟨⟨[o], rfl, by simpa using ho⟩, rfl, rfl, rfl, fun h => { h with }, fun _ _ hs => hs⟩

lemma deeds_scheduleTimeout (sd : StateData) (height round : ℤ) (step : RoundStep) :
    Deeds cfg W sd (sd.scheduleTimeout height round step) := deeds_emit sd rfl

/-! ### The executor -/

lemma Consult.deeds (h : Consult W sd sd') : Deeds cfg W sd sd' := by
  cases h with
  | said ho => exact deeds_emit sd (Output.quiet_of_passing ho)
  | asked hv =>
    have hs : ∀ shape, W.KeepsContract shape → sd.expectations.Sound shape → sd'.expectations.Sound shape :=
      fun shape hc hs => (verifyCommitExtensions_iff hs hc hv).2
    obtain ⟨expectations, outputs, hp, rfl⟩ := verifyCommitExtensions_asks hv
    exact .quiet ⟨⟨outputs, rfl, fun o ho => Output.quiet_of_passing (hp o ho)⟩, rfl, rfl, rfl, fun h => { h with }, hs⟩
  | processed block round crs hb ha => exact .single (.processed block round crs hb ha)
  | failed block round => exact .single (.failed block round)
  | prepared round crs => exact .single (.prepared round crs)

lemma Consults.deeds (h : Consults W sd sd') : Deeds cfg W sd sd' := by
  induction h with
  | refl => exact .refl
  | tail _ hl ih => exact ih.trans hl.deeds

lemma ensureProcess_slots (h : sd.ensureProcess W round = (sd', result)) :
    sd'.proposalBlock = sd.proposalBlock ∧ sd'.proposalBlockParts = sd.proposalBlockParts := by
  unfold ensureProcess at h
  split at h
  · cases h
    exact ⟨rfl, rfl⟩
  split at h
  · cases h
    exact ⟨rfl, rfl⟩
  · split at h <;> cases h <;> exact ⟨rfl, rfl⟩

lemma ensureProcess_record (hW : W.Answers) (h : sd.ensureProcess W round = (sd', .ok ())) :
    sd'.processedBlockID = blockIDOf sd.proposalBlock sd.proposalBlockParts ∧ sd'.currentRoundState.round = round := by
  unfold ensureProcess at h
  split at h
  · cases h
  next block hb =>
  split at h
  · next hpr =>
    cases h
    unfold processedFor at hpr
    rw [hb] at hpr
    simp only [Option.any_some, decide_and, and_eq_true, decide_eq_true_eq,
      CurrentRoundState.matchesBlock] at hpr
    obtain ⟨-, ⟨-, hr, -⟩, -, hp⟩ := hpr
    exact ⟨hb.symm ▸ hp, hr⟩
  · split at h
    · cases h
    · next crs ha =>
      cases h
      have hm := (hW _ _ _ _ ha).2
      simp only [CurrentRoundState.matchesBlock, decide_and, and_eq_true, decide_eq_true_eq] at hm
      exact ⟨rfl, hm.2.1⟩

variable {commit : Commit} {found : Option Commit}

lemma signAddVote_deeds {type : SignedMsgType} {blockID : BlockID}
    (h : sd.signAddVote W cfg type blockID = .ok sd') : Deeds cfg W sd sd' := by
  unfold signAddVote at h
  split at h
  · cases h
    exact .refl
  unfold signVote at h
  split at h
  · cases h
    exact .refl
  obtain ⟨⟨sd₁, vote⟩, he, h⟩ := of_bind h
  have hd : Deeds cfg W sd sd₁ := by
    split at he
    · obtain ⟨extensions, -, he⟩ := of_bind he
      cases he
      exact deeds_emit sd rfl
    cases he
    exact .refl
  have hs : Deeds cfg W sd (sd₁.emit (.signVote vote)) := hd.trans (deeds_emit sd₁ rfl)
  dsimp only at h
  split at h <;> cases h
  · exact hs
  · exact hs.trans (deeds_emit _ rfl)

lemma prevote_deeds (h : sd.prevote W cfg = .ok (sd', result)) : Deeds cfg W sd sd' := by
  obtain ⟨valid, -, h⟩ := of_bind h
  split at h
  · obtain ⟨sd₁, hs, h⟩ := of_bind h
    cases h
    exact signAddVote_deeds hs
  split at h
  · next hp =>
    split at h
    · obtain ⟨sd₁, hs, h⟩ := of_bind h
      cases h
      exact (ensureProcess_consults hp).deeds.trans (signAddVote_deeds hs)
    · cases h
  · next hp =>
    obtain ⟨_, -, h⟩ := of_bind h
    obtain ⟨sd₁, hs, h⟩ := of_bind h
    cases h
    exact (ensureProcess_consults hp).deeds.trans (signAddVote_deeds hs)

/-! ### Fields outside of the record -/

section

variable (sd : StateData)

lemma retargetTo_deeds (blockID : BlockID) : Deeds cfg W sd (sd.retargetTo blockID) := by
  obtain ⟨proposal, heq | ⟨parts, heq⟩⟩ := retargetTo_cases sd blockID <;> rw [heq]
  · exact .same rfl rfl
  · exact .unseen rfl fun h => ⟨nofun, h.locked, h.valid⟩

lemma updateValidBlock_deeds : Deeds cfg W sd sd.updateValidBlock := by
  unfold updateValidBlock
  dsimp only
  split
  · exact .unseen rfl fun h => ⟨h.proposal, h.locked, h.proposal⟩
  · exact .same rfl rfl

lemma updateStateData_deeds (blockID : BlockID) : Deeds cfg W sd (sd.updateStateData blockID) := by
  obtain ⟨proposal, heq | heq | ⟨parts, heq⟩⟩ := updateStateData_cases sd blockID <;> rw [heq]
  · exact .same rfl rfl
  · exact .unseen rfl fun h => ⟨h.locked, h.locked, h.valid⟩
  · exact .unseen rfl fun h => ⟨nofun, h.locked, h.valid⟩

lemma updateValidOnPolka_deeds (vote : Vote) : Deeds cfg W sd (sd.updateValidOnPolka vote) := by
  unfold updateValidOnPolka
  split
  · exact .refl
  next blockID _ =>
  split
  · exact .refl
  split
  · exact (updateValidBlock_deeds sd).trans (retargetTo_deeds _ blockID)
  · exact retargetTo_deeds sd blockID

lemma adoptCommit_deeds (commit : Commit) : Deeds cfg W sd (sd.adoptCommit commit) :=
  (retargetTo_deeds sd commit.blockID).trans (Deeds.same rfl rfl)

end

lemma updateToState_deeds {state : ChainState} {commit : Option Commit} {selector : Bool}
    (h : sd.updateToState state commit selector = .ok sd') : Deeds cfg W sd sd' := by
  unfold updateToState at h
  split_ifs at h with h₁ h₂ h₃ h₄ hs
  · cases h
    exact .refl
  · obtain ⟨_, -, h⟩ := of_bind h
    cases h
  obtain ⟨lastCommit, -, h⟩ := of_bind h
  obtain ⟨votes, hv, h⟩ := of_bind h
  cases h
  exact .unseen rfl fun _ => ⟨nofun, nofun, nofun⟩

/-! ### Actions -/

lemma deeds_updateRoundStep (sd : StateData) (round : ℤ) (step : RoundStep) :
    Deeds cfg W sd (sd.updateRoundStep round step) :=
  .same rfl rfl

lemma enterPrevote_deeds (h : sd.enterPrevote W cfg height round = .ok (sd', result)) : Deeds cfg W sd sd' := by
  unfold enterPrevote at h
  split at h
  · cases h
    exact .refl
  obtain ⟨⟨sd₁, result₁⟩, hp, h⟩ := of_bind h
  cases h
  exact (prevote_deeds hp).trans (deeds_updateRoundStep sd₁ round .prevote)

lemma enterPrevoteWait_deeds (h : sd.enterPrevoteWait height round = .ok sd') : Deeds cfg W sd sd' := by
  unfold enterPrevoteWait at h
  split_ifs at h <;> cases h
  · exact .refl
  · exact (deeds_scheduleTimeout sd height round .prevoteWait).trans (deeds_updateRoundStep _ round .prevoteWait)

lemma precommit_deeds (h : sd.precommit W cfg round = .ok sd') : Deeds cfg W sd sd' := by
  unfold precommit at h
  split at h
  · exact signAddVote_deeds h
  next blockID _ =>
  split at h
  · cases h
  split at h
  · exact signAddVote_deeds h
  split at h
  · split at h
    · exact signAddVote_deeds h
    · split at h
      · obtain ⟨sd₁, hp, h⟩ := of_bind h
        obtain ⟨_, -, h⟩ := of_bind h
        have h₁ : Deeds cfg W sd sd₁ := (mustEnsureProcess_consults hp).deeds
        split at h
        · have hr : Deeds cfg W sd₁ (sd₁.relock round) := .same rfl rfl
          exact (h₁.trans hr).trans (signAddVote_deeds h)
        obtain ⟨sd₂, hs, h⟩ := of_bind h
        cases h
        have hl : Deeds cfg W sd₁ sd₁.updateLockedBlock :=
          .unseen rfl fun h => ⟨h.proposal, h.proposal, h.valid⟩
        exact ((h₁.trans hl).trans (signAddVote_deeds hs)).trans (updateValidBlock_deeds sd₂)
      · split at h
        · exact signAddVote_deeds h
        · exact (retargetTo_deeds sd blockID).trans (signAddVote_deeds h)
  · exact signAddVote_deeds h

lemma enterPrecommit_deeds (h : sd.enterPrecommit W cfg height round = .ok sd') : Deeds cfg W sd sd' := by
  unfold enterPrecommit at h
  split at h
  · cases h
    exact .refl
  obtain ⟨sd₁, hp, h⟩ := of_bind h
  cases h
  exact (precommit_deeds hp).trans (deeds_updateRoundStep sd₁ round .precommit)

lemma enterPrecommitWait_deeds (h : sd.enterPrecommitWait height round = .ok sd') : Deeds cfg W sd sd' := by
  unfold enterPrecommitWait at h
  split_ifs at h <;> cases h
  · exact .refl
  · exact (deeds_scheduleTimeout sd height round .precommitWait).trans (Deeds.same rfl rfl)

lemma startRound_deeds (h : sd.startRound round = .ok sd') : Deeds cfg W sd sd' := by
  obtain ⟨votes, -, h⟩ := of_bind h
  cases h
  have hr : Deeds cfg W (sd.updateRoundStep round .newRound) (if round = 0
      then sd.updateRoundStep round .newRound
      else (sd.updateRoundStep round .newRound).resetProposal) := by
    split
    · exact .refl
    obtain ⟨proposal, ⟨-, heq⟩ | ⟨parts, heq⟩⟩ := resetProposal_cases (sd.updateRoundStep round .newRound) <;> rw [heq]
    · exact .same rfl rfl
    · exact .unseen rfl fun h => ⟨nofun, h.locked, h.valid⟩
  exact ((deeds_updateRoundStep sd round .newRound).trans hr).trans (Deeds.same rfl rfl)

/-! ### Applying a commit -/

lemma verifyCommitBlock_congr (hb : sd'.proposalBlock = sd.proposalBlock)
    (hp : sd'.proposalBlockParts = sd.proposalBlockParts) :
    sd'.verifyCommitBlock commit = sd.verifyCommitBlock commit := by
  unfold verifyCommitBlock
  rw [hb, hp]

lemma applyCommit_deeds (h : sd.applyCommit W commit = .ok (sd', result)) : Deeds cfg W sd sd' := by
  unfold applyCommit at h
  split at h
  · cases h
    exact .refl
  · next block hv hb =>
    obtain ⟨sd₁, hpr, h⟩ := of_bind h
    obtain ⟨_, -, h⟩ := of_bind h
    split_ifs at h
    · cases h
    obtain ⟨⟨state, immediately⟩, -, h⟩ := of_bind h
    obtain ⟨sd₂, hup, h⟩ := of_bind h
    cases h
    obtain ⟨hb₁, hp₁⟩ := ensureProcess_slots (mustEnsureProcess_ok hpr)
    let saved := sd₁.emit (.saveBlock (some block) commit)
    have hs : Deeds cfg W sd saved := (mustEnsureProcess_consults hpr).deeds.trans (deeds_emit sd₁ rfl)
    -- the block was processed for the round of the commit just before
    have hf : Deed cfg W saved (saved.emit (.finalizeBlock saved.height (saved.finalizedBlockID block) commit)) := by
      refine .finalized block commit (hb₁.trans hb) ?_ fun hW => ?_
      · rw [← hv]
        exact verifyCommitBlock_congr hb₁ hp₁
      obtain ⟨hp, hr⟩ := ensureProcess_record hW (mustEnsureProcess_ok hpr)
      refine ⟨?_, hr⟩
      show sd₁.processedBlockID = blockIDOf sd₁.proposalBlock sd₁.proposalBlockParts
      rw [hb₁, hp₁]
      exact hp
    have hu : Deeds cfg W sd sd₂ := (hs.tail hf).trans (updateToState_deeds hup)
    refine (hu.trans ?_).trans (deeds_scheduleTimeout ..)
    split
    · exact Deeds.same rfl rfl
    · exact .refl
  · cases h
    exact .refl

lemma deeds_atCommit (sd : StateData) (commitRound : ℤ) : Deeds cfg W sd (sd.atCommit commitRound) :=
  (deeds_updateRoundStep sd sd.round .applyCommit).trans (Deeds.same rfl rfl)

/-! ### Handlers -/

lemma tryCommits_deeds {commits : List Commit}
    (h : tryCommits W commits sd = .ok (sd', found)) : Deeds cfg W sd sd' := by
  induction commits generalizing sd with
  | nil =>
    cases h
    exact .refl
  | cons commit rest ih =>
    obtain ⟨⟨sd₁, checked⟩, hc, h⟩ := of_bind h
    have h₁ : Deeds cfg W sd sd₁ := (checked_of_verifyHeldCommit hc).consults.deeds
    cases checked with
    | ok _ =>
      cases h
      exact h₁.trans (Deeds.same rfl rfl)
    | error e => exact h₁.trans (ih h)

lemma selectParkedCommit_deeds {parked : Commit}
    (h : sd.selectParkedCommit W parked = .ok (sd', found)) : Deeds cfg W sd sd' :=
  Relation.ReflTransGen.head .taken (tryCommits_deeds h)

/-- **The actions are sequences of deeds**, so the handlers are. -/
lemma kept_deeds (W : World) (cfg : Config) (start : StateData) : Kept W cfg (fun _ => True) (Deeds cfg W start) where
  refl _ h := h
  trans h h' := h' ∘ h
  scheduled sd height round step h := h.trans (deeds_scheduleTimeout sd height round step)
  started hst h := h.trans (startRound_deeds hst)
  consulted hc h := h.trans hc.deeds
  proposing sd round h := h.trans (deeds_updateRoundStep sd round .propose)
  prevote hpr h := h.trans (enterPrevote_deeds hpr)
  prevoteWait hw h := h.trans (enterPrevoteWait_deeds hw)
  precommit hp h := h.trans (enterPrecommit_deeds hp)
  precommitWait hw h := h.trans (enterPrecommitWait_deeds hw)
  validated h := h.trans (updateValidBlock_deeds _)
  polka vote h := h.trans (updateValidOnPolka_deeds _ vote)
  applied ha h := h.trans (applyCommit_deeds ha)
  decided commitRound _ _ h := (h.trans (updateStateData_deeds ..)).trans (deeds_atCommit _ commitRound)
  collecting _ h := h.trans (updateStateData_deeds ..)
  committing _ h := (h.trans (updateStateData_deeds ..)).trans (deeds_atCommit ..)
  parked _ h := h.trans (Deeds.same rfl rfl)
  adopted _ h := h.trans (adoptCommit_deeds ..)
  queued peerID fromReplay _ h := h.tail (.queued _ peerID fromReplay)
  givenUp h := h.trans (Deeds.same rfl rfl)
  selected hs _ h := ⟨h.trans (selectParkedCommit_deeds hs), fun _ _ => trivial⟩
  added _ _ h := h.trans (Deeds.same rfl rfl)
  completed proposal _ hd h := by
    -- the complete block is the one its parts decode to
    refine h.trans (Deeds.unseen rfl fun h => ⟨?_, h.locked, h.valid⟩)
    rintro _ ⟨⟩
    exact ⟨_, hd⟩

/-! ### Events -/

lemma setProposal_deeds {proposal : ProposalProto} {budget : Option VerificationBudget}
    (h : sd.setProposal W cfg proposal budget = .ok (sd', result)) : Deeds cfg W sd sd' := by
  rcases setProposal_cases h with rfl | rfl
  · exact .refl
  · exact .same rfl rfl

/-- **What an event does to the record** is a sequence of deeds. -/
theorem handle_deeds {event : Event} (h : sd.handle W cfg event = .ok sd') : Deeds cfg W sd sd' := by
  cases handle_cases h with
  | ignored ti => exact .refl
  | proposal h => exact setProposal_deeds h
  | blockPart h => exact (kept_deeds W cfg sd).addBlockPart h .refl
  | vote h => exact (kept_deeds W cfg sd).addVote h .refl fun h _ _ => h.trans (Deeds.same rfl rfl)
  | commit h => exact (kept_deeds W cfg sd).tryAddCommit (fun _ => trivial) h .refl
  | timeout _ h => exact (kept_deeds W cfg sd).handleTimeout h .refl
  | txsAvailable h => exact (kept_deeds W cfg sd).handleTxsAvailable h .refl
  | peerMaj23 => exact .same rfl rfl

end StateData

end Tenderdash
