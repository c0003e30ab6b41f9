import Tenderdash.Consensus.Kept

/-!
The three block slots of a node: the block it collects, the one it is locked on and the valid one, each with
its part set. The block and the parts are two fields, written together or one at a time. `Coherent` is what
every event keeps up: a block in a slot is the one its complete part set decodes to.

In the commit step more is kept up: the parts are those of a decided block. A block ID that two thirds have
voted for, or a commit that verifies, is taken to be the ID of a real block, `Real`: what its parts decode to
has its hash, and no other real ID has that hash with another part set.
-/

namespace Tenderdash

open Lib Go HeightVoteSet List Bool

/-! ### Part sets -/

namespace PartSet

variable {D : Type} {ps : PartSet D}

lemma getD_parts {i : ℕ} (hlt : i < ps.parts.length) : ps.parts.getD i none = ps.parts[i] := by
  rw [getD_eq_getElem?_getD, getElem?_eq_getElem hlt, Option.getD_some]

variable [DecidableEq D] {H : Merkle.Hasher Bytes D}

inductive Gathered (H : Merkle.Hasher Bytes D) : PartSet D → Prop
  | new (total : ℕ) (hash : D) : Gathered H (newFromHeader total hash)
  | add {ps : PartSet D} (part : Part D) : Gathered H ps → Gathered H (ps.addPart H part).1

lemma Gathered.count_eq (h : Gathered H ps) :
    ps.parts.length = ps.total ∧ ps.count = ps.parts.countP Option.isSome := by
  induction h with
  | new total hash => simp [newFromHeader, countP_replicate]
  | @add ps part _ ih =>
    obtain ⟨hl, hc⟩ := ih
    unfold addPart
    split_ifs with hi hp hf hv
    · exact ⟨hl, hc⟩
    · exact ⟨hl, hc⟩
    · exact ⟨hl, hc⟩
    · exact ⟨hl, hc⟩
    have hlt : part.index < ps.parts.length := by
      rw [hl]
      exact not_le.mp hi
    refine ⟨by simpa using hl, ?_⟩
    rw [getD_parts hlt, not_eq_true] at hf
    simp [countP_set hlt, hf, hc]

lemma Gathered.addPart_of_isComplete (h : Gathered H ps) (hc : ps.isComplete = true) (part : Part D) :
    (ps.addPart H part).1 = ps := by
  obtain ⟨hl, hco⟩ := h.count_eq
  have ha : ∀ p ∈ ps.parts, p.isSome := by
    rw [← countP_eq_length, ← hco, hl]
    exact of_decide_eq_true hc
  unfold addPart
  split_ifs with hi hp hf hv
  · rfl
  · rfl
  · rfl
  · rfl
  have hlt : part.index < ps.parts.length := by
    rw [hl]
    exact not_le.mp hi
  rw [getD_parts hlt] at hf
  exact absurd (ha _ (getElem_mem hlt)) hf

end PartSet

/-! ### Slots -/

structure Slot (cfg : Config) (block : Option Block) (parts : Option (PartSet Bytes)) : Prop where
  gathered : ∀ ps ∈ parts, ps.Gathered cfg.C.merkle
  decodes : ∀ b ∈ block, ∃ ps ∈ parts, ps.isComplete = true ∧ cfg.decode (StateData.readParts ps) = some b

lemma Slot.empty {cfg : Config} {parts : Option (PartSet Bytes)}
    (h : ∀ ps ∈ parts, ps.Gathered cfg.C.merkle) : Slot cfg none parts := ⟨h, nofun⟩

/-- The IDs of real blocks. Parts that belong to such an ID decode to a block with its hash, and the hash of a
real block has one part set. -/
structure Real (cfg : Config) (real : BlockID → Prop) : Prop where
  bytes : ∀ blockID, real blockID → ∀ ps : PartSet Bytes, ps.Gathered cfg.C.merkle → ps.isComplete = true →
    ps.header = blockID.partSetHeader → ∀ b ∈ cfg.decode (StateData.readParts ps), b.hash = blockID.hash
  header : ∀ blockID blockID', real blockID → real blockID' → blockID.hash = blockID'.hash →
    blockID.partSetHeader = blockID'.partSetHeader

namespace StateData

structure Stored (cfg : Config) (real : BlockID → Prop) (sd : StateData) : Prop where
  proposal : Slot cfg sd.proposalBlock sd.proposalBlockParts
  locked : Slot cfg sd.lockedBlock sd.lockedBlockParts
  valid : Slot cfg sd.validBlock sd.validBlockParts
  majority : ∀ r t blockID, blockID.isNil = false →
    twoThirdsMajority (sd.votes.getVoteSet r t) = some blockID → real blockID
  parked : ∀ commit ∈ sd.commit, real commit.blockID
  queued : ∀ candidate ∈ sd.candidates.candidates, real candidate.commit.blockID

structure Coherent (cfg : Config) (real : BlockID → Prop) (sd : StateData) : Prop extends Stored cfg real sd where
  target : sd.step = .applyCommit →
    ∃ blockID, real blockID ∧ hasHeader sd.proposalBlockParts blockID.partSetHeader = true

variable {W : World} {cfg : Config} {real : BlockID → Prop} {sd sd' : StateData} {height round : ℤ}
  {result : Except ConsensusError Unit}

lemma Stored.coherent (h : Stored cfg real sd) (hs : sd.step ≠ .applyCommit) : Coherent cfg real sd :=
  ⟨h, fun heq => absurd heq hs⟩

section

variable (h : Coherent cfg real sd)

include h

lemma Coherent.talks (ht : Talks sd sd') : Coherent cfg real sd' := by
  obtain ⟨_, _, _, _, -, rfl⟩ := ht
  exact { h with }

variable {blockID : BlockID} {commit : Commit}

omit h in
lemma Stored.signs {type : SignedMsgType} (h : Stored cfg real sd)
    (hs : Signs sd type blockID sd') : Stored cfg real sd' := by
  obtain ⟨_, rfl, -⟩ := hs
  exact { h with }

lemma Coherent.emit (o : Output) : Coherent cfg real (sd.emit o) :=
  { h with }

lemma Coherent.scheduleTimeout (height round : ℤ) (step : RoundStep) :
    Coherent cfg real (sd.scheduleTimeout height round step) := h.emit _

omit h in
lemma Stored.updateRoundStep (h : Stored cfg real sd) (round : ℤ) {step : RoundStep} (hs : step ≠ .applyCommit) :
    Coherent cfg real (sd.updateRoundStep round step) :=
  coherent { h with } hs

lemma Coherent.votes {votes : HeightVoteSet}
    (hv : ∀ r t blockID, blockID.isNil = false →
      twoThirdsMajority (votes.getVoteSet r t) = some blockID → real blockID) :
    Coherent cfg real { sd with votes := votes } :=
  { h with majority := hv }

/-! ### What a node collects -/

omit h in
lemma retargetTo_header (sd : StateData) (blockID : BlockID) :
    hasHeader (sd.retargetTo blockID).proposalBlockParts blockID.partSetHeader = true := by
  obtain ⟨proposal, heq⟩ := dropStaleProposal_eq sd blockID
  unfold retargetTo
  rw [heq]
  dsimp only
  split
  · simp [hasHeader, PartSet.header, PartSet.newFromHeader]
  next hh =>
  split <;> exact eq_true_of_not_eq_false hh

omit h in
lemma Stored.retargetTo (h : Stored cfg real sd) (blockID : BlockID) : Stored cfg real (sd.retargetTo blockID) := by
  obtain ⟨proposal, heq⟩ := dropStaleProposal_eq sd blockID
  unfold StateData.retargetTo
  rw [heq]
  dsimp only
  split
  · refine { h with proposal := .empty ?_ }
    rintro ps ⟨⟩
    exact .new ..
  split
  · exact { h with proposal := .empty h.proposal.gathered }
  · exact { h with }

lemma Coherent.retargetTo (hr : real blockID) : Coherent cfg real (sd.retargetTo blockID) :=
  ⟨h.toStored.retargetTo blockID, fun _ => ⟨blockID, hr, retargetTo_header sd blockID⟩⟩

omit h in
lemma Stored.adoptCommit (h : Stored cfg real sd) (hr : real commit.blockID) :
    Stored cfg real (sd.adoptCommit commit) := by
  have hs := h.retargetTo commit.blockID
  refine { hs with parked := ?_ }
  rintro _ ⟨⟩
  exact hr

lemma Coherent.adoptCommit (hr : real commit.blockID) : Coherent cfg real (sd.adoptCommit commit) :=
  ⟨h.toStored.adoptCommit hr, (h.retargetTo hr).target⟩

omit h in
lemma Stored.updateStateData (h : Stored cfg real sd) (blockID : BlockID) :
    Stored cfg real (sd.updateStateData blockID) := by
  have hr : Stored cfg real (sd.replaceProposalBlockOnLockedBlock blockID) := by
    obtain ⟨proposal, heq⟩ := dropStaleProposal_eq sd blockID
    unfold replaceProposalBlockOnLockedBlock
    rw [heq]
    split
    · exact { h with proposal := h.locked }
    · exact h
  unfold StateData.updateStateData
  dsimp only
  split
  · exact hr
  · exact hr.retargetTo blockID

omit h in
lemma updateStateData_header (sd : StateData) (blockID : BlockID) :
    hasHeader (sd.updateStateData blockID).proposalBlockParts blockID.partSetHeader = true := by
  unfold updateStateData
  dsimp only
  split
  · next hh =>
    simp only [holdsProposalBlock, decide_and, and_eq_true, decide_eq_true_eq] at hh
    exact hh.2
  · exact retargetTo_header _ blockID

lemma Coherent.updateStateData (hr : real blockID) : Coherent cfg real (sd.updateStateData blockID) :=
  ⟨h.toStored.updateStateData blockID, fun _ => ⟨blockID, hr, updateStateData_header sd blockID⟩⟩

omit h in
lemma Stored.atCommit (h : Stored cfg real sd) (hr : real blockID) (commitRound : ℤ) :
    Coherent cfg real ((sd.updateStateData blockID).atCommit commitRound) := by
  have hs := h.updateStateData blockID
  exact { hs with target := fun _ => ⟨blockID, hr, updateStateData_header sd blockID⟩ }

omit h in
lemma Stored.updateValidBlock (h : Stored cfg real sd) : Stored cfg real sd.updateValidBlock := by
  unfold StateData.updateValidBlock
  dsimp only
  split
  · exact { h with valid := h.proposal }
  · exact { h with }

lemma Coherent.updateValidBlock : Coherent cfg real sd.updateValidBlock := by
  refine ⟨h.toStored.updateValidBlock, ?_⟩
  unfold StateData.updateValidBlock
  dsimp only
  split <;> exact h.target

/-! ### Actions -/

lemma Coherent.enterPrevote (he : sd.enterPrevote W cfg height round = .ok (sd', result)) : Coherent cfg real sd' := by
  unfold StateData.enterPrevote at he
  split at he
  · cases he
    exact h
  obtain ⟨⟨sd₁, result₁⟩, hp, he⟩ := of_bind he
  cases he
  obtain ⟨sd₂, blockID, ht, hs, -⟩ := prevote_spec hp
  exact ((h.talks ht).toStored.signs hs).updateRoundStep round (by decide)

lemma Coherent.enterPrevoteWait (he : sd.enterPrevoteWait height round = .ok sd') : Coherent cfg real sd' := by
  unfold StateData.enterPrevoteWait at he
  split_ifs at he <;> cases he
  · exact h
  · exact (h.scheduleTimeout height round .prevoteWait).toStored.updateRoundStep round (by decide)

lemma Coherent.enterPrecommit (he : sd.enterPrecommit W cfg height round = .ok sd') : Coherent cfg real sd' := by
  unfold StateData.enterPrecommit at he
  split at he
  · cases he
    exact h
  obtain ⟨sd₂, hp, he⟩ := of_bind he
  cases he
  refine Stored.updateRoundStep ?_ round (by decide)
  rcases precommit_cases hp with ⟨sd₁, hs₁, hs⟩ | ⟨blockID, sd₁, -, -, -, ht, ⟨-, hs⟩ | ⟨sd₃, hs, rfl⟩⟩
  · rcases hs₁ with rfl | ⟨blockID, rfl⟩
    · exact h.toStored.signs hs
    · exact (h.toStored.retargetTo blockID).signs hs
  · have h₁ := (h.talks ht).toStored
    have hr : Stored cfg real (sd₁.relock round) :=
      { h₁ with }
    exact hr.signs hs
  have h₁ := (h.talks ht).toStored
  have hl : Stored cfg real sd₁.updateLockedBlock :=
    { h₁ with locked := h₁.proposal }
  exact (hl.signs hs).updateValidBlock

lemma Coherent.enterPrecommitWait (he : sd.enterPrecommitWait height round = .ok sd') : Coherent cfg real sd' := by
  unfold StateData.enterPrecommitWait at he
  split_ifs at he <;> cases he
  · exact h
  · exact { h with }

omit h in
lemma Stored.resetProposal (h : Stored cfg real sd) : Stored cfg real sd.resetProposal := by
  have h₁ : Stored cfg real { sd with proposal := none } :=
    { h with }
  unfold StateData.resetProposal
  dsimp only
  split
  · next commit _ => exact h₁.retargetTo commit.blockID
  · exact { h with proposal := .empty nofun }

lemma Coherent.startRound (hs : sd.startRound round = .ok sd') : Coherent cfg real sd' := by
  have hst := startRound_step hs
  obtain ⟨votes, hv, hs⟩ := of_bind hs
  cases hs
  have h₁ : Coherent cfg real (sd.updateRoundStep round .newRound) := h.toStored.updateRoundStep round (by decide)
  have h₂ : Stored cfg real (if round = 0 then sd.updateRoundStep round .newRound
      else (sd.updateRoundStep round .newRound).resetProposal) := by
    split
    · exact h₁.toStored
    · exact h₁.toStored.resetProposal
  refine Stored.coherent { h₂ with majority := fun r t B hn hm => ?_ } (hst.trans_ne (by decide))
  refine h₂.majority r t B hn ?_
  rw [← (evolves_setRound hv).majority_eq fun vs vs' hsa => by rw [show vs' = vs from hsa]]
  exact hm

/-! ### Applying a commit -/

lemma Coherent.updateToState {state : ChainState} {commit : Option Commit} {selector : Bool}
    (hu : sd.updateToState state commit selector = .ok sd') : Coherent cfg real sd' := by
  unfold StateData.updateToState at hu
  split_ifs at hu with h₁ h₂ h₃ h₄ hs
  · cases hu
    exact h
  · obtain ⟨_, -, hu⟩ := of_bind hu
    cases hu
  obtain ⟨lastCommit, -, hu⟩ := of_bind hu
  obtain ⟨votes, hv, hu⟩ := of_bind hu
  cases hu
  refine Stored.coherent ⟨.empty nofun, .empty nofun, .empty nofun, fun r t B _ hm => ?_, nofun, h.queued⟩
    (show RoundStep.newHeight ≠ .applyCommit by decide)
  exact (not_majority_new hv hm).elim

lemma Coherent.applyCommit (ha : sd.applyCommit W commit = .ok (sd', result)) : Coherent cfg real sd' := by
  unfold StateData.applyCommit at ha
  split at ha
  · cases ha
    exact h
  · next block _ _ =>
    obtain ⟨sd₁, hp, ha⟩ := of_bind ha
    obtain ⟨_, -, ha⟩ := of_bind ha
    split_ifs at ha
    · cases ha
    obtain ⟨⟨state, immediately⟩, -, ha⟩ := of_bind ha
    obtain ⟨sd₂, hu, ha⟩ := of_bind ha
    cases ha
    have h₁ := h.talks (mustEnsureProcess_consults hp).talks
    have h₂ := ((h₁.emit _).emit _).updateToState hu
    refine scheduleTimeout ?_ ..
    split
    · exact { h₂ with }
    · exact h₂
  · cases ha
    exact h

end

end StateData

end Tenderdash
