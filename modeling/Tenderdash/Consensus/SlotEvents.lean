import Tenderdash.Consensus.Slots

/-!
Every event keeps the block slots coherent. A part completes a block or is refused by a set that is full, a
vote or a commit turns the node to a block only if two thirds have voted for it, and nothing else writes to a
slot: `Coherent.handle`.
-/

namespace Tenderdash

open Lib HeightVoteSet Option List

namespace StateData

variable {W : World} {cfg : Config} {real : BlockID → Prop} {sd sd' : StateData} {height round : ℤ}
  {result : Except ConsensusError Unit} {parts parts' : PartSet Bytes} {found : Option Commit} {event : Event}

/-! ### Block parts -/

lemma Coherent.moreParts (h : Coherent cfg real sd)
    (hp : sd.proposalBlockParts = some parts) (hh : parts'.header = parts.header)
    (hs : Slot cfg sd.proposalBlock (some parts')) :
    Coherent cfg real { sd with proposalBlockParts := some parts' } := by
  refine { h with proposal := hs, target := fun hst => ?_ }
  obtain ⟨blockID, hr, hha⟩ := h.target hst
  refine ⟨blockID, hr, ?_⟩
  rw [hp] at hha
  simpa [hasHeader, hh] using hha

lemma addPart_header {H : Merkle.Hasher Bytes Bytes} (parts : PartSet Bytes) (part : Part Bytes) :
    (parts.addPart H part).1.header = parts.header := by
  unfold PartSet.addPart
  split_ifs <;> rfl

lemma Coherent.addPart {part : Part Bytes} {added : Go PartSetError Bool}
    (h : Coherent cfg real sd) (hp : sd.proposalBlockParts = some parts)
    (ha : parts.addPart cfg.C.merkle part = (parts', added)) :
    Coherent cfg real { sd with proposalBlockParts := some parts' } := by
  have hg : parts.Gathered cfg.C.merkle := h.proposal.gathered parts hp
  rcases eq_none_or_eq_some sd.proposalBlock with hb | ⟨block, hb⟩
  · have hh := addPart_header (H := cfg.C.merkle) parts part
    have hg' := hg.add part
    rw [ha] at hh hg'
    refine h.moreParts hp hh ?_
    rw [hb]
    refine .empty ?_
    rintro ps ⟨⟩
    exact hg'
  · -- the set of a block that is there is full
    obtain ⟨ps, hps, hc, -⟩ := h.proposal.decodes block hb
    obtain rfl : parts = ps := some.inj (hp.symm.trans hps)
    have hs := hg.addPart_of_isComplete hc part
    rw [ha] at hs
    obtain rfl : parts' = parts := hs
    rw [← hp]
    exact h

lemma Coherent.tryCommits {commits : List Commit} (h : Coherent cfg real sd)
    (hc : ∀ commit ∈ commits, real commit.blockID) (htr : tryCommits W commits sd = .ok (sd', found)) :
    Coherent cfg real sd' ∧ ∀ commit ∈ found, real commit.blockID := by
  obtain ⟨sd₁, ht, ⟨rfl, rfl⟩ | ⟨commit, hm, rfl, rfl⟩⟩ := tryCommits_spec htr
  · exact ⟨h.talks ht, nofun⟩
  have h₁ := h.talks ht
  have hr := hc commit hm
  refine ⟨{ h₁ with parked := ?_ }, ?_⟩ <;>
  · rintro _ ⟨⟩
    exact hr

lemma Coherent.selectParkedCommit {parked : Commit} (h : Coherent cfg real sd)
    (hp : sd.commit = some parked) (hs : sd.selectParkedCommit W parked = .ok (sd', found)) :
    Coherent cfg real sd' ∧ ∀ commit ∈ found, real commit.blockID := by
  refine tryCommits ?_ (fun commit hm => ?_) hs
  · exact { h with parked := nofun, queued := nofun }
  rcases mem_cons.mp ((mem_insertionSort _).mp hm) with rfl | hq
  · exact h.parked commit hp
  obtain ⟨other, ho, rfl⟩ := mem_map.mp hq
  exact h.queued other (CommitCandidates.mem_take ho).2

lemma Coherent.updateValidOnPolka (h : Coherent cfg real sd) (vote : Vote) :
    Coherent cfg real (sd.updateValidOnPolka vote) := by
  unfold StateData.updateValidOnPolka
  split
  · exact h
  next blockID hp =>
  split
  · exact h
  next hn =>
  have hr : real blockID := h.majority _ _ _ (Bool.eq_false_iff.mpr (not_or.mp hn).1) hp
  split
  · exact h.updateValidBlock.retargetTo hr
  · exact h.retargetTo hr

/-- **The actions keep the slots coherent**, if the commits that verify are for real blocks. -/
lemma kept_coherent (W : World) (cfg : Config) (real : BlockID → Prop) :
    Kept W cfg (fun commit => real commit.blockID) (Coherent cfg real) where
  refl _ := id
  trans h h' := h' ∘ h
  scheduled _ height round step h := h.scheduleTimeout height round step
  started hst h := h.startRound hst
  consulted hco h := h.talks hco.talks
  proposing _ round h := h.toStored.updateRoundStep round (by decide)
  prevote hpr h := h.enterPrevote hpr
  prevoteWait hw h := h.enterPrevoteWait hw
  precommit hp h := h.enterPrecommit hp
  precommitWait hw h := h.enterPrecommitWait hw
  validated h := h.updateValidBlock
  polka vote h := h.updateValidOnPolka vote
  applied ha h := h.applyCommit ha
  decided commitRound hm hn h := h.toStored.atCommit (h.majority _ _ _ hn hm) commitRound
  collecting hr h := h.updateStateData hr
  committing hr h := h.toStored.atCommit hr _
  parked hr h := by
    refine { h with parked := ?_ }
    rintro _ ⟨⟩
    exact hr
  adopted hr h := h.adoptCommit hr
  queued peerID fromReplay hr h := by
    refine { h with queued := fun candidate hme => ?_ }
    rcases CommitCandidates.mem_add hme with heq | ⟨-, ho⟩
    · rw [heq]
      exact hr
    · exact h.queued candidate ho
  givenUp h := { h with parked := nofun }
  selected hs hpa h := h.selectParkedCommit hpa hs
  added hps had h := h.addPart hps had
  completed proposal hc hd h := by
    refine { h with proposal := ⟨h.proposal.gathered, ?_⟩ }
    rintro _ ⟨⟩
    exact ⟨_, rfl, hc, hd⟩

/-! ### Events -/

def Genuine (cfg : Config) (real : BlockID → Prop) (sd : StateData) : Event → Prop
  | .vote msg _ _ => ∀ check votes added err, VoteSet.VoteCheck.Minted cfg.C check →
      sd.votes.addVote cfg.C msg.ref check = .ok (votes, added, err) → ∀ r t blockID, blockID.isNil = false →
        twoThirdsMajority (votes.getVoteSet r t) = some blockID → real blockID
  | .commit commit _ _ => sd.view.Verifies cfg.C commit → real commit.blockID
  | _ => True

lemma Genuine.talks (h : sd.Genuine cfg real event) (ht : Talks sd sd') : sd'.Genuine cfg real event := by
  obtain ⟨_, _, _, _, -, rfl⟩ := ht
  cases event <;> exact h

lemma Coherent.setProposal {proposal : ProposalProto} {budget : Option VerificationBudget} (h : Coherent cfg real sd)
    (hse : sd.setProposal W cfg proposal budget = .ok (sd', result)) : Coherent cfg real sd' := by
  rcases setProposal_cases hse with rfl | rfl
  · exact h
  rcases eq_none_or_eq_some sd.proposalBlockParts with hp | ⟨parts, hp⟩
  · -- without parts there is no block
    have hb : sd.proposalBlock = none := by
      refine eq_none_iff_forall_not_mem.mpr fun block hb => ?_
      obtain ⟨ps, hps, -⟩ := h.proposal.decodes block hb
      rw [hp] at hps
      cases hps
    refine { h with proposal := ?_, target := fun hs => ?_ }
    · rw [hb]
      refine .empty ?_
      rintro ps hps
      rw [hp] at hps
      cases hps
      exact .new ..
    · obtain ⟨blockID, -, hh⟩ := h.target hs
      rw [hp] at hh
      cases hh
  · simp only [hp, getD_some]
    rw [← hp]
    exact { h with }

theorem Coherent.handle (h : Coherent cfg real sd) (hg : sd.Genuine cfg real event)
    (hh : sd.handle W cfg event = .ok sd') : Coherent cfg real sd' := by
  cases handle_cases hh with
  | ignored ti => exact h
  | proposal hs => exact h.setProposal hs
  | blockPart ha => exact (kept_coherent W cfg real).addBlockPart ha h
  | vote ha =>
    exact (kept_coherent W cfg real).addVote ha h fun h hm ha => h.votes (hg _ _ _ _ hm ha)
  | commit ha => exact (kept_coherent W cfg real).tryAddCommit hg ha h
  | timeout _ ht => exact (kept_coherent W cfg real).handleTimeout ht h
  | txsAvailable htx => exact (kept_coherent W cfg real).handleTxsAvailable htx h
  | peerMaj23 height round type peerID blockID =>
    refine h.votes fun r t B hn hma => h.majority r t B hn ?_
    rw [← setPeerMaj23_majority sd height round type peerID blockID r t]
    exact hma

end StateData

end Tenderdash
