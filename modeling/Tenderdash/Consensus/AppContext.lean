import Tenderdash.Consensus.Dialogue
import Tenderdash.Consensus.LockInvariant

/-!
The record of what the application has processed is right (`record_matches_application`).

The record names the block by its ID. That the block is the very one follows if no two blocks the node can
decode share a hash.
-/

namespace Tenderdash

open Lib Go Run List Option Bool

/-! ### Calls -/

variable {outputs more : List Output} {block : Block} {commit : Commit} {o : Output}

@[simp] lemma lastCall_append_quiet
    (h : ∀ o ∈ more, o.isProposalCall = false) : lastCall (outputs ++ more) = lastCall outputs := by
  have hn : more.filter Output.isProposalCall = [] := filter_eq_nil_iff.mpr fun o ho => by simp [h o ho]
  rw [lastCall, lastCall, filter_append, hn, append_nil]

lemma lastCall_append_call (outputs : List Output) (h : o.isProposalCall = true) :
    lastCall (outputs ++ [o]) = some o := by simp [lastCall, filter_append, h]

/-- The last call before a block was finalized was a successful one to process the block of the commit for the
round of the commit. -/
def FinalizesProcessed (outputs : List Output) : Prop :=
  ∀ i height blockID commit, outputs[i]? = some (.finalizeBlock height blockID commit) →
    blockID = commit.blockID ∧ ∃ block,
      lastCall (outputs.take i) = some (.processProposal block commit.round true) ∧ block.hash = commit.blockID.hash ∧
        block.stateID = commit.blockID.stateID

lemma FinalizesProcessed.append (h : FinalizesProcessed outputs)
    (hm : ∀ height blockID commit, .finalizeBlock height blockID commit ∉ more) :
    FinalizesProcessed (outputs ++ more) := by
  intro i height blockID commit hi
  rcases lt_or_ge i outputs.length with hlt | hge
  · rw [getElem?_append_left hlt] at hi
    rw [take_append_of_le_length hlt.le]
    exact h i height blockID commit hi
  rw [getElem?_append_right hge] at hi
  exact absurd (mem_of_getElem? hi) (hm height blockID commit)

lemma FinalizesProcessed.finalize (h : FinalizesProcessed outputs) (height : ℤ) (hc : lastCall outputs = some (.processProposal block commit.round true))
    (hh : block.hash = commit.blockID.hash) (hs : block.stateID = commit.blockID.stateID) :
    FinalizesProcessed (outputs ++ [.finalizeBlock height commit.blockID commit]) := by
  intro i height' blockID' commit' hi
  rcases lt_or_ge i outputs.length with hlt | hge
  · rw [List.getElem?_append_left hlt] at hi
    rw [take_append_of_le_length hlt.le]
    exact h i height' blockID' commit' hi
  rw [List.getElem?_append_right hge] at hi
  have hl := mem_singleton.mp (mem_of_getElem? hi)
  cases hl
  have hi₀ : i - outputs.length = 0 := by
    obtain ⟨hlt, -⟩ := List.getElem?_eq_some_iff.mp hi
    simpa using hlt
  obtain rfl : i = outputs.length := by omega
  rw [take_left]
  exact ⟨rfl, block, hc, hh, hs⟩

lemma blockIDOf_spec {parts : Option (PartSet Bytes)}
    (h : (blockIDOf (some block) parts).isNil = false) :
    (blockIDOf (some block) parts).hash = block.hash ∧ (blockIDOf (some block) parts).stateID = block.stateID := by
  unfold blockIDOf at h ⊢
  dsimp only at h ⊢
  split_ifs at h ⊢ with hl
  · exact absurd h (by decide)
  · exact ⟨rfl, rfl⟩

namespace StateData

variable {W : World} {cfg : Config} {sd sd' : StateData} {round : ℤ}

variable {state : ChainState} {lastCommit : Option Commit} {inputs : List (World × Event)}

lemma deeds_run (P : StateData → Prop) (ok : World → Prop) (hi : ∀ sd, initial state lastCommit = .ok sd → P sd)
    (hde : ∀ {W sd sd'}, ok W → Deed cfg W sd sd' → P sd → P sd')
    (hok : ∀ input ∈ inputs, ok input.1) (h : reached cfg state lastCommit inputs = some sd) : P sd := by
  refine run_turn (P := P) (fun hP hW ht hh => ?_) (admitted_of_mem fun _ => hok)
    (fun sd hsd => hi sd (toOption_eq_some.mp hsd)) sd h
  have hd := handle_deeds hh
  clear ht hh
  induction hd with
  | refl => exact hP
  | tail _ hl ih => exact hde hW hl ih

/-! ### The record -/

structure Tracks (cfg : Config) (sd : StateData) : Prop where
  /-- A block on record is the one processed last, for the round on record. -/
  record : sd.processedBlockID.isNil = false → ∃ block parts,
    lastCall sd.outputs = some (.processProposal block sd.currentRoundState.round true) ∧
      sd.processedBlockID = blockIDOf (some block) parts ∧ ∃ bytes, cfg.decode bytes = some block
  finalizes : FinalizesProcessed sd.outputs
  decoded : Decoded cfg sd

lemma Tracks.call (h : Tracks cfg sd) (ho : o.isProposalCall = true)
    {crs : CurrentRoundState} {processedBlockID : BlockID}
    (hr : processedBlockID.isNil = false → ∃ block parts,
      lastCall (sd.outputs ++ [o]) = some (.processProposal block crs.round true) ∧
        processedBlockID = blockIDOf (some block) parts ∧ ∃ bytes, cfg.decode bytes = some block) :
    Tracks cfg { sd.emit o with currentRoundState := crs, processedBlockID := processedBlockID } := by
  refine ⟨hr, h.finalizes.append fun height blockID commit hm => ?_, { h.decoded with }⟩
  rw [← mem_singleton.mp hm] at ho
  cases ho

lemma blockID_ne_nil (hb : sd.proposalBlock = some block)
    (h : sd.verifyCommitBlock commit = .ok true) :
    (blockIDOf sd.proposalBlock sd.proposalBlockParts).isNil = false := by
  unfold verifyCommitBlock at h
  rw [hb] at h
  dsimp only at h
  split_ifs at h with _ hh _
  have hl : block.hash.length ≠ 0 := by
    simp only [hashesTo, any_some, decide_eq_true_eq, not_eq_false] at hh
    rw [hh.2]
    exact hh.1
  rw [hb]
  simp [blockIDOf, BlockID.isNil, hl]

lemma Tracks.finalized (h : Tracks cfg sd) (hb : sd.proposalBlock = some block)
    (hco : sd.verifyCommitBlock commit = .ok true)
    (hp : sd.processedBlockID = blockIDOf sd.proposalBlock sd.proposalBlockParts)
    (hr : sd.currentRoundState.round = commit.round) :
    Tracks cfg (sd.emit (.finalizeBlock sd.height (sd.finalizedBlockID block) commit)) := by
  obtain ⟨-, hf⟩ := verifyCommitBlock_spec hco hb
  have hn := blockID_ne_nil hb hco
  rw [hb] at hp hn
  obtain ⟨called, parts, hca, hID, -⟩ := h.record (hp ▸ hn)
  -- the block on record has the ID of the commit
  have hs : blockIDOf (some called) parts = blockIDOf (some block) sd.proposalBlockParts := hID.symm.trans hp
  have hsp := blockIDOf_spec hn
  have hs' := blockIDOf_spec (hs ▸ hn)
  have hc : called.hash = commit.blockID.hash ∧ called.stateID = commit.blockID.stateID := by
    rw [← hs'.1, ← hs'.2, hs, hsp.1, hsp.2, ← hf]
    exact ⟨rfl, rfl⟩
  rw [hf]
  refine ⟨fun hn' => ?_, ?_, { h.decoded with }⟩
  · obtain ⟨block', parts', hc', hre⟩ := h.record hn'
    exact ⟨block', parts', (lastCall_append_quiet (by simp [Output.isProposalCall])).trans hc', hre⟩
  rw [hr] at hca
  exact h.finalizes.finalize sd.height hca hc.1 hc.2

lemma Tracks.deed (h : Tracks cfg sd) (hde : Deed cfg W sd sd') (hW : W.Answers) : Tracks cfg sd' := by
  cases hde with
  | quiet hq =>
    obtain ⟨⟨more, hou, hmo⟩, hcr, hp, -, hd, -⟩ := hq
    refine ⟨fun hn => ?_, ?_, hd h.decoded⟩
    · rw [hou, hcr, hp, lastCall_append_quiet fun o ho => Output.isProposalCall_of_quiet (hmo o ho)]
      exact h.record (hp ▸ hn)
    rw [hou]
    exact h.finalizes.append fun height blockID commit hme => absurd (hmo _ hme) (by simp [Output.quiet])
  | processed block round crs hb ha =>
    refine h.call rfl fun _ => ⟨block, sd.proposalBlockParts, ?_, by rw [hb], h.decoded.proposal block hb⟩
    have hm := (hW _ _ _ _ ha).2
    simp only [CurrentRoundState.matchesBlock, decide_and, and_eq_true, decide_eq_true_eq] at hm
    rw [hm.2.1]
    exact lastCall_append_call _ rfl
  | failed block round => exact h.call rfl fun hn => by cases hn
  | prepared round crs => exact h.call rfl fun hn => by cases hn
  | finalized block commit hb hc hr => exact h.finalized hb hc (hr hW).1 (hr hW).2
  | queued => exact ⟨h.record, h.finalizes, { h.decoded with }⟩
  | taken => exact ⟨h.record, h.finalizes, { h.decoded with }⟩

lemma tracks_initial (h : initial state lastCommit = .ok sd) : Tracks cfg sd := by
  obtain ⟨_, -, h⟩ := of_bind h
  obtain ⟨votes, -, h⟩ := of_bind h
  cases h
  refine ⟨nofun, fun i height blockID commit hi => ?_, ⟨nofun, nofun, nofun⟩⟩
  have hm := mem_singleton.mp (mem_of_getElem? hi)
  cases hm

lemma tracks_run (ha : ∀ input ∈ inputs, input.1.Answers)
    (h : reached cfg state lastCommit inputs = some sd) : Tracks cfg sd :=
  deeds_run (Tracks cfg) World.Answers (fun _ => tracks_initial) (fun hW hd ht => ht.deed hd hW) ha h

lemma processedFor_spec (h : sd.processedFor round = true) : ∃ block, sd.proposalBlock = some block ∧
    sd.currentRoundState.round = round ∧ sd.processedBlockID.isNil = false ∧
      sd.processedBlockID = blockIDOf sd.proposalBlock sd.proposalBlockParts := by
  obtain ⟨block, hb, h⟩ := (any_eq_true _ _).mp h
  simp only [CurrentRoundState.matchesBlock, decide_and, and_eq_true, decide_eq_true_eq] at h
  obtain ⟨-, ⟨-, hr, -⟩, hn, hID⟩ := h
  exact ⟨block, hb, hr, hn, hID⟩

def finalizingRound : List (World × Event) :=
  lockingRound ++ [voteEvent .precommit 0 0 lockID,
    voteEvent .precommit 0 1 lockID,
    voteEvent .precommit 0 2 lockID].map (lockWorld, ·)

end StateData

end Tenderdash
