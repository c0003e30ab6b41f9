import Tenderdash.Consensus.Machine
import Tenderdash.Types.VoteSetMajority

/-!
What the handlers of the machine do, said once for each of them: the states in between, and the functions that lead
from one to the next. What events keep up is shown along these.
-/

namespace Tenderdash

open Lib Go HeightVoteSet List

def Output.passing : Output → Bool
  | .signVote .. | .scheduleTimeout .. | .prepareProposal .. | .processProposal .. | .finalizeBlock .. => false
  | _ => true

namespace StateData

variable {W : World} {cfg : Config} {sd sd' : StateData}

/-! ### Consulting the application -/

section Consult

variable {commit : Commit} {round : ℤ} {result : Except ConsensusError Unit}

def Asks (sd sd' : StateData) : Prop :=
  ∃ expectations outputs, (∀ o ∈ outputs, o.passing = true) ∧
    sd' = { sd with expectations := expectations, outputs := sd.outputs ++ outputs }

lemma Asks.refl (sd : StateData) : Asks sd sd := ⟨sd.expectations, [], by simp, by rw [append_nil]⟩

lemma Asks.trans {sd₁ : StateData} (h : Asks sd sd₁) (h' : Asks sd₁ sd') : Asks sd sd' := by
  obtain ⟨_, outputs, hc, rfl⟩ := h
  obtain ⟨expectations, outputs', hc', rfl⟩ := h'
  refine ⟨expectations, outputs ++ outputs', ?_, by rw [append_assoc]⟩
  intro o ho
  exact (mem_append.mp ho).elim (hc o) (hc' o)

lemma asks_emit (sd : StateData) {o : Output} (ho : o.passing = true) : Asks sd (sd.emit o) :=
  ⟨sd.expectations, [o], by simpa using ho, rfl⟩

lemma asks_expectations (sd : StateData) (expectations : CommitExpectations) :
    Asks sd { sd with expectations := expectations } := ⟨expectations, [], by simp, by rw [append_nil]⟩

lemma learnExpectation_asks (h : sd.learnExpectation W commit = .ok sd') : Asks sd sd' := by
  unfold learnExpectation at h
  split at h
  · cases h
    exact .refl sd
  split at h
  · obtain ⟨⟨sd₁, extensions⟩, he, h⟩ := of_bind h
    cases h
    obtain ⟨exts, -, he⟩ := of_bind he
    cases he
    exact (asks_emit sd rfl).trans (asks_expectations ..)
  · cases h
    exact .refl sd

lemma verifyCommitExtensions_asks (h : sd.verifyCommitExtensions W commit = .ok (sd', result)) : Asks sd sd' := by
  unfold verifyCommitExtensions at h
  split at h
  · cases h
    exact .refl sd
  obtain ⟨vote, -, h⟩ := of_bind h
  split at h
  · cases h
    exact .refl sd
  next vote =>
  obtain ⟨ok, -, h⟩ := of_bind h
  have he : Asks sd (sd.emit (.verifyVoteExtension vote ok)) := asks_emit sd rfl
  split at h
  · cases h
    exact he
  obtain ⟨sd₁, hl, h⟩ := of_bind h
  cases h
  refine (he.trans (learnExpectation_asks hl)).trans ?_
  unfold rememberRejection
  split
  · split
    · exact asks_expectations sd₁ _
    · exact .refl sd₁
  · exact .refl sd₁

inductive Consult (W : World) : StateData → StateData → Prop
  | said {sd : StateData} {o : Output} (ho : o.passing = true) : Consult W sd (sd.emit o)
  | asked {sd sd' : StateData} {commit : Commit} {result : Except ConsensusError Unit}
      (h : sd.verifyCommitExtensions W commit = .ok (sd', result)) : Consult W sd sd'
  | processed {sd : StateData} (block : Block) (round : ℤ) (crs : CurrentRoundState)
      (hb : sd.proposalBlock = some block)
      (ha : W.processProposal sd.outputs.length block round = .ok crs) :
      Consult W sd { sd.emit (.processProposal block round true) with
        currentRoundState := crs
        processedBlockID := blockIDOf sd.proposalBlock sd.proposalBlockParts }
  | failed {sd : StateData} (block : Block) (round : ℤ) :
      Consult W sd { sd.emit (.processProposal block round false) with
        currentRoundState := .empty
        processedBlockID := .nil }
  | prepared {sd : StateData} (round : ℤ) (crs : CurrentRoundState) :
      Consult W sd { sd.emit (.prepareProposal sd.height round) with
        currentRoundState := crs
        processedBlockID := .nil }

abbrev Consults (W : World) : StateData → StateData → Prop := Relation.ReflTransGen (Consult W)

lemma ensureProcess_consults (h : sd.ensureProcess W round = (sd', result)) : Consults W sd sd' := by
  unfold ensureProcess at h
  split at h
  · cases h
    exact .refl
  next block hb =>
  split at h
  · cases h
    exact .refl
  split at h <;> cases h
  · exact .single (.failed block round)
  · next crs ha => exact .single (.processed block round crs hb ha)

lemma mustEnsureProcess_ok (h : sd.mustEnsureProcess W round = .ok sd') : sd.ensureProcess W round = (sd', .ok ()) := by
  unfold mustEnsureProcess at h
  split at h
  · next hp =>
    cases h
    exact hp
  · cases h

lemma mustEnsureProcess_consults (h : sd.mustEnsureProcess W round = .ok sd') : Consults W sd sd' :=
  ensureProcess_consults (mustEnsureProcess_ok h)

lemma ensureOwnRound_consults (h : sd.ensureOwnRound W = (sd', result)) : Consults W sd sd' := by
  unfold ensureOwnRound at h
  dsimp only at h
  split at h
  · cases h
    exact .refl
  split at h
  · cases h
    exact .refl
  · exact ensureProcess_consults h

lemma verifyProcessedCommit_consults (h : sd.verifyProcessedCommit W commit = .ok (sd', result)) :
    Consults W sd sd' := by
  unfold verifyProcessedCommit at h
  split at h
  · cases h
    exact .refl
  split at h
  · cases h
  · next hp =>
    cases h
    exact ensureProcess_consults hp
  next hp =>
  have hc := ensureProcess_consults hp
  obtain ⟨valid, -, h⟩ := of_bind h
  split at h
  · exact hc.tail (.asked h)
  cases h
  exact hc

lemma sendProposal_consults {proposal : ProposalProto} {parts : Option (PartSet Bytes)}
    (h : sd.sendProposal W proposal parts = (sd', result)) : Consults W sd sd' := by
  unfold sendProposal at h
  split at h <;> cases h
  · exact .refl
  · exact .single (.said rfl)

lemma createProposal_consults {height : ℤ} (h : sd.createProposal W cfg height round = .ok (sd', result)) :
    Consults W sd sd' := by
  unfold createProposal at h
  split at h
  · exact sendProposal_consults (Except.ok.inj h)
  obtain ⟨⟨sd₁, created⟩, hc, h⟩ := of_bind h
  have hcr : Consults W sd sd₁ := by
    unfold createProposalBlock at hc
    split at hc
    · cases hc
      exact .refl
    split at hc
    · cases hc
      exact .refl
    obtain ⟨⟨block, parts, crs⟩, -, hc⟩ := of_bind hc
    cases hc
    exact .single (.prepared round crs)
  split at h
  · next heq =>
    cases heq
    cases h
    exact hcr
  · cases h
  next heq =>
  cases heq
  exact hcr.trans (sendProposal_consults (Except.ok.inj h))

lemma handleCommitVerifyError_consults (W : World) (sd : StateData) (e : ConsensusError) (peerID : String)
    (fromReplay : Bool) : Consults W sd (sd.handleCommitVerifyError e peerID fromReplay) := by
  unfold handleCommitVerifyError
  split
  · split
    · exact .refl
    · exact .single (.said rfl)
  · exact .refl

end Consult

/-! ### Votes -/

section Vote

variable {ref : VoteRef} {result : Except ConsensusError Bool} {vote : Vote}

inductive Shown (W : World) (sd : StateData) (vote : Vote) : StateData → Prop
  | unseen : Shown W sd vote sd
  | returned {sd₁ : StateData} {own : Except ConsensusError Unit} (ho : sd.ensureOwnRound W = (sd₁, own)) :
      Shown W sd vote sd₁
  | seen {sd₁ : StateData} {own : Except ConsensusError Unit} (ho : sd.ensureOwnRound W = (sd₁, own)) (ok : Bool) :
      Shown W sd vote (sd₁.emit (.verifyVoteExtension vote ok))

lemma Shown.consults (h : Shown W sd vote sd') : Consults W sd sd' := by
  cases h with
  | unseen => exact .refl
  | returned ho => exact ensureOwnRound_consults ho
  | seen ho ok => exact (ensureOwnRound_consults ho).tail (.said rfl)

lemma addPrecommit_cases {budget : Option VerificationBudget}
    (h : sd.addPrecommit W cfg ref budget = .ok (sd', result)) :
    ∃ sd₁, Shown W sd ref.vote sd₁ ∧ (sd' = sd₁ ∨
      ∃ check, VoteSet.VoteCheck.Minted cfg.C check ∧ sd₁.addToVoteSet W cfg ref check = .ok (sd', result)) := by
  unfold addPrecommit at h
  dsimp only at h
  split at h
  · exact ⟨sd, .unseen, .inr ⟨.verify budget, trivial, h⟩⟩
  split at h
  · cases h
    exact ⟨sd, .unseen, .inl rfl⟩
  split at h
  · cases h
    exact ⟨sd, .unseen, .inl rfl⟩
  obtain ⟨verified, hv, h⟩ := of_bind h
  cases verified with
  | error e =>
    cases h
    exact ⟨sd, .unseen, .inl rfl⟩
  | ok verified =>
    dsimp only at h
    split at h
    · next ho =>
      cases h
      exact ⟨sd', .returned ho, .inl rfl⟩
    next _ sd₁ ho =>
    obtain ⟨ok, -, h⟩ := of_bind h
    refine ⟨_, .seen ho ok, ?_⟩
    split at h
    · exact .inr ⟨.verified verified, ⟨_, _, _, _, _, _, _, settle_eq_ok_ok.mp hv⟩, h⟩
    cases h
    exact .inl rfl

lemma addToVoteSet_cases {check : VoteSet.VoteCheck} (h : sd.addToVoteSet W cfg ref check = .ok (sd', result)) :
    ∃ votes added err, sd.votes.addVote cfg.C ref check = .ok (votes, added, err) ∧
      (sd' = { sd with votes := votes } ∨
        (updateValidOnPolka { sd with votes := votes } ref.vote).dispatchPrevote W cfg ref.vote = .ok sd' ∨
        (ref.vote.type ≠ .prevote ∧ dispatchPrecommit W cfg { sd with votes := votes } ref.vote = .ok sd')) := by
  obtain ⟨⟨votes, added, err⟩, ha, h⟩ := of_bind h
  refine ⟨votes, added, err, ha, ?_⟩
  dsimp only at h
  split at h
  · cases h
    exact .inl rfl
  · cases h
    exact .inl rfl
  split at h
  · obtain ⟨sd₁, hd, h⟩ := of_bind h
    cases h
    exact .inr (.inl hd)
  next ht =>
  obtain ⟨sd₁, hd, h⟩ := of_bind h
  cases h
  exact .inr (.inr ⟨ht, hd⟩)

lemma addVote_cases {peerID : String} {fromReplay : Bool}
    (h : sd.addVote W cfg ref peerID fromReplay = .ok (sd', result)) :
    ∃ sd₁ sd₂, Shown W sd ref.vote sd₁ ∧ (sd₂ = sd₁ ∨ ∃ check stored, VoteSet.VoteCheck.Minted cfg.C check ∧
        sd₁.addToVoteSet W cfg ref check = .ok (sd₂, stored)) ∧
      (sd' = sd₂ ∨ ∃ e, sd₂.handleVoteError cfg ref.vote e = (sd', result)) := by
  unfold addVote at h
  dsimp only at h
  split at h
  · cases h
    exact ⟨sd, sd, .unseen, .inl rfl, .inl rfl⟩
  split at h
  · cases h
    exact ⟨sd, sd, .unseen, .inl rfl, .inl rfl⟩
  obtain ⟨⟨sd₂, stored⟩, hs, h⟩ := of_bind h
  have he : sd' = sd₂ ∨ ∃ e, sd₂.handleVoteError cfg ref.vote e = (sd', result) := by
    cases stored with
    | error e => exact .inr ⟨e, Except.ok.inj h⟩
    | ok added =>
      cases h
      exact .inl rfl
  split at hs
  · exact ⟨sd, sd₂, .unseen, .inr ⟨.verify _, stored, trivial, hs⟩, he⟩
  · obtain ⟨sd₁, hsh, hc⟩ := addPrecommit_cases hs
    exact ⟨sd₁, sd₂, hsh, hc.imp_right fun ⟨check, hm, ha⟩ => ⟨check, stored, hm, ha⟩, he⟩
  cases hs
  exact ⟨sd, sd, .unseen, .inl rfl, he⟩

lemma handleVoteError_consults (W : World) {e : ConsensusError}
    (h : sd.handleVoteError cfg vote e = (sd', result)) : Consults W sd sd' := by
  unfold handleVoteError at h
  split at h
  · split_ifs at h <;> cases h
    · exact .refl
    · exact .refl
    · exact .single (.said rfl)
  cases h
  exact .refl

end Vote

lemma setProposal_cases {proposal : ProposalProto} {budget : Option VerificationBudget}
    {result : Except ConsensusError Unit} (h : sd.setProposal W cfg proposal budget = .ok (sd', result)) :
    sd' = sd ∨ sd' = { sd with
      proposal := some proposal
      proposalBlockParts := sd.proposalBlockParts.getD (.newFromHeader proposal.blockID.partSetHeader.total
        proposal.blockID.partSetHeader.hash) } := by
  unfold setProposal at h
  split at h
  · cases h
    exact .inl rfl
  split at h
  · cases h
    exact .inl rfl
  split at h
  · cases h
    exact .inl rfl
  obtain ⟨verified, -, h⟩ := of_bind h
  cases verified with
  | error e =>
    cases h
    exact .inl rfl
  | ok _ =>
    cases h
    exact .inr rfl

/-! ### Commits -/

section Commit

variable {commit : Commit} {height : ℤ} {result : Except ConsensusError Unit}

def Checked (W : World) (sd : StateData) (commit : Commit) (sd' : StateData) : Prop :=
  sd' = sd ∨ ∃ result, sd.verifyProcessedCommit W commit = .ok (sd', result)

lemma Checked.consults (h : Checked W sd commit sd') : Consults W sd sd' := by
  rcases h with rfl | ⟨_, hp⟩
  · exact .refl
  · exact verifyProcessedCommit_consults hp

lemma checked_of_verifyHeldCommit (h : sd.verifyHeldCommit W commit = .ok (sd', result)) : Checked W sd commit sd' := by
  unfold verifyHeldCommit at h
  split at h
  · cases h
    exact .inl rfl
  · cases h
    exact .inl rfl
  · exact .inr ⟨result, h⟩

lemma addCommit_cases (h : sd.addCommit W cfg commit = .ok (sd', result)) :
    ((sd.updateStateData commit.blockID).proposalBlock = none ∧ sd' = sd.updateStateData commit.blockID) ∨
      ∃ sd₁ applied,
        ((sd.updateStateData commit.blockID).atCommit commit.round).applyCommit W commit = .ok (sd₁, applied) ∧
        (sd' = sd₁ ∨ (applied = .ok () ∧ ∃ entered, sd₁.enterNewRound W cfg sd₁.height 0 = .ok (sd', entered))) := by
  unfold addCommit at h
  dsimp only at h
  split at h
  · next hn =>
    cases h
    exact .inl ⟨Option.isNone_iff_eq_none.mp hn, rfl⟩
  obtain ⟨⟨sd₁, applied⟩, ha, h⟩ := of_bind h
  refine .inr ⟨sd₁, applied, ha, ?_⟩
  cases applied with
  | error e =>
    cases h
    exact .inl rfl
  | ok _ =>
    dsimp only at h
    split at h
    · cases h
      exact .inl rfl
    obtain ⟨⟨sd₂, entered⟩, hne, h⟩ := of_bind h
    cases h
    exact .inr ⟨rfl, entered, hne⟩

lemma addLaterCommit_cases {peerID : String} {fromReplay : Bool}
    (h : sd.addLaterCommit W cfg commit peerID fromReplay = .ok (sd', result)) :
    ∃ sd₁, Checked W sd commit sd₁ ∧
      ((∃ e, sd' = handleCommitVerifyError { sd₁ with commit := none } e peerID fromReplay) ∨
        ∃ sd₂ entered, sd₁.enterNewRound W cfg sd₁.height commit.round = .ok (sd₂, entered) ∧
          (sd' = sd₂ ∨ sd₂.addCommit W cfg commit = .ok (sd', result))) := by
  obtain ⟨⟨sd₁, checked⟩, hc, h⟩ := of_bind h
  have hch : Checked W sd commit sd₁ := by
    split at hc
    · exact checked_of_verifyHeldCommit hc
    cases hc
    exact .inl rfl
  refine ⟨sd₁, hch, ?_⟩
  cases checked with
  | error e =>
    cases h
    exact .inl ⟨e, rfl⟩
  | ok _ =>
    obtain ⟨⟨sd₂, entered⟩, hn, h⟩ := of_bind h
    refine .inr ⟨sd₂, entered, hn, ?_⟩
    cases entered with
    | error e =>
      cases h
      exact .inl rfl
    | ok _ =>
      dsimp only at h
      split at h
      · exact .inr h
      cases h
      exact .inl rfl

lemma proposalCompleted_cases (h : sd.proposalCompleted W cfg height = .ok (sd', result)) :
    (sd.validateOnComplete.step ≤ .propose ∧ ∃ sd₁ entered,
      sd.validateOnComplete.enterPrevote W cfg height sd.validateOnComplete.round = .ok (sd₁, entered) ∧
        (sd' = sd₁ ∨ sd₁.enterPrecommit W cfg height sd₁.round = .ok sd')) ∨
      sd.validateOnComplete.tryFinalizeCommit W height = .ok sd' ∨
      (sd.validateOnComplete.step ≠ .applyCommit ∧ sd' = sd.validateOnComplete) := by
  unfold proposalCompleted at h
  dsimp only at h
  split at h
  · next hpe =>
    obtain ⟨⟨sd₁, entered⟩, hpr, h⟩ := of_bind h
    refine .inl ⟨hpe.1, sd₁, entered, hpr, ?_⟩
    cases entered with
    | error e =>
      cases h
      exact .inl rfl
    | ok _ =>
      dsimp only at h
      split at h
      · obtain ⟨sd₂, hp, h⟩ := of_bind h
        cases h
        exact .inr hp
      cases h
      exact .inl rfl
  split at h
  · obtain ⟨sd₁, hf, h⟩ := of_bind h
    cases h
    exact .inr (.inl hf)
  next ho =>
  cases h
  exact .inr (.inr ⟨ho, rfl⟩)

lemma dispatchPrecommit_cases {vote : Vote} (h : sd.dispatchPrecommit W cfg vote = .ok sd') :
    sd' = sd ∨ ∃ sd₁ entered, sd.enterNewRound W cfg sd.height vote.round = .ok (sd₁, entered) ∧
      (sd₁.enterPrecommitWait sd.height vote.round = .ok sd' ∨
        ∃ sd₂, sd₁.enterPrecommit W cfg sd.height vote.round = .ok sd₂ ∧
          (sd₂.enterPrecommitWait sd.height vote.round = .ok sd' ∨
            ∃ blockID sd₃ entered, twoThirdsMajority (sd.votes.precommits vote.round) = some blockID ∧
              blockID.isNil = false ∧ sd₂.enterCommit W sd.height vote.round = .ok sd₃ ∧
              sd₃.enterNewRound W cfg sd₃.height 0 = .ok (sd', entered))) := by
  unfold dispatchPrecommit at h
  dsimp only at h
  split at h
  · split at h
    · obtain ⟨⟨sd₁, entered⟩, hn, h⟩ := of_bind h
      exact .inr ⟨sd₁, entered, hn, .inl h⟩
    cases h
    exact .inl rfl
  next blockID hm =>
  obtain ⟨⟨sd₁, entered⟩, hn, h⟩ := of_bind h
  obtain ⟨sd₂, hp, h⟩ := of_bind h
  refine .inr ⟨sd₁, entered, hn, .inr ⟨sd₂, hp, ?_⟩⟩
  split at h
  · exact .inl h
  next hni =>
  obtain ⟨sd₃, hc, h⟩ := of_bind h
  obtain ⟨⟨sd₄, entered⟩, hn, h⟩ := of_bind h
  cases h
  exact .inr ⟨blockID, sd₃, entered, hm, Bool.eq_false_iff.mpr hni, hc, hn⟩

end Commit

/-! ### Entering steps -/

structure Entered (W : World) (cfg : Config) (R : StateData → StateData → Prop) : Prop where
  refl : ∀ sd, R sd sd
  trans : ∀ {a b c}, R a b → R b c → R a c
  scheduled : ∀ sd height round step, R sd (scheduleTimeout sd height round step)
  started : ∀ {sd sd' round}, startRound sd round = .ok sd' → R sd sd'
  consulted : ∀ {sd sd'}, Consults W sd sd' → R sd sd'
  proposing : ∀ sd round, R sd (updateRoundStep sd round .propose)
  prevote : ∀ {sd sd' height round result}, enterPrevote W cfg sd height round = .ok (sd', result) → R sd sd'
  prevoteWait : ∀ {sd sd' height round}, enterPrevoteWait sd height round = .ok sd' → R sd sd'
  precommit : ∀ {sd sd' height round}, enterPrecommit W cfg sd height round = .ok sd' → R sd sd'

namespace Entered

variable {R : StateData → StateData → Prop} (hR : Entered W cfg R) {height round : ℤ}
  {result : Except ConsensusError Unit}

include hR

lemma propose (h : sd.enterPropose W cfg height round = .ok (sd', result)) : R sd sd' := by
  unfold enterPropose at h
  split at h
  · cases h
    exact hR.refl sd
  split at h
  · cases h
    exact hR.scheduled sd height round .newRound
  obtain ⟨⟨sd₁, result₁⟩, hc, h⟩ := of_bind h
  have hcr : R (sd.scheduleTimeout height round .propose) sd₁ := by
    split at hc
    · exact hR.consulted (createProposal_consults hc)
    cases hc
    exact hR.refl _
  have h₁ : R sd (sd₁.updateRoundStep round .propose) :=
    hR.trans (hR.trans (hR.scheduled sd height round .propose) hcr) (hR.proposing sd₁ round)
  dsimp only at h
  split at h
  · obtain ⟨⟨sd₂, result₂⟩, hp, h⟩ := of_bind h
    cases h
    exact hR.trans h₁ (hR.prevote hp)
  cases h
  exact h₁

lemma newRound (h : sd.enterNewRound W cfg height round = .ok (sd', result)) : R sd sd' := by
  unfold enterNewRound at h
  split at h
  · cases h
    exact hR.refl sd
  obtain ⟨sd₁, hs, h⟩ := of_bind h
  have h₁ : R sd sd₁ := hR.started hs
  split at h
  · cases h
  split at h
  · split at h <;> cases h
    · exact hR.trans h₁ (hR.scheduled sd₁ height round .newRound)
    · exact h₁
  split at h
  · cases h
    exact h₁
  · exact hR.trans h₁ (hR.propose h)

lemma dispatchPrevote {vote : Vote} (h : sd.dispatchPrevote W cfg vote = .ok sd') : R sd sd' := by
  unfold StateData.dispatchPrevote at h
  dsimp only at h
  split at h
  · obtain ⟨⟨sd₁, _⟩, hn, h⟩ := of_bind h
    cases h
    exact hR.newRound hn
  split at h
  · split at h
    · exact hR.precommit h
    · split at h
      · exact hR.prevoteWait h
      · cases h
        exact hR.refl sd
  · split at h
    · obtain ⟨⟨sd₁, _⟩, hp, h⟩ := of_bind h
      cases h
      exact hR.prevote hp
    · cases h
      exact hR.refl sd

lemma handleTimeout {ti : TimeoutInfo} (h : sd.handleTimeout W cfg ti = .ok sd') : R sd sd' := by
  unfold StateData.handleTimeout at h
  split at h
  · cases h
    exact hR.refl sd
  split at h
  · obtain ⟨⟨sd₁, _⟩, hn, h⟩ := of_bind h
    cases h
    exact hR.newRound hn
  · obtain ⟨⟨sd₁, _⟩, hpe, h⟩ := of_bind h
    cases h
    exact hR.propose hpe
  · obtain ⟨⟨sd₁, _⟩, hpr, h⟩ := of_bind h
    cases h
    exact hR.prevote hpr
  · exact hR.precommit h
  · obtain ⟨sd₁, hp, h⟩ := of_bind h
    obtain ⟨⟨sd₂, _⟩, hn, h⟩ := of_bind h
    cases h
    exact hR.trans (hR.precommit hp) (hR.newRound hn)
  · cases h

lemma handleTxsAvailable (h : sd.handleTxsAvailable W cfg = .ok sd') : R sd sd' := by
  unfold StateData.handleTxsAvailable at h
  split at h
  · cases h
    exact hR.refl sd
  split at h
  · split at h <;> cases h
    · exact hR.refl sd
    · exact hR.scheduled sd sd.height 0 .newRound
  · obtain ⟨⟨sd₁, _⟩, hp, h⟩ := of_bind h
    cases h
    exact hR.propose hp
  cases h
  exact hR.refl sd

end Entered

/-! ### Events -/

inductive Handled (W : World) (cfg : Config) (sd : StateData) : Event → StateData → Prop
  | ignored (ti : TimeoutInfo) : Handled W cfg sd (.timeout ti) sd
  | proposal {sd' : StateData} {proposal : ProposalProto} {peerID : String} {fromReplay : Bool}
      {budget : Option VerificationBudget} {result : Except ConsensusError Unit}
      (h : sd.setProposal W cfg proposal budget = .ok (sd', result)) :
      Handled W cfg sd (.proposal proposal peerID fromReplay) sd'
  | blockPart {sd' : StateData} {height : ℤ} {part : Part Bytes} {peerID : String} {fromReplay : Bool}
      {result : Except ConsensusError Unit} (h : sd.addBlockPart W cfg height part = .ok (sd', result)) :
      Handled W cfg sd (.blockPart height part peerID fromReplay) sd'
  | vote {sd' : StateData} {msg : VoteMessage} {peerID : String} {fromReplay : Bool}
      {result : Except ConsensusError Bool} (h : sd.addVote W cfg msg.ref peerID fromReplay = .ok (sd', result)) :
      Handled W cfg sd (.vote msg peerID fromReplay) sd'
  | commit {sd' : StateData} {commit : Commit} {peerID : String} {fromReplay : Bool}
      {result : Except ConsensusError Unit}
      (h : sd.tryAddCommit W cfg commit peerID fromReplay = .ok (sd', result)) :
      Handled W cfg sd (.commit commit peerID fromReplay) sd'
  | timeout {sd' : StateData} {ti : TimeoutInfo} (hs : sd.scheduled ti = true)
      (h : sd.handleTimeout W cfg ti = .ok sd') : Handled W cfg sd (.timeout ti) sd'
  | txsAvailable {sd' : StateData} (h : sd.handleTxsAvailable W cfg = .ok sd') : Handled W cfg sd .txsAvailable sd'
  | peerMaj23 (height round : ℤ) (type : SignedMsgType) (peerID : String) (blockID : BlockID) :
      Handled W cfg sd (.peerMaj23 height round type peerID blockID)
        { sd with votes := (sd.votes.setPeerMaj23 height round type peerID blockID).1 }

lemma handle_cases {event : Event} (h : sd.handle W cfg event = .ok sd') : Handled W cfg sd event sd' := by
  cases event with
  | proposal proposal peerID fromReplay =>
    obtain ⟨_, -, h⟩ := of_bind h
    obtain ⟨⟨sd₁, _⟩, hse, h⟩ := of_bind h
    cases h
    exact .proposal hse
  | blockPart height part peerID fromReplay =>
    obtain ⟨_, -, h⟩ := of_bind h
    obtain ⟨⟨sd₁, _⟩, ha, h⟩ := of_bind h
    cases h
    exact .blockPart ha
  | vote msg peerID fromReplay =>
    obtain ⟨_, -, h⟩ := of_bind h
    obtain ⟨⟨sd₁, _⟩, ha, h⟩ := of_bind h
    cases h
    exact .vote ha
  | commit commit peerID fromReplay =>
    obtain ⟨_, -, h⟩ := of_bind h
    obtain ⟨⟨sd₁, _⟩, ha, h⟩ := of_bind h
    cases h
    exact .commit ha
  | timeout ti =>
    simp only [handle] at h
    split at h
    · next hs => exact .timeout hs h
    cases h
    exact .ignored ti
  | txsAvailable => exact .txsAvailable h
  | peerMaj23 height round type peerID blockID =>
    cases h
    exact .peerMaj23 height round type peerID blockID

end StateData

end Tenderdash
