import Tenderdash.Consensus.Kept

/-!
The contract between a node and its application on the extensions of commits. `ExtendVote` returns, for a block
and round, the one vector of extensions that the application accepts. The node learns this vector when a commit is
rejected, and from then on knows which commits of the round the application would reject
(`verifyCommitExtensions_iff`).
-/

namespace Tenderdash

open Lib Go Function

def Output.quiet : Output → Bool
  | .prepareProposal .. | .processProposal .. | .finalizeBlock .. => false
  | _ => true

def Output.isProposalCall : Output → Bool
  | .prepareProposal .. | .processProposal .. => true
  | _ => false

lemma Output.quiet_of_passing {o : Output} (h : o.passing = true) : o.quiet = true := by
  cases o <;> first | rfl | cases h

lemma Output.isProposalCall_of_quiet {o : Output} (h : o.quiet = true) : o.isProposalCall = false := by
  cases o <;> first | rfl | cases h

/-- The contract of `ExtendVote`: for a block and round it returns the one vector of extensions, up to signatures,
that the application accepts of a commit. -/
structure World.KeepsContract (W : World) (shape : ℤ → ℤ × Bytes → List (Option VoteExtensionProto)) : Prop where
  extendsVote : ∀ n vote, ∃ extensions, W.extendVote n vote = .ok extensions ∧
    ((extensions.filter VoteExtension.isThresholdRecoverable).map fun ext => some ext.proto) =
      shape vote.height (vote.round, vote.blockID.key)
  verifies : ∀ n commit vote, Commit.getCanonicalVote commit = .ok vote → W.verifyVoteExtension n vote =
    .ok (sameVoteExtensionShape commit.thresholdVoteExtensions
      (shape commit.height (CommitExpectations.roundBlock commit)))

def CommitExpectations.Sound (e : CommitExpectations)
    (shape : ℤ → ℤ × Bytes → List (Option VoteExtensionProto)) : Prop :=
  ∀ commit exp, e.lookup commit = some exp →
    exp.extensions = shape commit.height (roundBlock commit) ∧ exp.rejected = false

lemma CommitExpectations.Sound.learn {e : CommitExpectations} {shape : ℤ → ℤ × Bytes → List (Option VoteExtensionProto)}
    (h : e.Sound shape) (commit : Commit) : (e.learn commit (shape commit.height (roundBlock commit))).Sound shape := by
  intro other exp hl
  unfold CommitExpectations.learn lookup store at hl
  dsimp only at hl
  by_cases hs : roundBlock other = roundBlock commit
  · split_ifs at hl with h₁ h₂ h₂ <;>
    · rw [hs, update_self] at hl
      cases hl
      simp only [not_not] at h₂
      rw [h₂, hs]
      simp_all
  · split_ifs at hl with h₁ h₂ h₂
    · rw [update_of_ne hs] at hl
      cases hl
    · rw [update_of_ne hs] at hl
      refine h other exp ?_
      unfold lookup
      rw [if_neg h₂]
      exact hl

namespace StateData

variable {W : World} {sd sd' : StateData} {shape : ℤ → ℤ × Bytes → List (Option VoteExtensionProto)} {commit : Commit}
  {result : Except ConsensusError Unit}

lemma Asks.processedFor (h : Asks sd sd') (round : ℤ) : sd'.processedFor round = sd.processedFor round := by
  obtain ⟨_, _, -, rfl⟩ := h
  rfl

/-! ### What it accepts -/

def Fits (shape : ℤ → ℤ × Bytes → List (Option VoteExtensionProto)) (commit : Commit) : Prop :=
  sameVoteExtensionShape commit.thresholdVoteExtensions
    (shape commit.height (CommitExpectations.roundBlock commit)) = true

section

variable (hsound : sd.expectations.Sound shape)

include hsound

lemma fits_iff {exp : CommitExpectation}
    (hl : sd.expectations.lookup commit = some exp) : exp.fits commit = true ↔ Fits shape commit := by
  unfold CommitExpectation.fits Fits
  rw [(hsound commit exp hl).1]

lemma refuseUnprocessedCommit_of_fits (hf : Fits shape commit) : sd.refuseUnprocessedCommit commit = .ok () := by
  unfold refuseUnprocessedCommit
  split
  · rfl
  split
  · rfl
  next exp hl =>
  rw [if_neg]
  simp [(fits_iff hsound hl).mpr hf, (hsound commit exp hl).2]

lemma not_fits_of_refused {e : ConsensusError}
    (h : sd.refuseUnprocessedCommit commit = .error e) : ¬ Fits shape commit := by
  intro hf
  rw [refuseUnprocessedCommit_of_fits hsound hf] at h
  cases h

lemma learnExpectation_sound (hc : W.KeepsContract shape)
    (h : sd.learnExpectation W commit = .ok sd') : sd'.expectations.Sound shape := by
  unfold learnExpectation at h
  split at h
  · cases h
    exact hsound
  split at h
  · obtain ⟨⟨sd₁, extensions⟩, hex, h⟩ := of_bind h
    cases h
    obtain ⟨exts, he, hex⟩ := of_bind hex
    cases hex
    obtain ⟨exts', he', hs⟩ := hc.extendsVote sd.outputs.length
      ⟨.precommit, commit.height, commit.round, commit.blockID, [], 0, [], []⟩
    obtain rfl : exts = exts' := Except.ok.inj (he.symm.trans he')
    show (CommitExpectations.learn sd.expectations commit _).Sound shape
    rw [hs]
    exact hsound.learn commit
  · cases h
    exact hsound

lemma verifyCommitExtensions_iff (hc : W.KeepsContract shape)
    (h : sd.verifyCommitExtensions W commit = .ok (sd', result)) :
    (result = .ok () ↔ (∃ vote, commit.getCanonicalVote = .ok vote) ∧ Fits shape commit) ∧
      sd'.expectations.Sound shape := by
  unfold verifyCommitExtensions at h
  split at h
  · next hr =>
    -- nothing the contract expects was rejected
    obtain ⟨exp, hl, hr⟩ := (Option.any_eq_true ..).mp hr
    simp [(hsound commit exp hl).2] at hr
  obtain ⟨vote, hv, h⟩ := of_bind h
  split at h
  · cases h
    refine ⟨iff_of_false nofun fun ⟨⟨vote, hok⟩, _⟩ => ?_, hsound⟩
    rw [hok] at hv
    cases hv
  next vote =>
  have hv := settle_eq_ok_ok.mp hv
  rw [hc.verifies _ commit vote hv] at h
  obtain ⟨ok, hok, h⟩ := of_bind h
  cases hok
  split at h
  · next hf =>
    cases h
    exact ⟨iff_of_true rfl ⟨⟨vote, hv⟩, hf⟩, hsound⟩
  next hf =>
  obtain ⟨sd₁, hle, h⟩ := of_bind h
  cases h
  have hs₁ : sd₁.expectations.Sound shape := by
    refine learnExpectation_sound ?_ hc hle
    exact hsound
  refine ⟨iff_of_false nofun fun ⟨_, hok⟩ => hf hok, ?_⟩
  unfold rememberRejection
  split
  · next exp hl =>
    rw [if_neg fun hok => hf ((fits_iff hs₁ hl).mp hok)]
    exact hs₁
  · exact hs₁

end

end StateData

end Tenderdash
