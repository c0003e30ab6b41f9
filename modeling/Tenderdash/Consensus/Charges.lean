import Tenderdash.Consensus.Machine
import Tenderdash.Lib.Metered

/-!
What handling a message is charged. The signatures of a vote or a commit are charged in two stages, the block's and
then those of the extensions, wherever on its way the message is verified; a proposal is charged once. Whatever the
state, the charges of one message stay within `verificationWork`.
-/

namespace Tenderdash

open Lib Go

lemma voteExtensionsFromProto_length {pves : List (Option VoteExtensionProto)} {exts : List VoteExtension}
    (h : voteExtensionsFromProto pves = .ok exts) : exts.length = pves.length := by
  induction pves generalizing exts with
  | nil =>
    cases h
    rfl
  | cons pve pves ih =>
    cases pve with
    | none => cases h
    | some pve =>
      obtain ⟨ext, -, h⟩ := of_bind h
      obtain ⟨exts', he, h⟩ := of_bind h
      cases h
      simp [ih he]

/-! ### Verifying signatures -/

/-- The work of verifying a message with so many extensions; too many are refused before any of it. -/
def verificationWork (extensions : ℕ) : ℕ := if maxVoteExtensions < extensions then 0 else 1 + extensions

abbrev Vote.work (v : Vote) : ℕ := verificationWork v.voteExtensions.length

abbrev Commit.work (commit : Commit) : ℕ := verificationWork commit.thresholdVoteExtensions.length

abbrev exhausted {α : Type} : Go VoteError α := .error (.err .budgetExhausted)

lemma charge_bind {α : Type} (budget : Option VerificationBudget) (before : List ℕ) (cost : ℕ)
    (rest : Unit → Go VoteError α) :
    charge budget before cost >>= rest =
      if budget.any fun allow => allow before cost = false then exhausted else rest () := by
  cases budget with
  | none => rfl
  | some allow => by_cases h : allow before cost = false <;> simp [charge, failIf, fail, h, bind, Except.bind]

lemma charge_within (before : List ℕ) {cost : ℕ} (hc : 0 < cost) :
    Within before cost (fun budget => charge budget before cost) exhausted := by
  have hb : (fun budget => charge budget before cost) = fun budget => charge budget before cost >>= Except.ok := by
    funext budget
    cases charge budget before cost <;> rfl
  rw [hb]
  simp only [charge_bind]
  exact Within.charge (n := 0) hc (Within.free ..)

lemma QuorumSignData.verify_within (C : Crypto) (q : QuorumSignData) (key : PubKey) (signs : QuorumSigns) :
    Within [] (1 + q.voteExtensionSignItems.length) (fun budget => q.verify C key signs budget) exhausted := by
  unfold verify
  simp only [charge_bind]
  refine Within.charge one_pos (Within.bind fun _ _ => Within.bind fun _ _ => ?_)
  by_cases hi : 0 < q.voteExtensionSignItems.length
  · simp only [if_pos hi, charge_bind]
    exact Within.charge (n := 0) hi (Within.free ..)
  simp only [if_neg hi]
  exact Within.free ..

lemma length_le_of_makeVerifyQuorumSigns {C : Crypto} {chainID : String} {quorumType : LLMQType} {quorumHash : Bytes}
    {v : Vote} {signData : QuorumSignData}
    (h : makeVerifyQuorumSigns C chainID quorumType quorumHash v.toProto = .ok signData) :
    1 + signData.voteExtensionSignItems.length ≤ verificationWork v.voteExtensions.length := by
  obtain ⟨_, hm, h⟩ := of_bind h
  have hl : v.toProto.voteExtensions.length = v.voteExtensions.length := by simp [Vote.toProto]
  rw [failIf_eq_ok, hl] at hm
  obtain ⟨exts, he, h⟩ := of_bind h
  obtain ⟨block, -, h⟩ := of_bind h
  obtain ⟨items, hi, h⟩ := of_bind h
  cases h
  have hf := (signItems_eq_ok.mp hi).length_eq
  have hle := List.length_filter_le VoteExtension.isThresholdRecoverable exts
  have he := voteExtensionsFromProto_length he
  rw [verificationWork, if_neg hm]
  dsimp only
  omega

section Verify

variable (C : Crypto) (vs : VoteSet) (ref : VoteRef)

lemma Vote.verifyReportingSigns_within (v : Vote) (chainID : String) (quorumType : LLMQType) (quorumHash : Bytes)
    (pubKey : Option PubKey) (proTxHash : Bytes) :
    Within [] v.work
      (fun budget => v.verifyReportingSigns C chainID quorumType quorumHash pubKey proTxHash budget) exhausted := by
  refine Within.bind fun signData hd => Within.bind fun key _ => ?_
  have hle := length_le_of_makeVerifyQuorumSigns (mapErr_eq_ok.mp hd)
  exact ((signData.verify_within C key v.makeQuorumSigns).mono hle).andThen rfl

lemma VoteSet.checkSignatures_within (val : Validator) :
    Within [] ref.vote.work (fun budget => vs.checkSignatures C ref val (.verify budget)) exhausted := by
  refine (ref.vote.verifyReportingSigns_within C vs.chainID vs.valSet.quorumType vs.valSet.quorumHash val.pubKey
    val.proTxHash).via ?_ ?_
  · intro meter heq
    simp only [checkSignatures, Vote.verify, heq]
  intro meter heq
  simp only [checkSignatures, Vote.verify, heq]
  rfl

lemma VoteSet.checkVote_within :
    Within [] ref.vote.work (fun budget => vs.checkVote C ref (.verify budget)) exhausted := by
  refine Within.bind fun _ _ => Within.bind fun _ _ => Within.bind fun _ _ => ?_
  cases vs.valSet.getByIndex ref.vote.validatorIndex with
  | none => exact Within.free ..
  | some val =>
    refine Within.bind fun _ _ => ?_
    cases vs.getVote ref.vote.validatorIndex ref.vote.blockID.key with
    | some existing => exact Within.free ..
    | none => exact (vs.checkSignatures_within C ref val).andThen rfl

lemma VoteSet.addVote_within :
    Within [] ref.vote.work
      (fun budget => vs.addVote C (some ref) (.verify budget)) (.ok (vs, false, some .budgetExhausted)) :=
  (vs.checkVote_within C ref).via (fun meter heq => by simp only [addVote, heq])
    fun meter heq => by simp only [addVote, heq]

lemma HeightVoteSet.addVote_within (hvs : HeightVoteSet) (ref : VoteRef) :
    ∃ hv', Within [] ref.vote.work
      (fun budget => hvs.addVote C ref (.verify budget)) (.ok (hv', false, some .budgetExhausted)) := by
  unfold addVote
  dsimp only
  split
  · exact ⟨hvs, Within.free ..⟩
  split
  next vs _ => exact ⟨_, (vs.addVote_within C ref).andThen rfl⟩
  · split
    · exact ⟨hvs, Within.free ..⟩
    · split
      · exact ⟨hvs, Within.free ..⟩
      · refine ⟨hvs, Within.bind fun opened _ => ?_⟩
        split
        · exact Within.free ..
        next vs _ => exact (vs.addVote_within C ref).andThen rfl

end Verify

lemma ValidatorSet.verifyCommitReportingSigns_within (C : Crypto) (vals : ValidatorSet) (chainID : String)
    (blockID : BlockID) (height : ℤ) (commit : Commit) :
    Within [] commit.work
      (fun budget => vals.verifyCommitReportingSigns C chainID blockID height commit budget)
      (.error (.err .budgetExhausted)) := by
  refine Within.bind fun signData hd => Within.bind fun signs _ => ?_
  -- the sign data is that of the commit's canonical vote, which has the extensions of the commit
  have hle : 1 + signData.voteExtensionSignItems.length ≤ verificationWork commit.thresholdVoteExtensions.length := by
    obtain ⟨_, -, hd⟩ := of_bind hd
    obtain ⟨_, -, hd⟩ := of_bind hd
    obtain ⟨vote, hv, hd⟩ := of_bind hd
    obtain ⟨data, hd, hr⟩ := of_bind hd
    obtain ⟨_, -, hr⟩ := of_bind hr
    cases hr
    obtain ⟨exts, he, hv⟩ := of_bind (mapErr_eq_ok.mp hv)
    cases hv
    rw [← voteExtensionsFromProto_length he]
    exact length_le_of_makeVerifyQuorumSigns (mapErr_eq_ok.mp hd)
  cases vals.thresholdPublicKey with
  | none =>
    refine ((charge_within [] one_pos).mono ((Nat.le_add_right ..).trans hle)).via (fun meter heq => ?_) fun meter heq => ?_
    · simp only [heq]
    simp only [heq]
    rfl
  | some key =>
    refine ((signData.verify_within C key signs).mono hle).via (fun meter heq => ?_) fun meter heq => ?_
    · simp only [heq]
    simp only [heq]
    rfl

/-! ### Handling a message -/

def World.withBudget (W : World) (budget : Option VerificationBudget) : World := { W with budget := budget }

lemma World.peerBudget_withBudget (W : World) {peerID : String} (hp : peerID ≠ "")
    (budget : Option VerificationBudget) : (W.withBudget budget).peerBudget peerID false = budget := by
  simp [peerBudget, withBudget, hp]

namespace StateData

section WithBudget

variable (W : World) (cfg : Config) (sd : StateData) (budget : Option VerificationBudget)

/-! Nothing but the handler that verifies a message asks for the budget. -/

lemma prepareCommitForApply_withBudget (commit : Commit) (b : Option VerificationBudget) :
    sd.prepareCommitForApply (W.withBudget budget) cfg commit b = sd.prepareCommitForApply W cfg commit b := rfl

lemma addCommit_withBudget (commit : Commit) :
    sd.addCommit (W.withBudget budget) cfg commit = sd.addCommit W cfg commit := rfl

lemma connected_withBudget : (W.withBudget budget).connected = W.connected := rfl

lemma addToVoteSet_withBudget (ref : VoteRef) (check : VoteSet.VoteCheck) :
    sd.addToVoteSet (W.withBudget budget) cfg ref check = sd.addToVoteSet W cfg ref check := rfl

lemma addPrecommit_withBudget (ref : VoteRef) (b : Option VerificationBudget) :
    sd.addPrecommit (W.withBudget budget) cfg ref b = sd.addPrecommit W cfg ref b := rfl

lemma verifyProposal_withBudget (proposal : ProposalProto) (b : Option VerificationBudget) :
    sd.verifyProposal (W.withBudget budget) cfg proposal b = sd.verifyProposal W cfg proposal b := rfl

end WithBudget

variable {W : World} {cfg : Config} {sd : StateData} {peerID : String}

section

variable (sd : StateData)

lemma addToVoteSet_within (W : World) (cfg : Config) (ref : VoteRef) :
    ∃ sd', Within [] ref.vote.work
      (fun budget => sd.addToVoteSet W cfg ref (.verify budget)) (.ok (sd', .error (.vote .budgetExhausted))) := by
  obtain ⟨hv', h⟩ := sd.votes.addVote_within cfg.C ref
  exact ⟨{ sd with votes := hv' }, h.andThen rfl⟩

lemma addPrecommit_within (W : World) (cfg : Config) (ref : VoteRef) :
    ∃ sd', Within [] ref.vote.work
      (fun budget => sd.addPrecommit W cfg ref budget) (.ok (sd', .error (.vote .budgetExhausted))) := by
  unfold addPrecommit
  dsimp only
  split
  · exact addToVoteSet_within sd W cfg ref
  split
  · exact ⟨sd, Within.free ..⟩
  split
  · exact ⟨sd, Within.free ..⟩
  next val _ =>
    refine ⟨sd, ?_⟩
    have hv : Within [] ref.vote.work
        (fun budget => (verifyVoteSignatures cfg.C (some ref) sd.state.chainID sd.state.validators.quorumType
          sd.state.validators.quorumHash val.pubKey val.proTxHash budget).settle)
        (.ok (.error .budgetExhausted)) := by
      refine (ref.vote.verifyReportingSigns_within cfg.C sd.state.chainID sd.state.validators.quorumType
        sd.state.validators.quorumHash val.pubKey val.proTxHash).via (fun meter heq => ?_) fun meter heq => ?_
      · simp only [verifyVoteSignatures, heq]
      simp only [verifyVoteSignatures, heq]
      rfl
    exact hv.andThen rfl

lemma addVote_within (W : World) (cfg : Config) (ref : VoteRef) (hp : peerID ≠ "") :
    ∃ sd', Within [] ref.vote.work
      (fun budget => sd.addVote (W.withBudget budget) cfg ref peerID false)
      (.ok (sd', .error (.vote .budgetExhausted))) := by
  unfold addVote
  simp only [W.peerBudget_withBudget hp, addToVoteSet_withBudget, addPrecommit_withBudget]
  split
  · exact ⟨sd, Within.free ..⟩
  split
  · exact ⟨sd, Within.free ..⟩
  cases ref.vote.type with
  | prevote =>
    obtain ⟨sd', h⟩ := addToVoteSet_within sd W cfg ref
    exact ⟨sd', h.andThen rfl⟩
  | precommit =>
    obtain ⟨sd', h⟩ := addPrecommit_within sd W cfg ref
    exact ⟨sd', h.andThen rfl⟩
  | _ => exact ⟨sd, Within.free ..⟩

/-! #### Commits -/

abbrev commitExhausted {α : Type} (sd : StateData) : Except String (Outcome α) :=
  .ok (sd, .error (.verifyCommit .budgetExhausted))

lemma verifyCommitSignatures_within (C : Crypto) (commit : Commit) :
    Within [] commit.work
      (fun budget => (sd.verifyCommitSignatures C commit budget).settle) (.ok (.error .budgetExhausted)) := by
  refine (sd.validators.verifyCommitReportingSigns_within C sd.state.chainID commit.blockID sd.height commit).via
    (fun meter heq => ?_) fun meter heq => ?_
  · simp only [verifyCommitSignatures, ValidatorSet.verifyCommit, heq]
  simp only [verifyCommitSignatures, ValidatorSet.verifyCommit, heq]
  rfl

lemma readyToApplyCommit_within (C : Crypto) (commit : Commit) (ignoreProposalBlock : Bool) :
    Within [] commit.work
      (fun budget => sd.readyToApplyCommit C commit ignoreProposalBlock budget) sd.commitExhausted := by
  refine Within.bind fun checked _ => ?_
  cases checked with
  | error msg => exact Within.free ..
  | ok _ =>
    dsimp only
    split
    · exact Within.free ..
    · exact (sd.verifyCommitSignatures_within C commit).andThen rfl

lemma readyToApplyCommit_ne_false {C : Crypto} {commit : Commit} {budget : Option VerificationBudget} {sd' : StateData}
    (hh : commit.height = sd.height) : sd.readyToApplyCommit C commit true budget ≠ .ok (sd', .ok false) := by
  intro h
  obtain ⟨checked, -, h⟩ := of_bind h
  cases checked with
  | error msg => cases h
  | ok _ =>
    rw [if_neg (not_not_intro hh)] at h
    obtain ⟨verified, -, h⟩ := of_bind h
    cases verified with
    | error why => cases h
    | ok _ =>
      dsimp only at h
      split at h
      · cases h
      · cases h

lemma queueCandidate_within (W : World) (cfg : Config) (parked commit : Commit) (hp : peerID ≠ "") :
    Within [] commit.work
      (fun budget => sd.queueCandidate (W.withBudget budget) cfg parked commit peerID false) sd.commitExhausted := by
  unfold queueCandidate
  simp only [W.peerBudget_withBudget hp, connected_withBudget]
  refine Within.bind fun checked _ => ?_
  cases checked with
  | error msg => exact Within.free ..
  | ok _ =>
    dsimp only
    split
    · exact Within.free ..
    · exact (sd.verifyCommitSignatures_within cfg.C commit).andThen rfl

lemma addCurrentCommit_within (W : World) (cfg : Config) (commit : Commit) (hpe : peerID ≠ "") :
    Within [] commit.work
      (fun budget => sd.addCurrentCommit (W.withBudget budget) cfg commit peerID false) sd.commitExhausted := by
  unfold addCurrentCommit
  simp only [W.peerBudget_withBudget hpe, prepareCommitForApply_withBudget, addCommit_withBudget]
  have hp : Within [] commit.work (sd.prepareCommitForApply W cfg commit) sd.commitExhausted :=
    (sd.readyToApplyCommit_within cfg.C commit false).andThen rfl
  exact hp.andThen rfl

lemma tryAddCommit_within (W : World) (cfg : Config) (commit : Commit) (hp : peerID ≠ "") :
    Within [] commit.work
      (fun budget => sd.tryAddCommit (W.withBudget budget) cfg commit peerID false) sd.commitExhausted := by
  unfold tryAddCommit
  cases sd.commit with
  | some parked =>
    dsimp only
    split
    · exact (sd.queueCandidate_within W cfg parked commit hp).andThen rfl
    · exact Within.free ..
  | none =>
    dsimp only
    split
    next hl =>
      simp only [W.peerBudget_withBudget hp]
      refine (sd.readyToApplyCommit_within cfg.C commit true).via (fun meter heq => ?_) fun meter heq => ?_
      · rw [heq]
        refine bind_congr_ok fun ready hr => ?_
        obtain ⟨sd', e | adopted⟩ := ready
        · rfl
        cases adopted with
        | true => rfl
        | false => exact absurd hr (readyToApplyCommit_ne_false _ hl.1)
      · rw [heq]
        rfl
    · exact sd.addCurrentCommit_within W cfg commit hp

/-! #### Proposals -/

lemma setProposal_within (W : World) (cfg : Config) (proposal : ProposalProto) (hp : peerID ≠ "") :
    Within [] 1 (fun budget => sd.setProposal (W.withBudget budget) cfg proposal
      ((W.withBudget budget).peerBudget peerID false)) (.ok (sd, .error .budgetExhausted)) := by
  simp only [W.peerBudget_withBudget hp]
  have hv : Within [] 1 (sd.verifyProposal W cfg proposal) (.ok (.error .budgetExhausted)) := by
    unfold verifyProposal
    split
    · exact Within.free ..
    split
    · exact Within.free ..
    · exact Within.free ..
    · exact Within.charge (n := 0) one_pos (Within.free ..)
  unfold setProposal
  simp only [verifyProposal_withBudget]
  split
  · exact Within.free ..
  split
  · exact Within.free ..
  split
  · exact Within.free ..
  · exact hv.andThen rfl

end

end StateData

end Tenderdash
