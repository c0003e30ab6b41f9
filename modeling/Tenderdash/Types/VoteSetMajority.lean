import Tenderdash.Types.VoteGroups

/-!
When a vote set has a majority.

Recovery of the threshold signatures is attempted by the vote with which the block's votes reach the
quorum's power or one of their groups the recovery threshold, whichever comes last, and a failed
attempt is undone. Nothing is missed: there is a majority exactly if the votes recorded for some block are
`Ready`. For nil a group must reach the recovery threshold too, and a single validator needs no group.
-/

namespace Tenderdash

open Lib Go Run List ValidatorSet BlockVotes

/-- The votes recorded for a block have the quorum's power and, if they are precommits of more than
one validator, those with some extension identity have the power that recovery needs. -/
def Ballot.Ready (C : Crypto) (b : Ballot) (bv : BlockVotes) : Prop :=
  b.vals.quorumVotingThresholdPower ≤ tallyAll b.vals.powers bv.votes ∧
    (b.type = .precommit → 1 < b.vals.size → ∃ identity,
      b.vals.quorumTypeThresholdVotingPower ≤ tally (fun v => b.identity C v = identity) b.vals.powers bv.votes)

/-! ### The commit -/

namespace Ballot.Certifies

variable {C : Crypto} {b : Ballot} {blockID : BlockID} {sig : Bytes} {exts : List VoteExtension}

section

variable (h : b.Certifies C blockID sig exts)

include h

lemma recoverable :
    ∀ ext ∈ exts, ext.isThresholdRecoverable = true ∧ ext.Decoded := by
  obtain ⟨key, block, digests, -, -, -, hf⟩ := h.signed
  intro ext he
  obtain ⟨k, hk, rfl⟩ := mem_iff_getElem.mp he
  have hi := hf.get hk (hf.length_eq ▸ hk)
  exact ⟨hi.1.1, hi.1.2.1⟩

lemma filter_eq : exts.filter VoteExtension.isThresholdRecoverable = exts :=
  filter_eq_self.mpr fun ext he => (h.recoverable ext he).1

lemma signData :
    ∃ d key, b.vals.thresholdPublicKey = some key ∧
      makeVerifyQuorumSigns C b.chainID b.vals.quorumType b.vals.quorumHash
        (b.canonicalVote blockID exts).toProto = .ok d ∧
      d.verify C key ⟨sig, exts.map (·.proto.signature)⟩ none = .ok () := by
  obtain ⟨key, block, digests, hk, hb, hv, hf⟩ := h.signed
  have hi : ∃ items, List.Forall₂ (fun ext item => ext.signItem C b.chainID b.height b.round
        b.vals.quorumType b.vals.quorumHash = .ok item) exts items ∧
      List.Forall₂ (fun item ext => item.verifySignature C key ext.proto.signature = true) items exts := by
    clear hb h
    induction hf with
    | nil => exact ⟨[], .nil, .nil⟩
    | cons he _ ih =>
      obtain ⟨items, hi, hs⟩ := ih
      obtain ⟨⟨-, -, item, hit, rfl⟩, hsi⟩ := he
      exact ⟨item :: items, .cons hit hi, .cons hsi hs⟩
  obtain ⟨items, hi, hs⟩ := hi
  have hex : voteExtensionsFromProto (b.canonicalVote blockID exts).toProto.voteExtensions =
      .ok exts := voteExtensionsFromProto_map fun ext he => (h.recoverable ext he).2
  refine ⟨⟨block, items⟩, key, hk, bind_eq_ok.mpr ⟨(), ?_, ?_⟩, ?_⟩
  · simpa [Vote.toProto, canonicalVote] using h.count_le
  · refine (makeQuorumSigns_eq_ok hex).mpr ⟨hb, ?_⟩
    rw [h.filter_eq]
    exact hi
  · exact QuorumSignData.verify_eq_ok_iff.mpr ⟨hv, forall₂_map_right_iff.mpr hs⟩

end

end Ballot.Certifies

lemma VoteSet.makeCommit_of_certifies {C : Crypto} {vs : VoteSet} {blockID : BlockID}
    (ht : vs.signedMsgType = .precommit) (hm : vs.maj23 = some blockID)
    (h : vs.ballot.Certifies C blockID vs.thresholdBlockSig vs.thresholdVoteExtSigs) :
    ∃ commit, vs.makeCommit = .ok commit ∧ commit.blockID = blockID ∧
      verifyCommit C (some vs.valSet) vs.chainID blockID vs.height (some commit) none = .ok () := by
  obtain ⟨d, key, hk, hd, hv⟩ := h.signData
  have hc : zipWith (fun ext sig => some (VoteExtension.setSignature ext sig).proto)
      vs.thresholdVoteExtSigs (vs.thresholdVoteExtSigs.map (·.proto.signature)) =
        vs.thresholdVoteExtSigs.map fun ext => some ext.proto := by
    rw [zipWith_map_right, zipWith_self]
    rfl
  refine ⟨⟨vs.height, vs.round, blockID, vs.valSet.quorumHash, vs.thresholdBlockSig,
    vs.thresholdVoteExtSigs.map fun ext => some ext.proto⟩, ?_, rfl, ?_⟩
  · unfold makeCommit
    rw [if_neg (not_not.mpr ht)]
    simp only [hm]
    rw [if_neg h.sig_ne]
    unfold newCommit makeQuorumSigns
    simp only [h.filter_eq, hc, length_map, ne_eq, not_true_eq_false, if_false]
  · have he : voteExtensionsFromProto (vs.thresholdVoteExtSigs.map fun ext => some ext.proto) =
        .ok vs.thresholdVoteExtSigs :=
      voteExtensionsFromProto_map fun ext hex => (h.recoverable ext hex).2
    have hs : ∀ exts : List VoteExtension,
        Commit.extensionSignatures (exts.map fun ext => some ext.proto) = .ok (exts.map (·.proto.signature)) := by
      intro exts
      induction exts with
      | nil => rfl
      | cons ext exts ih => simp [Commit.extensionSignatures, ih]
    refine verifyCommit_eq_ok_iff.mpr ⟨d, _, key, ?_,
      bind_eq_ok.mpr ⟨_, hs _, rfl⟩, hk,
      QuorumSignData.verify_eq_ok_iff_verifies.mp hv⟩
    simp only [commitSignData, Commit.getCanonicalVote, bind_eq_ok, failIf_eq_ok,
      mapErr_eq_ok, not_not, ne_eq, exists_const]
    exact ⟨trivial, trivial, _, ⟨_, he, rfl⟩, d, hd, trivial, rfl⟩

/-! ### Attempts -/

namespace Bucket

variable {C : Crypto} {bv : BlockVotes} {vs : VoteSet} {blockID : BlockID}

variable {b : Ballot} {key : Bytes} {vote : Vote} {i : ℕ} {val : Validator}

lemma certifies_single (h : Bucket C b key bv) (hvals : b.vals.WellFormed) (hsized : C.SizedSignatures)
    (ht : b.type = .precommit) (hvo : bv.votes = [some vote]) :
    b.Certifies C vote.blockID vote.blockSignature vote.recoverable := by
  have hs : slot bv.votes 0 = some vote := by rw [hvo]; rfl
  have hva := (h.votes 0 vote hs).1
  have hle : b.vals.validators.length = 1 := by
    have hl := h.tallied.length_eq
    rw [hvo, powers_length] at hl
    exact hl.symm
  obtain ⟨val, hvl⟩ := length_eq_one_iff.mp hle
  obtain ⟨block, hb, hr⟩ := h.blockDigest ht hs vote.recoverable
  obtain ⟨-, hsi⟩ := hr vote (mem_filterMap_iff_slot.mpr ⟨0, hs⟩)
  -- what the validator signed verifies under the threshold key
  have hk : ∀ digest sig, b.vals.Signs C vote.validatorProTxHash digest sig →
      ∃ key, b.vals.thresholdPublicKey = some key ∧ key.verifySignatureDigest C digest sig = true := by
    rintro digest sig ⟨val', hm, -, key, hk, hv⟩
    rw [hvl, mem_singleton] at hm
    subst hm
    exact ⟨key, (hvals.single val' hvl).trans hk, hv⟩
  obtain ⟨pubKey, hp, hv⟩ := hk _ _ hsi
  refine ⟨fun hn => ?_, ?_, pubKey, block, b.digests C vote, hp, hb, hv, ?_⟩
  · have hsig := hsized pubKey _ _ hv
    simp [hn, signatureSize] at hsig
  · obtain ⟨-, -, -, -, -, -, hma⟩ := hva.signData
    exact (length_filter_le ..).trans hma
  refine (hva.contributes hsized).shares.imp ?_
  rintro ext digest ⟨hi, -, hsg⟩
  obtain ⟨key', hp', hv'⟩ := hk _ _ hsg
  rw [hp] at hp'
  cases hp'
  exact ⟨hi, hv'⟩

/-- **An attempt succeeds exactly on votes that are ready**: it recovers signatures that make a commit,
or fails with an error. -/
lemma attempt (vs : VoteSet) (h : Bucket C vs.ballot key bv) (hvals : vs.valSet.WellFormed)
    (hsized : C.SizedSignatures) (hrecovers : C.RecoversThreshold vs.valSet) (ht : vs.signedMsgType = .precommit)
    (hm : vs.maj23 = some blockID) {j : ℕ} (hv : slot bv.votes j = some vote) (hbi : vote.blockID = blockID)
    (hq : vs.valSet.quorumVotingThresholdPower ≤ tallyAll vs.valSet.powers bv.votes) :
    (vs.ballot.Ready C bv ∧ ∃ sig exts, vs.recoverThresholdSignsAndVerify C bv =
        .ok { vs with thresholdBlockSig := sig, thresholdVoteExtSigs := exts } ∧
      vs.ballot.Certifies C blockID sig exts) ∨
    (¬vs.ballot.Ready C bv ∧ ∃ e, vs.recoverThresholdSignsAndVerify C bv = .error (.err e)) := by
  have hl : bv.votes.length = vs.valSet.size := by
    rw [← powers_length]
    exact h.tallied.length_eq
  have hj := lt_length_of_slot hv
  by_cases hsi : 1 < vs.valSet.size
  · by_cases hg : ∃ identity, vs.valSet.quorumTypeThresholdVotingPower ≤
        tally (fun v => vs.ballot.identity C v = identity) vs.valSet.powers bv.votes
    · exact .inl ⟨⟨hq, fun _ _ => hg⟩,
        h.recoverThresholdSignsAndVerify hvals hsized hrecovers ht hm hv hbi (by omega) hg⟩
    · refine .inr ⟨fun hr => hg (hr.2 ht hsi), ?_⟩
      -- without a group nothing is selected
      have hn : bv.canonicalVoteExtensionGroup vs.valSet.quorumTypeThresholdVotingPower = none := by
        refine Option.eq_none_iff_forall_ne_some.mpr fun ⟨identity, group⟩ hse => hg ?_
        obtain ⟨hme, hp⟩ := (foldl_selectGroup_eq_some hse).resolve_left (by simp)
        refine ⟨identity, ?_⟩
        have hsu := h.power identity
        rw [groupPower, lookup_of_mem h.nodup hme] at hsu
        exact hp.trans_eq hsu
      refine ⟨"no vote-extension vector is backed by the recovery threshold voting power", ?_⟩
      unfold VoteSet.recoverThresholdSignsAndVerify
      split
      · next hni => rw [hni] at hl; simp at hl; omega
      · next ho => rw [ho] at hl; simp at hl; omega
      · next ho => rw [ho] at hl; simp at hl; omega
      rw [VoteSet.recoverThresholdSigns, hn]
      rfl
  · left
    have ho : bv.votes.length = 1 := by omega
    obtain ⟨s, hs⟩ := length_eq_one_iff.mp ho
    obtain rfl : j = 0 := by omega
    obtain rfl : s = some vote := by simpa [hs, slot] using hv
    refine ⟨⟨hq, fun _ hlt => absurd hlt hsi⟩, vote.blockSignature, vote.recoverable, ?_, ?_⟩
    · rw [VoteSet.recoverThresholdSignsAndVerify, hs]
    rw [← hbi]
    exact h.certifies_single hvals hsized ht hs

lemma tally_add (h : Bucket C b key bv) (hv : b.vals.validators[i]? = some val) (hf : slot bv.votes i = none)
    (p : Vote → Bool) : tally p b.vals.powers (bv.votes.set i (some vote)) =
      tally p b.vals.powers bv.votes + if p vote then val.votingPower else 0 := by
  have hp := powers_getElem? hv
  refine tally_set p vote hp ?_ hf
  rw [h.tallied.length_eq]
  exact (List.getElem?_eq_some_iff.mp hp).1

variable {bv bv' : BlockVotes}

lemma ready_add (h : Bucket C b key bv) (hvals : b.vals.WellFormed) (hva : b.vals.validators[i]? = some val)
    (hf : slot bv.votes i = none)
    (hv : bv'.votes = bv.votes.set i (some vote)) (hr : b.Ready C bv) : b.Ready C bv' := by
  have hp : 0 ≤ val.votingPower := by
    rw [hvals.power val (mem_of_getElem? hva)]
    decide
  have hm : ∀ p : Vote → Bool, tally p b.vals.powers bv.votes ≤ tally p b.vals.powers bv'.votes := by
    intro p
    rw [hv, h.tally_add hva hf p]
    split <;> omega
  refine ⟨hr.1.trans (hm _), fun ht hs => ?_⟩
  obtain ⟨identity, hid⟩ := hr.2 ht hs
  exact ⟨identity, hid.trans (hm _)⟩

/-- **No crossing is missed.** The vote that makes the votes ready leads to an attempt. -/
lemma attempts_of_ready (h : Bucket C vs.ballot key bv) (h' : Bucket C vs.ballot key bv') {reached : Bool}
    (hv : vs.valSet.validators[i]? = some val) (hi : vote.validatorIndex.toNat = i)
    (hf : slot bv.votes i = none)
    (ha : bv.addVerifiedVote vote (vs.ballot.identity C vote) val.votingPower
      vs.valSet.quorumTypeThresholdVotingPower = (bv', reached))
    (hm : vs.maj23 = none) (ho : ¬vs.ballot.Ready C bv) (hn : vs.ballot.Ready C bv') :
    vs.attempts bv bv' reached = true := by
  subst hi
  obtain ⟨hb', hr⟩ := addVerifiedVote_of_free hf ha
  have hq : vs.valSet.quorumVotingThresholdPower ≤ bv'.sum := by
    rw [h'.tallied.sum_eq]
    exact hn.1
  have hc : bv.sum < vs.valSet.quorumVotingThresholdPower ∨ reached = true := by
    by_contra hno
    obtain ⟨hsu, hnt⟩ := not_or.mp hno
    rw [h.tallied.sum_eq, not_lt] at hsu
    refine ho ⟨hsu, fun ht hs => ?_⟩
    -- the group that reaches the threshold is not the vote's, so it had reached it before
    obtain ⟨identity, hid⟩ := hn.2 ht hs
    refine ⟨identity, ?_⟩
    by_contra hl
    rw [hb'] at hid
    rw [h.tally_add hv hf] at hid
    by_cases heq : vs.ballot.identity C vote = identity
    · subst heq
      apply hnt
      rw [hr, h.power]
      simp only [decide_true, if_true] at hid
      exact ⟨not_le.mp hl, hid⟩
    · simp only [decide_eq_false heq, Bool.false_eq_true, if_false, add_zero] at hid
      exact hl hid
  unfold VoteSet.attempts
  simp only [hm, true_and, decide_eq_true_eq]
  exact ⟨hq, hc.imp (fun hlt => ⟨hlt, hq⟩) id⟩

end Bucket

lemma Ballot.not_ready_new (C : Crypto) (b : Ballot) (peerMaj23 : Bool) :
    ¬b.Ready C (new peerMaj23 b.vals.size) := by
  rintro ⟨hq, -⟩
  have hp := b.vals.quorumVotingThresholdPower_pos
  simp [new] at hq
  omega

/-! ### Accepted votes -/

namespace VoteSet

def VoteCheck.Minted (C : Crypto) : VoteCheck → Prop
  | .verify _ => True
  | .verified evidence => ∃ vote chainID quorumType quorumHash pubKey proTxHash budget,
      verifyVoteSignatures C vote chainID quorumType quorumHash pubKey proTxHash budget = .ok evidence

/-- What the callers ensure: votes passed `ValidateBasic` and have extensions converted from protobuf,
and evidence was minted. -/
def Call.Sound (C : Crypto) : Call → Prop
  | .addVote (some ref) check => ref.vote.validateBasic = .ok () ∧
      (∀ ext ∈ ref.vote.voteExtensions, ext.Decoded) ∧ check.Minted C
  | _ => True

variable {C : Crypto} {vs vs' : VoteSet}

variable {ref : VoteRef} {val : Validator} {check : VoteCheck}

lemma verify_of_checkSignatures (hm : check.Minted C) (h : vs.checkSignatures C ref val check = .ok ()) :
    ∃ budget, ref.vote.verify C vs.chainID vs.valSet.quorumType vs.valSet.quorumHash val.pubKey
      val.proTxHash budget = .ok () := by
  cases check with
  | verify budget => exact ⟨budget, mapErr_eq_ok.mp h⟩
  | verified evidence =>
    obtain ⟨_, _, _, _, _, _, _, hm⟩ := hm
    exact ⟨none, VoteVerification.verify_of_checkMatches (VoteVerification.verifies_of_verifyVoteSignatures hm) h⟩

lemma Accepts.identity {identity : Bytes}
    (h : Accepts C vs ref check val identity) : identity = vs.ballot.identity C ref.vote := by
  have hid := h.identity_eq
  change if vs.ballot.type = .precommit then
    (vs.ballot.signItems C ref.vote >>= identityBytes ref.vote.recoverable) = .ok identity
    else identity = [] at hid
  unfold Ballot.identity
  split at hid
  · next ht => rw [if_pos ht, hid]
  · next ht => rw [if_neg ht, hid]

lemma Accepts.validVote {identity : Bytes} (h : Accepts C vs ref check val identity)
    (hva : ref.vote.validateBasic = .ok ()) (hd : ∀ ext ∈ ref.vote.voteExtensions, ext.Decoded)
    (hm : check.Minted C) : vs.ballot.ValidVote C ref.vote.validatorIndex.toNat ref.vote := by
  obtain ⟨budget, hv⟩ := verify_of_checkSignatures hm h.checked
  obtain ⟨d, key, hk, hda, -, hs⟩ := Vote.verify_spec hv
  refine ⟨(Int.toNat_of_nonneg h.index_nonneg).symm, h.height_eq, h.round_eq, h.type_eq,
    Vote.valid_of_validateBasic hva, hd,
    ⟨val, key, d, h.validator, h.proTxHash_eq, hk, hda, hs⟩, fun ht => ?_⟩
  have hid := h.identity_eq
  rw [if_pos (show vs.signedMsgType = .precommit from ht)] at hid
  rw [← h.identity]
  exact hid

end VoteSet

/-! ### Runs -/

structure VoteSet.Tracks (C : Crypto) (vs : VoteSet) : Prop where
  bucket : ∀ key bv, vs.votesByBlock key = some bv → Bucket C vs.ballot key bv
  waiting : vs.maj23 = none → ∀ key bv, vs.votesByBlock key = some bv → ¬vs.ballot.Ready C bv
  majority : ∀ blockID, vs.maj23 = some blockID →
    (∃ bv, vs.votesByBlock blockID.key = some bv ∧ vs.ballot.Ready C bv) ∧
    (vs.signedMsgType = .precommit →
      vs.ballot.Certifies C blockID vs.thresholdBlockSig vs.thresholdVoteExtSigs)

namespace VoteSet

variable {C : Crypto} {vs vs' : VoteSet} {reached : Bool}

lemma Tracks.new (C : Crypto) (chainID : String) (height round : ℤ) (type : SignedMsgType)
    (vals : ValidatorSet) : Tracks C (VoteSet.new chainID height round type vals) where
  bucket := by intro key bv h; cases h
  waiting := by intro _ key bv h; cases h
  majority := by intro blockID h; cases h

lemma Tracks.setVotes (h : Tracks C vs) {blockKey : Bytes} (hb : Bucket C vs.ballot blockKey bv)
    (hw : vs.maj23 = none → ¬vs.ballot.Ready C bv)
    (hr : vs.ballot.Ready C (vs.votesFor blockKey) → vs.ballot.Ready C bv) : Tracks C (vs.setVotes blockKey bv) := by
  refine ⟨fun key bw hbw => ?_, fun hm key bw hbw => ?_, fun b hm => ?_⟩
  · rcases setVotes_cases hbw with ⟨rfl, rfl⟩ | ⟨-, hbw⟩
    · exact hb
    · exact h.bucket key bw hbw
  · rcases setVotes_cases hbw with ⟨rfl, rfl⟩ | ⟨-, hbw⟩
    · exact hw hm
    · exact h.waiting hm key bw hbw
  obtain ⟨⟨bw, hbw, hbr⟩, hc⟩ := h.majority b hm
  obtain ⟨bw', hb', hk⟩ := setVotes_keeps vs (R := fun x y => vs.ballot.Ready C x → vs.ballot.Ready C y)
    (fun _ => id) hr hbw
  exact ⟨⟨bw', hb', hk hbr⟩, hc⟩

lemma Tracks.votesFor (h : Tracks C vs) (key : Bytes) :
    Bucket C vs.ballot key (vs.votesFor key) ∧ (vs.maj23 = none → ¬vs.ballot.Ready C (vs.votesFor key)) := by
  refine votesFor_induction (fun bv hbv => ?_) ?_
  · exact ⟨h.bucket key bv hbv, fun hm => h.waiting hm key bv hbv⟩
  · exact ⟨Bucket.new C vs.ballot key false, fun _ => vs.ballot.not_ready_new C false⟩

lemma Tracks.setPeerMaj23 (h : Tracks C vs) (peerID : String) (blockID : BlockID)
    (height round : ℤ) : Tracks C (vs.setPeerMaj23 peerID blockID height round).1 := by
  rcases setPeerMaj23_cases vs peerID blockID height round with heq | ⟨claims, heq⟩
  · rwa [heq]
  rw [heq]
  have hc : Tracks C { vs with peerMaj23s := claims } := { h with }
  obtain ⟨hb, hw⟩ := h.votesFor blockID.key
  exact hc.setVotes hb.claim hw id

lemma Tracks.recorded (h : Tracks C vs) (hvals : vs.valSet.WellFormed) {vote : Vote} {val : Validator}
    (hvl : vs.ballot.ValidVote C vote.validatorIndex.toNat vote)
    (hva : vs.valSet.validators[vote.validatorIndex.toNat]? = some val)
    (hu : vs.getVote vote.validatorIndex vote.blockID.key = none)
    (ha : (vs.votesFor vote.blockID.key).addVerifiedVote vote (vs.ballot.identity C vote) val.votingPower
      vs.valSet.quorumTypeThresholdVotingPower = (bv', reached)) :
    Bucket C vs.ballot vote.blockID.key bv' ∧
      slot bv'.votes vote.validatorIndex.toNat = some vote ∧
      (vs.maj23 = none → vs.ballot.Ready C bv' → vs.attempts (vs.votesFor vote.blockID.key) bv' reached = true) ∧
      (vs.ballot.Ready C (vs.votesFor vote.blockID.key) → vs.ballot.Ready C bv') := by
  obtain ⟨-, hs⟩ := getVote_eq_none hu
  obtain ⟨hb, hw⟩ := h.votesFor vote.blockID.key
  have hb' := hb.add hva hvl rfl hs ha
  obtain ⟨hbv', -⟩ := addVerifiedVote_of_free hs ha
  have hlt : vote.validatorIndex.toNat < (vs.votesFor vote.blockID.key).votes.length := by
    rw [hb.tallied.length_eq]
    exact (List.getElem?_eq_some_iff.mp (powers_getElem? hva)).1
  have hv : bv'.votes = (vs.votesFor vote.blockID.key).votes.set vote.validatorIndex.toNat (some vote) := by rw [hbv']
  refine ⟨hb', by rw [hv, slot_set_self hlt], fun hm hr => ?_, fun hr => ?_⟩
  · exact hb.attempts_of_ready hb' hva rfl hs ha hm (hw hm) hr
  · exact hb.ready_add hvals hva hs hv hr

lemma checkVote_returns (C : Crypto) (hvals : vs.valSet.WellFormed) (ref : VoteRef)
    (check : VoteCheck) : Go.Returns (vs.checkVote C ref check) := by
  have hq := hvals.quorumHash_length
  have ht := hvals.quorumType_byte
  have hs : ∀ val, Go.Returns (vs.checkSignatures C ref val check) := by
    intro val
    cases check with
    | verify budget => exact returns_mapErr.mpr (Vote.verify_returns hq ht)
    | verified evidence => exact VoteVerification.checkMatches_returns hq ht
  have hi : ∀ (exts : List VoteExtension) (items : List SignItem), Go.Returns (identityBytes exts items) := by
    intro exts
    induction exts with
    | nil => intro items; exact returns_ok []
    | cons ext exts ih =>
      intro items
      cases items with
      | nil => exact returns_ok []
      | cons item items =>
        exact returns_check fun _ _ =>
          returns_bind (ih items) fun _ _ => returns_ok _
  refine returns_check fun _ _ =>
    returns_check fun _ _ =>
      returns_check fun _ _ => ?_
  split
  · exact returns_fail _
  refine returns_check fun _ _ => ?_
  split
  · exact returns_check fun _ _ => returns_ok _
  refine returns_bind (hs _) fun _ _ => returns_bind ?_ fun _ _ => returns_ok _
  split
  · exact returns_mapErr.mpr (returns_bind (signItems_returns hq ht _ _ _) fun items _ =>
      hi _ items)
  · exact returns_ok _

section

variable (h : Tracks C vs) (hvals : vs.valSet.WellFormed) (hsized : C.SizedSignatures)
  (hrecovers : C.RecoversThreshold vs.valSet)

include h hvals hsized hrecovers

lemma Tracks.finish {vote : Vote} {i : ℕ}
    (hbu : Bucket C vs.ballot vote.blockID.key bv') (hsl : slot bv'.votes i = some vote)
    (hcr : vs.maj23 = none → vs.ballot.Ready C bv' → vs.attempts bv bv' reached = true)
    (hk : vs.ballot.Ready C (vs.votesFor vote.blockID.key) → vs.ballot.Ready C bv') :
    ∃ vs', (if vs.attempts bv bv' reached then
        (vs.setVotes vote.blockID.key bv').tryFinalize C vote.blockID bv'
      else .ok (vs.setVotes vote.blockID.key bv')) = .ok vs' ∧
      Tracks C vs' ∧ vs'.ballot = vs.ballot ∧
      ∀ blockID, vs.maj23 = some blockID → vs'.maj23 = some blockID := by
  by_cases ha : vs.attempts bv bv' reached = true
  · rw [if_pos ha]
    simp only [attempts, decide_eq_true_eq] at ha
    obtain ⟨hm, hq, -⟩ := ha
    have hs : ∀ (blockID : BlockID) (maj : Option BlockID), vs.maj23 = some blockID → maj = some blockID := by
      intro blockID maj hb
      rw [hm] at hb
      cases hb
    rw [hbu.tallied.sum_eq] at hq
    -- the block becomes the majority with signatures that certify it
    have hw : ∀ sig exts votes, vs.ballot.Ready C bv' →
        (vs.signedMsgType = .precommit → vs.ballot.Certifies C vote.blockID sig exts) →
        Tracks C { vs.setVotes vote.blockID.key bv' with
          maj23 := some vote.blockID, thresholdBlockSig := sig, thresholdVoteExtSigs := exts
          votes := votes } := by
      intro sig exts votes hr hc
      refine ⟨fun key bw hbw => ?_, fun hn => (by cases hn), fun b hb => ?_⟩
      · rcases setVotes_cases hbw with ⟨rfl, rfl⟩ | ⟨-, hbw⟩
        · exact hbu
        · exact h.bucket key bw hbw
      cases hb
      exact ⟨⟨bv', setVotes_self .., hr⟩, hc⟩
    unfold tryFinalize
    dsimp only
    split
    · next ht =>
      have hat := Bucket.attempt
        { vs.setVotes vote.blockID.key bv' with maj23 := some vote.blockID } hbu hvals
        hsized hrecovers ht rfl hsl rfl hq
      rcases hat with ⟨hr, sig, exts, hre, hc⟩ | ⟨hn, e, hre⟩
      · rw [hre]
        exact ⟨_, rfl, hw sig exts _ hr fun _ => hc, rfl, fun b => hs b _⟩
      rw [hre]
      refine ⟨_, rfl, ?_, rfl, fun b => hs b _⟩
      have hse := h.setVotes hbu (fun _ => hn) hk
      exact ⟨hse.bucket, fun _ => hse.waiting hm, fun _ hb => by cases hb⟩
    · next ht =>
      refine ⟨_, rfl, hw _ _ _ ⟨hq, fun hp => absurd hp ht⟩ fun hp => absurd hp ht, rfl, fun b => hs b _⟩
  · rw [if_neg ha]
    exact ⟨_, rfl, h.setVotes hbu (fun hm hr => ha (hcr hm hr)) hk, rfl, fun b hb => hb⟩

lemma Tracks.addVerifiedVote {vote : Vote} {val : Validator} (hv : vs.ballot.ValidVote C vote.validatorIndex.toNat vote)
    (hva : vs.valSet.validators[vote.validatorIndex.toNat]? = some val)
    (hu : vs.getVote vote.validatorIndex vote.blockID.key = none) :
    ∃ vs' added conflicting, vs.addVerifiedVote C vote (vs.ballot.identity C vote) val.votingPower =
        .ok (vs', added, conflicting) ∧ (conflicting = none → added = true) ∧
      Tracks C vs' ∧ vs'.ballot = vs.ballot ∧
      ∀ blockID, vs.maj23 = some blockID → vs'.maj23 = some blockID := by
  -- the canonical list's part does not find a duplicate
  have hc : ∃ votes marks sum conflicting, vs.recordCanonical vote val.votingPower =
      .ok (vs.relist votes marks sum, conflicting) := by
    cases hr : vs.recordCanonical vote val.votingPower with
    | ok result =>
      obtain ⟨vs₁, conflicting⟩ := result
      obtain ⟨votes, marks, sum, rfl⟩ := recordCanonical_frame hr
      exact ⟨votes, marks, sum, conflicting, rfl⟩
    | error msg =>
      unfold recordCanonical at hr
      split at hr
      · next existing hs =>
        split at hr
        · next heq => exact absurd (congrArg BlockID.key heq) ((getVote_eq_none hu).1 _ hs)
        · split at hr <;> cases hr
      · cases hr
  obtain ⟨votes, marks, sum, conflicting, hr⟩ := hc
  have ht : Tracks C (vs.relist votes marks sum) := { h with }
  rcases trackedVotes_cases (vs.relist votes marks sum) vote.blockID.key conflicting with ⟨hbv, hco⟩ | hbv
  · refine ⟨_, false, conflicting, bind_eq_ok.mpr ⟨_, hr, ?_⟩, fun hn => ?_, ht, rfl, fun b hb => hb⟩
    · simp only [hbv]
      rfl
    · simp [hn] at hco
  · cases ha : (vs.votesFor vote.blockID.key).addVerifiedVote vote (vs.ballot.identity C vote) val.votingPower
      vs.valSet.quorumTypeThresholdVotingPower with
    | mk bv' reached =>
    obtain ⟨hbu, hs, hcr, hk⟩ := h.recorded hvals hv hva hu ha
    obtain ⟨vs₃, hf, hre⟩ := ht.finish hvals hsized hrecovers hbu hs hcr hk
    refine ⟨vs₃, true, conflicting, bind_eq_ok.mpr ⟨_, hr, ?_⟩, fun _ => rfl, hre⟩
    simp only [hbv]
    refine bind_eq_ok.mpr ⟨vs₃, ?_, rfl⟩
    rw [show (vs.relist votes marks sum).votesFor vote.blockID.key = vs.votesFor vote.blockID.key from rfl, ha]
    exact hf

lemma Tracks.addVote {vote : Option VoteRef} {check : VoteCheck} (hc : Call.Sound C (.addVote vote check)) :
    ∃ vs' added err, vs.addVote C vote check = .ok (vs', added, err) ∧ Tracks C vs' ∧
      vs'.ballot = vs.ballot ∧ ∀ blockID, vs.maj23 = some blockID → vs'.maj23 = some blockID := by
  unfold VoteSet.addVote
  cases vote with
  | none => exact ⟨_, _, _, rfl, h, rfl, fun b hb => hb⟩
  | some ref =>
    rcases hch : vs.checkVote C ref check with (e | msg) | (_ | ⟨identity, power⟩)
    · simp only [hch]
      exact ⟨_, _, _, rfl, h, rfl, fun b hb => hb⟩
    · exact absurd hch (checkVote_returns C hvals ref check msg)
    · simp only [hch]
      exact ⟨_, _, _, rfl, h, rfl, fun b hb => hb⟩
    simp only [hch]
    obtain ⟨hba, hd, hm⟩ := hc
    obtain ⟨val, rfl, ha⟩ := accepts_of_checkVote hch
    obtain ⟨vs', added, conflicting, hok, had, hr⟩ := h.addVerifiedVote hvals hsized
      hrecovers (ha.validVote hba hd hm) ha.validator ha.unknown
    rw [← ha.identity] at hok
    cases conflicting with
    | some existing => exact ⟨vs', added, _, bind_eq_ok.mpr ⟨_, hok, rfl⟩, hr⟩
    | none =>
      obtain rfl := had rfl
      exact ⟨vs', true, none, bind_eq_ok.mpr ⟨_, hok, rfl⟩, hr⟩

lemma Tracks.call {c : Call} (hc : c.Sound C) :
    vs.returns C c = true ∧ Tracks C (vs.call C c) ∧ (vs.call C c).ballot = vs.ballot ∧
      ∀ blockID, vs.maj23 = some blockID → (vs.call C c).maj23 = some blockID := by
  cases c with
  | setPeerMaj23 peerID blockID height round =>
    refine ⟨rfl, h.setPeerMaj23 peerID blockID height round, ?_⟩
    simp only [VoteSet.call]
    rcases setPeerMaj23_cases vs peerID blockID height round with heq | ⟨claims, heq⟩ <;>
      rw [heq] <;> exact ⟨rfl, fun b hb => hb⟩
  | addVote vote check =>
    obtain ⟨vs', added, err, hok, hr⟩ := h.addVote hvals hsized hrecovers hc
    simp only [returns, VoteSet.call, hok]
    exact ⟨rfl, hr⟩

end

lemma Tracks.run {b : Ballot} (h : Tracks C vs) (hvals : b.vals.WellFormed) (hsized : C.SizedSignatures)
    (hrecovers : C.RecoversThreshold b.vals) {calls : List Call} (hc : ∀ c ∈ calls, c.Sound C) (hba : vs.ballot = b) :
    Admitted (VoteSet.call C) (fun vs c => vs.returns C c = true) vs calls ∧
      Tracks C (Run.run (VoteSet.call C) vs calls) ∧
      (Run.run (VoteSet.call C) vs calls).ballot = b ∧
      ∀ blockID, vs.maj23 = some blockID → (Run.run (VoteSet.call C) vs calls).maj23 = some blockID := by
  induction calls generalizing vs with
  | nil => exact ⟨trivial, h, hba, fun _ hb => hb⟩
  | cons c calls ih =>
    have hse : vs.valSet = b.vals := by rw [← hba]; rfl
    obtain ⟨hr, ht, hsa, hk⟩ := h.call (hse ▸ hvals) hsized (hse ▸ hrecovers) (hc c mem_cons_self)
    obtain ⟨ha, hre, he, hs⟩ := ih ht (fun d hd => hc d (mem_cons_of_mem _ hd)) (hsa.trans hba)
    exact ⟨⟨hr, ha⟩, hre, he, fun b hb => hs b (hk b hb)⟩

/-- **Majorities are complete and stable.** Calls with any votes that passed `ValidateBasic`, and any
claims of peers, in any order, on a new vote set of a well-formed validator set: all of them return;
a majority stays what it is; there is one at the end exactly if the votes recorded for some block are
ready; and a precommit majority makes a commit that verifies. -/
theorem majority_iff_ready (C : Crypto) (chainID : String) (height round : ℤ) (type : SignedMsgType)
    (vals : ValidatorSet) (hvals : vals.WellFormed) (hsized : C.SizedSignatures) (hrecovers : C.RecoversThreshold vals)
    (calls : List Call) (hcalls : ∀ c ∈ calls, c.Sound C) :
    Admitted (VoteSet.call C) (fun vs c => vs.returns C c = true)
        (new chainID height round type vals) calls ∧
      (∀ done rest, calls = done ++ rest → ∀ blockID,
        (run (VoteSet.call C) (new chainID height round type vals) done).maj23 = some blockID →
        (run (VoteSet.call C) (new chainID height round type vals) calls).maj23 = some blockID) ∧
      ((run (VoteSet.call C) (new chainID height round type vals) calls).maj23.isSome ↔
        ∃ key bv, (run (VoteSet.call C) (new chainID height round type vals) calls).votesByBlock key =
          some bv ∧ Ballot.Ready C ⟨chainID, height, round, type, vals⟩ bv) ∧
      (type = .precommit → ∀ blockID,
        (run (VoteSet.call C) (new chainID height round type vals) calls).maj23 = some blockID →
        ∃ commit, (run (VoteSet.call C) (new chainID height round type vals) calls).makeCommit =
            .ok commit ∧ commit.blockID = blockID ∧
          ValidatorSet.verifyCommit C (some vals) chainID blockID height (some commit) none = .ok ()) := by
  have hn := Tracks.new C chainID height round type vals
  obtain ⟨ha, ht, hb, -⟩ := hn.run (b := ⟨chainID, height, round, type, vals⟩) hvals hsized hrecovers hcalls rfl
  refine ⟨ha, ?_, ?_, ?_⟩
  · rintro done rest rfl blockID hm
    obtain ⟨-, hd, hs, -⟩ :=
      hn.run (b := ⟨chainID, height, round, type, vals⟩) hvals hsized hrecovers
        (fun c hc => hcalls c (mem_append_left _ hc)) rfl
    rw [run_append]
    exact (hd.run hvals hsized hrecovers (fun c hc => hcalls c (mem_append_right _ hc)) hs).2.2.2 blockID hm
  · rw [← hb]
    constructor
    · intro hso
      obtain ⟨blockID, hm⟩ := Option.isSome_iff_exists.mp hso
      obtain ⟨⟨bv, hbv, hr⟩, -⟩ := ht.majority blockID hm
      exact ⟨_, bv, hbv, hr⟩
    rintro ⟨key, bv, hbv, hr⟩
    by_contra hno
    exact ht.waiting (Option.not_isSome_iff_eq_none.mp hno) key bv hbv hr
  · intro hty blockID hm
    have ht' := (congrArg Ballot.type hb).trans hty
    have hco := makeCommit_of_certifies ht' hm ((ht.majority blockID hm).2 ht')
    rw [show valSet _ = vals from congrArg Ballot.vals hb,
      show VoteSet.chainID _ = chainID from congrArg Ballot.chainID hb,
      show VoteSet.height _ = height from congrArg Ballot.height hb] at hco
    exact hco

/-! ### Sample data -/

def samplePad : Bytes := List.replicate 16 0

/-- Primitives with threshold signatures for the sample validators: a signature is the key, the digest
and some filling, and three shares over one digest give the signature of the quorum's key. -/
def thresholdSample : Crypto where
  checksum := fitHash
  checksum_length := fitHash_length
  buildSignHash _ _ _ m := fitHash m
  buildSignHash_length _ _ _ m := fitHash_length m
  verifySignatureDigest _ key digest sig :=
    sig = key ++ (digest ++ samplePad) ∧ sig.length = signatureSize
  signDigest key digest := .ok (key ++ (digest ++ samplePad))
  recoverThresholdSignature sigs _ :=
    if sigs.length < 3 then Go.fail "not enough shares"
    else .ok (List.replicate pubKeySize 1 ++ (sigs.headD []).drop pubKeySize)

lemma thresholdSample_sized : thresholdSample.SizedSignatures := by
  intro key digest sig h
  simp only [PubKey.verifySignatureDigest, thresholdSample, decide_eq_true_eq] at h
  exact h.2

def fourValidators : ValidatorSet := { sampleValidators 4 with votingPowerThreshold := 200 }

lemma fourValidators_wellFormed : fourValidators.WellFormed where
  nodup := by decide
  power := by decide
  quorumHash_length := by decide
  quorumType_byte := by decide
  single := by
    intro val h
    have := congrArg length h
    simp [fourValidators, sampleValidators] at this

lemma thresholdSample_recovers : thresholdSample.RecoversThreshold fourValidators := by
  intro digest shares _ hc hsi
  have ht : fourValidators.quorumTypeThresholdCount = 3 := by decide
  rw [ht] at hc
  cases shares with
  | nil => simp at hc
  | cons share shares =>
    obtain ⟨val, hva, -, key, hk, hv⟩ := hsi share mem_cons_self
    simp only [PubKey.verifySignatureDigest, thresholdSample, decide_eq_true_eq] at hv
    have hl : key.bytes.length = pubKeySize := by
      obtain ⟨i, -, rfl⟩ := mem_map.mp hva
      cases hk
      simp
    have hd : share.2.drop pubKeySize = digest ++ samplePad := by rw [hv.1, ← hl, drop_left]
    refine ⟨replicate pubKeySize 1 ++ (digest ++ samplePad), ⟨0, replicate pubKeySize 1⟩, ?_, rfl, ?_⟩
    · simp only [thresholdSample, length_map]
      rw [if_neg (by omega)]
      simp [hd]
    have hs := hv.2
    rw [hv.1, length_append, hl] at hs
    simp [PubKey.verifySignatureDigest, thresholdSample, pubKeySize] at hs ⊢
    omega

def paddedPrecommit (i : ℕ) (blockID : BlockID) : Call :=
  let ref := sampleVote .precommit i blockID
  .addVote (some { ref with vote := { ref.vote with
    blockSignature := ref.vote.blockSignature ++ samplePad } }) (.verify none)

/-- Three precommits for one block make a commit that verifies, though two have the quorum's power. -/
theorem three_precommits_commit : ∃ commit,
    (run (VoteSet.call thresholdSample) (new "chain" 1 0 .precommit fourValidators)
      [paddedPrecommit 0 (sampleBlockID 1), paddedPrecommit 1 (sampleBlockID 1),
        paddedPrecommit 2 (sampleBlockID 1)]).makeCommit = .ok commit ∧
      commit.blockID = sampleBlockID 1 ∧
      ValidatorSet.verifyCommit thresholdSample (some fourValidators) "chain" (sampleBlockID 1) 1
        (some commit) none = .ok () := by
  have hs : ∀ i < 3, (paddedPrecommit i (sampleBlockID 1)).Sound thresholdSample := by
    intro i hi
    refine ⟨?_, nofun, trivial⟩
    interval_cases i <;> decide +kernel
  refine (majority_iff_ready thresholdSample "chain" 1 0 .precommit fourValidators
    fourValidators_wellFormed thresholdSample_sized thresholdSample_recovers _ ?_).2.2.2 rfl _ ?_
  · simp only [mem_cons, not_mem_nil, or_false]
    rintro c (rfl | rfl | rfl)
    · exact hs 0 (by decide)
    · exact hs 1 (by decide)
    · exact hs 2 (by decide)
  · decide +kernel

/-- Two precommits for nil have the quorum's power, but without a group that reaches the recovery
threshold nil does not become the majority. -/
theorem nil_precommits_without_majority :
    fourValidators.WellFormed ∧ thresholdSample.SizedSignatures ∧
      thresholdSample.RecoversThreshold fourValidators ∧
      (run (VoteSet.call thresholdSample) (new "chain" 1 0 .precommit fourValidators)
        [paddedPrecommit 0 .nil, paddedPrecommit 1 .nil]).maj23 = none ∧
      ((run (VoteSet.call thresholdSample) (new "chain" 1 0 .precommit fourValidators)
        [paddedPrecommit 0 .nil, paddedPrecommit 1 .nil]).votesByBlock BlockID.nil.key).any
          (fun bv => fourValidators.quorumVotingThresholdPower ≤ tallyAll fourValidators.powers bv.votes) = true :=
  ⟨fourValidators_wellFormed, thresholdSample_sized, thresholdSample_recovers, by decide +kernel, by decide +kernel⟩

end VoteSet

end Tenderdash
