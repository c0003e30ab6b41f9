import Tenderdash.Lib.Locking
import Tenderdash.Types.VoteSetInvariant
import Tenderdash.Types.VoteSetMajority

/-!
What backs a majority, whatever calls a vote set has seen: every vote recorded for a block was accepted, and
a block that has become the majority has the quorum's power among the votes recorded for it. With validators
of equal power that is a quorum of validators (`Backed.quorum`).
-/

namespace Tenderdash

open Lib Locking List

def BlockID.Proper (b : BlockID) : Prop := (b.isNil ∨ b.isComplete) ∧ b.partSetHeader.total < 2 ^ 64

lemma BlockID.Proper.eq_of_key {a b : BlockID} (ha : a.Proper) (hb : b.Proper) (h : a.key = b.key) : a = b :=
  key_injective ha.1 hb.1 ha.2 hb.2 h

lemma Vote.proper_of_validateBasic {v : Vote} (h : v.validateBasic = .ok ()) : v.blockID.Proper := by
  have hv := valid_of_validateBasic h
  have ht := hv.total_le
  have hc : maxBlockPartsCount < 2 ^ 64 := by decide
  exact ⟨hv.block, by omega⟩

namespace VoteSet

structure Backed (good : ℕ → BlockID → Prop) (vs : VoteSet) : Prop where
  recorded : ∀ key bv, vs.votesByBlock key = some bv →
    Tallied vs.valSet.powers bv.bitArray bv.votes bv.sum ∧ ∀ (i : ℕ) (v : Vote), slot bv.votes i = some v →
      v.blockID.key = key ∧ v.blockID.Proper ∧ good i v.blockID
  majority : ∀ blockID, vs.maj23 = some blockID → blockID.Proper ∧
    ∃ bv, vs.votesByBlock blockID.key = some bv ∧ vs.valSet.quorumVotingThresholdPower ≤ bv.sum

variable {C : Crypto} {good : ℕ → BlockID → Prop} {vs vs' : VoteSet}

lemma backed_new (good : ℕ → BlockID → Prop) (chainID : String) (height round : ℤ) (type : SignedMsgType)
    (vals : ValidatorSet) : Backed good (new chainID height round type vals) where
  recorded := by intro key bv h; simp [new] at h
  majority := by intro blockID h; simp [new] at h

section

variable (h : Backed good vs) {bv : BlockVotes}

include h

lemma Backed.mono {good' : ℕ → BlockID → Prop}
    (hgo : ∀ i blockID, good i blockID → good' i blockID) : Backed good' vs := by
  refine ⟨fun key bv hbv => ⟨(h.recorded key bv hbv).1, fun i v hv => ?_⟩, h.majority⟩
  obtain ⟨hk, hp, hg⟩ := (h.recorded key bv hbv).2 i v hv
  exact ⟨hk, hp, hgo i v.blockID hg⟩

lemma Backed.setVotes (key : Bytes) (ht : Tallied vs.valSet.powers bv.bitArray bv.votes bv.sum)
    (hv : ∀ (i : ℕ) (v : Vote), slot bv.votes i = some v → v.blockID.key = key ∧ v.blockID.Proper ∧ good i v.blockID)
    (hs : (vs.votesFor key).sum ≤ bv.sum) : Backed good (vs.setVotes key bv) := by
  refine ⟨fun key' bw hbw => ?_, fun blockID hm => ?_⟩
  · rcases setVotes_cases hbw with ⟨rfl, rfl⟩ | ⟨-, ho⟩
    · exact ⟨ht, hv⟩
    · exact h.recorded key' bw ho
  obtain ⟨hp, bw, hbw, hq⟩ := h.majority blockID hm
  obtain ⟨bw', hb', hle⟩ := setVotes_keeps vs (R := fun a b => a.sum ≤ b.sum) (fun _ => le_rfl) hs hbw
  exact ⟨hp, bw', hb', hq.trans hle⟩

lemma Backed.votesFor (key : Bytes) :
    Tallied vs.valSet.powers (vs.votesFor key).bitArray (vs.votesFor key).votes (vs.votesFor key).sum ∧
      ∀ (i : ℕ) (v : Vote), slot (vs.votesFor key).votes i = some v →
        v.blockID.key = key ∧ v.blockID.Proper ∧ good i v.blockID := by
  refine votesFor_induction (h.recorded key) ⟨tallied_new vs.valSet false, fun i v hv => ?_⟩
  simp at hv

lemma Backed.tryFinalize {blockID : BlockID} (hp : blockID.Proper)
    (hbv : vs.votesByBlock blockID.key = some bv) (hq : vs.valSet.quorumVotingThresholdPower ≤ bv.sum)
    (hf : vs.tryFinalize C blockID bv = .ok vs') : Backed good vs' ∧ vs'.ballot = vs.ballot := by
  obtain ⟨sig, exts, rfl, -⟩ | ⟨-, -, rfl⟩ := tryFinalize_cases hf
  · refine ⟨⟨h.recorded, fun b hb => ?_⟩, rfl⟩
    cases hb
    exact ⟨hp, bv, hbv, hq⟩
  · exact ⟨⟨h.recorded, fun b hb => by cases hb⟩, rfl⟩

lemma Backed.addVote (hpo : ∀ val ∈ vs.valSet.validators, 0 ≤ val.votingPower) {ref : VoteRef}
    {check : VoteCheck} {added : Bool} {err : Option VoteError} (hp : ref.vote.blockID.Proper)
    (hg : ∀ val identity, Accepts C vs ref check val identity → good ref.vote.validatorIndex.toNat ref.vote.blockID)
    (had : vs.addVote C (some ref) check = .ok (vs', added, err)) : Backed good vs' ∧ vs'.ballot = vs.ballot := by
  obtain ⟨rfl, -⟩ | ⟨ref', val, identity, conflicting, hr, hac, had, -⟩ := addVote_cases had
  · exact ⟨h, rfl⟩
  cases hr
  obtain ⟨votes, marks, sum, -, hc⟩ := addVerifiedVote_cases had
  have h₁ : Backed good (vs.relist votes marks sum) := { h with }
  obtain ⟨-, rfl, -⟩ | ⟨bv, reached, -, hbv, hc⟩ := hc
  · exact ⟨h₁, rfl⟩
  -- the vote is recorded for its block, in a free slot
  obtain ⟨ht, hvo⟩ := h.votesFor ref.vote.blockID.key
  have ha := adds_of_addVerifiedVote ht hac.validator
    (hpo val (mem_of_getElem? hac.validator)) (getVote_eq_none hac.unknown).2 hbv
  have h₂ := h₁.setVotes ref.vote.blockID.key ha.tallied (fun i v hv => ?_) ha.sum_le
  · obtain ⟨hat, hf⟩ | rfl := hc
    · simp only [attempts, Bool.decide_and, Bool.and_eq_true, decide_eq_true_eq] at hat
      exact h₂.tryFinalize hp (setVotes_self ..) hat.2.1 hf
    · exact ⟨h₂, rfl⟩
  · obtain ⟨rfl, rfl⟩ | hv := ha.only i v hv
    · exact ⟨rfl, hp, hg val identity hac⟩
    · exact hvo i v hv

lemma Backed.setPeerMaj23 (peerID : String) (blockID : BlockID) (height round : ℤ) :
    Backed good (vs.setPeerMaj23 peerID blockID height round).1 ∧
      (vs.setPeerMaj23 peerID blockID height round).1.ballot = vs.ballot := by
  obtain heq | ⟨claims, heq⟩ := setPeerMaj23_cases vs peerID blockID height round
  · rw [heq]
    exact ⟨h, rfl⟩
  rw [heq]
  have h₁ : Backed good { vs with peerMaj23s := claims } := { h with }
  obtain ⟨ht, hv⟩ := h.votesFor blockID.key
  exact ⟨h₁.setVotes _ ht hv le_rfl, rfl⟩

end

/-- **A majority is a quorum of validators.** -/
theorem Backed.quorum (h : Backed good vs) {p q : ℕ} (hp : ∀ val ∈ vs.valSet.validators, val.votingPower = p)
    (hq : ∀ k : ℕ, vs.valSet.quorumVotingThresholdPower ≤ p * k → q ≤ k) {blockID : BlockID}
    (hm : vs.maj23 = some blockID) : Quorum (Finset.range vs.valSet.validators.length) q fun i => good i blockID := by
  obtain ⟨hpr, bv, hbv, hqu⟩ := h.majority blockID hm
  obtain ⟨ht, hvo⟩ := h.recorded _ bv hbv
  have hs : bv.sum = p * (bv.votes.filterMap id).length := by
    rw [ht.sum_eq, tallyAll, tally_eq_length _ (c := p) (fun w hw => ?_) ht.length_eq]
    · simp
    obtain ⟨val, hva, rfl⟩ := mem_map.mp hw
    exact hp val hva
  have hl : bv.votes.length = vs.valSet.validators.length := by rw [ht.length_eq, ValidatorSet.powers, length_map]
  refine ⟨(Finset.range bv.votes.length).filter fun i => (slot bv.votes i).isSome, ?_, ?_, fun i hi => ?_⟩
  · rw [hl]
    exact Finset.filter_subset ..
  · rw [card_filled]
    exact hq _ (hs ▸ hqu)
  obtain ⟨v, hv⟩ := Option.isSome_iff_exists.mp (Finset.mem_filter.mp hi).2
  obtain ⟨hk, hp', hg⟩ := hvo i v hv
  rwa [hp'.eq_of_key hpr hk] at hg

end VoteSet

end Tenderdash
