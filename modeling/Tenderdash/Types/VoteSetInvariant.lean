import Tenderdash.Types.VoteSet

/-!
The representation invariant of vote sets: the canonical list, the votes recorded for each block and
the majority are in step.

The comment on the type promises it after every sequence of calls. One branch breaks it: once there
is a majority, a conflicting vote for the majority's block takes the canonical place of its validator
before the code asks whether the block is tracked, and if no peer has claimed a majority for the
block, the vote is then not recorded for it.
-/

namespace Tenderdash

open Lib Go Run Option

namespace VoteSet

/-- The representation invariant: (a) the canonical list's marks and sum, (b) marks, sum and keys of
the votes recorded for each block, (c) canonical votes are recorded for their block, (d) the votes
recorded for the majority have the quorum's power. -/
structure Consistent (vs : VoteSet) : Prop where
  canonical : Tallied vs.valSet.powers vs.votesBitArray vs.votes vs.sum
  recorded : ∀ key bv, vs.votesByBlock key = some bv →
    Tallied vs.valSet.powers bv.bitArray bv.votes bv.sum ∧
      ∀ (i : ℕ) (v : Vote), slot bv.votes i = some v → v.blockID.key = key
  listed : ∀ (i : ℕ) (v : Vote), slot vs.votes i = some v →
    ∃ bv, vs.votesByBlock v.blockID.key = some bv ∧ slot bv.votes i = some v
  quorum : ∀ blockID, vs.maj23 = some blockID →
    ∃ bv, vs.votesByBlock blockID.key = some bv ∧ vs.valSet.quorumVotingThresholdPower ≤ bv.sum

structure Invariant (vs : VoteSet) : Prop extends Consistent vs where
  powers_nonneg : ∀ val ∈ vs.valSet.validators, 0 ≤ val.votingPower
  seen : ∀ key bv, vs.votesByBlock key = some bv → ∀ (i : ℕ) (v : Vote), slot bv.votes i = some v →
    ∃ w, slot vs.votes i = some w

lemma tallied_new (vals : ValidatorSet) (peerMaj23 : Bool) :
    Tallied vals.powers (BlockVotes.new peerMaj23 vals.size).bitArray
      (BlockVotes.new peerMaj23 vals.size).votes (BlockVotes.new peerMaj23 vals.size).sum := by
  rw [← vals.powers_length]
  exact Tallied.empty vals.powers

@[simp] lemma slot_new (peerMaj23 : Bool) (n i : ℕ) : slot (BlockVotes.new peerMaj23 n).votes i = none := by
  simp [BlockVotes.new]

variable {vals : ValidatorSet}

lemma invariant_new (chainID : String) (height round : ℤ) (type : SignedMsgType)
    (hv : ∀ val ∈ vals.validators, 0 ≤ val.votingPower) : Invariant (new chainID height round type vals) where
  canonical := tallied_new vals false
  recorded := by intro key bv h; simp [new] at h
  listed := by intro i v h; simp [new] at h
  quorum := by intro blockID h; simp [new] at h
  powers_nonneg := hv
  seen := by intro key bv h; simp [new] at h

/-! ### The canonical list's part -/

structure Recorded (vs vs₁ : VoteSet) (vote : Vote) : Prop where
  tallied : Tallied vs.valSet.powers vs₁.votesBitArray vs₁.votes vs₁.sum
  covers : ∀ (i : ℕ) (w : Vote), slot vs.votes i = some w → ∃ w', slot vs₁.votes i = some w'
  covered : ∃ w, slot vs₁.votes vote.validatorIndex.toNat = some w
  only : ∀ (i : ℕ) (v : Vote), slot vs₁.votes i = some v →
    (i = vote.validatorIndex.toNat ∧ v = vote) ∨ slot vs.votes i = some v

variable {vs vs₁ : VoteSet} {vote : Vote} {val : Validator} {conflicting : Option Vote} {bv : BlockVotes} {C : Crypto}
  {sum : ℤ}

lemma recorded_of_setCanonical (hi : vote.validatorIndex.toNat < vs.votes.length)
    (ht : Tallied vs.valSet.powers (vs.setCanonical vote).votesBitArray (vs.setCanonical vote).votes sum) :
    Recorded vs { vs.setCanonical vote with sum := sum } vote := by
  have hs : slot (vs.setCanonical vote).votes vote.validatorIndex.toNat = some vote := slot_set_self hi vote
  refine ⟨ht, fun i w hw => ?_, ⟨vote, hs⟩, fun i v => slot_set_cases⟩
  by_cases hne : vote.validatorIndex.toNat = i
  · exact ⟨vote, hne ▸ hs⟩
  · exact ⟨w, (slot_set_of_ne hne vote).trans hw⟩

section

variable (h : Invariant vs) {blockID : BlockID} {bv' : BlockVotes} {identity : Bytes} {vs' : VoteSet}

include h

lemma Invariant.recordCanonical (hv : vs.valSet.validators[vote.validatorIndex.toNat]? = some val)
    (hr : vs.recordCanonical vote val.votingPower = .ok (vs₁, conflicting)) : Recorded vs vs₁ vote := by
  have hp := ValidatorSet.powers_getElem? hv
  have hi : vote.validatorIndex.toNat < vs.votes.length := by
    rw [h.canonical.length_eq]
    exact (getElem?_eq_some_iff.mp hp).1
  obtain ⟨hf, -, rfl⟩ | ⟨existing, hs, -, ⟨-, rfl⟩ | ⟨-, rfl⟩⟩ := recordCanonical_cases hr
  · -- the first vote of this validator
    exact recorded_of_setCanonical hi (h.canonical.fill vote hp hf)
  · -- a vote for the majority's block takes the place of another one
    exact recorded_of_setCanonical hi (h.canonical.replace vote hs)
  -- the list stays as it is
  exact ⟨h.canonical, fun i w hw => ⟨w, hw⟩, ⟨existing, hs⟩, fun i v => .inr⟩

/-! ### The votes of the block -/

lemma Invariant.votesFor (key : Bytes) :
    Tallied vs.valSet.powers (vs.votesFor key).bitArray (vs.votesFor key).votes (vs.votesFor key).sum ∧
      ∀ (i : ℕ) (v : Vote), slot (vs.votesFor key).votes i = some v →
        v.blockID.key = key ∧ ∃ w, slot vs.votes i = some w := by
  refine votesFor_induction (fun bv hbv => ?_) ?_
  · exact ⟨(h.recorded key bv hbv).1, fun i v hv => ⟨(h.recorded key bv hbv).2 i v hv, h.seen key bv hbv i v hv⟩⟩
  · exact ⟨tallied_new vs.valSet false, fun i v hv => by simp at hv⟩

structure Adds (vals : ValidatorSet) (vote : Vote) (bv bv' : BlockVotes) : Prop where
  tallied : Tallied vals.powers bv'.bitArray bv'.votes bv'.sum
  self : slot bv'.votes vote.validatorIndex.toNat = some vote
  only : ∀ (i : ℕ) (v : Vote), slot bv'.votes i = some v →
    (i = vote.validatorIndex.toNat ∧ v = vote) ∨ slot bv.votes i = some v
  kept : ∀ (i : ℕ) (v : Vote), slot bv.votes i = some v → slot bv'.votes i = some v
  sum_le : bv.sum ≤ bv'.sum

omit h in
lemma adds_of_addVerifiedVote {threshold : ℤ}
    {reached : Bool} (ht : Tallied vals.powers bv.bitArray bv.votes bv.sum)
    (hv : vals.validators[vote.validatorIndex.toNat]? = some val) (hn : 0 ≤ val.votingPower)
    (hf : slot bv.votes vote.validatorIndex.toNat = none)
    (ha : bv.addVerifiedVote vote identity val.votingPower threshold = (bv', reached)) : Adds vals vote bv bv' := by
  have hp := ValidatorSet.powers_getElem? hv
  have hi : vote.validatorIndex.toNat < bv.votes.length := by
    rw [ht.length_eq]
    exact (getElem?_eq_some_iff.mp hp).1
  obtain ⟨rfl, -⟩ := BlockVotes.addVerifiedVote_of_free hf ha
  exact ⟨ht.fill vote hp hf, slot_set_self hi vote, fun i v => slot_set_cases,
    fun i v => slot_set_of_free hf, by simpa using hn⟩

lemma Invariant.replace {votes : List (Option Vote)} {marks : List Bool} {key : Bytes}
    (hc : Tallied vs.valSet.powers marks votes sum)
    (hco : ∀ (i : ℕ) (w : Vote), slot vs.votes i = some w → ∃ w', slot votes i = some w')
    (hl : ∀ (i : ℕ) (v : Vote), slot votes i = some v →
      (v.blockID.key = key ∧ slot bv'.votes i = some v) ∨ slot vs.votes i = some v)
    (ht : Tallied vs.valSet.powers bv'.bitArray bv'.votes bv'.sum)
    (hvo : ∀ (i : ℕ) (v : Vote), slot bv'.votes i = some v → v.blockID.key = key ∧ ∃ w, slot votes i = some w)
    (hke : ∀ (i : ℕ) (v : Vote), slot (vs.votesFor key).votes i = some v → slot bv'.votes i = some v)
    (hsu : (vs.votesFor key).sum ≤ bv'.sum) : Invariant ((vs.relist votes marks sum).setVotes key bv') := by
  refine ⟨⟨hc, fun key' bw hbw => ?_, fun i v hv => ?_, fun blockID hm => ?_⟩, h.powers_nonneg,
    fun key' bw hbw i v hv => ?_⟩
  · obtain ⟨rfl, rfl⟩ | ⟨-, hbw⟩ := setVotes_cases hbw
    · exact ⟨ht, fun i v hv => (hvo i v hv).1⟩
    · exact h.recorded key' bw hbw
  · obtain ⟨rfl, hs⟩ | hv := hl i v hv
    · exact ⟨bv', setVotes_self .., hs⟩
    obtain ⟨bw, hbw, hs⟩ := h.listed i v hv
    obtain ⟨bw', hb', hk⟩ := setVotes_keeps (vs.relist votes marks sum)
      (R := fun a b => slot a.votes i = some v → slot b.votes i = some v) (fun _ => id) (hke i v) hbw
    exact ⟨bw', hb', hk hs⟩
  · obtain ⟨bw, hbw, hq⟩ := h.quorum blockID hm
    obtain ⟨bw', hb', hle⟩ := setVotes_keeps (vs.relist votes marks sum)
      (R := fun a b => a.sum ≤ b.sum) (fun _ => le_rfl) hsu hbw
    exact ⟨bw', hb', hq.trans hle⟩
  · obtain ⟨rfl, rfl⟩ | ⟨-, hbw⟩ := setVotes_cases hbw
    · exact (hvo i v hv).2
    · obtain ⟨w, hw⟩ := h.seen key' bw hbw i v hv
      exact hco i w hw

/-! ### The majority -/

lemma Invariant.publish (hbv : vs.votesByBlock blockID.key = some bv)
    (hq : vs.valSet.quorumVotingThresholdPower ≤ bv.sum) (sig : Bytes) (exts : List VoteExtension) :
    Invariant ({ vs with maj23 := some blockID, thresholdBlockSig := sig
                         thresholdVoteExtSigs := exts }.publish bv) := by
  obtain ⟨ht, hk⟩ := h.recorded _ bv hbv
  have hl : vs.votes.length = bv.votes.length := by rw [h.canonical.length_eq, ht.length_eq]
  have hs := slot_overlay hl
  refine ⟨⟨?_, h.recorded, fun i v hv => ?_, fun b hb => ?_⟩, h.powers_nonneg, fun key bw hbw i v hv => ?_⟩
  · exact h.canonical.overlay ht.length_eq (h.seen _ bv hbv)
  · -- a canonical vote is now one of the block's votes or the one it was
    simp only [VoteSet.publish, hs] at hv
    cases hi : slot bv.votes i with
    | none =>
      rw [hi, none_or] at hv
      exact h.listed i v hv
    | some w =>
      rw [hi, some_or, some.injEq] at hv
      subst hv
      exact ⟨bv, by rw [hk i w hi]; exact hbv, hi⟩
  · cases hb
    exact ⟨bv, hbv, hq⟩
  · obtain ⟨w, hw⟩ := h.seen key bw hbw i v hv
    simp only [VoteSet.publish, hs]
    cases hi : slot bv.votes i with
    | none => exact ⟨w, by rw [none_or, hw]⟩
    | some w' => exact ⟨w', rfl⟩

lemma Invariant.tryFinalize
    (hbv : vs.votesByBlock blockID.key = some bv) (hq : vs.valSet.quorumVotingThresholdPower ≤ bv.sum)
    (hf : vs.tryFinalize C blockID bv = .ok vs') : Invariant vs' := by
  obtain ⟨sig, exts, rfl, -⟩ | ⟨-, -, rfl⟩ := tryFinalize_cases hf
  · exact h.publish hbv hq sig exts
  · exact { h with quorum := fun b hb => by cases hb }

/-! ### Runs -/

/-- The call returns, and does not report an untracked conflicting vote for the majority's block. -/
def tracked (C : Crypto) (vs : VoteSet) : Call → Bool
  | .addVote vote check =>
    match vs.addVote C vote check with
    | .ok (_, false, some (.conflictingVotes _ new)) =>
      vs.maj23.map BlockID.key ≠ some new.blockID.key
    | .ok _ => true
    | .error _ => false
  | .setPeerMaj23 .. => true

lemma Invariant.addVerifiedVote {ref : VoteRef} {check : VoteCheck} {added : Bool} (hac : Accepts C vs ref check val identity)
    (had : vs.addVerifiedVote C ref.vote identity val.votingPower = .ok (vs', added, conflicting))
    (htr : added = false → vs.maj23.map BlockID.key ≠ some ref.vote.blockID.key) : Invariant vs' := by
  obtain ⟨votes, marks, sum, hre, ⟨hco, rfl, rfl⟩ | ⟨bv', reached, rfl, hb', hc⟩⟩ := addVerifiedVote_cases had
  · -- the vote is dropped: it conflicts, and then it must not have been listed
    obtain ⟨-, rfl, -⟩ | ⟨-, -, -, ⟨hk, -⟩ | ⟨-, heq⟩⟩ := recordCanonical_cases hre
    · cases hco
    · exact absurd hk (htr rfl)
    · rwa [heq]
  · -- the vote is recorded for its block
    have hr := h.recordCanonical hac.validator hre
    obtain ⟨ht, hvt⟩ := h.votesFor ref.vote.blockID.key
    have ha := adds_of_addVerifiedVote ht hac.validator
      (h.powers_nonneg val (List.mem_of_getElem? hac.validator)) (getVote_eq_none hac.unknown).2 hb'
    have hin := h.replace hr.tallied hr.covers (fun i v hv => ?_) ha.tallied (fun i v hv => ?_) ha.kept ha.sum_le
    · obtain ⟨hat, hf⟩ | rfl := hc
      · simp only [attempts, Bool.decide_and, Bool.and_eq_true, decide_eq_true_eq] at hat
        exact hin.tryFinalize (setVotes_self ..) hat.2.1 hf
      · exact hin
    · exact (hr.only i v hv).imp_left fun hi => ⟨by rw [hi.2], by rw [hi.1, hi.2, ha.self]⟩
    · obtain ⟨rfl, rfl⟩ | hv := ha.only i v hv
      · exact ⟨rfl, hr.covered⟩
      · obtain ⟨hk, w, hw⟩ := hvt i v hv
        exact ⟨hk, hr.covers i w hw⟩

lemma Invariant.setPeerMaj23 (peerID : String) (blockID : BlockID) (height round : ℤ) :
    Invariant (vs.setPeerMaj23 peerID blockID height round).1 := by
  obtain heq | ⟨claims, heq⟩ := setPeerMaj23_cases vs peerID blockID height round
  · rwa [heq]
  rw [heq]
  have hc : Invariant { vs with peerMaj23s := claims } := { h with }
  obtain ⟨ht, hvo⟩ := h.votesFor blockID.key
  exact hc.replace h.canonical (fun i w hw => ⟨w, hw⟩) (fun i v => .inr) ht hvo (fun i v hv => hv) le_rfl

lemma Invariant.call {c : Call} (hc : tracked C vs c = true) : Invariant (vs.call C c) := by
  cases c with
  | setPeerMaj23 peerID blockID height round => exact h.setPeerMaj23 peerID blockID height round
  | addVote vote check =>
    simp only [tracked] at hc
    cases ha : vs.addVote C vote check with
    | error msg => simp [ha] at hc
    | ok result =>
      obtain ⟨vs', added, err⟩ := result
      simp only [VoteSet.call, ha]
      obtain ⟨rfl, -⟩ | ⟨ref, val, identity, conflicting, rfl, hac, hv, rfl⟩ := addVote_cases ha
      · exact h
      refine h.addVerifiedVote hac hv fun hfa => ?_
      subst hfa
      cases conflicting with
      | some existing => simpa [ha] using hc
      | none =>
        -- a vote that is dropped conflicts with another one
        obtain ⟨-, -, -, -, ⟨hco, -⟩ | ⟨-, -, hf, -⟩⟩ := addVerifiedVote_cases hv
        · cases hco
        · cases hf

end

/-- The vote passes the checks, is for the majority's block, and its validator has a canonical vote for
another block. -/
def displaces (C : Crypto) (vs : VoteSet) (check : VoteCheck) (ref : VoteRef) : Bool :=
  match vs.checkVote C ref check with
  | .ok (some _) => vs.maj23.map BlockID.key = some ref.vote.blockID.key ∧
      (slot vs.votes ref.vote.validatorIndex.toNat).isSome
  | _ => false

lemma addVote_not_added {ref : VoteRef} {check : VoteCheck} {err : Option VoteError} {vs' : VoteSet}
    (h : vs.addVote C (some ref) check = .ok (vs', false, err)) :
    vs' = vs ∧ vs.displaces C check ref = false ∨
      vs.displaces C check ref = true ∧ vs.maj23.map BlockID.key = some ref.vote.blockID.key ∧
        vs' = vs.setCanonical ref.vote ∧ ∃ existing, slot vs.votes ref.vote.validatorIndex.toNat = some existing ∧
          existing.blockID.key ≠ ref.vote.blockID.key ∧ err = some (.conflictingVotes existing ref.vote) := by
  unfold addVote at h
  unfold displaces
  rcases hc : vs.checkVote C ref check with (e | msg) | (_ | ⟨identity, power⟩)
  · simp only [hc] at h; cases h; exact .inl ⟨rfl, rfl⟩
  · simp only [hc] at h; cases h
  · simp only [hc] at h; cases h; exact .inl ⟨rfl, rfl⟩
  simp only [hc] at h
  obtain ⟨⟨vs₁, added, conflicting⟩, had, h⟩ := of_bind h
  obtain ⟨val, rfl, hac⟩ := accepts_of_checkVote hc
  cases conflicting with
  | none => cases added <;> cases h
  | some existing =>
  cases h
  obtain ⟨_, _, _, hr, ⟨-, rfl, -⟩ | ⟨-, -, ha, -⟩⟩ := addVerifiedVote_cases had
  · obtain ⟨-, hn, -⟩ | ⟨existing, hs, heq, hca⟩ := recordCanonical_cases hr
    · cases hn
    cases heq
    obtain ⟨hm, heq⟩ | ⟨hm, heq⟩ := hca
    · exact .inr ⟨by simp [hm, hs], hm, heq, existing, hs, (getVote_eq_none hac.unknown).1 _ hs, rfl⟩
    · exact .inl ⟨heq, by simp [hm]⟩
  · cases ha

/-- **A vote that is not added** has no effect, exactly if it does not displace the canonical vote of its
validator. -/
theorem addVote_no_effect_iff (C : Crypto) (vs vs' : VoteSet) (vote : Option VoteRef) (check : VoteCheck)
    (err : Option VoteError) (h : vs.addVote C vote check = .ok (vs', false, err)) :
    vs' = vs ↔ vote.any (vs.displaces C check) = false := by
  cases vote with
  | none =>
    cases h
    simp
  | some ref =>
  obtain ⟨rfl, hk⟩ | ⟨hd, -, rfl, existing, hsl, hne, -⟩ := addVote_not_added h
  · simp [hk]
  have hlt : ref.vote.validatorIndex.toNat < vs.votes.length := (getElem?_eq_some_iff.mp (slot_eq_some.mp hsl)).1
  simp only [any_some, hd, Bool.true_eq_false, iff_false]
  intro heq
  have hs := slot_set_self hlt ref.vote
  rw [show vs.votes.set ref.vote.validatorIndex.toNat (some ref.vote) = vs.votes from congrArg votes heq, hsl] at hs
  exact hne (congrArg (·.blockID.key) (some.inj hs))

/-! ### A run that breaks the invariant -/

def changedPrevotes : List Call :=
  [(3, sampleBlockID 1), (0, sampleBlockID 2), (1, sampleBlockID 2), (2, sampleBlockID 2),
    (3, sampleBlockID 2)].map fun (i, blockID) =>
      .addVote (some (sampleVote .prevote i blockID)) (.verify none)

def splitPrevotes : VoteSet :=
  run (VoteSet.call Crypto.sample) (new "chain" 1 0 .prevote (sampleValidators 4)) (changedPrevotes.take 4)

/-- A second prevote for the block without a majority is turned away without effect. -/
theorem second_prevote_no_effect :
    ∃ vs' err, splitPrevotes.addVote Crypto.sample (some (sampleVote .prevote 0 (sampleBlockID 1))) (.verify none) =
      .ok (vs', false, err) ∧ vs' = splitPrevotes := by
  have hr : (splitPrevotes.addVote Crypto.sample (some (sampleVote .prevote 0 (sampleBlockID 1)))
      (.verify none)).toOption.map (·.2.1) = some false := by decide +kernel
  rcases h : splitPrevotes.addVote Crypto.sample (some (sampleVote .prevote 0 (sampleBlockID 1)))
    (.verify none) with msg | ⟨vs', added, err⟩
  · simp [h, Except.toOption] at hr
  obtain rfl : added = false := by simpa [h, Except.toOption] using hr
  exact ⟨vs', err, rfl, (addVote_no_effect_iff _ _ _ _ _ _ h).mpr (by decide +kernel)⟩

/-- One for the block with the majority is not added either, and is then the canonical vote. -/
theorem second_prevote_listed :
    slot splitPrevotes.votes 3 = some (sampleVote .prevote 3 (sampleBlockID 1)).vote ∧
      (splitPrevotes.addVote Crypto.sample (some (sampleVote .prevote 3 (sampleBlockID 2)))
        (.verify none)).toOption.map (fun result => (result.2.1, slot result.1.votes 3)) =
        some (false, some (sampleVote .prevote 3 (sampleBlockID 2)).vote) := by
  decide +kernel

def claimedPrevotes : List Call :=
  changedPrevotes.take 4 ++ .setPeerMaj23 "peer" (sampleBlockID 2) 1 0 :: changedPrevotes.drop 4

end VoteSet

end Tenderdash
