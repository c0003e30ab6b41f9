import Tenderdash.Consensus.HeightVoteSet
import Tenderdash.Types.VoteSetInvariant
import Tenderdash.Types.VoteSetMajority

/-!
Which rounds a height vote set tracks, whatever votes it is given: the rounds up to its own, and the
rounds that validators were allowed to open by a vote, two for each of them.

`SetRound` starts its loop one below the current round, so that its first call, at round 0, makes vote
sets for round -1. And a vote that is not admitted leaves no trace, with one exception: a conflicting
vote for the block of a majority takes the place of the validator's earlier one before it is turned away.
-/

namespace Tenderdash

open Lib Go Run List Function
open Option hiding or_assoc

namespace VoteSet

variable {C : Crypto} {vs vs' : VoteSet}

def HasVote (vs : VoteSet) : Prop :=
  ∃ key bv i v, vs.votesByBlock key = some bv ∧ slot bv.votes i = some v

variable {ref : VoteRef} {check : VoteCheck} {err : Option VoteError} {added : Bool}

lemma HasVote.of_votesByBlock (h : HasVote vs) (heq : vs'.votesByBlock = vs.votesByBlock) : HasVote vs' := by
  obtain ⟨key, bv, i, v, hbv, hv⟩ := h
  exact ⟨key, bv, i, v, by rw [heq, hbv], hv⟩

lemma HasVote.setVotes (h : HasVote vs) {blockKey : Bytes} {bv : BlockVotes}
    (hke : ∀ (i : ℕ) (v : Vote), slot (vs.votesFor blockKey).votes i = some v → slot bv.votes i = some v) :
    HasVote (vs.setVotes blockKey bv) := by
  obtain ⟨key, bw, i, v, hbw, hv⟩ := h
  obtain ⟨bw', hb', hk⟩ := setVotes_keeps vs (R := fun a b => slot a.votes i = some v → slot b.votes i = some v)
    (fun _ => id) (hke i v) hbw
  exact ⟨key, bw', i, v, hb', hk hv⟩

lemma addVote_votesByBlock (h : vs.addVote C (some ref) check = .ok (vs', added, err)) :
    vs'.votesByBlock = vs.votesByBlock ∧ added = false ∨
      ∃ val bv, vs.valSet.validators[ref.vote.validatorIndex.toNat]? = some val ∧
        slot (vs.votesFor ref.vote.blockID.key).votes ref.vote.validatorIndex.toNat = none ∧
        bv.votes = (vs.votesFor ref.vote.blockID.key).votes.set ref.vote.validatorIndex.toNat (some ref.vote) ∧
        vs'.votesByBlock = (vs.setVotes ref.vote.blockID.key bv).votesByBlock := by
  obtain ⟨rfl, ha⟩ | ⟨ref', val, identity, conflicting, hr, hac, had, -⟩ := addVote_cases h
  · exact .inl ⟨rfl, ha⟩
  cases hr
  obtain ⟨votes, marks, sum, -, ⟨-, rfl, rfl⟩ | ⟨bv, reached, -, hbv, hc⟩⟩ := addVerifiedVote_cases had
  · exact .inl ⟨rfl, rfl⟩
  have hf := (getVote_eq_none hac.unknown).2
  obtain ⟨hv, -⟩ := BlockVotes.addVerifiedVote_of_free hf hbv
  refine .inr ⟨val, bv, hac.validator, hf, by rw [hv], ?_⟩
  obtain ⟨-, hfi⟩ | rfl := hc
  · obtain ⟨sig, exts, rfl, -⟩ | ⟨-, -, rfl⟩ := tryFinalize_cases hfi <;> rfl
  · rfl

lemma HasVote.addVote (h : HasVote vs) (ha : vs.addVote C (some ref) check = .ok (vs', added, err)) : HasVote vs' := by
  obtain ⟨heq, -⟩ | ⟨val, bv, -, hf, hvo, heq⟩ := addVote_votesByBlock ha
  · exact h.of_votesByBlock heq
  refine (h.setVotes fun i v hv => ?_).of_votesByBlock heq
  rw [hvo]
  exact slot_set_of_free hf hv

lemma hasVote_of_added {chainID : String} {height round : ℤ} {type : SignedMsgType} {vals : ValidatorSet}
    (had : (new chainID height round type vals).addVote C (some ref) check = .ok (vs', true, err)) : HasVote vs' := by
  obtain ⟨-, ha⟩ | ⟨val, bv, hva, -, hv, heq⟩ := addVote_votesByBlock had
  · cases ha
  refine ⟨_, bv, ref.vote.validatorIndex.toNat, ref.vote, by rw [heq, setVotes_self], ?_⟩
  have hlt : ref.vote.validatorIndex.toNat < vals.validators.length := (List.getElem?_eq_some_iff.mp hva).1
  rw [hv]
  exact slot_set_self (by simpa [votesFor, BlockVotes.new, new, ValidatorSet.size] using hlt) ref.vote

lemma HasVote.setPeerMaj23 (h : HasVote vs) (peerID : String) (blockID : BlockID) (height round : ℤ) :
    HasVote (vs.setPeerMaj23 peerID blockID height round).1 := by
  obtain heq | ⟨claims, heq⟩ := setPeerMaj23_cases vs peerID blockID height round
  · rwa [heq]
  rw [heq]
  have hc : HasVote { vs with peerMaj23s := claims } := h
  exact hc.setVotes fun i v hv => hv

end VoteSet

namespace HeightVoteSet

/-! ### Calls -/

/-- The calls that change a height vote set. `AddVote`, `AddVoteWithVerificationBudget` and
`AddVerifiedVote` differ in the check. -/
inductive Call where
  | setRound (round : ℤ)
  | addVote (ref : VoteRef) (check : VoteSet.VoteCheck)
  | setPeerMaj23 (height round : ℤ) (type : SignedMsgType) (peerID : String) (blockID : BlockID)

def call (C : Crypto) (hvs : HeightVoteSet) : Call → Except String HeightVoteSet
  | .setRound round => hvs.setRound round
  | .addVote ref check => do return (← hvs.addVote C ref check).1
  | .setPeerMaj23 height round type peerID blockID =>
    .ok (hvs.setPeerMaj23 height round type peerID blockID).1

/-- A panic ends the process, so no run goes on after one. -/
def step (C : Crypto) (hvs : HeightVoteSet) (c : Call) : HeightVoteSet :=
  match hvs.call C c with
  | .ok hvs' => hvs'
  | .error _ => hvs

/-- As the state machine calls `SetRound`: for the round after the one it enters, or in a replay for the
round of a proposal above its own, and never back. -/
def Forward (hvs : HeightVoteSet) : Call → Prop
  | .setRound round => hvs.round ≤ round
  | _ => True

instance (hvs : HeightVoteSet) (c : Call) : Decidable (hvs.Forward c) := by
  cases c <;> unfold Forward <;> infer_instance

def Call.isSetRound : Call → Bool
  | .setRound _ => true
  | _ => false

def Tracked (hvs : HeightVoteSet) (r : ℤ) : Prop := (hvs.roundVoteSets r).isSome

/-! ### What the calls do to the tracked rounds -/

variable {C : Crypto} {hvs hvs' : HeightVoteSet} {t : SignedMsgType} {r : ℤ}

lemma tracked_of_getVoteSet {vs : VoteSet} (h : hvs.getVoteSet r t = some vs) : hvs.Tracked r := by
  obtain ⟨rvs, hr, -⟩ := bind_eq_some_iff.mp h
  simp [Tracked, hr]

lemma tracked_setVoteSet (hvs : HeightVoteSet) (round : ℤ) (type : SignedMsgType) (vs : VoteSet) (r : ℤ) :
    (hvs.setVoteSet round type vs).Tracked r ↔ hvs.Tracked r := by
  unfold setVoteSet Tracked
  split
  · rename_i rvs hrv
    by_cases hr : r = round
    · subst hr
      simp [hrv]
    · simp [update_of_ne hr]
  · rfl

lemma catchup_setVoteSet (hvs : HeightVoteSet) (round : ℤ) (type : SignedMsgType) (vs : VoteSet) :
    (hvs.setVoteSet round type vs).peerCatchupRounds = hvs.peerCatchupRounds ∧
      (hvs.setVoteSet round type vs).round = hvs.round := by
  unfold setVoteSet
  split <;> exact ⟨rfl, rfl⟩

lemma setPeerMaj23_frame (hvs : HeightVoteSet) (height round : ℤ) (type : SignedMsgType) (peerID : String)
    (blockID : BlockID) : (hvs.setPeerMaj23 height round type peerID blockID).1 = hvs ∨
      ∃ vs, (hvs.setPeerMaj23 height round type peerID blockID).1 = hvs.setVoteSet round type vs := by
  unfold setPeerMaj23
  split
  · exact .inl rfl
  split
  · exact .inl rfl
  · exact .inr ⟨_, rfl⟩

variable {round low : ℤ} {ref : VoteRef} {check : VoteSet.VoteCheck} {err : Option VoteError} {type : SignedMsgType}

lemma setVoteSet_self {vs : VoteSet}
    (h : hvs.getVoteSet round type = some vs) : hvs.setVoteSet round type vs = hvs := by
  obtain ⟨rvs, hr, hg⟩ := bind_eq_some_iff.mp h
  have hs : rvs.set type vs = rvs := by
    obtain ⟨prevotes, precommits⟩ := rvs
    cases type <;> simp_all [RoundVoteSet.get, RoundVoteSet.set]
  simp only [setVoteSet, hr, hs]
  rw [← hr, update_eq_self]

lemma addRound_cases (h : hvs.addRound round = .ok hvs') :
    hvs'.round = hvs.round ∧ hvs'.peerCatchupRounds = hvs.peerCatchupRounds ∧
      ∀ r, hvs'.Tracked r ↔ hvs.Tracked r ∨ r = round := by
  unfold addRound at h
  split at h
  · cases h
  split at h
  · cases h
  cases h
  refine ⟨rfl, rfl, fun r => ?_⟩
  by_cases hr : r = round
  · simp [Tracked, hr]
  · simp [Tracked, hr]

lemma addRounds_cases {n : ℕ} {from_ : ℤ} (h : addRounds n from_ hvs = .ok hvs') :
    hvs'.round = hvs.round ∧ hvs'.peerCatchupRounds = hvs.peerCatchupRounds ∧
      ∀ r, hvs'.Tracked r ↔ hvs.Tracked r ∨ from_ ≤ r ∧ r < from_ + n := by
  induction n generalizing from_ hvs with
  | zero =>
    cases h
    exact ⟨rfl, rfl, fun r => by simp⟩
  | succ n ih =>
    obtain ⟨next, hn, h⟩ := of_bind h
    obtain ⟨hr, hc, ht⟩ := ih h
    have hf : next.round = hvs.round ∧ next.peerCatchupRounds = hvs.peerCatchupRounds ∧
        ∀ r, next.Tracked r ↔ hvs.Tracked r ∨ r = from_ := by
      split at hn
      · rename_i hs
        cases hn
        refine ⟨rfl, rfl, fun r => ⟨.inl, ?_⟩⟩
        rintro (h | rfl)
        · exact h
        · exact hs
      · exact addRound_cases hn
    refine ⟨hr.trans hf.1, hc.trans hf.2.1, fun r => ?_⟩
    rw [ht, hf.2.2, or_assoc]
    have : r = from_ ∨ from_ + 1 ≤ r ∧ r < from_ + 1 + (n : ℤ) ↔ from_ ≤ r ∧ r < from_ + ((n + 1 : ℕ) : ℤ) := by omega
    rw [this]

lemma setRound_cases (h : hvs.setRound round = .ok hvs') :
    hvs'.round = round ∧ hvs'.peerCatchupRounds = hvs.peerCatchupRounds ∧
      ∀ r, hvs'.Tracked r ↔ hvs.Tracked r ∨ hvs.round - 1 ≤ r ∧ r ≤ round := by
  unfold setRound at h
  dsimp only at h
  split at h
  · cases h
  obtain ⟨next, hn, h⟩ := of_bind h
  cases h
  obtain ⟨-, hc, ht⟩ := addRounds_cases hn
  refine ⟨rfl, hc, fun r => ?_⟩
  change next.Tracked r ↔ _
  rw [ht]
  have : hvs.round - 1 ≤ r ∧ r < hvs.round - 1 + ((round - (hvs.round - 1) + 1).toNat : ℤ) ↔
      hvs.round - 1 ≤ r ∧ r ≤ round := by omega
  rw [this]

lemma validator_of_checkVoteClaim {vote : Vote} (h : hvs.checkVoteClaim vote = none) :
    ∃ val ∈ hvs.valSet.validators, val.proTxHash = vote.validatorProTxHash := by
  unfold checkVoteClaim at h
  split at h
  · cases h
  split at h
  · cases h
  split at h
  · cases h
  split at h
  · cases h
  rename_i val hv
  split at h
  · cases h
  rename_i heq
  obtain ⟨-, hg⟩ := ValidatorSet.getByIndex_eq_some.mp hv
  exact ⟨val, mem_of_getElem? hg, (not_not.mp heq).symm⟩

/-- **What `addVote` can do**: nothing; hand the vote to the vote set of its round; or open the round for
the validator, who has opened less than two, and keep it because the vote was admitted. -/
lemma addVote_cases {added : Bool} (h : hvs.addVote C ref check = .ok (hvs', added, err)) :
    hvs' = hvs ∧ added = false ∨
      (∃ vs vs', hvs.getVoteSet ref.vote.round ref.vote.type = some vs ∧
        vs.addVote C (some ref) check = .ok (vs', added, err) ∧
        hvs' = hvs.setVoteSet ref.vote.round ref.vote.type vs') ∨
      ∃ opened vs vs', added = true ∧ hvs.checkVoteClaim ref.vote = none ∧
        (hvs.peerCatchupRounds ref.vote.validatorProTxHash).length < 2 ∧
        hvs.addRound ref.vote.round = .ok opened ∧
        opened.getVoteSet ref.vote.round ref.vote.type = some vs ∧
        vs.addVote C (some ref) check = .ok (vs', true, err) ∧
        hvs' = { opened.setVoteSet ref.vote.round ref.vote.type vs' with
          peerCatchupRounds := update hvs.peerCatchupRounds ref.vote.validatorProTxHash
            (hvs.peerCatchupRounds ref.vote.validatorProTxHash ++ [ref.vote.round]) } := by
  unfold addVote at h
  dsimp only at h
  split at h
  · cases h
    exact .inl ⟨rfl, rfl⟩
  split at h
  · rename_i vs hg
    obtain ⟨⟨vs', added', err'⟩, ha, h⟩ := of_bind h
    cases h
    exact .inr (.inl ⟨vs, vs', hg, ha, rfl⟩)
  split at h
  · cases h
    exact .inl ⟨rfl, rfl⟩
  rename_i hc
  split at h
  · cases h
    exact .inl ⟨rfl, rfl⟩
  rename_i hf
  obtain ⟨opened, ho, h⟩ := of_bind h
  split at h
  · cases h
  rename_i vs hg
  obtain ⟨⟨vs', added', err'⟩, ha, h⟩ := of_bind h
  dsimp only at h
  split at h
  · rename_i had
    cases h
    rw [had] at ha
    exact .inr (.inr ⟨opened, vs, vs', rfl, hc, not_le.mp hf, ho, hg, ha, rfl⟩)
  cases h
  exact .inl ⟨rfl, rfl⟩

/-- A vote that is not admitted leaves the height vote set as it is, unless it is a conflicting vote for
the block of a majority; the tracked rounds stay in any case. -/
lemma addVote_not_added (h : hvs.addVote C ref check = .ok (hvs', false, err)) :
    (∀ r, hvs'.Tracked r ↔ hvs.Tracked r) ∧
      (hvs' = hvs ∨ ∃ vs existing, hvs.getVoteSet ref.vote.round ref.vote.type = some vs ∧
        vs.maj23.map BlockID.key = some ref.vote.blockID.key ∧
        err = some (.conflictingVotes existing ref.vote) ∧
        hvs' = hvs.setVoteSet ref.vote.round ref.vote.type (vs.setCanonical ref.vote)) := by
  obtain ⟨rfl, -⟩ | ⟨vs, vs', hg, had, rfl⟩ | ⟨-, -, -, ha, -⟩ := addVote_cases h
  · exact ⟨fun _ => Iff.rfl, .inl rfl⟩
  · refine ⟨fun r => tracked_setVoteSet .., ?_⟩
    obtain ⟨rfl, -⟩ | ⟨-, hm, rfl, existing, -, -, he⟩ := VoteSet.addVote_not_added had
    · exact .inl (setVoteSet_self hg)
    · exact .inr ⟨vs, existing, hg, hm, he, rfl⟩
  · cases ha

/-! ### The tracked rounds -/

structure Bounds (low : ℤ) (hvs : HeightVoteSet) : Prop where
  tracked : ∀ r, hvs.Tracked r ↔ low ≤ r ∧ r ≤ hvs.round ∨
    ∃ val ∈ hvs.valSet.validators, r ∈ hvs.peerCatchupRounds val.proTxHash
  opened : ∀ proTxHash, ∀ r ∈ hvs.peerCatchupRounds proTxHash,
    (∃ val ∈ hvs.valSet.validators, val.proTxHash = proTxHash) ∧
      ∃ t vs, hvs.getVoteSet r t = some vs ∧ vs.HasVote
  two : ∀ proTxHash, (hvs.peerCatchupRounds proTxHash).length ≤ 2
  round_nonneg : 0 ≤ hvs.round
  low_eq : low = 0 ∧ hvs.round = 0 ∨ low = -1

variable {rel : ℤ → SignedMsgType → VoteSet → VoteSet → Prop} {valSet : ValidatorSet} {chainID : String} {height : ℤ}

lemma Evolves.hasVote (h : Evolves rel hvs hvs') (hr : ∀ r t vs vs', rel r t vs vs' → vs.HasVote → vs'.HasVote)
    (hv : ∃ t vs, hvs.getVoteSet r t = some vs ∧ vs.HasVote) : ∃ t vs, hvs'.getVoteSet r t = some vs ∧ vs.HasVote := by
  obtain ⟨t, vs, hg, hh⟩ := hv
  obtain ⟨vs', hg', hs⟩ := h.kept r t vs hg
  exact ⟨t, vs', hg', hr r t vs vs' hs hh⟩

lemma bounds_new (h : new chainID height valSet = .ok hvs) : Bounds 0 hvs := by
  obtain ⟨hro, hc, ht⟩ := addRound_cases h
  have hn : ∀ proTxHash, hvs.peerCatchupRounds proTxHash = [] := fun proTxHash => by rw [hc]
  refine ⟨fun r => ?_, fun proTxHash r hr => ?_, fun proTxHash => ?_, hro.ge, .inl ⟨rfl, hro⟩⟩
  · rw [ht, hro]
    simp only [Tracked, isSome_none, Bool.false_eq_true, false_or, hn, not_mem_nil, and_false, exists_false, or_false]
    omega
  · simp [hn] at hr
  · simp [hn]

lemma Bounds.setRound (h : Bounds low hvs) (hf : hvs.round ≤ round)
    (hse : hvs.setRound round = .ok hvs') : Bounds (-1) hvs' := by
  obtain ⟨hro, hc, ht⟩ := setRound_cases hse
  have he := evolves_setRound hse
  have hva := he.valSet_eq
  refine ⟨fun r => ?_, fun proTxHash r hr => ?_, fun proTxHash => ?_, ?_, .inr rfl⟩
  · rw [ht, h.tracked, hro, hc, hva, or_right_comm]
    have hrn : (low ≤ r ∧ r ≤ hvs.round) ∨ (hvs.round - 1 ≤ r ∧ r ≤ round) ↔ -1 ≤ r ∧ r ≤ round := by
      have := h.low_eq
      have := h.round_nonneg
      omega
    rw [hrn]
  · rw [hc] at hr
    rw [hva]
    exact (h.opened proTxHash r hr).imp_right (he.hasVote fun _ _ vs vs' hs hv => by
      rwa [show vs' = vs from hs])
  · rw [hc]
    exact h.two proTxHash
  · rw [hro]
    exact h.round_nonneg.trans hf

lemma Bounds.of_setVoteSet {vs : VoteSet}
    (h : Bounds low hvs) (he : Evolves rel hvs (hvs.setVoteSet round type vs))
    (hre : ∀ r t vs vs', rel r t vs vs' → vs.HasVote → vs'.HasVote) : Bounds low (hvs.setVoteSet round type vs) := by
  obtain ⟨hc, hro⟩ := catchup_setVoteSet hvs round type vs
  refine ⟨fun r => ?_, fun proTxHash r hr => ?_, hc ▸ h.two, hro ▸ h.round_nonneg, hro ▸ h.low_eq⟩
  · rw [tracked_setVoteSet, h.tracked, hro, hc, he.valSet_eq]
  · rw [hc] at hr
    rw [he.valSet_eq]
    exact (h.opened proTxHash r hr).imp_right (he.hasVote hre)

lemma Bounds.setPeerMaj23 (h : Bounds low hvs) (height round : ℤ) (type : SignedMsgType) (peerID : String)
    (blockID : BlockID) : Bounds low (hvs.setPeerMaj23 height round type peerID blockID).1 := by
  have he := evolves_setPeerMaj23 hvs height round type peerID blockID
  obtain heq | ⟨vs, heq⟩ := setPeerMaj23_frame hvs height round type peerID blockID
  · rwa [heq]
  rw [heq] at he ⊢
  refine h.of_setVoteSet he fun r t vs vs' hs hv => ?_
  obtain rfl | rfl := hs
  · exact hv
  · exact hv.setPeerMaj23 ..

lemma Bounds.addVote (h : Bounds low hvs) {added : Bool} (ha : hvs.addVote C ref check = .ok (hvs', added, err)) :
    Bounds low hvs' := by
  have he := evolves_addVote ha
  have hvo : ∀ r t vs vs', AddsTo C ref check added err r t vs vs' → vs.HasVote → vs'.HasVote := by
    rintro r t vs vs' (rfl | ⟨-, -, hst⟩) hv
    · exact hv
    · exact hv.addVote hst
  obtain ⟨rfl, -⟩ | ⟨vs, vs', hg, -, rfl⟩ | ⟨opened, vs, vs', -, hc, hfe, ho, hg, hvs', rfl⟩ := addVote_cases ha
  · exact h
  · exact h.of_setVoteSet he hvo
  · -- the validator has opened one more round, and the vote is in it
    obtain ⟨val, hva, hh⟩ := validator_of_checkVoteClaim hc
    obtain ⟨hrn, -, ht⟩ := addRound_cases ho
    have hro : ∀ proTxHash r, r ∈ update hvs.peerCatchupRounds ref.vote.validatorProTxHash
        (hvs.peerCatchupRounds ref.vote.validatorProTxHash ++ [ref.vote.round]) proTxHash ↔
        r ∈ hvs.peerCatchupRounds proTxHash ∨ proTxHash = ref.vote.validatorProTxHash ∧ r = ref.vote.round := by
      intro proTxHash r
      by_cases heq : proTxHash = ref.vote.validatorProTxHash
      · simp [heq]
      · simp [heq]
    have hn : ∃ t vs, getVoteSet { opened.setVoteSet ref.vote.round ref.vote.type vs' with
        peerCatchupRounds := update hvs.peerCatchupRounds ref.vote.validatorProTxHash
          (hvs.peerCatchupRounds ref.vote.validatorProTxHash ++ [ref.vote.round]) } ref.vote.round t =
          some vs ∧ vs.HasVote := by
      obtain ⟨vs₀, rfl, hol | ⟨-, rfl⟩⟩ := (evolves_addRound Same.refl ho).comes _ _ _ hg
      · have hf : hvs.addRound ref.vote.round = .error "addRound() for an existing round" :=
          if_pos (tracked_of_getVoteSet hol)
        rw [hf] at ho
        cases ho
      · exact ⟨ref.vote.type, vs', getVoteSet_setVoteSet_self hg vs', VoteSet.hasVote_of_added hvs'⟩
    have hs : (opened.setVoteSet ref.vote.round ref.vote.type vs').round = hvs.round :=
      (catchup_setVoteSet ..).2.trans hrn
    refine ⟨fun r => ?_, fun proTxHash r hr => ?_, fun proTxHash => ?_, hs ▸ h.round_nonneg, hs ▸ h.low_eq⟩
    · have hse := tracked_setVoteSet opened ref.vote.round ref.vote.type vs' r
      change (opened.setVoteSet ref.vote.round ref.vote.type vs').Tracked r ↔ _
      rw [hse, ht, h.tracked, he.valSet_eq]
      simp only [hro, hs]
      constructor
      · rintro ((hin | ⟨w, hw, hr⟩) | rfl)
        · exact .inl hin
        · exact .inr ⟨w, hw, .inl hr⟩
        · exact .inr ⟨val, hva, .inr ⟨hh, rfl⟩⟩
      rintro (hin | ⟨w, hw, hr | ⟨-, rfl⟩⟩)
      · exact .inl (.inl hin)
      · exact .inl (.inr ⟨w, hw, hr⟩)
      · exact .inr rfl
    · rw [he.valSet_eq]
      obtain hr | ⟨rfl, rfl⟩ := (hro proTxHash r).mp hr
      · exact (h.opened proTxHash r hr).imp_right (he.hasVote hvo)
      · exact ⟨⟨val, hva, hh⟩, hn⟩
    · change (update hvs.peerCatchupRounds ref.vote.validatorProTxHash _ proTxHash).length ≤ 2
      by_cases heq : proTxHash = ref.vote.validatorProTxHash
      · subst heq
        rw [update_self, length_append, length_singleton]
        omega
      rw [update_of_ne heq]
      exact h.two proTxHash

lemma Bounds.step (h : Bounds low hvs) {c : Call} (hf : hvs.Forward c) (hr : (hvs.call C c).isOk) :
    Bounds (if c.isSetRound then -1 else low) (hvs.step C c) := by
  obtain ⟨hvs', hca⟩ : ∃ hvs', hvs.call C c = .ok hvs' := by
    cases hc : hvs.call C c with
    | ok hvs' => exact ⟨hvs', rfl⟩
    | error msg => simp [hc, Except.isOk, Except.toBool] at hr
  simp only [HeightVoteSet.step, hca]
  cases c with
  | setRound round => exact h.setRound hf hca
  | addVote ref check =>
    obtain ⟨⟨hv'', added, err⟩, ha, heq⟩ := of_bind hca
    cases heq
    exact h.addVote ha
  | setPeerMaj23 height round type peerID blockID =>
    cases hca
    exact h.setPeerMaj23 height round type peerID blockID

/-! ### No call panics -/

def Call.Sound (C : Crypto) : Call → Prop
  | .addVote ref check => VoteSet.Call.Sound C (.addVote (some ref) check)
  | _ => True

structure Steady (C : Crypto) (hvs : HeightVoteSet) : Prop where
  height_ne : hvs.valSet.hasPublicKeys = true → hvs.height ≠ 0
  both : hvs.valSet.hasPublicKeys = true → ∀ r, hvs.Tracked r → ∀ t, isVoteTypeValid t = true →
    (hvs.getVoteSet r t).isSome
  tracks : ∀ r t vs, hvs.getVoteSet r t = some vs →
    vs.Tracks C ∧ vs.ballot = ⟨hvs.chainID, hvs.height, r, t, hvs.valSet⟩

lemma Steady.evolves (h : Steady C hvs) (he : Evolves rel hvs hvs')
    (hre : ∀ r t vs vs', rel r t vs vs' → vs.Tracks C →
      vs.ballot = ⟨hvs.chainID, hvs.height, r, t, hvs.valSet⟩ → vs'.Tracks C ∧ vs'.ballot = vs.ballot)
    (hf : hvs.valSet.hasPublicKeys = true → ∀ r, hvs'.Tracked r → hvs.Tracked r ∨
      ∀ t, isVoteTypeValid t = true → (hvs'.getVoteSet r t).isSome) : Steady C hvs' := by
  refine ⟨?_, fun hk r hr t ht => ?_, fun r t vs' hg => ?_⟩
  · rw [he.valSet_eq, he.height_eq]
    exact h.height_ne
  · rw [he.valSet_eq] at hk
    obtain ho | hn := hf hk r hr
    · obtain ⟨vs, hvs⟩ := isSome_iff_exists.mp (h.both hk r ho t ht)
      obtain ⟨vs', hvs', -⟩ := he.kept r t vs hvs
      simp [hvs']
    · exact hn t ht
  · rw [he.chainID_eq, he.height_eq, he.valSet_eq]
    obtain ⟨vs, hst, hg | ⟨-, rfl⟩⟩ := he.comes r t vs' hg
    · obtain ⟨htr, hb⟩ := h.tracks r t vs hg
      obtain ⟨ht', hs⟩ := hre r t vs vs' hst htr hb
      exact ⟨ht', hs.trans hb⟩
    obtain ⟨ht', hs⟩ := hre r t _ vs' hst (VoteSet.Tracks.new C hvs.chainID hvs.height r t hvs.valSet) rfl
    exact ⟨ht', hs⟩

lemma same_tracks (r : ℤ) (t : SignedMsgType) (vs vs' : VoteSet) (h : Same r t vs vs') (ht : vs.Tracks C)
    (_ : vs.ballot = ⟨hvs.chainID, hvs.height, r, t, hvs.valSet⟩) : vs'.Tracks C ∧ vs'.ballot = vs.ballot := by
  obtain rfl : vs' = vs := h
  exact ⟨ht, rfl⟩

lemma getVoteSet_addRound (h : hvs.addRound round = .ok hvs') (hk : hvs.valSet.hasPublicKeys = true) (ht : isVoteTypeValid t = true) : (hvs'.getVoteSet round t).isSome := by
  unfold addRound at h
  split at h
  · cases h
  split at h
  · cases h
  cases h
  simp only [getVoteSet, update_self, bind_some, newRound, hk, if_true]
  cases t <;> first | rfl | cases ht

section

variable (h : Steady C hvs)

include h

lemma Steady.addRound (ha : hvs.addRound round = .ok hvs') : Steady C hvs' := by
  refine h.evolves (evolves_addRound Same.refl ha) same_tracks fun hk r hr => ?_
  obtain ho | rfl := ((addRound_cases ha).2.2 r).mp hr
  · exact .inl ho
  · exact .inr fun t => getVoteSet_addRound ha hk

lemma Steady.addRound_ok (hf : ¬ hvs.Tracked round) : ∃ hvs', hvs.addRound round = .ok hvs' := by
  unfold HeightVoteSet.addRound
  rw [if_neg (show ¬ (hvs.roundVoteSets round).isSome = true from hf), if_neg fun hz => h.height_ne hz.1 hz.2]
  exact ⟨_, rfl⟩

lemma Steady.addRounds (n : ℕ) (first : ℤ) : ∃ hvs', addRounds n first hvs = .ok hvs' ∧ Steady C hvs' := by
  induction n generalizing hvs first with
  | zero => exact ⟨hvs, rfl, h⟩
  | succ n ih =>
    by_cases hso : (hvs.roundVoteSets first).isSome = true
    · obtain ⟨hvs', hok, hs⟩ := ih h (first + 1)
      exact ⟨hvs', bind_eq_ok.mpr ⟨hvs, by rw [if_pos hso], hok⟩, hs⟩
    obtain ⟨next, hn⟩ := h.addRound_ok hso
    obtain ⟨hvs', hok, hs⟩ := ih (h.addRound hn) (first + 1)
    exact ⟨hvs', bind_eq_ok.mpr ⟨next, by rw [if_neg hso, hn], hok⟩, hs⟩

lemma Steady.setRound (hf : hvs.round ≤ round) : ∃ hvs', hvs.setRound round = .ok hvs' ∧ Steady C hvs' := by
  obtain ⟨next, hok, hs⟩ := h.addRounds (round - (hvs.round - 1) + 1).toNat (hvs.round - 1)
  refine ⟨{ next with round := round }, ?_, hs.height_ne, hs.both, hs.tracks⟩
  unfold HeightVoteSet.setRound
  rw [if_neg (by omega)]
  exact bind_eq_ok.mpr ⟨next, hok, rfl⟩

lemma Steady.addVote (hv : hvs.valSet.WellFormed) (hsi : C.SizedSignatures)
    (hre : C.RecoversThreshold hvs.valSet) (hc : Call.Sound C (.addVote ref check)) :
    ∃ hvs' added err, hvs.addVote C ref check = .ok (hvs', added, err) ∧ Steady C hvs' := by
  have hc' : VoteSet.Call.Sound C (.addVote (some ref) check) := hc
  -- a vote set of the ballot returns, and stays one
  have hse : ∀ {r t} {vs : VoteSet}, vs.Tracks C →
      vs.ballot = ⟨hvs.chainID, hvs.height, r, t, hvs.valSet⟩ → ∃ vs' added err,
        vs.addVote C (some ref) check = .ok (vs', added, err) ∧ vs'.Tracks C ∧ vs'.ballot = vs.ballot := by
    intro r t vs htr hb
    have hvs : vs.valSet = hvs.valSet := congrArg Ballot.vals hb
    obtain ⟨vs', added, err, hok, ht', hs, -⟩ := htr.addVote (hvs ▸ hv) hsi (hvs ▸ hre) hc'
    exact ⟨vs', added, err, hok, ht', hs⟩
  have hrt : ∃ hvs' added err, hvs.addVote C ref check = .ok (hvs', added, err) := by
    unfold HeightVoteSet.addVote
    dsimp only
    split
    · exact ⟨_, _, _, rfl⟩
    rename_i hk
    rw [not_or, Bool.not_eq_false, Bool.not_eq_false] at hk
    split
    · rename_i vs hg
      obtain ⟨vs', added, err, hok, -⟩ := hse (h.tracks _ _ vs hg).1 (h.tracks _ _ vs hg).2
      exact ⟨_, _, _, bind_eq_ok.mpr ⟨_, hok, rfl⟩⟩
    rename_i hn
    split
    · exact ⟨_, _, _, rfl⟩
    split
    · exact ⟨_, _, _, rfl⟩
    have hf : ¬ hvs.Tracked ref.vote.round := fun htd => by
      simpa [hn] using h.both hk.1 _ htd _ hk.2
    obtain ⟨opened, ho⟩ := h.addRound_ok hf
    obtain ⟨vs, hg⟩ := isSome_iff_exists.mp (getVoteSet_addRound ho hk.1 hk.2)
    have he : Evolves Same hvs opened := evolves_addRound Same.refl ho
    obtain ⟨htr, hb⟩ := (h.addRound ho).tracks _ _ vs hg
    rw [he.chainID_eq, he.height_eq, he.valSet_eq] at hb
    obtain ⟨vs', added, err, hok, -⟩ := hse htr hb
    simp only [ho, bind, Except.bind, hg, hok]
    cases added <;> exact ⟨_, _, _, rfl⟩
  obtain ⟨hvs', added, err, hok⟩ := hrt
  refine ⟨hvs', added, err, hok, h.evolves (evolves_addVote hok) (fun r t vs vs' hst htr hb => ?_) fun hk r hr => ?_⟩
  · obtain rfl | ⟨-, -, ha⟩ := hst
    · exact ⟨htr, rfl⟩
    · obtain ⟨ws, added', err', ho', ht', hs⟩ := hse htr hb
      rw [ho'] at ha
      cases ha
      exact ⟨ht', hs⟩
  · obtain ⟨rfl, -⟩ | ⟨vs, vs', hg, -, rfl⟩ | ⟨opened, vs, vs', -, -, -, ho, hg, -, rfl⟩ := addVote_cases hok
    · exact .inl hr
    · exact .inl ((tracked_setVoteSet ..).mp hr)
    · obtain hol | rfl := ((addRound_cases ho).2.2 r).mp ((tracked_setVoteSet ..).mp hr)
      · exact .inl hol
      · refine .inr fun t ht => ?_
        obtain ⟨ws, hws⟩ := isSome_iff_exists.mp (getVoteSet_addRound ho hk ht)
        have hp : Evolves (fun _ _ _ _ => True) opened (opened.setVoteSet ref.vote.round ref.vote.type vs') :=
          evolves_setVoteSet (fun _ _ _ => trivial) hg trivial
        obtain ⟨ws', hw', -⟩ := hp.kept _ _ ws hws
        exact isSome_iff_exists.mpr ⟨ws', hw'⟩

lemma Steady.setPeerMaj23 (height round : ℤ) (type : SignedMsgType) (peerID : String)
    (blockID : BlockID) : Steady C (hvs.setPeerMaj23 height round type peerID blockID).1 := by
  refine h.evolves (evolves_setPeerMaj23 hvs height round type peerID blockID)
    (fun r t vs vs' hs ht _ => ?_) fun _ r hr => .inl ?_
  · obtain rfl | rfl := hs
    · exact ⟨ht, rfl⟩
    · refine ⟨ht.setPeerMaj23 .., ?_⟩
      rcases VoteSet.setPeerMaj23_cases vs peerID blockID height r with heq | ⟨claims, heq⟩
      · rw [heq]
      rw [heq]
      rfl
  · obtain heq | ⟨vs, heq⟩ := setPeerMaj23_frame hvs height round type peerID blockID
    · rwa [heq] at hr
    · exact (tracked_setVoteSet ..).mp (heq ▸ hr)

omit h in
lemma steady_new (C : Crypto) (h : new chainID height valSet = .ok hvs) : Steady C hvs := by
  have ho : valSet.hasPublicKeys = true → height ≠ 0 := by
    rintro hk rfl
    simp [new, addRound, hk] at h
  exact Steady.addRound ⟨ho, fun _ r hr => by simp [Tracked] at hr, fun r t vs hg => by simp [getVoteSet] at hg⟩ h

lemma Steady.call (hv : hvs.valSet.WellFormed) (hsi : C.SizedSignatures)
    (hr : C.RecoversThreshold hvs.valSet) {c : Call} (hf : hvs.Forward c) (hc : c.Sound C) :
    (hvs.call C c).isOk ∧ Steady C (hvs.step C c) ∧ (hvs.step C c).valSet = hvs.valSet := by
  cases c with
  | setRound round =>
    obtain ⟨hvs', hok, hs⟩ := h.setRound hf
    have hca : hvs.call C (.setRound round) = .ok hvs' := hok
    simp only [step, hca]
    exact ⟨rfl, hs, (evolves_setRound hok).valSet_eq⟩
  | addVote ref check =>
    obtain ⟨hvs', added, err, hok, hs⟩ := h.addVote hv hsi hr hc
    have hca : hvs.call C (.addVote ref check) = .ok hvs' := bind_eq_ok.mpr ⟨_, hok, rfl⟩
    simp only [step, hca]
    exact ⟨rfl, hs, (evolves_addVote hok).valSet_eq⟩
  | setPeerMaj23 height round type peerID blockID =>
    exact ⟨rfl, h.setPeerMaj23 height round type peerID blockID,
      (evolves_setPeerMaj23 hvs height round type peerID blockID).valSet_eq⟩

lemma Steady.run {vals : ValidatorSet} (hv : vals.WellFormed) (hsi : C.SizedSignatures) (hr : C.RecoversThreshold vals)
    {calls : List Call} (heq : hvs.valSet = vals) (hf : Admitted (step C) Forward hvs calls)
    (hc : ∀ c ∈ calls, c.Sound C) : Admitted (step C) (fun hvs c => (hvs.call C c).isOk) hvs calls := by
  induction calls generalizing hvs with
  | nil => trivial
  | cons c calls ih =>
    obtain ⟨hok, hs, hsa⟩ := h.call (heq ▸ hv) hsi (heq ▸ hr) hf.1 (hc c mem_cons_self)
    exact ⟨hok, ih hs (hsa.trans heq) hf.2 fun d hd => hc d (mem_cons_of_mem _ hd)⟩

end

lemma bounds_run {calls : List Call} (h : Bounds low hvs) (hf : Admitted (step C) Forward hvs calls)
    (hr : Admitted (step C) (fun hvs c => (hvs.call C c).isOk) hvs calls) :
    Bounds (if calls.any Call.isSetRound then -1 else low) (run (step C) hvs calls) := by
  induction calls generalizing hvs low with
  | nil => exact h
  | cons c calls ih =>
    have hre := ih (h.step hf.1 hr.1) hf.2 hr.2
    rw [any_cons]
    cases hc : c.isSetRound <;> simpa [hc] using hre

def sampleHeight : HeightVoteSet where
  chainID := "chain"
  height := 1
  valSet := sampleValidators 4
  round := 0
  roundVoteSets := update (fun _ => none) 0
    (some ⟨some (VoteSet.new "chain" 1 0 .prevote (sampleValidators 4)),
      some (VoteSet.new "chain" 1 0 .precommit (sampleValidators 4))⟩)
  peerCatchupRounds := fun _ => []

def changedVotes : List Call :=
  [(3, sampleBlockID 1), (0, sampleBlockID 2), (1, sampleBlockID 2), (2, sampleBlockID 2),
    (3, sampleBlockID 2)].map fun (i, blockID) => .addVote (VoteSet.sampleVote .prevote i blockID) (.verify none)

def farVote : VoteRef :=
  let vote : Vote := ⟨.prevote, 1, 7, sampleBlockID 1, (sampleValidator 2).proTxHash, 2, [], []⟩
  let sig := match makeBlockSignItem Crypto.sample "chain" vote.toProto 100 (sampleValidators 1).quorumHash with
    | .ok item => List.replicate pubKeySize 3 ++ item.signHash
    | .error _ => []
  ⟨0, { vote with blockSignature := sig }⟩

end HeightVoteSet

end Tenderdash
