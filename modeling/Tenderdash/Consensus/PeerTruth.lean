import Tenderdash.Consensus.PeerState

/-!
What the bits recorded for a peer mean.

`Honest` puts the labels on the arrays: a set bit of the prevotes is a vote of the peer's height and
round, one of the catch-up commit a precommit of its height and the catch-up round, and so on. The
messages about steps, votes, valid blocks and proofs of lock keep these labels right, re-labelling
included. Four things do not, and are left out (`Careful`): a commit
that moves the peer to another round takes the bits of the old one along; a precommit of the last height
goes into the array of the current one; a part is recorded whatever part set it is of; and bits beyond
the size of an array that the peer sent are copied with its words.

At the height before, the array of the precommits is read under the label of the last commit, so there a bit
is true only if it has to be.
-/

namespace Tenderdash

open Lib Run BitArray

namespace PeerRoundState

/-! ### Labels -/

def Bits (P : ℕ → Prop) (array : Option BitArray) : Prop :=
  ∀ bA, array = some bA → ∀ i, bA.getIndex i = true → P i

variable {P : ℕ → Prop} {past past' : List Op} {height round : ℤ} {type : SignedMsgType} {prs : PeerRoundState}
  {field : VoteArray} {array : Option BitArray} {i : ℕ}

lemma bits_none : Bits P none := by
  rintro bA ⟨⟩

lemma bits_newBitArray {n : ℕ} : Bits P (newBitArray n) := by
  intro bA hbA i hi
  rw [getIndex_newBitArray hbA] at hi
  cases hi

lemma Bits.or {a b : Option BitArray} (ha : Bits P a) (hb : Bits P b) : Bits P (a.or b) := by
  cases a with
  | none => exact hb
  | some bA => exact ha

lemma Bits.mono {Q : ℕ → Prop} (h : Bits P array) (hPQ : ∀ i, P i → Q i) : Bits Q array :=
  fun bA hbA i hi => hPQ i (h bA hbA i hi)

def Clear (array : Option BitArray) : Prop := Bits (fun _ => False) array

lemma Clear.bits (h : Clear array) : Bits P array :=
  h.mono fun _ => False.elim

structure Honest (past : List Op) (prs : PeerRoundState) : Prop where
  prevotes : Bits (ToldVote past prs.height prs.round .prevote) prs.prevotes
  precommits : Bits (ToldVote past prs.height prs.round .precommit) prs.precommits
  catchupCommit : Bits (ToldVote past prs.height prs.catchupCommitRound .precommit) prs.catchupCommit
  proposalPOL : Bits (ToldVote past prs.height prs.proposalPOLRound .prevote) prs.proposalPOL
  parts : Bits (ToldPart past prs.proposalBlockPartSetHeader) prs.proposalBlockParts
  -- one array under two names is one under two labels, which then are the same
  sameArray : prs.sameArray = true → prs.catchupCommitRound = prs.round

lemma ToldVote.mono (h : ToldVote past height round type i) (hs : past ⊆ past') :
    ToldVote past' height round type i := by
  obtain ⟨op, hop, ht⟩ := h
  exact ⟨op, hs hop, ht⟩

lemma ToldPart.mono {header : PartSetHeader}
    (h : ToldPart past header i) (hs : past ⊆ past') : ToldPart past' header i := by
  obtain ⟨op, hop, ht⟩ := h
  exact ⟨op, hs hop, ht⟩

lemma Honest.mono (h : Honest past prs) (hs : past ⊆ past') : Honest past' prs where
  prevotes := h.prevotes.mono fun _ hi => hi.mono hs
  precommits := h.precommits.mono fun _ hi => hi.mono hs
  catchupCommit := h.catchupCommit.mono fun _ hi => hi.mono hs
  proposalPOL := h.proposalPOL.mono fun _ hi => hi.mono hs
  parts := h.parts.mono fun _ hi => hi.mono hs
  sameArray := h.sameArray

lemma honest_new (past : List Op) : Honest past new :=
  ⟨bits_none, bits_none, bits_none, bits_none, bits_none, nofun⟩

/-! ### Where a vote of the peer's height is found -/

lemma locate_own (h : prs.locate prs.height round type = some field) :
    field = .prevotes ∧ prs.round = round ∧ type = .prevote ∨
      field = .precommits ∧ prs.round = round ∧ type = .precommit ∨
      field = .catchupCommit ∧ prs.catchupCommitRound = round ∧ prs.round ≠ round ∧ type = .precommit ∨
      field = .proposalPOL ∧ prs.proposalPOLRound = round ∧ type = .prevote := by
  unfold locate at h
  by_cases hr : prs.round = round
  · cases type <;> simp_all [isVoteTypeValid]
  by_cases hc : prs.catchupCommitRound = round
  · cases type <;> simp_all [isVoteTypeValid]
  by_cases hp : prs.proposalPOLRound = round
  · cases type <;> simp_all [isVoteTypeValid]
  · cases type <;> simp_all [isVoteTypeValid]

lemma locate_other (hh : prs.height ≠ height) (h : prs.locate height round type = some field) :
    field = .precommits ∧ height = prs.height - 1 ∧ round = prs.lastCommitRound ∧ type = .precommit := by
  unfold locate at h
  split at h
  · cases h
  next hv =>
  split at h
  · next hn =>
    split at h
    · next hr =>
      split at h
      · cases h
      next hp =>
      cases h
      refine ⟨rfl, by omega, hr.symm, ?_⟩
      cases type <;> simp_all [isVoteTypeValid]
    · cases h
  · cases h

section

variable (h : Honest past prs)

include h

lemma Honest.read (hl : prs.locate prs.height round type = some field) :
    Bits (ToldVote past prs.height round type) (prs.read field) := by
  rcases locate_own hl with ⟨rfl, rfl, rfl⟩ | ⟨rfl, rfl, rfl⟩ | ⟨rfl, rfl, -, rfl⟩ | ⟨rfl, rfl, rfl⟩
  · exact h.prevotes
  · exact h.precommits
  · exact h.catchupCommit
  · exact h.proposalPOL

lemma Honest.write {bA : BitArray} (hl : prs.locate prs.height round type = some field)
    (hb : Bits (ToldVote past prs.height round type) (some bA)) : Honest past (prs.write bA field) := by
  rcases locate_own hl with ⟨rfl, rfl, rfl⟩ | ⟨rfl, rfl, rfl⟩ | ⟨rfl, rfl, hne, rfl⟩ | ⟨rfl, rfl, rfl⟩
  · exact { h with prevotes := hb }
  · refine { h with precommits := hb, catchupCommit := ?_ }
    show Bits _ (if prs.sameArray then some bA else prs.catchupCommit)
    split
    · next hs =>
      have hr : prs.catchupCommitRound = prs.round := h.sameArray hs
      show Bits (ToldVote past prs.height prs.catchupCommitRound .precommit) (some bA)
      rw [hr]
      exact hb
    · exact h.catchupCommit
  · refine { h with catchupCommit := hb, precommits := ?_ }
    -- the catch-up round is not the peer's round, so the array is not shared
    have hsh : prs.sameArray = false := by
      cases hs : prs.sameArray with
      | false => rfl
      | true => exact absurd (h.sameArray hs).symm hne
    show Bits _ (if prs.sameArray then some bA else prs.precommits)
    rw [hsh]
    exact h.precommits
  · exact { h with proposalPOL := hb }

lemma Honest.updateVotes {f : BitArray → Option BitArray}
    (how : ∀ field, prs.locate height round type = some field → prs.height = height)
    (hf : ∀ bA bA' i, f bA = some bA' → bA'.getIndex i = true →
      bA.getIndex i = true ∨ ToldVote past height round type i) :
    Honest past (prs.updateVotes height round type f) := by
  unfold PeerRoundState.updateVotes
  split
  · exact h
  next field hl =>
  obtain rfl : prs.height = height := how field hl
  split
  · exact h
  next bA' hbA' =>
  obtain ⟨bA, hr, hn⟩ := Option.bind_eq_some_iff.mp hbA'
  refine h.write hl ?_
  rintro _ ⟨⟩ i hi
  rcases hf bA bA' i hn hi with ho | ht
  · exact h.read hl bA hr i ho
  · exact ht

/-! ### The steps that keep the labels right -/

def Settled (prs : PeerRoundState) (height round : ℤ) : Prop :=
  prs.height < height ∨ prs.height = height ∧ prs.round < round →
    (Clear prs.prevotes ∧ Clear prs.precommits ∧ prs.sameArray = false) ∧
      (prs.height ≠ height → Clear prs.catchupCommit ∧ Clear prs.proposalPOL)

def Trimmed (bA : BitArray) : Prop := ∀ i, BitArray.wordBit bA.elems i = true → i < bA.bits

def NotLate (prs : PeerRoundState) (height round : ℤ) (type : SignedMsgType) : Prop :=
  height = prs.height - 1 → round = prs.lastCommitRound → type ≠ .precommit

def Careful (prs : PeerRoundState) : Op → Prop
  | .hasCommit height round => prs.height = height → prs.Settled height round
  | .commit height round _ => prs.Settled height round
  | .vote height round type _ => prs.NotLate height round type
  | .voteSetBits height round type votes _ => prs.NotLate height round type ∧ Trimmed votes
  | .part height round header _ =>
    prs.height = height → prs.round = round → header = prs.proposalBlockPartSetHeader
  | _ => True

omit h in
lemma NotLate.own (h : prs.NotLate height round type) (field : VoteArray)
    (hl : prs.locate height round type = some field) : prs.height = height := by
  by_contra hne
  obtain ⟨-, hh, hr, ht⟩ := locate_other hne hl
  exact h hh hr ht

lemma Honest.setHasVote {index : ℤ} (how : ∀ field, prs.locate height round type = some field → prs.height = height)
    (ht : ∀ i : ℕ, index = i → ToldVote past height round type i) :
    Honest past (prs.setHasVote height round type index) := by
  refine h.updateVotes how fun bA bA' i hs hi => ?_
  rcases getIndex_setIndex hs hi with hij | ho
  · exact .inr (ht i hij.symm)
  · exact .inl ho

lemma Honest.applyVoteSetBits {votes : BitArray} {ourVotes : Option BitArray} (hl : prs.NotLate height round type)
    (htr : Trimmed votes) (ht : ∀ i, votes.getIndex i = true → ToldVote past height round type i) :
    Honest past (prs.applyVoteSetBitsMessage height round type votes ourVotes) := by
  refine h.updateVotes hl.own fun bA bA' i hn hi => ?_
  have hs : wordBit votes.elems i = true → ToldVote past height round type i := fun hb =>
    ht i (getIndex_of_wordBit (htr i hb) hb)
  cases ourVotes with
  | none =>
    cases hn
    have hlt := lt_of_getIndex hi
    rcases wordBit_update (wordBit_of_getIndex hi) with hb | hb
    · exact .inr (hs hb)
    · exact .inl (getIndex_of_wordBit hlt hb)
  | some ourVotes =>
    cases hn
    have hlt := lt_of_getIndex hi
    rcases wordBit_update (wordBit_of_getIndex hi) with hb | hb
    · rcases wordBit_or hb with hb | hb
      · exact .inl (getIndex_of_wordBit hlt (wordBit_sub hb))
      · exact .inr (hs hb)
    · exact .inl (getIndex_of_wordBit hlt hb)

lemma Honest.ensureCatchupCommitRound (height round : ℤ) (n : ℕ) :
    Honest past (prs.ensureCatchupCommitRound height round n) := by
  unfold PeerRoundState.ensureCatchupCommitRound
  split
  · exact h
  split
  · exact h
  split
  · next hr =>
    subst hr
    exact { h with catchupCommit := h.precommits, sameArray := fun _ => rfl }
  · exact { h with catchupCommit := bits_newBitArray, sameArray := nofun }

lemma Honest.ensureVoteBitArrays (height : ℤ) (n : ℕ) : Honest past (prs.ensureVoteBitArrays height n) := by
  unfold PeerRoundState.ensureVoteBitArrays
  split
  · exact { h with
      prevotes := h.prevotes.or bits_newBitArray
      precommits := h.precommits.or bits_newBitArray
      catchupCommit := h.catchupCommit.or bits_newBitArray
      proposalPOL := h.proposalPOL.or bits_newBitArray }
  · exact h

lemma Honest.pickVoteToSend (height round : ℤ) (isCommit : Bool) (n : ℕ) :
    Honest past (prs.pickVoteToSend height round isCommit n) := by
  unfold PeerRoundState.pickVoteToSend
  split
  · exact h
  split
  · exact (h.ensureCatchupCommitRound height round n).ensureVoteBitArrays height n
  · exact h.ensureVoteBitArrays height n

lemma Honest.setHasProposal (height round polRound : ℤ) (header : PartSetHeader) :
    Honest past (prs.setHasProposal height round polRound header) := by
  unfold PeerRoundState.setHasProposal
  split
  · exact h
  split
  · exact h
  split
  · exact { h with }
  · exact { h with parts := bits_newBitArray, proposalPOL := bits_none }

lemma Honest.initProposalBlockParts (header : PartSetHeader) : Honest past (prs.initProposalBlockParts header) := by
  unfold PeerRoundState.initProposalBlockParts
  split
  · exact h
  · exact { h with parts := bits_newBitArray }

lemma Honest.updateProposalBlockParts (header : PartSetHeader) : Honest past (prs.updateProposalBlockParts header) :=
  { h with parts := bits_newBitArray }

lemma Honest.setHasProposalBlockPart {index : ℕ}
    (ht : prs.height = height → prs.round = round → ToldPart past prs.proposalBlockPartSetHeader index) :
    Honest past (prs.setHasProposalBlockPart height round index) := by
  unfold PeerRoundState.setHasProposalBlockPart
  split
  · exact h
  next hat =>
  rw [not_or, not_not, not_not] at hat
  split
  · exact h
  next parts' hp =>
  obtain ⟨parts, ho, hs⟩ := Option.bind_eq_some_iff.mp hp
  refine { h with parts := ?_ }
  rintro _ ⟨⟩ i hi
  rcases getIndex_setIndex hs hi with hij | hb
  · obtain rfl : i = index := by omega
    exact ht hat.1 hat.2
  · exact h.parts parts ho i hb

lemma Honest.setHasCommit (hs : prs.Settled height round) : Honest past (prs.setHasCommit height round) := by
  unfold PeerRoundState.setHasCommit
  split
  · next hne =>
    by_cases hl : prs.height < height ∨ prs.height = height ∧ prs.round < round
    · obtain ⟨⟨hpr, hp, hsa⟩, ho⟩ := hs hl
      by_cases hh : prs.height = height
      · subst hh
        exact { h with
          prevotes := hpr.bits
          precommits := hp.bits
          sameArray := fun hco => absurd (hsa.symm.trans hco) Bool.false_ne_true }
      · obtain ⟨hc, hpo⟩ := ho hh
        exact ⟨hpr.bits, hp.bits, hc.bits, hpo.bits, h.parts, fun hco => absurd (hsa.symm.trans hco) Bool.false_ne_true⟩
    · -- the peer is at this height and round already
      obtain ⟨rfl, rfl⟩ : prs.height = height ∧ prs.round = round := by omega
      exact { h with }
  · exact h

omit h in
lemma setHasCommitMessage_eq (height round : ℤ) (header : PartSetHeader) :
    prs.setHasCommitMessage height round header = prs.setHasCommit height round := by
  refine if_neg ?_
  unfold setHasCommit
  split
  · simp
  · next he => omega

lemma Honest.applyNewRoundStep (height round : ℤ) (step : ℕ) (lastCommitRound : ℤ) :
    Honest past (prs.applyNewRoundStepMessage height round step lastCommitRound) := by
  unfold applyNewRoundStepMessage
  split
  · exact h
  by_cases hh : prs.height = height
  · subst hh
    by_cases hr : prs.round = round
    · subst hr
      simp only [ne_eq, not_true_eq_false, or_self, if_false, false_and, and_false]
      exact { h with }
    by_cases hc : round = prs.catchupCommitRound
    · -- the peer arrives at the catch-up round and keeps the catch-up array as its precommits
      subst hc
      simp only [ne_eq, not_true_eq_false, hr, not_false_eq_true, or_true, if_true, and_self, if_false]
      exact ⟨bits_none, h.catchupCommit, h.catchupCommit, bits_none, bits_none, fun _ => rfl⟩
    · simp only [ne_eq, not_true_eq_false, hr, not_false_eq_true, or_true, if_true, hc, and_false, if_false]
      exact ⟨bits_none, bits_none, h.catchupCommit, bits_none, bits_none, nofun⟩
  · simp only [ne_eq, hh, not_false_eq_true, true_or, if_true, false_and, if_false]
    exact ⟨bits_none, bits_none, bits_none, bits_none, bits_none, nofun⟩

lemma honest_apply {op : Op} (hop : prs.Careful op) : Honest (past ++ [op]) (prs.apply op) := by
  have hm : op ∈ past ++ [op] := by simp
  have h' : Honest (past ++ [op]) prs := h.mono (List.subset_append_left past [op])
  cases op with
  | newRoundStep height round step lastCommitRound =>
    exact h'.applyNewRoundStep height round step lastCommitRound
  | newValidBlock height round header blockParts isCommit =>
    show Honest _ (prs.applyNewValidBlockMessage height round header blockParts isCommit)
    unfold applyNewValidBlockMessage
    split
    · exact h'
    split
    · exact h'
    refine { h' with parts := ?_ }
    rintro _ ⟨⟩ i hi
    exact ⟨_, hm, rfl, hi⟩
  | proposalPOL height polRound pol =>
    show Honest _ (prs.applyProposalPOLMessage height polRound pol)
    unfold applyProposalPOLMessage
    split
    · exact h'
    next hh =>
    split
    · exact h'
    next hr =>
    refine { h' with proposalPOL := ?_ }
    rintro _ ⟨⟩ i hi
    exact ⟨_, hm, (not_not.mp hh).symm, (not_not.mp hr).symm, rfl, hi⟩
  | hasVote height round type index =>
    show Honest _ (prs.applyHasVoteMessage height round type index)
    unfold applyHasVoteMessage
    split
    · exact h'
    next hh =>
    exact h'.setHasVote (fun _ _ => not_not.mp hh) fun i hi => ⟨_, hm, rfl, rfl, rfl, hi⟩
  | hasCommit height round =>
    show Honest _ (prs.applyHasCommitMessage height round)
    unfold applyHasCommitMessage
    split
    · exact h'
    · next hh => exact h'.setHasCommit (hop (not_not.mp hh))
  | voteSetBits height round type votes ourVotes =>
    exact h'.applyVoteSetBits hop.1 hop.2 fun i hi => ⟨_, hm, rfl, rfl, rfl, hi⟩
  | commit height round header =>
    show Honest _ (prs.setHasCommitMessage height round header)
    rw [setHasCommitMessage_eq]
    exact h'.setHasCommit hop
  | vote height round type index =>
    exact h'.setHasVote (NotLate.own hop) fun i hi => ⟨_, hm, rfl, rfl, rfl, hi⟩
  | proposal height round polRound header => exact h'.setHasProposal height round polRound header
  | part height round header index =>
    exact h'.setHasProposalBlockPart fun hh hr => ⟨_, hm, hop hh hr, rfl⟩
  | ensureVoteBitArrays height n => exact h'.ensureVoteBitArrays height n
  | pickVoteToSend height round isCommit n => exact h'.pickVoteToSend height round isCommit n
  | initProposalBlockParts header => exact h'.initProposalBlockParts header
  | updateProposalBlockParts header => exact h'.updateProposalBlockParts header

lemma honest_run {ops : List Op} (ho : Admitted apply Careful prs ops) : Honest (past ++ ops) (run apply prs ops) := by
  induction ops generalizing past prs with
  | nil => simpa using h
  | cons op ops ih =>
    have hr := ih (honest_apply h ho.1) ho.2
    simpa using hr

end

def announced (type : SignedMsgType) : List Op :=
  [.newRoundStep 5 0 1 2, .ensureVoteBitArrays 5 4, .hasVote 5 0 type 3]

end PeerRoundState

end Tenderdash
