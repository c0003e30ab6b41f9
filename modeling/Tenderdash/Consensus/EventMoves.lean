import Tenderdash.Consensus.CommitMoves

/-!
Every event is a sequence of moves. A vote set changes only by the vote of the event or by the claim of a
peer, a commit is parked only if it is the one of the event, and the next height starts with a state the
application answered with: `handle_moves`.

The moves are regular if the node is regular before and after the event. It is not if a vote is stored that
conflicts with an earlier one, since the vote then counts but nothing follows from it.
-/

namespace Tenderdash

open Lib Go HeightVoteSet List Option StateData

/-! ### What an event brings -/

lemma VoteMessage.round_nonneg (msg : VoteMessage) : 0 ≤ msg.ref.vote.round := by
  have hv := msg.valid
  obtain ⟨_, -, hv⟩ := of_bind hv
  obtain ⟨_, -, hv⟩ := of_bind hv
  obtain ⟨_, hr, -⟩ := of_bind hv
  exact not_lt.mp (failIf_eq_ok.mp hr)

def Event.Changes (C : Crypto) (event : Event) (r : ℤ) (t : SignedMsgType) (vs vs' : VoteSet) : Prop :=
  vs' = vs ∨
  (∃ msg peerID fromReplay check added err, event = .vote msg peerID fromReplay ∧
    VoteSet.VoteCheck.Minted C check ∧ r = msg.ref.vote.round ∧ t = msg.ref.vote.type ∧
    vs.addVote C (some msg.ref) check = .ok (vs', added, err)) ∨
  ∃ peerID blockID height, vs' = (vs.setPeerMaj23 peerID blockID height r).1

def intake (W : World) (cfg : Config) (event : Event) (regular : Prop) : Intake where
  C := cfg.C
  regular := regular
  change := event.Changes cfg.C
  change_refl _ _ _ := .inl rfl
  change_majority := by
    rintro r t vs vs' blockID (rfl | ⟨_, _, _, _, _, _, -, -, -, -, ha⟩ | ⟨peerID, id, height, rfl⟩) hm
    · exact hm
    · rcases VoteSet.addVote_maj23 ha with heq | ⟨hn, -⟩
      · exact heq.trans hm
      · rw [hn] at hm
        cases hm
    · exact (VoteSet.setPeerMaj23_maj23 vs peerID id height r).trans hm
  given commit := ∃ peerID fromReplay, event = .commit commit peerID fromReplay
  next state := ∃ n before crs blockID commit immediately,
    W.finalizeBlock n before crs blockID commit = .ok (state, immediately)

namespace StateData

variable {W : World} {cfg : Config} {sd sd' : StateData}

lemma answers_intake (W : World) (cfg : Config) (event : Event) (regular : Prop) :
    Answers W (intake W cfg event regular) :=
  fun n state crs blockID commit _ immediately h => ⟨n, state, crs, blockID, commit, immediately, h⟩

/-- No commit waits while the node holds a block, and a block the node could renew its lock on is already its
valid block. -/
def Regular (sd : StateData) : Prop :=
  (sd.commit.isSome → sd.proposalBlock.isNone) ∧
  (sd.commit.isNone → sd.step < .precommit →
    (twoThirdsMajority (sd.votes.prevotes sd.round)).all fun blockID =>
      blockID.isNil ∨ blockIDOf sd.proposalBlock sd.proposalBlockParts ≠ blockID ∨
        blockIDOf sd.lockedBlock sd.lockedBlockParts ≠ blockID ∨ sd.round ≤ sd.validRound)

instance (sd : StateData) : Decidable sd.Regular := by
  unfold Regular
  infer_instance

lemma Regular.collects (h : sd.Regular) : sd.view.parked.isSome → sd.view.held = none := by
  intro hp
  have hn := isNone_iff_eq_none.mp (h.1 hp)
  simp only [view, hn, identify_none]

lemma Regular.settled (h : sd.Regular) : sd.view.Settled := by
  intro hp hs blockID hn hpo hh hl
  have ha := h.2 (isNone_iff_eq_none.mpr hp) hs
  rw [show twoThirdsMajority (sd.votes.prevotes sd.round) = some blockID from hpo] at ha
  simp only [all_some, decide_eq_true_eq, hn, Bool.false_eq_true, false_or] at ha
  rcases ha with hne | hne | hle
  · exact absurd ((identify_eq_some hn).mp hh) hne
  · exact absurd ((identify_eq_some hn).mp hl) hne
  · exact hle

variable {I : Intake}

/-! ### A complete block -/

lemma validateOnComplete_moves (sd : StateData) : Advance I sd.view sd.validateOnComplete.view := by
  unfold validateOnComplete
  split
  · exact .refl I _
  next blockID hp =>
  split
  · next hv =>
    obtain ⟨hn, -, hh⟩ := hv
    rw [updateValidBlock_view hn hh]
    exact ⟨.single (.polka sd.votes blockID (Evolves.refl I.change_refl sd.votes) hn hp
      ((identify_eq_some hn).mpr hh)), rfl, le_refl _, rfl, .inl rfl⟩
  · exact .refl I _

variable {v : View} {height : ℤ} {result : Except ConsensusError Unit} {part : Part Bytes} {votes : HeightVoteSet}
  {check : VoteSet.VoteCheck} {err : Option VoteError} {added : Bool} {found : Option Commit} {ti : TimeoutInfo}
  {ref : VoteRef} {vote : Vote} {C : Crypto}

lemma complete_moves (sd : StateData) (blockID : BlockID)
    (hv : sd.view = { v with held := some blockID, heldParts := true }) : Moves I v sd.validateOnComplete.view := by
  have hpe : twoThirdsMajority (sd.votes.prevotes sd.round) = v.polka v.round := by
    change sd.view.polka sd.view.round = _
    rw [hv]
    rfl
  unfold validateOnComplete
  rw [hpe]
  split
  · next hno =>
    rw [hv]
    refine .single (.complete blockID fun _ _ _ _ B _ hp => ?_)
    rw [show v.polka v.round = some B from hp] at hno
    cases hno
  · next B hp =>
    split
    · next hva =>
      obtain ⟨hn, -, hh⟩ := hva
      have hs : sd.view.held = some B := (identify_eq_some hn).mpr hh
      rw [hv] at hs
      cases hs
      rw [updateValidBlock_view hn hh, hv]
      have hr : sd.round = v.round := congrArg View.round hv
      rw [hr]
      exact .single (.completeValid blockID hn hp)
    · next hnt =>
      rw [hv]
      refine .single (.complete blockID fun _ _ _ _ B' hn hp' hh _ => ?_)
      rw [show v.polka v.round = some B' from hp'] at hp
      cases hp
      have hh' : blockIDOf sd.proposalBlock sd.proposalBlockParts = B := by
        refine (identify_eq_some hn).mp ?_
        change sd.view.held = some B
        rw [hv]
        exact hh
      have hr : sd.round = v.round := congrArg View.round hv
      have hva : sd.validRound = v.validRound := congrArg View.validRound hv
      by_contra hlt
      exact hnt ⟨hn, by dsimp only at hlt; omega, hh'⟩

lemma proposalCompleted_moves (han : Answers W I) (h : sd.proposalCompleted W cfg height = .ok (sd', result))
    (hv : v.Sane) (hm : Moves I v sd.validateOnComplete.view) (hpa : sd.view.parked = none) : Moves I v sd'.view := by
  have hs := hm.invariant (fun _ _ hv => hv.move) hv
  refine hm.trans ?_
  rcases proposalCompleted_cases h with ⟨-, sd₁, entered, hpr, he⟩ | hf | ⟨-, rfl⟩
  · have ha := enterPrevote_advance (I := I) (le_refl _) hpr
    rcases he with rfl | hp
    · exact ha.moves
    refine ha.moves.trans (enterPrecommit_advance (le_refl _) (fun _ hso => ?_) hp).moves
    rw [ha.parked_eq, (validateOnComplete_moves (I := I) sd).parked_eq, hpa] at hso
    cases hso
  · exact tryFinalizeCommit_moves han hs.height_pos hs.commitRound_nonneg hf
  · exact .refl

/-! ### Block parts -/

lemma addPart_view {H : Lib.Merkle.Hasher Bytes Bytes} {parts parts' : PartSet Bytes} {result : Go PartSetError Bool}
    (hp : sd.proposalBlockParts = some parts) (h : parts.addPart H part = (parts', result)) :
    view { sd with proposalBlockParts := some parts' } = sd.view := by
  have hh : parts'.header = parts.header := by
    unfold PartSet.addPart at h
    split_ifs at h <;> cases h <;> rfl
  have hid : identify sd.proposalBlock (some parts') = identify sd.proposalBlock (some parts) := by
    unfold identify blockIDOf
    simp only [map_some, hh]
  simp only [view, hp, hid, isSome_some]

lemma tryCommits_spec {commits : List Commit} (h : tryCommits W commits sd = .ok (sd', found)) :
    ∃ sd₁, Talks sd sd₁ ∧ ((found = none ∧ sd' = sd₁) ∨
      ∃ commit ∈ commits, found = some commit ∧ sd' = { sd₁ with commit := some commit }) := by
  induction commits generalizing sd with
  | nil =>
    cases h
    exact ⟨_, .refl _, .inl ⟨rfl, rfl⟩⟩
  | cons commit rest ih =>
    obtain ⟨⟨sd₁, result⟩, hv, h⟩ := of_bind h
    have ht := (checked_of_verifyHeldCommit hv).consults.talks
    cases result with
    | ok _ =>
      cases h
      exact ⟨sd₁, ht, .inr ⟨commit, mem_cons_self, rfl, rfl⟩⟩
    | error e =>
      obtain ⟨sd₂, ht', hca⟩ := ih h
      refine ⟨sd₂, ht.trans ht', hca.imp_right ?_⟩
      rintro ⟨c, hc, hf⟩
      exact ⟨c, mem_cons_of_mem _ hc, hf⟩

def taken (v : View) (parked : Option Commit) : View :=
  { v with parked := parked, queuedFor := v.height, queued := [] }

lemma selectParkedCommit_spec {parked : Commit}
    (h : sd.selectParkedCommit W parked = .ok (sd', found)) (hp : sd.view.parked = some parked) :
    sd'.view = taken sd.view found ∧ sd'.height = sd.height ∧ sd'.commit = found ∧
      sd'.proposalBlockParts = sd.proposalBlockParts ∧
      ∀ commit, found = some commit → sd.view.parked = some commit ∨ sd.view.Queued commit := by
  obtain ⟨sd₁, ht, hc⟩ := tryCommits_spec h
  have hv : sd₁.view = taken sd.view none := by
    rw [ht.view]
    simp only [view, taken, CommitCandidates.resetUnless_height, map_nil]
  have hf : sd₁.height = sd.height ∧ sd₁.commit = none ∧ sd₁.proposalBlockParts = sd.proposalBlockParts := by
    obtain ⟨_, _, _, _, -, rfl⟩ := ht
    exact ⟨rfl, rfl, rfl⟩
  rcases hc with ⟨rfl, rfl⟩ | ⟨commit, hm, rfl, rfl⟩
  · exact ⟨hv, hf.1, hf.2.1, hf.2.2, fun _ hc => by cases hc⟩
  refine ⟨?_, hf.1, rfl, hf.2.2, ?_⟩
  · change { sd₁.view with parked := some commit } = _
    rw [hv]
    rfl
  rintro _ ⟨⟩
  have hm' := (mem_insertionSort _).mp hm
  rcases mem_cons.mp hm' with rfl | hq
  · exact .inl hp
  obtain ⟨other, ho, rfl⟩ := mem_map.mp hq
  obtain ⟨hfo, hol⟩ := CommitCandidates.mem_take ho
  exact .inr ⟨hfo, mem_map_of_mem hol⟩

abbrev holding (sd : StateData) (proposal : Option ProposalProto) (block : Block) (parts : PartSet Bytes) : StateData :=
  { sd with proposal := proposal, proposalBlock := some block, proposalBlockParts := some parts }

lemma addProposalBlockPart_cases {result : Except ConsensusError Bool}
    (h : sd.addProposalBlockPart W cfg height part = .ok (sd', result)) :
    (sd'.view = sd.view ∧ (result = .ok true → sd'.proposalBlockParts.any (·.isComplete) = false)) ∨
    ∃ proposal block parts, sd.height = height ∧ parts.isComplete = true ∧
      ((sd.commit = none ∧ result = .ok true ∧ sd' = sd.holding proposal block parts) ∨
        ∃ parked sd₁ found, sd.commit = some parked ∧
          (sd.holding proposal block parts).selectParkedCommit W parked = .ok (sd₁, found) ∧
          ((found = none ∧ sd' = sd₁ ∧ result = .ok true) ∨
            ∃ commit r, found = some commit ∧ sd₁.addCommit W cfg commit = .ok (sd', r))) := by
  unfold addProposalBlockPart at h
  split at h
  · cases h
    exact .inl ⟨rfl, nofun⟩
  next parts hpa =>
  split at h
  · cases h
    exact .inl ⟨rfl, nofun⟩
  next hh =>
  split at h
  · cases h
  · cases h
    exact .inl ⟨rfl, nofun⟩
  next parts' added hadd =>
  have hv := addPart_view hpa hadd
  dsimp only at h
  split at h
  · cases h
    exact .inl ⟨hv, nofun⟩
  split at h
  · next hu =>
    cases h
    refine .inl ⟨hv, fun had => ?_⟩
    cases had
    simpa using hu
  · next hc =>
    simp only [not_or, Bool.not_eq_false] at hc
    obtain ⟨rfl, hc⟩ := hc
    split at h
    · cases h
      exact .inl ⟨hv, nofun⟩
    next block _ =>
    refine .inr ⟨correctedProposal { sd with proposalBlockParts := some parts' } block, block, parts',
      not_not.mp (not_or.mp hh).1, hc, ?_⟩
    split at h
    · next hn =>
      cases h
      exact .inl ⟨hn, rfl, rfl⟩
    next parked hp =>
    obtain ⟨⟨sd₁, found⟩, hs, h⟩ := of_bind h
    refine .inr ⟨parked, sd₁, found, hp, hs, ?_⟩
    cases found with
    | none =>
      cases h
      exact .inl ⟨rfl, rfl, rfl⟩
    | some commit =>
      obtain ⟨⟨sd₂, r⟩, ha, h⟩ := of_bind h
      cases r <;> cases h
      · exact .inr ⟨commit, _, rfl, ha⟩
      · exact .inr ⟨commit, _, rfl, ha⟩

lemma taken_moves (found : Option Commit)
    (hf : ∀ commit, found = some commit → v.parked = some commit ∨ v.Queued commit)
    (hh : I.regular → v.parked.isSome → v.held = none) : Moves I v (taken v found) := by
  refine .single (.commits found v.height [] (fun c hc => ?_) (le_refl _) (fun _ c hc => by cases hc)
    fun hr hs _ => hh hr hs)
  rcases hf c hc with ho | ho
  · exact .inl ho
  · exact .inr (.inl ho)

/-- What follows a block part: nothing that shows, or the complete block is looked at, with the commit that waits
for it applied first if the block bears one out. -/
lemma addBlockPart_cases (h : sd.addBlockPart W cfg height part = .ok (sd', result)) :
    sd'.view = sd.view ∨ ∃ proposal block parts,
      ((sd.commit = none ∧ (sd.holding proposal block parts).proposalCompleted W cfg height = .ok (sd', result)) ∨
        ∃ parked sd₁ found, sd.commit = some parked ∧
          (sd.holding proposal block parts).selectParkedCommit W parked = .ok (sd₁, found) ∧
          ((found = none ∧ sd₁.proposalCompleted W cfg height = .ok (sd', result)) ∨
            ∃ commit sd₂ r, found = some commit ∧ sd₁.addCommit W cfg commit = .ok (sd₂, r) ∧
              (sd' = sd₂ ∨ (sd₂.commit = none ∧ sd₂.proposalCompleted W cfg height = .ok (sd', result))))) := by
  unfold addBlockPart at h
  obtain ⟨⟨sd₁, result₁⟩, hpr, h⟩ := of_bind h
  rcases addProposalBlockPart_cases hpr with ⟨hv, hu⟩ | ⟨proposal, block, parts, hh, hco, hc⟩
  · -- nothing shows
    refine .inl ?_
    cases result₁ with
    | error e =>
      cases h
      exact hv
    | ok added =>
      dsimp only at h
      split at h
      · next hd =>
        obtain ⟨rfl, -, hd⟩ := hd
        rw [hu rfl] at hd
        cases hd
      cases h
      exact hv
  · refine .inr ⟨proposal, block, parts, ?_⟩
    have hpa : (some parts).any (·.isComplete) = true := hco
    rcases hc with ⟨hn, rfl, rfl⟩ | ⟨parked, sd₂, found, hp, hs, hc⟩
    · -- no commit waits
      dsimp only at h
      rw [if_pos ⟨rfl, .inl (by rw [hn]; rfl), hpa⟩] at h
      exact .inl ⟨hn, h⟩
    obtain ⟨-, hh₂, hcm, hp₂, -⟩ := selectParkedCommit_spec hs hp
    refine .inr ⟨parked, sd₂, found, hp, hs, ?_⟩
    rcases hc with ⟨rfl, rfl, rfl⟩ | ⟨commit, r, rfl, ha⟩
    · -- no commit is borne out by the block
      dsimp only at h
      rw [if_pos ⟨rfl, .inr ⟨by rw [hp]; rfl, by rw [hcm]; rfl, hh₂.trans hh⟩, by rw [hp₂]; exact hpa⟩] at h
      exact .inl ⟨rfl, h⟩
    · -- the commit is applied
      refine .inr ⟨commit, sd₁, r, rfl, ha, ?_⟩
      cases result₁ with
      | error e =>
        cases h
        exact .inl rfl
      | ok added =>
        dsimp only at h
        split at h
        · next hd =>
          obtain ⟨-, hn | ⟨-, hn, -⟩, -⟩ := hd
          · rw [hp] at hn
            cases hn
          · exact .inr ⟨isNone_iff_eq_none.mp hn, h⟩
        · cases h
          exact .inl rfl

lemma round_nonneg_of_selected {commit : Commit} (hs : sd.view.Sane)
    (h : sd.view.parked = some commit ∨ sd.view.Queued commit) : 0 ≤ commit.round := by
  rcases h with ho | ho
  · exact hs.parked_round commit ho
  · exact hs.queued_round commit ho

lemma addBlockPart_moves (ha : Answers W I) (hs : sd.view.Sane)
    (hcl : I.regular → sd.view.parked.isSome → sd.view.held = none)
    (h : sd.addBlockPart W cfg height part = .ok (sd', result)) : Moves I sd.view sd'.view := by
  rcases addBlockPart_cases h with hv | ⟨proposal, block, parts, ⟨hn, hc⟩ | ⟨parked, sd₁, found, hp, hse, hca⟩⟩
  · rw [hv]
  · have hm : Moves I sd.view _ := complete_moves (sd.holding proposal block parts)
      (blockIDOf (some block) (some parts)) rfl
    exact proposalCompleted_moves ha hc hs hm hn
  obtain ⟨hv, -, hco, -, hf⟩ := selectParkedCommit_spec hse hp
  have ht : Moves I sd.view (taken sd.view found) := taken_moves found hf hcl
  rcases hca with ⟨rfl, hc⟩ | ⟨commit, sd₂, r, rfl, hap, hca⟩
  · have hm := ht.trans (complete_moves sd₁ (blockIDOf (some block) (some parts)) hv)
    exact proposalCompleted_moves ha hc hs hm hco
  have hh : Moves I sd.view sd₁.view := by
    refine ht.trans (.single ?_)
    rw [hv]
    exact .complete (blockIDOf (some block) (some parts)) fun _ _ hn => nomatch hn
  have hm := hh.trans (addCommit_moves ha hap (by rw [hv]; exact hs.height_pos)
    (round_nonneg_of_selected hs (hf commit rfl)) hco)
  rcases hca with rfl | ⟨hn, hc⟩
  · exact hm
  exact proposalCompleted_moves ha hc hs (hm.trans (validateOnComplete_moves sd₂).moves) hn

/-! ### Votes -/

lemma votes_advance (hv : Evolves I.change sd.votes votes)
    (hs : I.regular → sd.view.Settled → { sd.view with votes := votes }.Settled) :
    Advance I sd.view (view { sd with votes := votes }) :=
  ⟨.single (.votes votes hv hs), rfl, le_refl _, rfl, .inl rfl⟩

lemma settled_of_addsTo (h : Evolves (AddsTo C ref check added err) sd.votes votes)
    (ho : ref.vote.type ≠ .prevote ∨ ref.vote.round ≠ sd.round) (hs : sd.view.Settled) :
    { sd.view with votes := votes }.Settled := by
  intro hp hst blockID hn hpo
  refine hs hp hst blockID hn ?_
  have hsa := h.majority_eq (r := sd.round) (t := .prevote) fun vs vs' ha => by
    rcases ha with rfl | ⟨hr, ht, -⟩
    · rfl
    · exact (ho.elim (· ht.symm) (· hr.symm)).elim
  exact hsa.symm.trans hpo

lemma retargetTo_round (sd : StateData) (blockID : BlockID) : (sd.retargetTo blockID).round = sd.round := by
  obtain ⟨proposal, heq | ⟨parts, heq⟩⟩ := retargetTo_cases sd blockID <;> rw [heq]

lemma updateValidOnPolka_advance (ha : Evolves (AddsTo C ref check added err) sd.votes votes)
    (hv : Evolves I.change sd.votes votes) :
    Advance I sd.view (updateValidOnPolka { sd with votes := votes } ref.vote).view ∧
      (updateValidOnPolka { sd with votes := votes } ref.vote).round = sd.round := by
  unfold updateValidOnPolka
  split
  · next hno =>
    -- no polka in the round of the vote
    refine ⟨votes_advance hv fun _ hs => ?_, rfl⟩
    by_cases hr : ref.vote.round = sd.round
    · intro _ _ B _ hp
      rw [hr] at hno
      rw [show twoThirdsMajority (votes.prevotes sd.round) = some B from hp] at hno
      cases hno
    · exact settled_of_addsTo ha (.inr hr) hs
  · next blockID hm =>
    split
    · next hsk =>
      refine ⟨votes_advance hv fun _ hs => ?_, rfl⟩
      by_cases hr : ref.vote.round = sd.round
      · intro _ _ B hn hp _ _
        rw [hr, show twoThirdsMajority (votes.prevotes sd.round) = some B from hp] at hm
        cases hm
        rcases hsk with hn' | hle | hne
        · rw [hn] at hn'
          cases hn'
        · rw [hr] at hle
          exact hle
        · exact absurd hr hne
      · exact settled_of_addsTo ha (.inr hr) hs
    · next hnw =>
      obtain ⟨hn, hnw⟩ := not_or.mp hnw
      obtain ⟨-, hr⟩ := not_or.mp hnw
      have hr : ref.vote.round = sd.round := not_not.mp hr
      rw [Bool.not_eq_true] at hn
      rw [hr] at hm
      split
      · next hh =>
        -- the node holds the block
        have hva : Advance I sd.view (updateValidBlock { sd with votes := votes }).view := by
          rw [@updateValidBlock_view blockID { sd with votes := votes } hn hh]
          exact ⟨.single (.polka votes blockID hv hn hm ((identify_eq_some hn).mpr hh)), rfl, le_refl _, rfl, .inl rfl⟩
        refine ⟨hva.trans (retargetTo_advance _ blockID), (retargetTo_round _ blockID).trans ?_⟩
        unfold updateValidBlock
        dsimp only
        split <;> rfl
      · next hh =>
        refine ⟨(votes_advance hv fun _ _ _ _ B hn' hp hh' => ?_).trans
          (retargetTo_advance _ blockID), retargetTo_round _ blockID⟩
        rw [show twoThirdsMajority (votes.prevotes sd.round) = some B from hp] at hm
        cases hm
        exact absurd ((identify_eq_some hn).mp hh') hh

lemma dispatchPrevote_advance (hc : I.regular → sd.view.parked.isSome → sd.view.held = none)
    (h : sd.dispatchPrevote W cfg vote = .ok sd') : Advance I sd.view sd'.view := by
  unfold dispatchPrevote at h
  dsimp only at h
  split at h
  · obtain ⟨⟨sd₁, _⟩, hn, h⟩ := of_bind h
    cases h
    exact (enterNewRound_advance hn).1
  split at h
  · next hr =>
    split at h
    · exact enterPrecommit_advance hr.1.ge hc h
    split at h
    · exact enterPrevoteWait_advance hr.1.ge h
    cases h
    exact .refl I _
  · split at h
    · obtain ⟨⟨sd₁, _⟩, hp, h⟩ := of_bind h
      cases h
      exact enterPrevote_advance (le_refl _) hp
    · cases h
      exact .refl I _

lemma dispatchPrecommit_moves (han : Answers W I) (hpo : 1 ≤ sd.view.height)
    (hr : 0 ≤ vote.round) (hc : I.regular → sd.view.parked.isSome → sd.view.held = none)
    (h : sd.dispatchPrecommit W cfg vote = .ok sd') : Moves I sd.view sd'.view := by
  rcases dispatchPrecommit_cases h with rfl | ⟨sd₁, entered, hn, he⟩
  · exact .refl
  obtain ⟨ha, hle⟩ := enterNewRound_advance (I := I) hn
  rcases he with hw | ⟨sd₂, hp, he⟩
  · exact (ha.trans (enterPrecommitWait_advance (hle rfl) hw)).moves
  have ha₂ : Advance I sd₁.view sd₂.view := enterPrecommit_advance (hle rfl) (fun hre => ha.collects (hc hre)) hp
  have hb := ha.trans ha₂
  rcases he with hw | ⟨blockID, sd₃, entered, -, -, hco, hn'⟩
  · exact (hb.trans (enterPrecommitWait_advance ((hle rfl).trans ha₂.round_le) hw)).moves
  have hm := enterCommit_moves (I := I) han (by rw [hb.height_eq]; exact hpo) hr hco
  exact (hb.moves.trans hm).trans (enterNewRound_advance hn').1.moves

section Vote

variable {msg : VoteMessage} {peerID : String} {fromReplay : Bool} {regular : Prop}
  {result : Except ConsensusError Bool}

lemma changes_of_addsTo (W : World) (peerID : String) (fromReplay : Bool) (regular : Prop)
    (hm : check.Minted cfg.C) {votes : HeightVoteSet}
    (h : Evolves (AddsTo cfg.C msg.ref check added err) sd.votes votes) :
    Evolves (intake W cfg (.vote msg peerID fromReplay) regular).change sd.votes votes := by
  refine h.imp fun r t vs vs' ha => ?_
  rcases ha with rfl | ⟨hr, ht, had⟩
  · exact .inl rfl
  · exact .inr (.inl ⟨msg, peerID, fromReplay, check, added, err, rfl, hm, hr, ht, had⟩)

lemma addToVoteSet_moves (hm : check.Minted cfg.C) (hs : sd.view.Sane)
    (hro : 0 ≤ msg.ref.vote.round) (hc : regular → sd.view.parked.isSome → sd.view.held = none)
    (he : regular → sd'.view.Settled) (h : sd.addToVoteSet W cfg msg.ref check = .ok (sd', result)) :
    Moves (intake W cfg (.vote msg peerID fromReplay) regular) sd.view sd'.view := by
  obtain ⟨votes, added, err, hadd, he'⟩ := addToVoteSet_cases h
  have had := evolves_addVote hadd
  have hv := changes_of_addsTo W peerID fromReplay regular hm had
  have han := answers_intake W cfg (.vote msg peerID fromReplay) regular
  rcases he' with rfl | hd | ⟨ht, hd⟩
  · exact (votes_advance hv fun hr _ => he hr).moves
  · obtain ⟨ha, -⟩ := updateValidOnPolka_advance had hv
    exact (ha.trans (dispatchPrevote_advance (fun hr => ha.collects (hc hr)) hd)).moves
  have ha := votes_advance hv fun _ => settled_of_addsTo had (.inl ht)
  exact ha.moves.trans (dispatchPrecommit_moves han hs.height_pos hro hc hd)

lemma addVote_moves (hsa : sd.view.Sane) (hc : regular → sd.view.parked.isSome → sd.view.held = none)
    (he : regular → sd'.view.Settled) (h : sd.addVote W cfg msg.ref peerID fromReplay = .ok (sd', result)) :
    Moves (intake W cfg (.vote msg peerID fromReplay) regular) sd.view sd'.view := by
  obtain ⟨sd₁, sd₂, hsh, hs, hr⟩ := addVote_cases h
  have hv : sd'.view = sd₂.view := by
    rcases hr with rfl | ⟨e, hr⟩
    · rfl
    · exact (handleVoteError_consults W hr).view
  rw [hv] at he ⊢
  rw [← hsh.consults.view] at hsa hc ⊢
  rcases hs with rfl | ⟨check, stored, hm, ha⟩
  · exact .refl
  · exact addToVoteSet_moves hm hsa msg.round_nonneg hc he ha

end Vote

/-! ### Proposals and timeouts -/

lemma proposalBlock_eq_none (sd : StateData) (hs : sd.view.Sane) (hp : sd.proposalBlockParts = none) :
    sd.proposalBlock = none := by
  cases hb : sd.proposalBlock with
  | none => rfl
  | some block =>
    have hh : sd.view.heldParts = true := hs.held_parts (by
      simp only [view, hb, identify_some, isSome_some])
    simp only [view, hp, isSome_none, Bool.false_eq_true] at hh

lemma setProposal_moves {proposal : ProposalProto} {budget : Option VerificationBudget}
    {result : Except ConsensusError Unit} (hs : sd.view.Sane)
    (h : sd.setProposal W cfg proposal budget = .ok (sd', result)) : Moves I sd.view sd'.view := by
  rcases setProposal_cases h with rfl | rfl
  · exact .refl
  cases hp : sd.proposalBlockParts with
  | some parts =>
    simp only [getD_some, view, hp]
    exact .refl
  | none =>
    have hb := sd.proposalBlock_eq_none hs hp
    refine .trans (.single (.drop true)) ?_
    simp only [view, hb, identify_none, isSome_some]
    exact .refl

lemma round_le_of_scheduled (hsa : sd.view.Sane) (hs : sd.scheduled ti = true)
    (hh : ti.height = sd.height) : ti.round ≤ sd.round := by
  obtain ⟨o, ho, hti⟩ := any_eq_true.mp hs
  have hm : ti ∈ sd.view.ticks := by
    refine mem_filterMap.mpr ⟨o, ho, ?_⟩
    cases o <;> simp_all [Output.tick]
  exact (hsa.ticks_le ti hm).2 hh

lemma handleTimeout_advance (hr : ti.height = sd.height → ti.round ≤ sd.round)
    (hc : I.regular → sd.view.parked.isSome → sd.view.held = none) (h : sd.handleTimeout W cfg ti = .ok sd') :
    Advance I sd.view sd'.view := by
  unfold handleTimeout at h
  split at h
  · cases h
    exact .refl I _
  next hl =>
  have hr := hr (not_not.mp (not_or.mp hl).1)
  split at h
  · obtain ⟨⟨sd₁, _⟩, hn, h⟩ := of_bind h
    cases h
    exact (enterNewRound_advance hn).1
  · obtain ⟨⟨sd₁, _⟩, hpe, h⟩ := of_bind h
    cases h
    exact enterPropose_advance hr hpe
  · obtain ⟨⟨sd₁, _⟩, hpr, h⟩ := of_bind h
    cases h
    exact enterPrevote_advance hr hpr
  · exact enterPrecommit_advance hr hc h
  · obtain ⟨sd₁, hp, h⟩ := of_bind h
    obtain ⟨⟨sd₂, _⟩, hn, h⟩ := of_bind h
    cases h
    exact (enterPrecommit_advance hr hc hp).trans (enterNewRound_advance hn).1
  · cases h

lemma handleTxsAvailable_advance (h : sd.handleTxsAvailable W cfg = .ok sd') : Advance I sd.view sd'.view := by
  unfold handleTxsAvailable at h
  split at h
  · cases h
    exact .refl I _
  next hr =>
  split at h
  · split at h
    · cases h
      exact .refl I _
    · cases h
      exact scheduleTimeout_advance .newRound rfl (not_not.mp hr).ge
  · obtain ⟨⟨sd₁, _⟩, hp, h⟩ := of_bind h
    cases h
    exact enterPropose_advance (le_refl _) hp
  · cases h
    exact .refl I _

/-! ### Events -/

lemma setPeerMaj23_majority (sd : StateData) (height round : ℤ) (type : SignedMsgType) (peerID : String)
    (blockID : BlockID) (r : ℤ) (t : SignedMsgType) :
    twoThirdsMajority ((sd.votes.setPeerMaj23 height round type peerID blockID).1.getVoteSet r t) =
      twoThirdsMajority (sd.votes.getVoteSet r t) := by
  refine (evolves_setPeerMaj23 sd.votes height round type peerID blockID).majority_eq fun vs vs' hc => ?_
  rcases hc with rfl | rfl
  · rfl
  · exact VoteSet.setPeerMaj23_maj23 vs peerID blockID height r

/-- **Every event is a sequence of moves.** They are regular if the node is regular at both ends. -/
theorem handle_moves {event : Event} (hs : sd.view.Sane) (h : sd.handle W cfg event = .ok sd') :
    Moves (intake W cfg event (sd.Regular ∧ sd'.Regular)) sd.view sd'.view := by
  have ha := answers_intake W cfg event (sd.Regular ∧ sd'.Regular)
  have hc : sd.Regular ∧ sd'.Regular → sd.view.parked.isSome → sd.view.held = none := fun hr => hr.1.collects
  cases handle_cases h with
  | ignored ti => exact .refl
  | proposal h => exact setProposal_moves hs h
  | blockPart h => exact addBlockPart_moves ha hs hc h
  | vote h => exact addVote_moves hs hc (fun hr => hr.2.settled) h
  | commit h => exact tryAddCommit_moves ha rfl ⟨_, _, rfl⟩ hs h
  | timeout hsc h =>
    exact (handleTimeout_advance (round_le_of_scheduled hs hsc) hc h).moves
  | txsAvailable h => exact (handleTxsAvailable_advance h).moves
  | peerMaj23 height round type peerID blockID =>
    have hcl := evolves_setPeerMaj23 sd.votes height round type peerID blockID
    refine (votes_advance (hcl.imp fun r t vs vs' hcm => ?_) fun _ hse => ?_).moves
    · rcases hcm with rfl | rfl
      · exact .inl rfl
      · exact .inr (.inr ⟨peerID, blockID, height, rfl⟩)
    intro hp hst B hn hpo
    refine hse hp hst B hn ?_
    exact (setPeerMaj23_majority sd height round type peerID blockID sd.round .prevote).symm.trans hpo

end StateData

end Tenderdash
