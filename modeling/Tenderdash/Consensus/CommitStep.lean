import Tenderdash.Consensus.Ticker

/-!
The commit step. A majority of precommits takes a node to it, and the node finalizes the block at once or
collects it. So a node in the commit step does not hold the block of its commit round, for it would have
finalized it: `Lacks`. Most actions leave the commit step or leave alone what it rests on, `Rests`; the others
are those that complete a block, apply a commit or enter the step. Every event keeps `Lacks` up, as long as
the application accepts the commit that the precommits make: `handle_lacks`.
-/

namespace Tenderdash

open Lib Go HeightVoteSet Option

namespace View

/-- In the commit step, the node does not hold the decided block; a commit for another block may have taken its
place. -/
def Lacks (v : View) : Prop :=
  v.step = .applyCommit → ∀ blockID, blockID.isNil = false → v.majority v.commitRound = some blockID →
    (∀ c, v.parked = some c → c.blockID = blockID) → v.held ≠ some blockID

def Decided (v : View) : Prop :=
  v.step = .applyCommit → ∃ blockID, blockID.isNil = false ∧ v.majority v.commitRound = some blockID

structure Idles (v v' : View) : Prop where
  step : v'.step = v.step
  commitRound : v'.commitRound = v.commitRound
  majority : ∀ blockID, v'.majority v.commitRound = some blockID → v.majority v.commitRound = some blockID
  parked : v.parked = none ∨ v'.parked = v.parked
  held : v'.held = v.held ∨ v'.held = none

def Rests (v v' : View) : Prop := v'.step = .applyCommit → v.Idles v'

variable {v v' v'' : View}

lemma Idles.refl (v : View) : v.Idles v := ⟨rfl, rfl, fun _ h => h, .inr rfl, .inl rfl⟩

lemma Idles.trans (h : v.Idles v') (h' : v'.Idles v'') : v.Idles v'' where
  step := h'.step.trans h.step
  commitRound := h'.commitRound.trans h.commitRound
  majority B hB := by
    have hm := h'.majority B
    rw [h.commitRound] at hm
    exact h.majority B (hm hB)
  parked := by
    rcases h.parked with hn | heq
    · exact .inl hn
    rw [← heq]
    exact h'.parked
  held := by
    rcases h'.held with heq | hn
    · rw [heq]
      exact h.held
    · exact .inr hn

lemma Rests.refl (v : View) : v.Rests v := fun _ => .refl v

lemma Rests.trans (h : v.Rests v') (h' : v'.Rests v'') : v.Rests v'' := by
  intro hs
  have hl := h' hs
  exact (h (hl.step.symm.trans hs)).trans hl

lemma Rests.of_step (h : v'.step ≠ .applyCommit) : v.Rests v' := fun hs => absurd hs h

lemma Lacks.of_step (h : v.step ≠ .applyCommit) : v.Lacks := fun hs => absurd hs h

lemma Lacks.rests (h : v.Lacks) (hr : v.Rests v') : v'.Lacks := by
  intro hs B hni hm ha hh
  have hi := hr hs
  rw [hi.commitRound] at hm
  rcases hi.held with heq | hn
  · refine h (hi.step.symm.trans hs) B hni (hi.majority B hm) (fun c hc => ?_) (heq ▸ hh)
    rcases hi.parked with hp | hp
    · rw [hp] at hc
      cases hc
    · exact ha c (hp.trans hc)
  · rw [hn] at hh
    cases hh

end View

namespace StateData

variable {W : World} {cfg : Config} {sd sd' : StateData} {height round : ℤ}
  {result : Except ConsensusError Unit}

/-! ### Actions that leave a decision alone -/

lemma enterPrevote_rests (h : sd.enterPrevote W cfg height round = .ok (sd', result)) : sd.view.Rests sd'.view := by
  rcases (enterPrevote_step h).2 with rfl | hs
  · exact .refl _
  · exact .of_step (hs.trans_ne (by decide))

lemma enterPrevoteWait_rests (h : sd.enterPrevoteWait height round = .ok sd') : sd.view.Rests sd'.view := by
  unfold enterPrevoteWait at h
  split at h
  · cases h
    exact .refl _
  split at h
  · cases h
  cases h
  exact .of_step (show RoundStep.prevoteWait ≠ .applyCommit by decide)

lemma enterPrecommit_rests (h : sd.enterPrecommit W cfg height round = .ok sd') : sd.view.Rests sd'.view := by
  unfold enterPrecommit at h
  split at h
  · cases h
    exact .refl _
  obtain ⟨sd₁, -, h⟩ := of_bind h
  cases h
  exact .of_step (show RoundStep.precommit ≠ .applyCommit by decide)

lemma scheduleTimeout_rests (sd : StateData) (height round : ℤ) (step : RoundStep) :
    sd.view.Rests (sd.scheduleTimeout height round step).view := by
  rw [scheduleTimeout_view]
  exact fun _ => ⟨rfl, rfl, fun _ h => h, .inr rfl, .inl rfl⟩

lemma enterPrecommitWait_rests (h : sd.enterPrecommitWait height round = .ok sd') : sd.view.Rests sd'.view := by
  unfold enterPrecommitWait at h
  split at h
  · cases h
    exact .refl _
  split at h
  · cases h
  cases h
  exact fun hs => (scheduleTimeout_rests sd height round .precommitWait hs).trans
    ⟨rfl, rfl, fun _ h => h, .inr rfl, .inl rfl⟩

lemma Talks.rests (h : Talks sd sd') : sd.view.Rests sd'.view := by
  rw [h.view]
  exact .refl _

lemma entered_rests (W : World) (cfg : Config) : Entered W cfg fun sd sd' => sd.view.Rests sd'.view where
  refl sd := .refl sd.view
  trans h h' := h.trans h'
  scheduled := scheduleTimeout_rests
  started hs := .of_step ((startRound_step hs).trans_ne (by decide))
  consulted hc := hc.talks.rests
  proposing _ _ := .of_step (show RoundStep.propose ≠ .applyCommit by decide)
  prevote := enterPrevote_rests
  prevoteWait := enterPrevoteWait_rests
  precommit := enterPrecommit_rests

section

variable (h : sd.enterNewRound W cfg height round = .ok (sd', result))

include h

lemma enterNewRound_cases :
    sd' = sd ∨ sd'.step ≠ .applyCommit := by
  unfold enterNewRound at h
  split at h
  · cases h
    exact .inl rfl
  obtain ⟨sd₁, hst, h⟩ := of_bind h
  have hs : sd₁.step ≠ .applyCommit := (startRound_step hst).trans_ne (by decide)
  refine .inr ?_
  split at h
  · cases h
  split at h
  · split at h <;> cases h
    · exact hs
    · exact hs
  split at h
  · cases h
    exact hs
  · exact fun hc => hs (((entered_rests W cfg).propose h hc).step.symm.trans hc)

lemma enterNewRound_rests : sd.view.Rests sd'.view :=
  (entered_rests W cfg).newRound h

end

lemma retargetTo_rests (sd : StateData) (blockID : BlockID) : sd.view.Rests (sd.retargetTo blockID).view := by
  obtain ⟨proposal, heq | ⟨parts, heq⟩⟩ := retargetTo_cases sd blockID <;> rw [heq]
  · exact .refl _
  · exact fun _ => ⟨rfl, rfl, fun _ h => h, .inr rfl, .inr rfl⟩

variable {commit : Commit} {vote : Vote}

lemma adoptCommit_rests (hn : sd.commit = none) : sd.view.Rests (sd.adoptCommit commit).view := by
  have hp : (sd.retargetTo commit.blockID).view.parked = none := by
    obtain ⟨proposal, heq | ⟨parts, heq⟩⟩ := retargetTo_cases sd commit.blockID <;> rw [heq] <;> exact hn
  exact (retargetTo_rests sd commit.blockID).trans fun _ => ⟨rfl, rfl, fun _ h => h, .inl hp, .inl rfl⟩

lemma updateValidBlock_rests (sd : StateData) : sd.view.Rests sd.updateValidBlock.view := by
  unfold updateValidBlock
  dsimp only
  split <;> exact fun _ => ⟨rfl, rfl, fun _ h => h, .inr rfl, .inl rfl⟩

lemma validateOnComplete_rests (sd : StateData) : sd.view.Rests sd.validateOnComplete.view := by
  unfold validateOnComplete
  split
  · exact .refl _
  split
  · exact updateValidBlock_rests sd
  · exact .refl _

/-! ### Finalizing -/

def AcceptsCommit (W : World) (sd : StateData) : Prop :=
  ∀ precommits, sd.votes.precommits sd.commitRound = some precommits →
    ∀ commit, precommits.makeCommit = .ok commit → sd.expectations.lookup commit = none ∧
      ∃ vote, commit.getCanonicalVote = .ok vote ∧ ∀ n, W.verifyVoteExtension n vote ≠ .ok false

abbrev Accepting (W : World) (sd : StateData) : Prop := sd.step = .applyCommit → sd.AcceptsCommit W

lemma block_of_held {blockID : BlockID} (hn : blockID.isNil = false) (hh : sd.view.held = some blockID) :
    ∃ block, sd.proposalBlock = some block ∧ block.hash.length ≠ 0 ∧
      blockID = ⟨block.hash, (sd.proposalBlockParts.map PartSet.header).getD block.partSetHeader, block.stateID⟩ := by
  obtain ⟨block, hb, rfl⟩ := Option.map_eq_some_iff.mp hh
  unfold blockIDOf at hn ⊢
  dsimp only at hn ⊢
  by_cases hl : block.hash.length = 0
  · rw [if_pos hl, BlockID.isNil_nil] at hn
    cases hn
  · exact ⟨block, hb, hl, if_neg hl⟩

lemma held_ne_of_verifyCommitBlock (hn : commit.blockID.isNil = false)
    (hp : sd.view.held.isSome → sd.view.heldParts = true) (h : sd.verifyCommitBlock commit ≠ .ok true) :
    sd.view.held ≠ some commit.blockID := by
  intro hh
  obtain ⟨parts, hps⟩ := isSome_iff_exists.mp (hp (by rw [hh]; rfl))
  obtain ⟨block, hb, hl, heq⟩ := block_of_held hn hh
  refine h ?_
  unfold verifyCommitBlock
  rw [hb, heq, hps]
  simp [hasHeader, hashesTo, hl]

lemma applyCommit_cases (h : sd.applyCommit W commit = .ok (sd', result))
    (hpo : 1 ≤ sd.view.height) (hr : 0 ≤ sd.view.commitRound) :
    (sd' = sd ∧ result ≠ .ok () ∧ sd.verifyCommitBlock commit ≠ .ok true) ∨ sd'.step = .newHeight := by
  unfold applyCommit at h
  split at h
  · next he =>
    cases h
    exact .inl ⟨rfl, nofun, by rw [he]; nofun⟩
  · next block hv hb =>
    obtain ⟨sd₁, hp, h⟩ := of_bind h
    obtain ⟨_, -, h⟩ := of_bind h
    dsimp only at h
    split_ifs at h
    · cases h
    obtain ⟨⟨state, immediately⟩, -, h⟩ := of_bind h
    obtain ⟨sd₂, hu, h⟩ := of_bind h
    cases h
    have hvi := (mustEnsureProcess_consults hp).view
    have hp₁ : 1 ≤ sd₁.view.height := hvi ▸ hpo
    have hr₁ : 0 ≤ sd₁.view.commitRound := hvi ▸ hr
    obtain ⟨-, lastCommit, votes, -, rfl⟩ := updateToState_spec hu hp₁ hr₁
    refine .inr ?_
    split <;> rfl
  · next he hn =>
    cases h
    refine .inl ⟨rfl, nofun, fun hv => ?_⟩
    cases hb : sd.proposalBlock with
    | none =>
      unfold verifyCommitBlock at hv
      rw [hb] at hv
      cases hv
    | some block => exact hn block hv hb

lemma verifyCommitExtensions_ok (hl : sd'.expectations.lookup commit = none)
    (hv : commit.getCanonicalVote = .ok vote) (ha : ∀ n, W.verifyVoteExtension n vote ≠ .ok false)
    (h : sd.verifyCommitExtensions W commit = .ok (sd', result)) : result = .ok () := by
  unfold verifyCommitExtensions at h
  split at h
  · next hk =>
    cases h
    rw [hl] at hk
    cases hk
  rw [hv] at h
  obtain ⟨settled, hs, h⟩ := of_bind h
  cases hs
  obtain ⟨ok, hok, h⟩ := of_bind h
  cases ok with
  | true =>
    cases h
    rfl
  | false => exact absurd hok (ha _)

lemma finalizeCommit_lacks (hpo : 1 ≤ sd.view.height) (hro : sd.view.step = .applyCommit → 0 ≤ sd.view.commitRound)
    (hhe : sd.height = height) (h : sd.finalizeCommit W height = .ok sd')
    (ha : sd'.Accepting W) : sd'.view.Lacks := by
  unfold finalizeCommit at h
  split at h
  · next hla =>
    cases h
    exact .of_step (hla.resolve_left (not_not.mpr hhe))
  next hno =>
  have hs : sd.view.step = .applyCommit := not_not.mp (not_or.mp hno).2
  split at h
  · cases h
  next precommits hp =>
  split at h
  · cases h
  next blockID hm =>
  split_ifs at h with hh hha
  obtain ⟨commit, hc, h⟩ := of_bind h
  have hpa : sd.view.heldParts = true := by
    obtain ⟨parts, hpa, -⟩ := (any_eq_true ..).mp (Bool.eq_true_of_not_eq_false hh)
    simp only [view, hpa, isSome_some]
  -- what the application accepts in the end is this commit
  have ho : sd'.view = sd.view → sd'.expectations.lookup commit = none ∧
      ∃ vote, commit.getCanonicalVote = .ok vote ∧ ∀ n, W.verifyVoteExtension n vote ≠ .ok false := by
    intro hv
    have hs' : sd'.step = .applyCommit := (congrArg View.step hv).trans hs
    refine ha hs' precommits ?_ commit hc
    rw [show sd'.votes = sd.votes from congrArg View.votes hv,
      show sd'.commitRound = sd.commitRound from congrArg View.commitRound hv]
    exact hp
  split at h
  · next e hr =>
    cases h
    exfalso
    unfold refuseUnprocessedCommit at hr
    rw [(ho rfl).1] at hr
    split at hr <;> cases hr
  · obtain ⟨sd₁, hpr, h⟩ := of_bind h
    obtain ⟨⟨sd₂, verified⟩, hve, h⟩ := of_bind h
    have hv := Consults.view ((mustEnsureProcess_consults hpr).tail (.asked hve))
    cases verified with
    | error e =>
      cases h
      obtain ⟨hl, vote, hvo, ha⟩ := ho hv
      cases verifyCommitExtensions_ok hl hvo ha hve
    | ok _ =>
      obtain ⟨⟨sd₃, applied⟩, hap, h⟩ := of_bind h
      cases h
      rcases applyCommit_cases hap (by rw [hv]; exact hpo) (by rw [hv]; exact hro hs) with ⟨rfl, -, hve⟩ | hne
      · intro _ B hn hm' _
        have hB : commit.blockID = B := by
          rw [hv] at hm'
          change twoThirdsMajority (sd.votes.precommits sd.commitRound) = _ at hm'
          rw [hp] at hm'
          exact blockID_of_makeCommit hc hm'
        rw [← hB] at hn ⊢
        exact held_ne_of_verifyCommitBlock hn (by rw [hv]; exact fun _ => hpa) hve
      · exact .of_step (hne.trans_ne (by decide))

lemma held_ne_of_hashesTo {blockID : BlockID} (hn : blockID.isNil = false)
    (h : hashesTo sd.proposalBlock blockID.hash = false) : sd.view.held ≠ some blockID := by
  intro hh
  obtain ⟨block, hb, hl, rfl⟩ := block_of_held hn hh
  rw [hb] at h
  simp [hashesTo, hl] at h

/-- **A decided block that is held is finalized.** -/
lemma tryFinalizeCommit_lacks (hp : 1 ≤ sd.view.height)
    (hr : sd.view.step = .applyCommit → 0 ≤ sd.view.commitRound) (h : sd.tryFinalizeCommit W height = .ok sd')
    (ha : sd'.Accepting W) : sd'.view.Lacks := by
  unfold tryFinalizeCommit at h
  split at h
  · cases h
  next hh =>
  split at h
  · next hn =>
    cases h
    intro _ B _ hma
    rw [show twoThirdsMajority (sd.votes.precommits sd.commitRound) = some B from hma] at hn
    cases hn
  · next blockID hd =>
    split at h
    · next hm =>
      cases h
      intro _ B hni hma _
      rw [show twoThirdsMajority (sd.votes.precommits sd.commitRound) = some B from hma] at hd
      cases hd
      exact held_ne_of_hashesTo hni (hm.resolve_left (by rw [hni]; nofun))
    · exact finalizeCommit_lacks hp hr (not_not.mp hh) h ha

lemma enterCommit_lacks {commitRound : ℤ} (hp : 1 ≤ sd.view.height) (hr : 0 ≤ commitRound)
    (h : sd.enterCommit W height commitRound = .ok sd') (hl : sd.view.Lacks)
    (ha : sd'.Accepting W) : sd'.view.Lacks := by
  unfold enterCommit at h
  split at h
  · cases h
    exact hl
  split at h
  · cases h
  next blockID _ =>
  refine tryFinalizeCommit_lacks ?_ ?_ h ha
  · rw [(atCommit_frame sd blockID commitRound).1]
    exact hp
  · exact fun _ => hr

lemma updateStateData_parts (blockID : BlockID) (hh : sd.view.held.isSome → sd.view.heldParts = true)
    (hl : sd.view.locked.isSome → sd.view.lockedParts = true) :
    (sd.updateStateData blockID).view.held.isSome → (sd.updateStateData blockID).view.heldParts = true := by
  obtain ⟨proposal, heq | heq | ⟨parts, heq⟩⟩ := updateStateData_cases sd blockID <;> rw [heq]
  · exact hh
  · exact hl
  · exact nofun

lemma updateStateData_parked (sd : StateData) (blockID : BlockID) :
    (sd.updateStateData blockID).view.parked = sd.view.parked := by
  obtain ⟨proposal, heq | heq | ⟨parts, heq⟩⟩ := updateStateData_cases sd blockID <;> rw [heq] <;> rfl

lemma addCommit_lacks (h : sd.addCommit W cfg commit = .ok (sd', result)) (hpo : 1 ≤ sd.view.height)
    (hr : 0 ≤ commit.round) (hp : sd.view.parked = some commit) (hhe : sd.view.held.isSome → sd.view.heldParts = true)
    (hlo : sd.view.locked.isSome → sd.view.lockedParts = true) : sd'.view.Lacks := by
  rcases addCommit_cases h with ⟨hno, rfl⟩ | ⟨sd₁, applied, hap, hen⟩
  · intro _ B hn _ _ hh'
    simp only [view, hno, identify_none] at hh'
    cases hh'
  have hh := (atCommit_frame sd commit.blockID commit.round).1
  rcases applyCommit_cases hap (by rw [hh]; exact hpo) hr with ⟨rfl, he, hv⟩ | hs
  · rcases hen with rfl | ⟨hok, -⟩
    · intro _ B hn _ ha
      have hB : commit.blockID = B := ha commit ((updateStateData_parked sd commit.blockID).trans hp)
      rw [← hB] at hn ⊢
      exact held_ne_of_verifyCommitBlock hn (updateStateData_parts commit.blockID hhe hlo) hv
    · exact absurd hok he
  have hl : sd₁.view.Lacks := .of_step (hs.trans_ne (by decide))
  rcases hen with rfl | ⟨-, entered, hne⟩
  · exact hl
  · exact hl.rests (enterNewRound_rests hne)

lemma proposalCompleted_lacks (hpo : 1 ≤ sd.view.height) (hr : sd.view.step = .applyCommit → 0 ≤ sd.view.commitRound)
    (h : sd.proposalCompleted W cfg height = .ok (sd', result)) (ha : sd'.Accepting W) :
    sd'.view.Lacks := by
  have hh := (validateOnComplete_moves (I := intake W cfg .txsAvailable False) sd).height_eq
  rcases proposalCompleted_cases h with ⟨hle, sd₁, entered, hpr, hen⟩ | hf | ⟨hs, rfl⟩
  · have he : sd.validateOnComplete.view.Lacks := by
      refine .of_step fun hs => ?_
      rw [show sd.validateOnComplete.step = _ from hs] at hle
      exact absurd hle (by decide)
    have hl := he.rests (enterPrevote_rests hpr)
    rcases hen with rfl | hp
    · exact hl
    · exact hl.rests (enterPrecommit_rests hp)
  · refine tryFinalizeCommit_lacks (by rw [hh]; exact hpo) (fun hc => ?_) hf ha
    have hi := validateOnComplete_rests sd hc
    rw [hi.commitRound]
    exact hr (hi.step.symm.trans hc)
  · exact .of_step hs

/-! ### Commits from peers -/

section Peers

variable {commit : Commit} {peerID : String} {fromReplay : Bool}

lemma addCurrentCommit_lacks (hs : sd.view.Sane) (hl : sd.view.Lacks) (hn : sd.commit = none)
    (h : sd.addCurrentCommit W cfg commit peerID fromReplay = .ok (sd', result)) : sd'.view.Lacks := by
  rcases addCurrentCommit_cases h with ⟨sd₁, hc, he⟩ | ⟨-, rfl⟩
  · have hl₁ := hl.rests hc.consults.talks.rests
    rcases he with rfl | ⟨e, rfl⟩ | ⟨hv, ha⟩
    · exact hl₁
    · exact hl₁.rests (handleCommitVerifyError_consults W sd₁ e peerID fromReplay).talks.rests
    rw [← hc.consults.view] at hs
    exact addCommit_lacks ha hs.height_pos hv.2.1 rfl hs.held_parts hs.locked_parts
  · exact hl.rests (adoptCommit_rests hn)

lemma addLaterCommit_lacks (hs : sd.view.Sane) (hl : sd.view.Lacks) (hn : sd.commit = none)
    (hve : sd.view.Verifies cfg.C commit)
    (h : (sd.adoptCommit commit).addLaterCommit W cfg commit peerID fromReplay = .ok (sd', result)) :
    sd'.view.Lacks := by
  obtain ⟨sd₁, hc, ⟨e, rfl⟩ | ⟨sd₂, entered, hne, he⟩⟩ := addLaterCommit_cases h
  · have hgu : (view { sd₁ with commit := none }).Lacks := by
      rw [givenUp_view hn hc.consults.talks]
      exact hl.rests (retargetTo_rests sd commit.blockID)
    exact hgu.rests (handleCommitVerifyError_consults W _ e peerID fromReplay).talks.rests
  rcases he with rfl | hadd
  · exact ((hl.rests (adoptCommit_rests hn)).rests hc.consults.talks.rests).rests (enterNewRound_rests hne)
  have had : Moves (intake W cfg (.commit commit peerID fromReplay) False) sd.view (sd.adoptCommit commit).view :=
    adoptCommit_moves hn hs.queuedFor_le ⟨peerID, fromReplay, rfl⟩ hve
  have ha := (enterNewRound_advance (I := intake W cfg (.commit commit peerID fromReplay) False) hne).1
  rw [hc.consults.view] at ha
  have hs₂ := Moves.invariant (fun _ _ hv => hv.move) (had.trans ha.moves) hs
  exact addCommit_lacks hadd hs₂.height_pos hve.2.1 ha.parked_eq hs₂.held_parts hs₂.locked_parts

lemma tryAddCommit_lacks (hs : sd.view.Sane) (hl : sd.view.Lacks)
    (h : sd.tryAddCommit W cfg commit peerID fromReplay = .ok (sd', result)) : sd'.view.Lacks := by
  cases tryAddCommit_cases h with
  | ignored => exact hl
  | refused e => exact hl.rests (handleCommitVerifyError_consults W _ e peerID fromReplay).talks.rests
  | queued => exact hl.rests fun _ => ⟨rfl, rfl, fun _ h => h, .inr rfl, .inl rfl⟩
  | current hn h => exact addCurrentCommit_lacks hs hl hn h
  | later hn hv h => exact addLaterCommit_lacks hs hl hn hv h

end Peers

/-! ### Block parts -/

lemma addBlockPart_lacks {part : Part Bytes} (hs : sd.view.Sane) (hl : sd.view.Lacks)
    (h : sd.addBlockPart W cfg height part = .ok (sd', result))
    (ha : sd'.Accepting W) : sd'.view.Lacks := by
  rcases addBlockPart_cases h with hvi | ⟨proposal, block, parts, ⟨-, hco⟩ | ⟨parked, sd₁, found, hp, hse, hca⟩⟩
  · rw [hvi]
    exact hl
  · refine proposalCompleted_lacks ?_ ?_ hco ha
    · exact hs.height_pos
    · exact hs.commitRound_nonneg
  obtain ⟨hvi, -, hcm, -, hf⟩ := selectParkedCommit_spec hse hp
  rcases hca with ⟨rfl, hco⟩ | ⟨commit, sd₂, r, rfl, hap, hca⟩
  · refine proposalCompleted_lacks ?_ ?_ hco ha <;> rw [hvi]
    · exact hs.height_pos
    · exact hs.commitRound_nonneg
  have hr := round_nonneg_of_selected hs (hf commit rfl)
  have hs₁ : sd₁.view.Sane := by
    rw [hvi]
    exact { hs with
      held_parts := fun _ => rfl
      parked_round := by
        rintro c ⟨⟩
        exact hr
      queued_round := by
        rintro c ⟨-, hc⟩
        cases hc
      queuedFor_le := le_refl _ }
  rcases hca with rfl | ⟨-, hco⟩
  · exact addCommit_lacks hap hs₁.height_pos hr hcm hs₁.held_parts hs₁.locked_parts
  have hs₂ := Moves.invariant (fun _ _ hv => hv.move) (addCommit_moves
    (answers_intake W cfg .txsAvailable False) hap hs₁.height_pos hr hcm) hs₁
  exact proposalCompleted_lacks hs₂.height_pos hs₂.commitRound_nonneg hco ha

/-! ### Votes -/

lemma votes_rests {I : Intake} {votes : HeightVoteSet} (hd : sd.view.Decided)
    (hv : Evolves I.change sd.votes votes) : sd.view.Rests (StateData.view { sd with votes := votes }) := by
  intro hs
  refine ⟨rfl, rfl, fun B hB => ?_, .inr rfl, .inl rfl⟩
  obtain ⟨B', -, hB'⟩ := hd hs
  have hm := hv.majority_mono (fun vs vs' => I.change_majority sd.commitRound .precommit vs vs' B') hB'
  rw [show twoThirdsMajority (votes.getVoteSet sd.commitRound .precommit) = some B from hB] at hm
  rw [hB', ← hm]

lemma updateValidOnPolka_rests (sd : StateData) (vote : Vote) : sd.view.Rests (sd.updateValidOnPolka vote).view := by
  unfold updateValidOnPolka
  split
  · exact .refl _
  split
  · exact .refl _
  split
  · exact (updateValidBlock_rests sd).trans (retargetTo_rests _ _)
  · exact retargetTo_rests _ _

lemma dispatchPrecommit_lacks (hpo : 1 ≤ sd.view.height) (hr : 0 ≤ vote.round)
    (hl : sd.view.Lacks) (h : sd.dispatchPrecommit W cfg vote = .ok sd')
    (ha : sd'.Accepting W) : sd'.view.Lacks := by
  rcases dispatchPrecommit_cases h with rfl | ⟨sd₁, entered, hn, he⟩
  · exact hl
  have hl₁ := hl.rests (enterNewRound_rests hn)
  rcases he with hw | ⟨sd₂, hp, he⟩
  · exact hl₁.rests (enterPrecommitWait_rests hw)
  have hl₂ := hl₁.rests (enterPrecommit_rests hp)
  rcases he with hw | ⟨blockID, sd₃, entered, -, -, hc, hn'⟩
  · exact hl₂.rests (enterPrecommitWait_rests hw)
  have hp₂ : 1 ≤ sd₂.view.height := by
    obtain ⟨had, hle⟩ := enterNewRound_advance (I := intake W cfg .txsAvailable False) hn
    rw [(enterPrecommit_advance (I := intake W cfg .txsAvailable False) (hle rfl) False.elim
      hp).height_eq, had.height_eq]
    exact hpo
  rcases enterNewRound_cases hn' with rfl | hs
  · exact enterCommit_lacks hp₂ hr hc hl₂ ha
  · exact .of_step hs

section Vote

variable {msg : VoteMessage} {peerID : String} {fromReplay : Bool} {outcome : Except ConsensusError Bool}

lemma addToVoteSet_lacks {check : VoteSet.VoteCheck} (hm : check.Minted cfg.C) (hs : sd.view.Sane)
    (hr : 0 ≤ msg.ref.vote.round) (hde : sd.view.Decided) (hl : sd.view.Lacks)
    (h : sd.addToVoteSet W cfg msg.ref check = .ok (sd', outcome))
    (ha : sd'.Accepting W) : sd'.view.Lacks := by
  obtain ⟨votes, added, err, had, he⟩ := addToVoteSet_cases h
  have hl₁ := hl.rests (votes_rests hde (changes_of_addsTo W "" false False hm (evolves_addVote had)))
  rcases he with rfl | hd | ⟨-, hd⟩
  · exact hl₁
  · exact (hl₁.rests (updateValidOnPolka_rests _ _)).rests ((entered_rests W cfg).dispatchPrevote hd)
  refine dispatchPrecommit_lacks ?_ hr hl₁ hd ha
  exact hs.height_pos

lemma handleVoteError_accepts {e : ConsensusError} (h : sd.handleVoteError cfg vote e = (sd', outcome))
    (ha : sd'.Accepting W) : sd.Accepting W := by
  unfold handleVoteError at h
  split at h
  · split_ifs at h <;> cases h <;> exact ha
  cases h
  exact ha

lemma addVote_lacks (hsa : sd.view.Sane) (hd : sd.view.Decided) (hl : sd.view.Lacks)
    (h : sd.addVote W cfg msg.ref peerID fromReplay = .ok (sd', outcome))
    (ha : sd'.Accepting W) : sd'.view.Lacks := by
  obtain ⟨sd₁, sd₂, hsh, hs, hr⟩ := addVote_cases h
  have he : sd'.view = sd₂.view ∧ sd₂.Accepting W := by
    rcases hr with rfl | ⟨e, hr⟩
    · exact ⟨rfl, ha⟩
    · exact ⟨(handleVoteError_consults W hr).view, handleVoteError_accepts hr ha⟩
  rw [he.1]
  rw [← hsh.consults.view] at hsa hd hl
  rcases hs with rfl | ⟨check, stored, hm, had⟩
  · exact hl
  · exact addToVoteSet_lacks hm hsa msg.round_nonneg hd hl had he.2

end Vote

/-! ### Proposals and timeouts -/

lemma setProposal_rests {proposal : ProposalProto} {budget : Option VerificationBudget} (hs : sd.view.Sane)
    (h : sd.setProposal W cfg proposal budget = .ok (sd', result)) : sd.view.Rests sd'.view := by
  rcases setProposal_cases h with rfl | rfl
  · exact .refl _
  refine fun _ => ⟨rfl, rfl, fun _ h => h, .inr rfl, ?_⟩
  cases hp : sd.proposalBlockParts with
  | some parts => exact .inl (by simp only [getD_some, view, hp])
  | none =>
    have hb := sd.proposalBlock_eq_none hs hp
    exact .inr (by simp only [view, hb, identify_none])

/-! ### Events -/

/-- **No event leaves a decided block held in the commit step.** -/
theorem handle_lacks {event : Event} (hs : sd.view.Sane) (hd : sd.view.Decided) (hl : sd.view.Lacks)
    (h : sd.handle W cfg event = .ok sd') (ha : sd'.Accepting W) : sd'.view.Lacks := by
  cases handle_cases h with
  | ignored ti => exact hl
  | proposal h => exact hl.rests (setProposal_rests hs h)
  | blockPart h => exact addBlockPart_lacks hs hl h ha
  | vote h => exact addVote_lacks hs hd hl h ha
  | commit h => exact tryAddCommit_lacks hs hl h
  | timeout _ h => exact hl.rests ((entered_rests W cfg).handleTimeout h)
  | txsAvailable h => exact hl.rests ((entered_rests W cfg).handleTxsAvailable h)
  | peerMaj23 height round type peerID blockID =>
    refine hl.rests fun _ => ⟨rfl, rfl, fun B hB => ?_, .inr rfl, .inl rfl⟩
    rw [← hB]
    exact (setPeerMaj23_majority sd height round type peerID blockID sd.commitRound .precommit).symm

end StateData

end Tenderdash
