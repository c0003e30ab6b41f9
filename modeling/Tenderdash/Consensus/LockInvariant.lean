import Tenderdash.Consensus.EventMoves

/-!
The lock and the valid block of one node, over any sequence of events. A run is not regular if a conflicting
prevote completes the majority for the block the node is locked on: the valid block is then not updated.
-/

namespace Tenderdash

open Lib Go Run HeightVoteSet Option

namespace StateData

/-! ### Runs -/

/-- One event. A node that panicked does nothing any more. -/
def turn (cfg : Config) (node : Option StateData) (input : World × Event) : Option StateData :=
  node.bind fun sd => (sd.handle input.1 cfg input.2).toOption

def staysRegular (cfg : Config) (node : Option StateData) (input : World × Event) : Prop :=
  ∀ sd ∈ turn cfg node input, sd.Regular

instance (cfg : Config) (node : Option StateData) (input : World × Event) :
    Decidable (staysRegular cfg node input) := by
  unfold staysRegular
  infer_instance

structure Starts (state : ChainState) : Prop where
  lastBlockHeight_nonneg : 0 ≤ state.lastBlockHeight
  one_le_initialHeight : 1 ≤ state.initialHeight

lemma Starts.one_le_nextHeight {state : ChainState} (h : Starts state) : 1 ≤ state.nextHeight := by
  have := h.lastBlockHeight_nonneg
  have := h.one_le_initialHeight
  unfold ChainState.nextHeight
  split <;> omega

variable {cfg : Config} {state : ChainState} {lastCommit : Option Commit} {sd sd' : StateData} {event : Event}
  {W : World}

lemma ordered_initial (hs : Starts state) (h : initial state lastCommit = .ok sd) : sd.view.Ordered := by
  obtain ⟨_, -, h⟩ := of_bind h
  obtain ⟨votes, hv, h⟩ := of_bind h
  cases h
  have hp := hs.one_le_nextHeight
  rw [scheduleTimeout_view]
  refine ⟨View.Sane.start hv hp hp fun ti hti => ?_, le_refl _, View.settled_of_held rfl⟩
  rw [List.mem_singleton.mp hti]
  exact ⟨le_refl _, fun _ => le_refl _⟩

lemma regular_initial (h : initial state lastCommit = .ok sd) : sd.Regular := by
  obtain ⟨_, -, h⟩ := of_bind h
  obtain ⟨votes, hv, h⟩ := of_bind h
  cases h
  refine ⟨nofun, fun _ _ => ?_⟩
  show (twoThirdsMajority (votes.getVoteSet 0 .prevote)).all _ = true
  rw [majority_new hv]
  rfl

def reached (cfg : Config) (state : ChainState) (lastCommit : Option Commit) (inputs : List (World × Event)) :
    Option StateData :=
  run (turn cfg) (initial state lastCommit).toOption inputs

lemma turn_eq_some {node : Option StateData} {input : World × Event} (h : turn cfg node input = some sd') :
    ∃ sd, node = some sd ∧ sd.handle input.1 cfg input.2 = .ok sd' := by
  obtain ⟨sd, hn, h⟩ := bind_eq_some_iff.mp h
  exact ⟨sd, hn, toOption_eq_some.mp h⟩

section

variable {P : StateData → Prop} {node : Option StateData} {inputs : List (World × Event)}

lemma run_turn {ok : Option StateData → World × Event → Prop}
    (hs : ∀ {input sd sd'}, P sd → ok (some sd) input → turn cfg (some sd) input = some sd' →
      sd.handle input.1 cfg input.2 = .ok sd' → P sd')
    (hr : Admitted (turn cfg) ok node inputs) (hn : ∀ sd ∈ node, P sd) :
    ∀ sd ∈ run (turn cfg) node inputs, P sd := by
  refine hr.invariant (P := fun node : Option StateData => ∀ sd ∈ node, P sd) (fun node input h hok sd' hs' => ?_) hn
  obtain ⟨sd, rfl, hh⟩ := turn_eq_some hs'
  exact hs (h sd rfl) hok hs' hh

lemma run_turn_any (hs : ∀ {W event sd sd'}, P sd → sd.handle W cfg event = .ok sd' → P sd')
    (hn : ∀ sd ∈ node, P sd) : ∀ sd ∈ run (turn cfg) node inputs, P sd := by
  have hr : Admitted (turn cfg) (fun _ _ => True) node inputs := admitted_of_mem fun _ _ _ => trivial
  exact run_turn (fun h _ _ hh => hs h hh) hr hn

end

lemma sane_handle (hs : sd.view.Sane)
    (h : sd.handle W cfg event = .ok sd') : sd'.view.Sane ∧ sd.view.Grows sd'.view := by
  have hmo := handle_moves hs h
  refine hmo.invariant (P := fun v => v.Sane ∧ sd.view.Grows v) (fun v v' hv hm => ?_) ⟨hs, .refl _⟩
  exact ⟨hv.1.move hm, hv.2.trans (hv.1.grows hm)⟩

lemma ordered_handle (ho : sd.view.Ordered) (hr : sd.Regular)
    (hr' : sd'.Regular) (h : sd.handle W cfg event = .ok sd') : sd'.view.Ordered := by
  have hI : (intake W cfg event (sd.Regular ∧ sd'.Regular)).regular := ⟨hr, hr'⟩
  exact (handle_moves ho.toSane h).invariant (fun _ _ hv => hv.move hI) ho

structure LockInvariant (sd : StateData) : Prop where
  locked_le_valid : sd.lockedRound ≤ sd.validRound
  valid_le : sd.validRound ≤ sd.round
  locked_iff : sd.lockedBlock.isSome ↔ 0 ≤ sd.lockedRound
  locked_polka : sd.lockedBlock.isSome → twoThirdsMajority (sd.votes.prevotes sd.lockedRound) =
    some (blockIDOf sd.lockedBlock sd.lockedBlockParts)
  valid_iff : sd.validBlock.isSome ↔ 0 ≤ sd.validRound
  valid_polka : sd.validBlock.isSome → twoThirdsMajority (sd.votes.prevotes sd.validRound) =
    some (blockIDOf sd.validBlock sd.validBlockParts)

lemma identify_of_isSome {block : Option Block} (h : block.isSome) (parts : Option (PartSet Bytes)) :
    identify block parts = some (blockIDOf block parts) := by
  obtain ⟨b, rfl⟩ := isSome_iff_exists.mp h
  rfl

lemma lockInvariant_of_ordered (h : sd.view.Ordered) : sd.LockInvariant where
  locked_le_valid := h.locked_le_valid
  valid_le := h.valid_le
  locked_iff := by
    rw [← isSome_identify sd.lockedBlock sd.lockedBlockParts]
    exact h.locked_iff
  locked_polka := fun hs => (h.locked_polka _ (identify_of_isSome hs _)).2
  valid_iff := by
    rw [← isSome_identify sd.validBlock sd.validBlockParts]
    exact h.valid_iff
  valid_polka := fun hs => (h.valid_polka _ (identify_of_isSome hs _)).2

lemma sane_run_from (hsa : sd.view.Sane) (inputs : List (World × Event))
    (h : run (turn cfg) (some sd) inputs = some sd') : sd'.view.Sane ∧ sd.view.Grows sd'.view := by
  refine run_turn_any (P := fun sd' => sd'.view.Sane ∧ sd.view.Grows sd'.view) (fun h hh => ?_) ?_ sd' h
  · have hs := sane_handle h.1 hh
    exact ⟨hs.1, h.2.trans hs.2⟩
  rintro _ ⟨⟩
  exact ⟨hsa, .refl _⟩

theorem sane_run (hs : Starts state) (inputs : List (World × Event))
    (h : reached cfg state lastCommit inputs = some sd) : sd.view.Sane := by
  refine run_turn_any (P := fun sd => sd.view.Sane) (fun hsa hh => (sane_handle hsa hh).1) (fun sd₀ hs₀ => ?_) sd h
  exact (ordered_initial hs (toOption_eq_some.mp hs₀)).toSane

lemma ordered_run (hs : Starts state) {inputs : List (World × Event)}
    (hr : Admitted (turn cfg) (staysRegular cfg) (initial state lastCommit).toOption inputs)
    (h : reached cfg state lastCommit inputs = some sd) : sd.view.Ordered := by
  refine (run_turn (P := fun sd => sd.view.Ordered ∧ sd.Regular) (fun {_ _ sd₁} hP hok hs₁ hh => ?_) hr
    (fun sd₀ hs₀ => ?_) sd h).1
  · exact ⟨ordered_handle hP.1 hP.2 (hok sd₁ hs₁) hh, hok sd₁ hs₁⟩
  have hi := toOption_eq_some.mp hs₀
  exact ⟨ordered_initial hs hi, regular_initial hi⟩

/-- **The lock and the valid block.** In a run through regular states both have the majority of prevotes they
stand for, the lock is not ahead of the valid block nor the valid block of the round, and neither goes back
before the height ends. -/
theorem lock_invariant (cfg : Config) (state : ChainState) (lastCommit : Option Commit)
    (hstarts : Starts state) (first second : List (World × Event))
    (hrun : Admitted (turn cfg) (staysRegular cfg) (initial state lastCommit).toOption (first ++ second))
    (sd sd' : StateData) (hsd : reached cfg state lastCommit first = some sd)
    (hsd' : reached cfg state lastCommit (first ++ second) = some sd') :
    sd.LockInvariant ∧ sd'.LockInvariant ∧
      (sd.height < sd'.height ∨
        (sd.height = sd'.height ∧ sd.lockedRound ≤ sd'.lockedRound ∧ sd.validRound ≤ sd'.validRound)) := by
  have ho := ordered_run hstarts (admitted_append.mp hrun).1 hsd
  refine ⟨lockInvariant_of_ordered ho, lockInvariant_of_ordered (ordered_run hstarts hrun hsd'), ?_⟩
  unfold reached at hsd hsd'
  rw [run_append, hsd] at hsd'
  exact (sane_run_from ho.toSane second hsd').2

/-! ### A lock ahead of the valid block -/

def lockBlock : Block where
  hash := List.replicate hashSize 9
  stateID := List.replicate hashSize 9
  partSetHeader := ⟨1, fitHash [0, 9]⟩
  height := 1
  time := ⟨0, 0⟩
  appHash := []
  resultsHash := []
  proposerProTxHash := (sampleValidator 1).proTxHash
  coreChainLockedHeight := 0

def lockPart : Part Bytes := ⟨0, [9], ⟨1, 0, fitHash [0, 9], []⟩⟩

def lockConfig : Config where
  C := Crypto.sample
  decode bytes := if bytes = [9] then some lockBlock else none
  proTxHash := (sampleValidator 0).proTxHash
  hasPrivValidator := true
  replayMode := false
  waitForTxs := false
  createEmptyBlocksInterval := false
  dontAutoPropose := false

def lockWorld : World where
  processProposal _ block round :=
    .ok ⟨.processProposal, block.height, round, block.appHash, block.resultsHash⟩
  validateBlock _ _ _ _ := true
  verifyVoteExtension _ _ := .ok true
  extendVote _ _ := .ok []
  createProposalBlock _ _ _ := .error "no block"
  finalizeBlock _ state _ _ commit := .ok ({ state with lastBlockHeight := commit.height }, false)
  signVote _ _ := none
  signProposal _ _ := none
  getProposer _ _ := some (sampleValidator 1)
  newProposerSelector := true
  proposerWaits := false
  mayPropose := true
  proposalIsTimely := true
  validBlockIsTimely := true
  chainLockIsValid _ := true
  walSynced := true
  publishesCommit := true
  connected _ := true
  budget := none
  partProofAllowed := true

def lockState : ChainState := ⟨"chain", 1, 0, sampleValidators 4, 100, 0⟩

def lockID : BlockID := blockIDOf (some lockBlock) none

def lockProposal (round polRound : ℤ) : ProposalProto :=
  let proposal : ProposalProto := ⟨1, round, polRound, lockID, ⟨0, 0⟩, [], 0⟩
  match proposal.signID Crypto.sample "chain" 100 (sampleValidators 1).quorumHash with
  | .ok digest => { proposal with signature := List.replicate pubKeySize 2 ++ digest }
  | .error _ => proposal

def lockVote (type : SignedMsgType) (round : ℤ) (i : ℕ) (blockID : BlockID) : Vote :=
  let vote : Vote := ⟨type, 1, round, blockID, (sampleValidator i).proTxHash, i, [], []⟩
  match makeBlockSignItem Crypto.sample "chain" vote.toProto 100 (sampleValidators 1).quorumHash with
  | .ok item => { vote with blockSignature := List.replicate pubKeySize (UInt8.ofNat (i + 1)) ++ item.signHash }
  | .error _ => vote

def voteEvent (type : SignedMsgType) (round : ℤ) (i : ℕ) (blockID : BlockID) : Event :=
  if h : (lockVote type round i blockID).validateBasic = .ok () then
    .vote ⟨⟨i, lockVote type round i blockID⟩, h⟩ "peer" false
  else .timeout ⟨1, 0, .newHeight⟩

def lockingRound : List (World × Event) :=
  [.timeout ⟨1, 0, .newHeight⟩, .proposal (lockProposal 0 (-1)) "peer" false,
    .blockPart 1 lockPart "peer" false,
    voteEvent .prevote 0 0 lockID, voteEvent .prevote 0 1 lockID,
    voteEvent .prevote 0 2 lockID].map (lockWorld, ·)

def relockingRound : List (World × Event) :=
  [voteEvent .precommit 0 0 lockID, voteEvent .precommit 0 1 .nil,
    voteEvent .precommit 0 2 .nil, .timeout ⟨1, 0, .precommitWait⟩,
    .proposal (lockProposal 1 0) "peer" false, .blockPart 1 lockPart "peer" false,
    voteEvent .prevote 1 0 lockID, voteEvent .prevote 1 1 lockID,
    voteEvent .prevote 1 3 .nil, .peerMaj23 1 1 .prevote "peer" lockID,
    voteEvent .prevote 1 3 lockID, .timeout ⟨1, 1, .prevoteWait⟩].map (lockWorld, ·)

/-- The majority that the conflicting prevote completes does not reach the valid block, but it renews the
lock. -/
theorem lock_ahead_of_valid_block :
    (reached lockConfig lockState none (lockingRound ++ relockingRound)).map
      (fun sd => (sd.height, sd.round, sd.lockedRound, sd.validRound)) = some (1, 1, 1, 0) := by
  decide +kernel

/-- In round 0 both are set. -/
theorem lockingRound_locks : ∃ sd sd', reached lockConfig lockState none [] = some sd ∧
    reached lockConfig lockState none lockingRound = some sd' ∧ sd'.lockedRound = 0 ∧ sd'.LockInvariant := by
  have hs : (reached lockConfig lockState none []).isSome := by decide +kernel
  have hl : (reached lockConfig lockState none lockingRound).map (·.lockedRound) = some 0 := by
    decide +kernel
  obtain ⟨sd, hsd⟩ := isSome_iff_exists.mp hs
  obtain ⟨sd', hs', hr⟩ := map_eq_some_iff.mp hl
  exact ⟨sd, sd', hsd, hs', hr, (lock_invariant lockConfig lockState none ⟨by decide, by decide⟩ []
    lockingRound (by decide +kernel) sd sd' hsd hs').2.1⟩

end StateData

end Tenderdash
