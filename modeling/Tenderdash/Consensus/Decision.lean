import Tenderdash.Consensus.CommitStep

/-!
What follows from a decision. A node in the commit step finalizes the decided block as soon as it holds it, but
the commit step is not for ever. A majority of any votes in a later round starts that round, and a node that
comes to hold the decided block afterwards, as the proposal of that round, does not look back.
-/

namespace Tenderdash.StateData

open Lib Go Run HeightVoteSet Option

variable {W : World} {cfg : Config} {sd sd' : StateData} {event : Event}

/-! ### Where majorities come from -/

def precommitRound : Event → Option ℤ
  | .vote msg _ _ => if msg.ref.vote.type = .precommit then some msg.ref.vote.round else none
  | _ => none

lemma majority_of_moves {regular : Prop} {v v' : View} (h : Moves (intake W cfg event regular) v v')
    {r : ℤ} {blockID : BlockID} (hm : v'.majority r = some blockID) :
    (v'.height = v.height ∧ v.majority r = some blockID) ∨ precommitRound event = some r := by
  by_cases hvt : precommitRound event = some r
  · exact .inr hvt
  refine .inl (Moves.invariant (P := fun v' => v'.majority r = some blockID →
    v'.height = v.height ∧ v.majority r = some blockID) (fun v₁ v₂ hv hmo hm => ?_) h (fun hm => ⟨rfl, hm⟩) hm)
  have hs : ∀ {votes : HeightVoteSet}, Evolves (intake W cfg event regular).change v₁.votes votes →
      twoThirdsMajority (votes.precommits r) = v₁.majority r := by
    intro votes hvo
    refine hvo.majority_eq fun vs vs' hc => ?_
    rcases hc with rfl | ⟨msg, peerID, fromReplay, _, _, _, rfl, -, hr, ht, -⟩ | ⟨peerID, id, height, rfl⟩
    · rfl
    · refine absurd ?_ hvt
      rw [precommitRound, if_pos ht.symm, hr]
    · exact VoteSet.setPeerMaj23_maj23 vs peerID id height r
  cases hmo with
  | votes votes hvo => exact hv ((hs hvo).symm.trans hm)
  | polka votes _ hvo => exact hv ((hs hvo).symm.trans hm)
  | apply state votes _ _ _ hvo => exact (not_majority_new hvo hm).elim
  | _ => exact hv hm

/-! ### Decisions -/

/-- A node that holds a complete block has no majority of precommits for it: it has finalized it. -/
def DecisionComplete (sd : StateData) : Prop :=
  ∀ round blockID, blockID.isNil = false → twoThirdsMajority (sd.votes.precommits round) = some blockID →
    sd.proposalBlockParts.any (·.isComplete) = true → blockIDOf sd.proposalBlock sd.proposalBlockParts ≠ blockID

structure Decides (event : Event) (sd sd' : StateData) : Prop where
  stays : sd'.height = sd.height → sd.step = .applyCommit →
    sd'.step = .applyCommit ∧ sd'.view.majority sd'.commitRound = sd.view.majority sd.commitRound
  enters : ∀ r ∈ precommitRound event, ∀ blockID ∈ sd'.view.majority r, blockID.isNil = false →
    sd'.step = .applyCommit ∧ sd'.view.majority sd'.commitRound = some blockID
  /-- A commit that waits is for the decided block. -/
  agrees : sd'.step = .applyCommit → ∃ blockID ∈ sd'.view.majority sd'.commitRound,
    blockID.isNil = false ∧ ∀ commit ∈ sd'.commit, commit.blockID = blockID

def keepsDecision (cfg : Config) (node : Option StateData) (input : World × Event) : Prop :=
  ∀ sd ∈ node, ∀ sd' ∈ turn cfg node input, Decides input.2 sd sd'

instance (event : Event) (sd sd' : StateData) : Decidable (Decides event sd sd') :=
  decidable_of_iff _ ⟨fun h => ⟨h.1, h.2.1, h.2.2⟩, fun h => (⟨h.stays, h.enters, h.agrees⟩ : _ ∧ _ ∧ _)⟩

instance (cfg : Config) (node : Option StateData) (input : World × Event) :
    Decidable (keepsDecision cfg node input) := by
  unfold keepsDecision
  infer_instance

def acceptsOwn (cfg : Config) (node : Option StateData) (input : World × Event) : Prop :=
  ∀ sd ∈ turn cfg node input, sd.step = .applyCommit → sd.AcceptsCommit input.1

structure Pending (sd : StateData) : Prop where
  leads : ∀ r blockID, blockID.isNil = false → sd.view.majority r = some blockID →
    sd.step = .applyCommit ∧ sd.view.majority sd.commitRound = some blockID
  agrees : sd.step = .applyCommit → ∃ blockID ∈ sd.view.majority sd.commitRound,
    blockID.isNil = false ∧ ∀ commit ∈ sd.commit, commit.blockID = blockID
  lacks : sd.view.Lacks

lemma pending_initial {state : ChainState} {lastCommit : Option Commit} (h : initial state lastCommit = .ok sd) :
    sd.Pending := by
  obtain ⟨_, -, h⟩ := of_bind h
  obtain ⟨votes, hv, h⟩ := of_bind h
  cases h
  refine ⟨fun r B _ hm => ?_, nofun, .of_step (show RoundStep.newHeight ≠ .applyCommit by decide)⟩
  exact (not_majority_new hv hm).elim

lemma Pending.handle (hp : sd.Pending) (hsa : sd.view.Sane) (h : sd.handle W cfg event = .ok sd')
    (hd : Decides event sd sd') (ha : sd'.Accepting W) : sd'.Pending where
  leads r B hn hm := by
    rcases majority_of_moves (handle_moves hsa h) hm with ⟨hh, ho⟩ | hr
    · obtain ⟨hs, hde⟩ := hp.leads r B hn ho
      obtain ⟨hs', hsm⟩ := hd.stays hh hs
      exact ⟨hs', hsm.trans hde⟩
    · exact hd.enters r hr B hm hn
  agrees := hd.agrees
  lacks := by
    refine handle_lacks hsa (fun hs => ?_) hp.lacks h ha
    obtain ⟨B, hB, hn, -⟩ := hp.agrees hs
    exact ⟨B, hn, hB⟩

lemma Pending.decisionComplete (h : sd.Pending) : sd.DecisionComplete := by
  intro r B hn hm _ hh
  obtain ⟨hs, hd⟩ := h.leads r B hn hm
  obtain ⟨B', hB', -, ha⟩ := h.agrees hs
  obtain rfl : B' = B := some.inj (hB'.symm.trans hd)
  exact h.lacks hs B' hn hd ha ((identify_eq_some hn).mpr hh)

def lateConfig : Config := { lockConfig with proTxHash := (sampleValidator 3).proTxHash }

def decidedFirst : List (World × Event) :=
  [.timeout ⟨1, 0, .newHeight⟩, voteEvent .precommit 0 0 lockID,
    voteEvent .precommit 0 1 lockID,
    voteEvent .precommit 0 2 lockID].map (lockWorld, ·)

def makesCommit (sd : StateData) : Bool :=
  (sd.votes.precommits sd.commitRound).all fun precommits =>
    match precommits.makeCommit with
    | .ok commit => (sd.expectations.lookup commit).isNone && commit.getCanonicalVote.toOption.isSome
    | .error _ => true

lemma AcceptsCommit.of_makesCommit (ha : ∀ n vote, W.verifyVoteExtension n vote ≠ .ok false)
    (h : sd.makesCommit = true) : sd.AcceptsCommit W := by
  intro precommits hp commit hc
  unfold makesCommit at h
  rw [hp, all_some, hc] at h
  obtain ⟨hl, hv⟩ := Bool.and_eq_true_iff.mp h
  obtain ⟨vote, hv⟩ := isSome_iff_exists.mp hv
  exact ⟨isNone_iff_eq_none.mp hl, vote, toOption_eq_some.mp hv, fun n => ha n vote⟩

def proposedAgain : List (World × Event) :=
  [voteEvent .prevote 1 0 lockID, voteEvent .prevote 1 1 lockID,
    voteEvent .prevote 1 2 lockID, .proposal (lockProposal 1 (-1)) "peer" false,
    .blockPart 1 lockPart "peer" false].map (lockWorld, ·)

end Tenderdash.StateData
