import Tenderdash.Consensus.Discipline
import Tenderdash.Consensus.LockInvariant
import Tenderdash.Evidence.Acceptance

/-!
Agreement. The honest nodes of a network take in events in any order; what reaches them is arbitrary, but for
the signatures: a vote that verifies with the key of a validator was made by the honest node that runs it,
and a commit that verifies was precommitted by a quorum. In every run all honest nodes are informed and disciplined
(`safe_run`), so that they build one chain, and evidence pools hold nothing against them.
-/

namespace Tenderdash

open Lib Go Run Locking Option StateData List View

/-! ### What a node has said is not taken back -/

lemma Move.asked_mem {I : Intake} {v v' : View} (hm : Move I v v') {vote : Vote}
    (hv : vote ∈ v.asked) : vote ∈ v'.asked := by
  cases hm with
  | prevote | precommitNil | lock | relock => exact mem_append_left _ hv
  | _ => exact hv

variable {event : Event} {sd sd' : StateData} {W : World}

lemma StateData.asked_mem {cfg : Config} (hs : sd.view.Sane)
    (h : sd.handle W cfg event = .ok sd') {vote : Vote} (hvo : vote ∈ sd.view.asked) : vote ∈ sd'.view.asked :=
  (handle_moves hs h).invariant (P := fun v => vote ∈ v.asked) (fun _ _ hv hm => hm.asked_mem hv) hvo

/-! ### Chains -/

/-- The node has finalized the heights from `first` to the one before its own, in order, and has kept its `past`. -/
structure View.Chained (first : ℤ) (past : List (ℤ × BlockID)) (v : View) : Prop extends v.Sane where
  height_eq : v.height = first + v.finalized.length
  entry_eq : ∀ (k : ℕ) entry, v.finalized[k]? = some entry → entry.1 = first + k
  kept : past <+: v.finalized

variable {first : ℤ}

lemma View.Chained.move {I : Intake} {v v' : View} {past : List (ℤ × BlockID)} (h : v.Chained first past)
    (hm : Move I v v') : v'.Chained first past := by
  have hs := h.toSane.move hm
  obtain ⟨hv, hl, he, hp⟩ := h
  cases hm with
  | apply state votes blockID _ hh =>
    have hn := nextHeight_eq hv.height_pos hh
    refine ⟨hs, ?_, fun k entry hk => ?_, hp.trans (prefix_append ..)⟩
    · simp only [next, start, length_append, length_singleton]
      omega
    · simp only [next, start, getElem?_append, getElem?_singleton] at hk
      grind
  | _ => exact ⟨hs, hl, he, hp⟩

/-! ### Networks -/

structure Network (ι : Type) where
  node : ι → StateData
  halted : ι → Bool

namespace Network

variable {ι : Type}

/-- An event reaches one of the nodes. A node that panics does nothing any more. -/
def deliver [DecidableEq ι] (cfg : ι → Config) (net : Network ι) (input : ι × World × Event) : Network ι :=
  if net.halted input.1 then net
  else match (net.node input.1).handle input.2.1 (cfg input.1) input.2.2 with
    | .ok sd => { net with node := Function.update net.node input.1 sd }
    | .error _ => { net with halted := Function.update net.halted input.1 true }

/-- The honest node that runs a validator has voted; a validator that none of them runs may have said
anything. -/
def said (operator : ℕ → Option ι) (net : Network ι) : Said := fun type height round x blockID =>
  ∀ i, operator x = some i → ∃ vote ∈ (net.node i).view.asked,
    vote.type = type ∧ vote.height = height ∧ vote.round = round ∧ vote.blockID = blockID

def Unforged (K : Committee) (cfg : ι → Config) (operator : ℕ → Option ι) (net : Network ι)
    (input : ι × World × Event) : Prop :=
  View.Truthful K (net.said operator) (cfg input.1).C input.2.1 input.2.2

def Initial (K : Committee) (net : Network ι) : Prop :=
  ∀ i, ∃ state lastCommit, StateData.initial state lastCommit = .ok (net.node i) ∧ StateData.Starts state ∧
    state.validators = K.validators ∧ state.chainID = K.chainID

structure Safe (K : Committee) (said : Said) (v : View) : Prop where
  sane : v.Sane
  informed : v.Informed K said
  disciplined : v.Disciplined K said

variable {K : Committee} {cfg : ι → Config} {operator : ℕ → Option ι} {net : Network ι} {said' said'' : Said}

lemma Safe.mono {v : View} (hs : ∀ t h r i b, said' t h r i b → said'' t h r i b) (h : Safe K said' v) :
    Safe K said'' v :=
  ⟨h.sane, h.informed.mono hs, h.disciplined.mono hs⟩

lemma safe_initial {state : ChainState} {lastCommit : Option Commit} {sd : StateData} (hs : StateData.Starts state)
    (hv : state.validators = K.validators) (hci : state.chainID = K.chainID)
    (h : initial state lastCommit = .ok sd) : Safe K said' sd.view := by
  have hsa := (ordered_initial hs h).toSane
  obtain ⟨_, -, h⟩ := of_bind h
  obtain ⟨votes, hvo, h⟩ := of_bind h
  cases h
  exact ⟨hsa, .start hv hci hvo hs.one_le_nextHeight nofun, ⟨⟨nofun, nofun, nofun, nofun, nofun⟩, nofun, nofun, nofun⟩⟩

lemma safe_handle {config : Config} (h : Safe K said' sd.view)
    (ht : View.Truthful K said' config.C W event) (hh : sd.handle W config event = .ok sd') : Safe K said' sd'.view :=
  (handle_moves h.sane hh).invariant (P := Safe K said')
    (fun _ _ hv hm => ⟨hv.sane.move hm, hv.informed.move hv.sane ht hm, hv.disciplined.move hv.informed hv.sane hm⟩) h

def AllSafe (K : Committee) (operator : ℕ → Option ι) (net : Network ι) : Prop :=
  ∀ i, Safe K (net.said operator) (net.node i).view

lemma allSafe_deliver [DecidableEq ι] {input : ι × World × Event} (h : net.AllSafe K operator)
    (htr : net.Unforged K cfg operator input) : (net.deliver cfg input).AllSafe K operator := by
  obtain ⟨i, W, event⟩ := input
  unfold deliver
  split
  · exact h
  split
  next sd hh =>
    -- what was said stays said
    have hs : ∀ t ht r x b, net.said operator t ht r x b →
        said operator { net with node := Function.update net.node i sd } t ht r x b := by
      intro t ht r x b ho j hj
      obtain ⟨vote, hv, hr⟩ := ho j hj
      refine ⟨vote, ?_, hr⟩
      rcases eq_or_ne j i with rfl | hne
      · simpa using asked_mem (h j).sane hh hv
      · simpa [hne] using hv
    intro j
    rcases eq_or_ne j i with rfl | hne
    · simpa using (safe_handle (h j) htr hh).mono hs
    · simpa [hne] using (h j).mono hs
  next => exact h

theorem safe_run [DecidableEq ι] (hi : net.Initial K) {inputs : List (ι × World × Event)}
    (hr : Admitted (deliver cfg) (Unforged K cfg operator) net inputs) :
    (run (deliver cfg) net inputs).AllSafe K operator := by
  refine hr.invariant (P := AllSafe K operator) (fun _ _ => allSafe_deliver) fun i => ?_
  obtain ⟨state, lastCommit, h, hs, hv, hci⟩ := hi i
  exact safe_initial hs hv hci h

lemma rules_of_allSafe (h : net.AllSafe K operator) (height : ℤ) :
    Rules K.members K.quorum (fun x => (operator x).isSome) (fun blockID : BlockID => blockID.isNil = false)
      (fun r x => net.said operator .prevote height r x) (fun r x => net.said operator .precommit height r x) where
  ballot_once := by
    intro x r b b' hx hb hb'
    obtain ⟨i, hi⟩ := isSome_iff_exists.mp hx
    obtain ⟨vote, hv, ht, hh, hr, rfl⟩ := hb i hi
    obtain ⟨vote', hv', ht', hh', hr', rfl⟩ := hb' i hi
    exact (h i).disciplined.once vote hv vote' hv' (ht.trans ht'.symm) (hh.trans hh'.symm) (hr.trans hr'.symm)
  decide_ballot := by
    intro x r b hx hn hb
    obtain ⟨i, hi⟩ := isSome_iff_exists.mp hx
    obtain ⟨vote, hv, ht, rfl, rfl, rfl⟩ := hb i hi
    exact (h i).disciplined.polka vote hv ht hn
  released := by
    intro x r r' b b' hx hn hn' hb hb' hlt _
    obtain ⟨i, hi⟩ := isSome_iff_exists.mp hx
    obtain ⟨vote, hv, ht, rfl, rfl, rfl⟩ := hb i hi
    obtain ⟨vote', hv', ht', hh', rfl, rfl⟩ := hb' i hi
    exact (h i).disciplined.released vote hv vote' hv' ht hn ht' hn' hh'.symm hlt

/-- **Agreement.** If any two quorums overlap by more validators than are not run by honest nodes, no two
honest nodes finalize different blocks at the same height. -/
theorem honest_nodes_agree [DecidableEq ι] (K : Committee) (cfg : ι → Config) (operator : ℕ → Option ι) (f : ℕ)
    (hfaulty : (K.members.filter fun x => operator x = none).card ≤ f) (hq : K.members.card + f < 2 * K.quorum)
    (net : Network ι) (hinit : net.Initial K) (inputs : List (ι × World × Event))
    (hrun : Admitted (deliver cfg) (Unforged K cfg operator) net inputs) (i j : ι) (height : ℤ)
    (blockID blockID' : BlockID) (hi : (height, blockID) ∈ ((run (deliver cfg) net inputs).node i).view.finalized)
    (hj : (height, blockID') ∈ ((run (deliver cfg) net inputs).node j).view.finalized) : blockID = blockID' := by
  have hs := safe_run hinit hrun
  obtain ⟨hn, r, hqu⟩ := (hs i).informed.finalized _ hi
  obtain ⟨hn', r', hq'⟩ := (hs j).informed.finalized _ hj
  have hh : (K.members.filter fun x => ¬ (operator x).isSome).card ≤ f := by
    simpa using hfaulty
  exact (rules_of_allSafe hs height).agreement (fun _ _ => exists_honest hh hq) hn hn' hqu hq'

/-! ### Executions -/

variable [DecidableEq ι]

lemma chained_run {past : ι → List (ℤ × BlockID)} (h : ∀ i, (net.node i).view.Chained first (past i))
    (inputs : List (ι × World × Event)) :
    ∀ i, ((run (deliver cfg) net inputs).node i).view.Chained first (past i) := by
  refine run_invariant (P := fun net : Network ι => ∀ i, (net.node i).view.Chained first (past i))
    (fun net input h i => ?_) inputs h
  unfold deliver
  split
  · exact h i
  split
  next sd hh =>
    rcases eq_or_ne i input.1 with rfl | hne
    · simpa using (handle_moves (h input.1).toSane hh).invariant (fun _ _ => View.Chained.move) (h input.1)
    · simpa [hne] using h i
  next => exact h i

/-- A run of a network that starts at one height, with too few faulty validators to split it. -/
structure Execution (ι : Type) [DecidableEq ι] where
  K : Committee
  cfg : ι → Config
  operator : ℕ → Option ι
  overlap : K.members.card + (K.members.filter fun x => operator x = none).card < 2 * K.quorum
  net : Network ι
  initial : net.Initial K
  first : ℤ
  height_eq : ∀ i, (net.node i).height = first
  inputs : List (ι × World × Event)
  unforged : Admitted (deliver cfg) (Unforged K cfg operator) net inputs

namespace Execution

variable (E : Execution ι) (i j : ι)

def reached : Network ι := run (deliver E.cfg) E.net E.inputs

def view : View := (E.reached.node i).view

def Agrees (type : SignedMsgType) (height round : ℤ) (blockID : BlockID) : Prop :=
  E.K.Agrees (E.reached.said E.operator) type height round blockID

variable {E i j}

lemma safe (i : ι) : Safe E.K (E.reached.said E.operator) (E.view i) := safe_run E.initial E.unforged i

lemma exists_honest (P Q : ℕ → Prop) (hP : Quorum E.K.members E.K.quorum P) (hQ : Quorum E.K.members E.K.quorum Q) :
    ∃ x, (E.operator x).isSome ∧ P x ∧ Q x := Locking.exists_honest (by simp) E.overlap hP hQ

lemma chained (inputs : List (ι × World × Event)) :
    ∀ i, ((run (deliver E.cfg) E.net inputs).node i).view.Chained E.first [] := by
  refine chained_run (fun i => ?_) inputs
  obtain ⟨state, lastCommit, h, hs, -⟩ := E.initial i
  have hsa := (ordered_initial hs h).toSane
  have hf := E.height_eq i
  obtain ⟨_, -, h⟩ := of_bind h
  obtain ⟨votes, -, h⟩ := of_bind h
  rw [← Except.ok.inj h] at hf hsa ⊢
  exact ⟨hsa, hf.trans (add_zero _).symm, nofun, nil_prefix⟩

lemma prefix_of_le (h : (E.view i).finalized.length ≤ (E.view j).finalized.length) :
    (E.view i).finalized <+: (E.view j).finalized := by
  refine prefix_iff_getElem?.mpr fun k hk => ?_
  have hi := getElem?_eq_getElem hk
  have hj := getElem?_eq_getElem (hk.trans_le h)
  obtain ⟨hn, r, hq⟩ := (safe i).informed.finalized _ (mem_of_getElem? hi)
  obtain ⟨hn', r', hq'⟩ := (safe j).informed.finalized _ (mem_of_getElem? hj)
  -- entries at one place are of one height
  have hh := ((chained _ j).entry_eq k _ hj).trans ((chained _ i).entry_eq k _ hi).symm
  rw [hj, Prod.ext hh ((rules_of_allSafe safe _).agreement exists_honest hn' hn (hh ▸ hq') hq)]

variable (E i j)

/-- **The chains of two nodes** are one chain, of consecutive heights, that one of them may not have seen the end of.
Each block has its quorums of prevotes and precommits in one round, and stays in the chain. -/
theorem chains_comparable : (∀ (k : ℕ) entry, (E.view i).finalized[k]? = some entry → entry.1 = E.first + k ∧
      ∃ r, E.Agrees .prevote entry.1 r entry.2 ∧ E.Agrees .precommit entry.1 r entry.2) ∧
    (∀ n, ((run (deliver E.cfg) E.net (E.inputs.take n)).node i).view.finalized <+: (E.view i).finalized) ∧
    ((E.view i).finalized <+: (E.view j).finalized ∨ (E.view j).finalized <+: (E.view i).finalized) := by
  refine ⟨fun k entry hk => ⟨(chained _ i).entry_eq k entry hk, ?_⟩, fun n => ?_,
    (le_total _ _).imp prefix_of_le prefix_of_le⟩
  · obtain ⟨hn, r, hq⟩ := (safe i).informed.finalized _ (mem_of_getElem? hk)
    obtain ⟨x, hx, hd, -⟩ := exists_honest _ _ hq hq
    exact ⟨r, (rules_of_allSafe safe entry.1).decide_ballot x r _ hx hn hd, hq⟩
  rw [view, reached]
  conv_rhs => rw [← take_append_drop n E.inputs, run_append]
  exact (chained_run (fun i => { chained (E := E) _ i with kept := prefix_rfl }) _ i).kept

/-- **After a quorum of precommits** for a block no node at the height sees a majority of prevotes for another one from
that round on, is locked on another one there, or takes another one for valid. -/
theorem locks_after_decision (r : ℤ) (blockID : BlockID) (hn : blockID.isNil = false)
    (hd : E.Agrees .precommit (E.view i).height r blockID) :
    (∀ s b, r ≤ s → b.isNil = false → (E.view i).polka s = some b → b = blockID) ∧
      (∀ b, r ≤ (E.view i).lockedRound → (E.view i).locked = some b → b = blockID) ∧
      ∀ b, r ≤ (E.view i).validRound → (E.view i).valid = some b → b = blockID := by
  have hp : ∀ s b, r ≤ s → b.isNil = false → (E.view i).polka s = some b → b = blockID := by
    intro s b hs hb hp
    refine (rules_of_allSafe safe _).ballot_unique exists_honest hn hd (s - r).toNat hb ?_
    rw [Int.toNat_of_nonneg (by omega), add_sub_cancel]
    exact (safe i).informed.agrees hp
  refine ⟨hp, fun b hr hl => ?_, fun b hr hv => ?_⟩
  · obtain ⟨hb, hl⟩ := (safe i).sane.locked_polka b hl
    exact hp _ b hr hb hl
  · obtain ⟨hb, hv⟩ := (safe i).sane.valid_polka b hv
    exact hp _ b hr hb hv

section Evidence

open Evidence

end Evidence

end Execution

/-! ### Three honest nodes and a validator that is not -/

def sampleCommittee : Committee where
  validators := sampleValidators 4
  chainID := "chain"
  power := 100
  quorum := 3
  equal := by decide +kernel
  reached := by
    intro k hk
    have ht : 200 < (sampleValidators 4).quorumVotingThresholdPower := by decide +kernel
    omega

def sampleOperator : ℕ → Option (Fin 3)
  | 0 => some 0
  | 2 => some 1
  | 3 => some 2
  | _ => none

def sampleConfig (i : Fin 3) : Config :=
  { StateData.lockConfig with proTxHash := (sampleValidator (if i = 0 then 0 else i + 1)).proTxHash }

def sampleWorld : World :=
  { StateData.lockWorld with
    finalizeBlock := fun _ _ _ _ commit =>
      .ok ({ StateData.lockState with lastBlockHeight := commit.height }, false) }

lemma isSome_initial : (initial lockState none).toOption.isSome := by decide +kernel

def sampleNetwork : Network (Fin 3) where
  node _ := (StateData.initial StateData.lockState none).toOption.get isSome_initial
  halted _ := false

def saidByAll (net : Network (Fin 3)) (input : Fin 3 × World × Event) : Prop :=
  match input.2.2 with
  | .vote msg _ _ => ∀ i, ∃ vote ∈ (net.node i).view.asked, vote.type = msg.ref.vote.type ∧
      vote.height = msg.ref.vote.height ∧ vote.round = msg.ref.vote.round ∧ vote.blockID = msg.ref.vote.blockID
  | .commit .. => False
  | _ => True

instance (net : Network (Fin 3)) (input : Fin 3 × World × Event) : Decidable (saidByAll net input) := by
  unfold saidByAll
  split <;> infer_instance

lemma unforged_of_saidByAll {net : Network (Fin 3)} {i : Fin 3}
    (h : saidByAll net (i, sampleWorld, event)) :
    net.Unforged sampleCommittee sampleConfig sampleOperator (i, sampleWorld, event) where
  vote := by
    rintro msg peerID fromReplay rfl x val - - j -
    exact h j
  commit := by
    rintro commit peerID fromReplay rfl
    exact h.elim
  next := by
    rintro n before crs blockID commit state immediately ⟨⟩
    exact ⟨rfl, rfl⟩

open StateData in
def sampleEvents : List (Fin 3 × Event) :=
  let opening : List Event := [.timeout ⟨1, 0, .newHeight⟩, .proposal (lockProposal 0 (-1)) "peer" false,
    .blockPart 1 lockPart "peer" false]
  let prevotes : List Event := [voteEvent .prevote 0 0 lockID,
    voteEvent .prevote 0 2 lockID, voteEvent .prevote 0 3 lockID]
  let precommits : List Event := [voteEvent .precommit 0 0 lockID,
    voteEvent .precommit 0 2 lockID, voteEvent .precommit 0 3 lockID]
  [0, 1, 2].flatMap (fun i => opening.map (i, ·)) ++ [0, 1, 2].flatMap (fun i => prevotes.map (i, ·)) ++
    [0, 1].flatMap (fun i => precommits.map (i, ·))

def sampleRun : List (Fin 3 × World × Event) := sampleEvents.map fun (i, event) => (i, sampleWorld, event)

/-- Two of the nodes finalize the block, and with it the same one. -/
theorem sampleRun_agrees : ∃ blockID blockID',
    (1, blockID) ∈ ((run (deliver sampleConfig) sampleNetwork sampleRun).node 0).view.finalized ∧
    (1, blockID') ∈ ((run (deliver sampleConfig) sampleNetwork sampleRun).node 1).view.finalized ∧
    blockID = blockID' := by
  have hit : sampleNetwork.Initial sampleCommittee := fun i =>
    ⟨StateData.lockState, none, toOption_eq_some.mp (some_get isSome_initial).symm, ⟨by decide, by decide⟩, rfl, rfl⟩
  have hs : Admitted (deliver sampleConfig) saidByAll sampleNetwork sampleRun := by decide +kernel
  have hr : Admitted (deliver sampleConfig) (Unforged sampleCommittee sampleConfig sampleOperator)
      sampleNetwork sampleRun := by
    refine hs.imp fun net input hin h => ?_
    obtain ⟨⟨i, event⟩, -, rfl⟩ := List.mem_map.mp hin
    exact unforged_of_saidByAll h
  have hz : ((run (deliver sampleConfig) sampleNetwork sampleRun).node 0).view.finalized =
      [(1, StateData.lockID)] := by decide +kernel
  have ho : ((run (deliver sampleConfig) sampleNetwork sampleRun).node 1).view.finalized =
      [(1, StateData.lockID)] := by decide +kernel
  have hi := hz ▸ List.mem_singleton_self (1, StateData.lockID)
  have hj := ho ▸ List.mem_singleton_self (1, StateData.lockID)
  exact ⟨_, _, hi, hj, honest_nodes_agree sampleCommittee sampleConfig sampleOperator 1 (by decide +kernel)
    (by decide +kernel) sampleNetwork hit sampleRun hr 0 1 1 _ _ hi hj⟩

def sampleExecution : Execution (Fin 3) where
  K := sampleCommittee
  cfg := sampleConfig
  operator := sampleOperator
  overlap := by decide +kernel
  net := sampleNetwork
  initial _ := ⟨lockState, none, toOption_eq_some.mp (some_get isSome_initial).symm,
    ⟨by decide, by decide⟩, rfl, rfl⟩
  first := 1
  height_eq := by decide +kernel
  inputs := sampleRun
  unforged := by
    have hs : Admitted (deliver sampleConfig) saidByAll sampleNetwork sampleRun := by decide +kernel
    refine hs.imp fun net input hin h => ?_
    obtain ⟨⟨i, event⟩, -, rfl⟩ := List.mem_map.mp hin
    exact unforged_of_saidByAll h

/-- The third node, still at the height, is locked on the block. -/
theorem sampleExecution_locked : ∃ b, (sampleExecution.view 2).locked = some b ∧ b = lockID := by
  have hq : sampleExecution.Agrees .precommit (sampleExecution.view 2).height 0 lockID :=
    ⟨{0, 2, 3}, by decide +kernel, by decide +kernel, by unfold Network.said; decide +kernel⟩
  obtain ⟨b, hb⟩ := isSome_iff_exists.mp (by decide +kernel : (sampleExecution.view 2).locked.isSome)
  exact ⟨b, hb, (sampleExecution.locks_after_decision 2 0 _ (by decide) hq).2.1 b (by decide +kernel) hb⟩

end Network

end Tenderdash
