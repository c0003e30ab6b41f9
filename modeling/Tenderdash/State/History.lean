import Tenderdash.State.Node

/-!
Historical validator sets and parameters. A node applies blocks and saves each state; the validators and
parameters that were in force for a height are asked for later.

* `Filed` — a saved state has its records, and the full values that they point back to are its own;
* `Located` — the block metas from which the proposer of its height is found;
* `Node.orderly` — what a block has to meet for its state to be found again: the height of the last change
  advances only if validators are named, although the set also changes when only the quorum hash, the
  threshold key or the threshold power does.
-/

namespace Tenderdash.Execution

open Lib Run SelectProposer StateStore List CurrentRoundState

namespace Node

variable {env : Env}

/-! ### What is to be found -/

def SameSet (a b : ValidatorSet) : Prop :=
  a.validators = b.validators ∧ a.quorumHash = b.quorumHash ∧
    a.thresholdPublicKey = b.thresholdPublicKey ∧ a.votingPowerThreshold = b.votingPowerThreshold

lemma eq_of_sameSet {a b : ValidatorSet} (h : SameSet a b) (ht : a.quorumType = b.quorumType)
    (hp : a.hasPublicKeys = b.hasPublicKeys) : a = b := by
  obtain ⟨hm, hq, hk, hpo⟩ := h
  cases a
  cases b
  simp_all

def Serves (node : Node) (height : ℤ) : Prop :=
  height = 1 ∨ (node.blockStore.loadBlockMeta height).isSome ∨ (node.blockStore.loadBlockMeta (height - 1)).isSome

structure Found (env : Env) (node : Node) (state : State) : Prop where
  params : node.store.loadConsensusParams (saveHeight state) = .ok state.consensusParams
  validators : node.Serves (saveHeight state) →
    ∃ r, node.store.loadValidatorsWithProposer env.crypto (saveHeight state) node.blockStore = .ok r ∧
      SameSet r.vals state.validators

def Recorded (env : Env) (node : Node) : Prop := ∀ state ∈ node.saved, node.Found env state

/-! ### The invariant -/

inductive Located (C : Crypto) (bs : BlockStore) (state : State) (height : ℤ) : Prop
  | first (h : height = 1)
  | unserved (ho : height ≠ 1) (hm : bs.loadBlockMeta height = none)
      (hp : bs.loadBlockMeta (height - 1) = none)
  | applied (blockMeta : BlockMeta) (hm : bs.loadBlockMeta height = some blockMeta)
      (hh : blockMeta.header.height = height)
      (hha : blockMeta.header.validatorsHash = state.validators.hash C)
      (hi : 0 ≤ state.validators.indexByProTxHash blockMeta.header.proposerProTxHash)
      (hv : KnownVersion state.consensusParams)
  | next (prevMeta : BlockMeta) (ho : height ≠ 1) (hm : bs.loadBlockMeta height = none)
      (hp : bs.loadBlockMeta (height - 1) = some prevMeta)
      (hh : prevMeta.header.height = height - 1)
      (hha : prevMeta.header.nextValidatorsHash = state.validators.hash C)
      (hs : prevMeta.header.validatorsHash = prevMeta.header.nextValidatorsHash →
        KnownVersion state.consensusParams ∧
          0 ≤ state.validators.indexByProTxHash prevMeta.header.proposerProTxHash)

structure Filed (node : Node) (state : State) : Prop where
  size : 0 < state.validators.size
  height_pos : 1 ≤ saveHeight state
  changed_le : saveValidatorsChanged state ≤ saveHeight state
  params : node.ParamsFiled state
  validators : node.store.validators.lookup (saveHeight state) =
    some (validatorsInfo (saveHeight state) (saveValidatorsChanged state) state.validators)
  stored : ∃ full ∈ node.saved,
    saveHeight full = lastStoredHeightFor (saveHeight state) (saveValidatorsChanged state) ∧
      full.validators = state.validators ∧
      (saveHeight full = saveValidatorsChanged full ∨ saveHeight full % valSetCheckpointInterval = 0)

structure Intact (env : Env) (node : Node) : Prop where
  standing : node.Standing
  filed : ∀ state ∈ node.saved, node.Filed state
  located : ∀ state ∈ node.saved, Located env.crypto node.blockStore state (saveHeight state)
  earlier_lt : ∀ state ∈ node.earlier, saveHeight state < saveHeight node.state
  metas_lt : ∀ entry ∈ node.metas, entry.1 < saveHeight node.state

/-! ### What the records give -/

variable {node : Node} {state : State}

section

variable (hstate : state ∈ node.saved)

include hstate

lemma loadValidators_of_filed (hn : ∀ state ∈ node.saved, node.Filed state) :
    node.store.loadValidators (saveHeight state) = .ok state.validators := by
  have hk := hn state hstate
  unfold loadValidators
  rw [hk.validators]
  dsimp only [validatorsInfo]
  by_cases hf : saveHeight state = saveValidatorsChanged state ∨ saveHeight state % valSetCheckpointInterval = 0
  · rw [if_pos hf]
  obtain ⟨full, hm, hh, hv, hs⟩ := hk.stored
  have hr := (hn full hm).validators
  rw [if_neg hf]
  rw [← hh, hr]
  dsimp only [validatorsInfo]
  rw [if_pos hs, hv]

lemma findProposer_of_filed (C : Crypto) (hn : ∀ state ∈ node.saved, node.Filed state) (ho : saveHeight state ≠ 1) :
    node.store.findProposer C state.validators (saveHeight state) node.blockStore =
      match node.blockStore.loadBlockMeta (saveHeight state) with
      | some blockMeta => proposerFromMeta C state.consensusParams state.validators blockMeta
          blockMeta.header.height node.blockStore
      | none =>
        match node.blockStore.loadBlockMeta (saveHeight state - 1) with
        | none => Go.fail "could not find block meta"
        | some prevMeta =>
          if prevMeta.header.validatorsHash ≠ prevMeta.header.nextValidatorsHash then
            if prevMeta.header.nextValidatorsHash ≠ state.validators.hash C then
              Go.fail "next validators hash mismatch"
            else firstProposer state.validators
          else proposerFromMeta C state.consensusParams state.validators prevMeta (saveHeight state)
            node.blockStore := by
  unfold findProposer
  rw [if_neg ho, loadConsensusParams_of_filed (fun state hstate => (hn state hstate).params) hstate]
  rfl

lemma Intact.findProposer (hn : Intact env node) (hse : node.Serves (saveHeight state)) :
    ∃ r, node.store.findProposer env.crypto state.validators (saveHeight state) node.blockStore = .ok r := by
  have hs := (hn.filed state hstate).size
  by_cases ho : saveHeight state = 1
  · unfold StateStore.findProposer
    rw [if_pos ho]
    exact ⟨_, firstProposer_eq hs⟩
  rw [findProposer_of_filed hstate env.crypto hn.filed ho]
  cases hn.located state hstate with
  | first h => exact absurd h ho
  | unserved _ hm hp =>
    rcases hse with h | h | h
    · exact absurd h ho
    · rw [hm] at h
      cases h
    rw [hp] at h
    cases h
  | applied blockMeta hm hh hha hi hv =>
    rw [hm]
    exact exists_proposerFromMeta hs hv (by rw [hh]; exact hm) hha hi (.inl rfl)
  | next prevMeta _ hm hp hh hha hsa =>
    rw [hm, hp]
    dsimp only
    by_cases hr : prevMeta.header.validatorsHash = prevMeta.header.nextValidatorsHash
    · rw [if_neg (not_not.mpr hr)]
      obtain ⟨hv, hi⟩ := hsa hr
      exact exists_proposerFromMeta hs hv (by rw [hh]; exact hp) (hr.trans hha) hi (.inr (by omega))
    rw [if_pos hr, if_neg (not_not.mpr hha)]
    exact ⟨_, firstProposer_eq hs⟩

lemma Intact.loadValidatorsWithProposer (hn : Intact env node) (hs : node.Serves (saveHeight state)) :
    ∃ r, node.store.loadValidatorsWithProposer env.crypto (saveHeight state) node.blockStore = .ok r ∧
      r.vals = state.validators := by
  obtain ⟨r, hr⟩ := hn.findProposer hstate hs
  refine ⟨r, ?_, findProposer_vals (hn.filed state hstate).size hr⟩
  unfold StateStore.loadValidatorsWithProposer
  rw [loadValidators_of_filed hstate hn.filed]
  exact hr

end

lemma Intact.recorded (hn : Intact env node) : Recorded env node := by
  intro state hstate
  refine ⟨loadConsensusParams_of_filed (fun state hstate => (hn.filed state hstate).params) hstate, fun hs => ?_⟩
  obtain ⟨r, hr, hv⟩ := hn.loadValidatorsWithProposer hstate hs
  exact ⟨r, hr, by rw [hv]; exact ⟨rfl, rfl, rfl, rfl⟩⟩

/-! ### One block -/

/-- What a block has to meet for the new state to be found: validators are named, or the set stays, or the
next height is a checkpoint; and the proposer can be found from the block. -/
def orderly (node : Node) (call : BlockCall env) : Prop :=
  match node.outcome call with
  | .error _ => True
  | .ok (block, after) =>
    (CurrentRoundState.changesValidators call.delivery.roundParams = true ∨
      after.validators = node.state.validators ∨ saveHeight after % valSetCheckpointInterval = 0) ∧
    (saveHeight node.state = 1 ∨ KnownVersion node.state.consensusParams) ∧
    (block.header.validatorsHash = block.header.nextValidatorsHash →
      KnownVersion after.consensusParams ∧ 0 ≤ after.validators.indexByProTxHash block.header.proposerProTxHash)

instance (node : Node) (call : BlockCall env) : Decidable (node.orderly call) := by
  unfold orderly
  split <;> infer_instance

/-! ### The records after a block -/

section Grown

variable {call : BlockCall env} {block : Block} {after : State}

section

variable (hn : Intact env node)

include hn

lemma loadBlockMeta_grown_next (hh : block.header.height = saveHeight node.state) :
    (node.grown call block after).blockStore.loadBlockMeta (saveHeight node.state + 1) = none := by
  unfold blockStore grown
  rw [lookup_eq_none_iff]
  intro entry he
  rcases mem_cons.mp he with rfl | hm
  · simp [hh]
  have hlt := hn.metas_lt entry hm
  simp only [bne_iff_ne, ne_eq]
  omega

lemma Filed.grown (call : BlockCall env) (block : Block) (hs : saveHeight after = saveHeight node.state + 1)
    {state : State} (hstate : state ∈ node.saved) : (node.grown call block after).Filed state := by
  have hf := hn.filed state hstate
  have hle := hf.params.height_le
  have hne : saveHeight state ≠ saveHeight after := by omega
  refine ⟨hf.size, hf.height_pos, hf.changed_le, hf.params.grown call block hs, ?_, ?_⟩
  · exact (lookup_upsert_of_ne _ _ hne).trans hf.validators
  · exact hf.stored.imp fun full hfu => ⟨mem_cons_of_mem _ hfu.1, hfu.2⟩

omit hn in
lemma lastStoredHeightFor_succ {height changed : ℤ} (h : (height + 1) % valSetCheckpointInterval ≠ 0) :
    lastStoredHeightFor (height + 1) changed = lastStoredHeightFor height changed := by
  unfold lastStoredHeightFor
  unfold valSetCheckpointInterval at h ⊢
  have : height + 1 - (height + 1) % 100000 = height - height % 100000 := by omega
  rw [this]

section

variable (hg : Grows env node call.delivery.roundParams block call.blockID after)

include hg

lemma Grows.filed
    (hp : changesValidators call.delivery.roundParams = true ∨
      after.validators = node.state.validators ∨ saveHeight after % valSetCheckpointInterval = 0) :
    (node.grown call block after).Filed after := by
  have hc := hn.filed node.state mem_cons_self
  have hsa := hg.saveHeight_eq
  have hpo := hc.height_pos
  refine ⟨hg.size, by omega, hg.changed_le hn.standing, hg.paramsFiled hc.params, lookup_upsert_self .., ?_⟩
  · by_cases hf : saveHeight after = saveValidatorsChanged after ∨ saveHeight after % valSetCheckpointInterval = 0
    · -- the record has the set itself
      refine ⟨after, mem_cons_self, ?_, rfl, hf⟩
      have hle := hg.changed_le hn.standing
      unfold lastStoredHeightFor
      rcases hf with h | h
      · have hmo : 0 ≤ saveHeight after % valSetCheckpointInterval :=
          Int.emod_nonneg _ (by unfold valSetCheckpointInterval; omega)
        omega
      · omega
    · -- the record points back where the one before it does
      rw [not_or] at hf
      have hcs : changesValidators call.delivery.roundParams = false := by
        by_contra hne
        have heq := hg.changed_eq
        rw [if_pos (by simpa using hne)] at heq
        exact hf.1 heq.symm
      have hch := hg.changed_eq
      rw [hcs] at hch
      have hsm : after.validators = node.state.validators := by
        rcases hp with h | h | h
        · rw [hcs] at h
          cases h
        · exact h
        · exact absurd h hf.2
      obtain ⟨full, hm, hh, hv, hs⟩ := hc.stored
      refine ⟨full, mem_cons_of_mem _ hm, ?_, hv.trans hsm.symm, hs⟩
      rw [hh, hsa, hch, lastStoredHeightFor_succ (hsa ▸ hf.2)]
      rfl

lemma loadValidators_stale (hcs : changesValidators call.delivery.roundParams = false)
    (hc : saveHeight after % valSetCheckpointInterval ≠ 0) :
    (node.grown call block after).store.loadValidators (saveHeight after) = .ok node.state.validators := by
  have hcu := hn.filed node.state mem_cons_self
  have hch := hg.changed_eq
  rw [hcs] at hch
  have hs := hg.saveHeight_eq
  have hle := hcu.changed_le
  obtain ⟨full, hm, hh, hv, hst⟩ := hcu.stored
  have hr := (Filed.grown hn call block hs hm).validators
  have hp : lastStoredHeightFor (saveHeight after) (saveValidatorsChanged after) = saveHeight full := by
    rw [hh, hs, hch, lastStoredHeightFor_succ (hs ▸ hc)]
    rfl
  unfold loadValidators
  rw [show (node.grown call block after).store.validators.lookup (saveHeight after) =
    some (validatorsInfo (saveHeight after) (saveValidatorsChanged after) after.validators) from lookup_upsert_self ..]
  dsimp only [validatorsInfo]
  rw [if_neg (not_or.mpr ⟨by rw [hch]; simp only [Bool.false_eq_true, if_false]; omega, hc⟩)]
  rw [hp, hr]
  dsimp only [validatorsInfo]
  rw [if_pos hst, hv]

lemma Grows.located_saved (hve : saveHeight node.state = 1 ∨ KnownVersion node.state.consensusParams)
    {state : State} (hstate : state ∈ node.saved) :
    Located env.crypto (node.grown call block after).blockStore state (saveHeight state) := by
  rcases mem_cons.mp hstate with rfl | he
  · -- the state that the block was applied to
    rcases hve with ho | hve
    · exact .first ho
    refine .applied (savedMeta call block) ?_
      hg.height hg.sealed.fits.validatorsHash (index_nonneg_of_hasProTxHash hg.sealed.fits.proposer)
      hve
    rw [← hg.height]
    exact loadBlockMeta_grown_self
  · have hlt := hn.earlier_lt state he
    have hhe := hg.height
    have hm := loadBlockMeta_grown_of_lt node call after (show saveHeight state < block.header.height by omega)
    have hpr := loadBlockMeta_grown_of_lt node call after (show saveHeight state - 1 < block.header.height by omega)
    cases hn.located state hstate with
    | first h => exact .first h
    | unserved ho h hp => exact .unserved ho (hm.trans h) (hpr.trans hp)
    | applied blockMeta h hh hha hi hv => exact .applied blockMeta (hm.trans h) hh hha hi hv
    | next prevMeta ho h hp hh hha hs =>
      exact .next prevMeta ho (hm.trans h) (hpr.trans hp) hh hha hs

end

lemma Intact.grown (h : node.outcome call = .ok (block, after))
    (ho : node.orderly call) : Intact env (node.grown call block after) := by
  have hg := Grows.of_outcome hn.standing h
  have hs := hg.saveHeight_eq
  unfold orderly at ho
  rw [h] at ho
  obtain ⟨hpo, hv, hp⟩ := ho
  refine ⟨hg.standing hn.standing, ?_, ?_, ?_, ?_⟩
  · intro state hstate
    rcases mem_cons.mp hstate with rfl | hstate
    · exact hg.filed hn hpo
    · exact Filed.grown hn call block hs hstate
  · intro state hstate
    rcases mem_cons.mp hstate with rfl | hstate
    · have hps := (hn.filed node.state mem_cons_self).height_pos
      have hpr : saveHeight state - 1 = block.header.height := by
        have hh := hg.height
        omega
      refine .next (savedMeta call block) (by omega) ?_ ?_ hpr.symm hg.sealed.validatorsHash.symm hp
      · rw [hs]
        exact loadBlockMeta_grown_next hn hg.height
      rw [hpr]
      exact loadBlockMeta_grown_self
    · exact hg.located_saved hn hv hstate
  · intro state hstate
    have hle := (hn.filed state hstate).params.height_le
    show saveHeight state < saveHeight after
    omega
  · intro entry he
    show entry.1 < saveHeight after
    rcases mem_cons.mp he with rfl | hm
    · have hh := hg.height
      omega
    have hlt := hn.metas_lt entry hm
    omega

lemma Intact.orderly_of_recorded (h : node.outcome call = .ok (block, after))
    (hre : Recorded env (node.grown call block after)) : node.orderly call := by
  have hg := Grows.of_outcome hn.standing h
  have hsv := hg.saveHeight_eq
  have hc := hn.filed node.state mem_cons_self
  have hps := hc.height_pos
  have hpr : saveHeight after - 1 = block.header.height := by
    have hh := hg.height
    omega
  -- the new state is found, since the block is its previous one
  have hs : (node.grown call block after).Serves (saveHeight after) := by
    refine .inr (.inr ?_)
    rw [hpr, loadBlockMeta_grown_self]
    rfl
  obtain ⟨r, hr, hsa⟩ := (hre after mem_cons_self).validators hs
  obtain ⟨valSet, hl, hfi⟩ := Go.of_bind hr
  have hp : changesValidators call.delivery.roundParams = true ∨
      after.validators = node.state.validators ∨ saveHeight after % valSetCheckpointInterval = 0 := by
    by_contra hno
    rw [not_or, not_or, Bool.not_eq_true] at hno
    obtain ⟨hch, hd, hct⟩ := hno
    rw [loadValidators_stale hn hg hch hct] at hl
    cases hl
    rw [findProposer_vals hc.size hfi] at hsa
    obtain ⟨hme, hq, hk, hpo⟩ := hsa
    obtain ⟨ht, hpu⟩ := hg.validators hch
    exact hd (eq_of_sameSet ⟨hme.symm, hq.symm, hk.symm, hpo.symm⟩ ht hpu)
  have hf : ∀ state ∈ (node.grown call block after).saved, (node.grown call block after).Filed state := by
    intro state hstate
    rcases mem_cons.mp hstate with rfl | hstate
    · exact hg.filed hn hp
    · exact Filed.grown hn call block hsv hstate
  unfold orderly
  rw [h]
  refine ⟨hp, ?_, fun hro => ?_⟩
  · -- the state before is found from the block itself
    by_cases ho : saveHeight node.state = 1
    · exact .inl ho
    have hm : node.state ∈ (node.grown call block after).saved := mem_cons_of_mem _ mem_cons_self
    have hmt : (node.grown call block after).blockStore.loadBlockMeta (saveHeight node.state) =
        some (savedMeta call block) := by
      rw [← hg.height]
      exact loadBlockMeta_grown_self
    obtain ⟨r', hr', -⟩ := (hre node.state hm).validators (.inr (.inl (by rw [hmt]; rfl)))
    obtain ⟨valSet', hl', hf'⟩ := Go.of_bind hr'
    rw [loadValidators_of_filed hm hf] at hl'
    cases hl'
    rw [findProposer_of_filed hm env.crypto hf ho, hmt] at hf'
    exact .inr (of_proposerFromMeta hc.size hf').2.1
  · have hm : after ∈ (node.grown call block after).saved := mem_cons_self
    rw [loadValidators_of_filed hm hf] at hl
    cases hl
    rw [findProposer_of_filed hm env.crypto hf (by omega), hpr, loadBlockMeta_grown_self, hsv,
      loadBlockMeta_grown_next hn hg.height] at hfi
    dsimp only [savedMeta, metaOf] at hfi
    rw [if_neg (not_not.mpr hro)] at hfi
    exact (of_proposerFromMeta hg.size hfi).2

end

end Grown

lemma Intact.apply {call : BlockCall env} (hn : Intact env node) (ho : node.orderly call) :
    Intact env (node.apply call) :=
  apply_cases hn.standing call hn fun _ _ hou => hn.grown hou ho

/-! ### Runs -/

lemma Intact.new (genDoc : GenesisDoc env.keys) : Intact env (new (makeGenesisState genDoc)) := by
  have hm : ∀ state ∈ (Node.new (makeGenesisState genDoc)).saved, state = makeGenesisState genDoc := by
    intro state hstate
    simpa [saved, Node.new] using hstate
  have hp := genDoc.one_le_initialHeight
  have hs : genDoc.initialHeight = lastStoredHeightFor genDoc.initialHeight genDoc.initialHeight := by
    unfold lastStoredHeightFor valSetCheckpointInterval
    omega
  refine ⟨Standing.new genDoc, fun state hstate => ?_, fun state hstate => ?_, by simp [Node.new], by simp [Node.new]⟩
  · obtain rfl := hm state hstate
    refine ⟨ValidatorSet.size_pos_of_validateBasic genDoc.validators_valid, hp, le_refl _,
      ParamsFiled.new genDoc, ?_, ⟨_, mem_cons_self, hs, rfl, .inl rfl⟩⟩
    rw [store_new]
    exact lookup_cons_self
  · obtain rfl := hm state hstate
    by_cases ho : genDoc.initialHeight = 1
    · exact .first ho
    · exact .unserved ho rfl rfl

/-- Everything that was saved is found in every state of a run exactly if every block of it is orderly. -/
theorem recorded_iff_orderly (env : Env) (genDoc : GenesisDoc env.keys) (calls : List (BlockCall env)) :
    (∀ done, done <+: calls → Recorded env (run apply (new (makeGenesisState genDoc)) done)) ↔
      Admitted apply orderly (new (makeGenesisState genDoc)) calls := by
  refine admitted_iff (P := Intact env) (fun node hn => hn.recorded)
    (fun node call hn => hn.apply) (fun node call hn hr => ?_) (Intact.new genDoc)
  · cases ho : node.outcome call with
    | error e =>
      unfold orderly
      rw [ho]
      trivial
    | ok result =>
      obtain ⟨block, after⟩ := result
      rw [apply_of_outcome hn.standing ho] at hr
      exact hn.orderly_of_recorded ho hr

def sampleFirst (resp : Response) : BlockCall sampleEnv where
  delivery := .prepare (sampleDraft (makeGenesisState (sampleGenesis 1 sampleValidators_valid)) noCommit
    sampleTime_valid) resp none 0
  blockID := sampleBlockID 1
  blockSize := 100
  lastCommit := noOffer
  evidenceOk := true

def powerUpdate : Response :=
  { sampleResponse 1 with
    consensusParamUpdates := some { ConsensusParamsProto.empty with validator := some ⟨["bls12381"], some 100⟩ } }

def quorumUpdate : Response :=
  { sampleResponse 1 with
    validatorSetUpdate := some ⟨[], (sampleValidators 1).thresholdPublicKey, List.replicate quorumHashSize 9⟩ }

/-- A new threshold power alone, or a new quorum hash alone, is not in the set that is loaded for the next
height. -/
theorem changed_set_not_found :
    let node := new (makeGenesisState (sampleGenesis 1 sampleValidators_valid))
    let power := node.apply (sampleFirst powerUpdate)
    let quorum := node.apply (sampleFirst quorumUpdate)
    (saveHeight power.state = 2 ∧ power.state.validators.votingPowerThreshold = 100 ∧
      (power.store.loadValidatorsWithProposer sampleCrypto 2 power.blockStore).toOption.map
        (·.vals.votingPowerThreshold) = some 0) ∧
    saveHeight quorum.state = 2 ∧
      (quorum.store.loadValidatorsWithProposer sampleCrypto 2 quorum.blockStore).toOption.map
        (·.vals.quorumHash) ≠ some quorum.state.validators.quorumHash := by
  decide +kernel

end Node

end Tenderdash.Execution
