import Tenderdash.State.History

/-!
Rolling the state back by one block. The older state is not undone from the newer one but built from block
metas, the records of the state store and what the newer state still has.

* `Tracked` — what every node knows about its last block, in every run;
* `rollback_grown` — the state that `Rollback` saves after one more block.
-/

namespace Tenderdash.Execution

open Lib Go Run SelectProposer StateStore List Option

variable {env : Env}

/-! ### `Rollback` -/

/-- The state that `Rollback` builds. -/
def rolledBackState (invalidState : State) (rollbackBlock latestBlock : BlockMeta)
    (previousLastValidatorSet : ValidatorSet) (previousParams : ConsensusParams) : State where
  version := ⟨blockProtocol, previousParams.version.appVersion⟩
  chainID := invalidState.chainID
  initialHeight := invalidState.initialHeight
  lastBlockHeight := rollbackBlock.header.height
  lastBlockRound := invalidState.lastBlockRound
  lastBlockID := rollbackBlock.blockID
  lastBlockTime := rollbackBlock.header.time
  lastCoreChainLockedBlockHeight := rollbackBlock.header.coreChainLockedHeight
  validators := invalidState.lastValidators
  lastValidators := previousLastValidatorSet
  lastHeightValidatorsChanged :=
    if invalidState.lastHeightValidatorsChanged > invalidState.lastBlockHeight - 1 then
      invalidState.lastBlockHeight - 1 + 1
    else invalidState.lastHeightValidatorsChanged
  consensusParams := previousParams
  lastHeightConsensusParamsChanged :=
    if invalidState.lastHeightConsensusParamsChanged > invalidState.lastBlockHeight - 1 then
      invalidState.lastBlockHeight - 1 + 1
    else invalidState.lastHeightConsensusParamsChanged
  lastResultsHash := latestBlock.header.resultsHash
  lastAppHash := latestBlock.header.appHash

/-- The height and the application hash it returns, and the state store after it. -/
def rollback (C : Crypto) (height : ℤ) (bs : BlockStore) (store : StateStore) : Go String (ℤ × Bytes × StateStore) :=
  match store.state with
  | none => Go.fail "no state found"
  | some invalidState =>
    -- the state was not saved for the last block, so that there is nothing to undo
    if height = invalidState.lastBlockHeight + 1 then
      .ok (invalidState.lastBlockHeight, invalidState.lastAppHash, store)
    else if height ≠ invalidState.lastBlockHeight then
      Go.fail "statestore height is not one below or equal to blockstore height"
    else
      match bs.loadBlockMeta (invalidState.lastBlockHeight - 1) with
      | none => Go.fail "block at rollback height not found"
      | some rollbackBlock =>
        match bs.loadBlockMeta invalidState.lastBlockHeight with
        | none => Go.fail "block at last height not found"
        | some latestBlock => do
          let previousLastValidatorSet ←
            store.loadValidatorsWithProposer C (invalidState.lastBlockHeight - 1) bs
          let previousParams ← store.loadConsensusParams (invalidState.lastBlockHeight - 1 + 1)
          let rolledBack := rolledBackState invalidState rollbackBlock latestBlock
            previousLastValidatorSet.vals previousParams
          let store ← (store.save rolledBack).mapErr ("failed to save rolled back state: " ++ ·)
          .ok (rolledBack.lastBlockHeight, rolledBack.lastAppHash, store)

namespace Node

/-- `Height` of the block store. -/
def blockHeight (node : Node) : ℤ := (node.metas.head?.map (·.1)).getD 0

/-- `Rollback` on the stores of a node. -/
def rollback (env : Env) (node : Node) : Go String (ℤ × Bytes × StateStore) :=
  Execution.rollback env.crypto node.blockHeight node.blockStore node.store

structure Restores (rolled state : State) : Prop where
  lastBlockHeight : rolled.lastBlockHeight = state.lastBlockHeight
  lastBlockRound : rolled.lastBlockRound = state.lastBlockRound
  lastBlockID : rolled.lastBlockID = state.lastBlockID
  lastBlockTime : rolled.lastBlockTime = state.lastBlockTime
  lastAppHash : rolled.lastAppHash = state.lastAppHash
  lastResultsHash : rolled.lastResultsHash = state.lastResultsHash
  coreHeight : rolled.lastCoreChainLockedBlockHeight = state.lastCoreChainLockedBlockHeight
  validators : rolled.validators = state.validators
  lastValidators : rolled.lastValidators = state.lastValidators
  consensusParams : rolled.consensusParams = state.consensusParams
  appVersion : rolled.version.app = state.version.app

def RollsBackTo (env : Env) (node : Node) (state : State) : Prop :=
  ∃ height appHash store rolled, node.rollback env = .ok (height, appHash, store) ∧
    store.state = some rolled ∧ Restores rolled state

/-! ### What a node knows about its last block -/

structure LastMeta (node : Node) (blockMeta : BlockMeta) : Prop where
  height : blockMeta.header.height = node.state.lastBlockHeight
  blockID : blockMeta.blockID = node.state.lastBlockID
  time : blockMeta.header.time = node.state.lastBlockTime
  coreHeight : blockMeta.header.coreChainLockedHeight = node.state.lastCoreChainLockedBlockHeight
  appVersion : node.state.version.app = node.state.consensusParams.version.appVersion
  height_pos : 1 ≤ node.state.lastBlockHeight
  previous : ∃ state ∈ node.earlier, saveHeight state = node.state.lastBlockHeight ∧
    state.validators = node.state.lastValidators

lemma LastMeta.saveHeight_eq {node : Node} {blockMeta : BlockMeta} (h : node.LastMeta blockMeta) :
    saveHeight node.state = node.state.lastBlockHeight + 1 := by
  have hp := h.height_pos
  unfold saveHeight
  rw [if_neg (by omega)]

structure Tracked (node : Node) : Prop where
  standing : node.Standing
  paramsFiled : ∀ state ∈ node.saved, node.ParamsFiled state
  last : ∀ entry ∈ node.metas.head?, entry.1 = node.state.lastBlockHeight ∧ node.LastMeta entry.2

variable {node : Node} {call : BlockCall env} {block : Block} {after : State}

lemma Tracked.new (genDoc : GenesisDoc env.keys) : (new (makeGenesisState genDoc)).Tracked := by
  refine ⟨Standing.new genDoc, fun state hs => ?_, by simp [Node.new]⟩
  obtain rfl : state = makeGenesisState genDoc := by simpa [saved, Node.new] using hs
  exact ParamsFiled.new genDoc

lemma Tracked.grown (hn : node.Tracked) (hg : Grows env node call.delivery.roundParams block call.blockID after) :
    (node.grown call block after).Tracked := by
  refine ⟨hg.standing hn.standing, fun state hs => ?_, fun entry he => ?_⟩
  · rcases mem_cons.mp hs with rfl | hs
    · exact hg.paramsFiled (hn.paramsFiled node.state mem_cons_self)
    · exact (hn.paramsFiled state hs).grown call block hg.saveHeight_eq
  obtain rfl : (block.header.height, savedMeta call block) = entry := by simpa [Node.grown] using he
  have hl : after.lastBlockHeight = block.header.height := hg.sealed.height
  refine ⟨hl.symm, hl.symm, hg.sealed.blockID.symm, hg.sealed.time.symm, hg.sealed.coreHeight.symm,
    hg.appVersion, ?_, node.state, mem_cons_self, ?_, hg.sealed.validators.symm⟩
  · show 1 ≤ after.lastBlockHeight
    rw [hl, hg.height]
    exact hn.standing.height_pos
  · exact hg.height.symm.trans hl.symm

lemma Tracked.apply (hn : node.Tracked) (call : BlockCall env) : (node.apply call).Tracked :=
  apply_cases hn.standing call hn fun _ _ ho => hn.grown (Grows.of_outcome hn.standing ho)

lemma tracked_run (genDoc : GenesisDoc env.keys) (calls : List (BlockCall env)) :
    (run apply (Node.new (makeGenesisState genDoc)) calls).Tracked :=
  run_invariant (fun _ call hn => hn.apply call) calls (Tracked.new genDoc)

/-! ### Rolling back one more block -/

lemma exists_save_rolledBackState (store : StateStore) {invalidState : State} {rollbackBlock : BlockMeta}
    (latestBlock : BlockMeta) (vals : ValidatorSet) (params : ConsensusParams)
    (hh : rollbackBlock.header.height + 1 = invalidState.lastBlockHeight) (hp : 1 ≤ rollbackBlock.header.height) :
    ∃ store', store.save (rolledBackState invalidState rollbackBlock latestBlock vals params) = .ok store' ∧
      store'.state = some (rolledBackState invalidState rollbackBlock latestBlock vals params) := by
  refine ⟨_, bind_eq_ok.mpr ⟨(), failIf_eq_ok.mpr ?_, rfl⟩, rfl⟩
  unfold saveValidatorsChanged saveHeight rolledBackState
  dsimp only
  split_ifs <;> omega

variable {entry : ℤ × BlockMeta}

lemma Tracked.loadBlockMeta_last (hn : node.Tracked) (he : node.metas.head? = some entry) :
    node.blockStore.loadBlockMeta node.state.lastBlockHeight = some entry.2 := by
  obtain ⟨rest, hm⟩ := head?_eq_some_iff.mp he
  unfold blockStore
  dsimp only
  rw [hm, lookup_cons, ← (hn.last entry he).1, beq_self_eq_true]

lemma rollback_grown (hn : node.Tracked) (hg : Grows env node call.delivery.roundParams block call.blockID after)
    (he : node.metas.head? = some entry) :
    (node.grown call block after).rollback env = (do
      let r ← (node.grown call block after).store.loadValidatorsWithProposer env.crypto
        node.state.lastBlockHeight (node.grown call block after).blockStore
      let rolledBack := rolledBackState after entry.2
        (savedMeta call block) r.vals
        node.state.consensusParams
      let store ← ((node.grown call block after).store.save rolledBack).mapErr
        ("failed to save rolled back state: " ++ ·)
      .ok (rolledBack.lastBlockHeight, rolledBack.lastAppHash, store)) := by
  have ha : after.lastBlockHeight = block.header.height := hg.sealed.height
  have hs := (hn.last entry he).2.saveHeight_eq
  have hp : after.lastBlockHeight - 1 = node.state.lastBlockHeight := by
    rw [ha, hg.height, hs]
    omega
  have hh : (node.grown call block after).blockHeight = after.lastBlockHeight := ha.symm
  have hr : (node.grown call block after).blockStore.loadBlockMeta (after.lastBlockHeight - 1) = some entry.2 := by
    rw [loadBlockMeta_grown_of_lt node call after (by omega), hp]
    exact hn.loadBlockMeta_last he
  have hl : (node.grown call block after).blockStore.loadBlockMeta after.lastBlockHeight =
      some (savedMeta call block) := by
    rw [ha]
    exact loadBlockMeta_grown_self
  have hpa : (node.grown call block after).store.loadConsensusParams (after.lastBlockHeight - 1 + 1) =
      .ok node.state.consensusParams := by
    rw [hp, ← hs]
    exact loadConsensusParams_of_filed (hn.grown hg).paramsFiled (mem_cons_of_mem _ mem_cons_self)
  have hst : (node.grown call block after).store.state = some after := rfl
  unfold rollback Execution.rollback
  rw [hst]
  dsimp only
  rw [hh, if_neg (by omega), if_neg (not_not.mpr rfl), hr, hl]
  rw [hpa, hp]
  rfl

/-- The rolled back state is the state before the block exactly if the three fields that are not taken from
the older block agree, and the older validators are the ones found. -/
lemma restores_rolledBackState_iff (hn : node.Tracked)
    (hg : Grows env node call.delivery.roundParams block call.blockID after)
    (he : node.metas.head? = some entry) (vals : ValidatorSet) :
    Restores (rolledBackState after entry.2
        (savedMeta call block) vals
        node.state.consensusParams) node.state ↔
      after.lastBlockRound = node.state.lastBlockRound ∧
      block.header.appHash = node.state.lastAppHash ∧
      block.header.resultsHash = node.state.lastResultsHash ∧ vals = node.state.lastValidators := by
  obtain ⟨-, hl⟩ := hn.last entry he
  constructor
  · intro h
    exact ⟨h.lastBlockRound, h.lastAppHash, h.lastResultsHash, h.lastValidators⟩
  rintro ⟨hro, ha, hr, hv⟩
  exact ⟨hl.height, hro, hl.blockID, hl.time, ha, hr, hl.coreHeight, hg.sealed.validators, hv, rfl, hl.appVersion.symm⟩

def FindsLastValidators (env : Env) (node : Node) (state : State) : Prop :=
  ∃ r, node.store.loadValidatorsWithProposer env.crypto state.lastBlockHeight node.blockStore = .ok r ∧
    r.vals = state.lastValidators

/-- `Rollback` after one more block restores the state before it exactly if round, application hash and
results hash did not change with the block, and the validators of the height before are found. -/
theorem rollback_inverts_iff (env : Env) (genDoc : GenesisDoc env.keys) (calls : List (BlockCall env))
    (call : BlockCall env) (block : Block) (after : State)
    (hmetas : (run apply (Node.new (makeGenesisState genDoc)) calls).metas ≠ [])
    (hout : (run apply (Node.new (makeGenesisState genDoc)) calls).outcome call = .ok (block, after)) :
    let node := run apply (new (makeGenesisState genDoc)) calls
    RollsBackTo env (node.apply call) node.state ↔
      after.lastBlockRound = node.state.lastBlockRound ∧
      block.header.appHash = node.state.lastAppHash ∧
      block.header.resultsHash = node.state.lastResultsHash ∧
      FindsLastValidators env (node.apply call) node.state := by
  intro node
  have hn : node.Tracked := tracked_run genDoc calls
  have hg := Grows.of_outcome hn.standing hout
  obtain ⟨entry, he⟩ := isSome_iff_exists.mp (isSome_head?.mpr hmetas)
  obtain ⟨-, hl⟩ := hn.last entry he
  have hh : entry.2.header.height + 1 = after.lastBlockHeight := by
    rw [hl.height, ← hl.saveHeight_eq, ← hg.height]
    exact hg.sealed.height.symm
  -- once the older validators are loaded, the rolled back state is saved
  have hsa := fun vals => exists_save_rolledBackState (node.grown call block after).store
    (savedMeta call block) vals
    node.state.consensusParams hh (by rw [hl.height]; exact hl.height_pos)
  rw [apply_of_outcome hn.standing hout]
  unfold RollsBackTo
  rw [rollback_grown hn hg he]
  constructor
  · rintro ⟨height, appHash, store, rolled, hro, hst, hres⟩
    obtain ⟨r, hr, hro⟩ := of_bind hro
    obtain ⟨store', hs, hro⟩ := of_bind hro
    obtain ⟨store'', hs', hrl⟩ := hsa r.vals
    cases hs'.symm.trans (mapErr_eq_ok.mp hs)
    cases hro
    cases hrl.symm.trans hst
    obtain ⟨hrn, ha, hre, hv⟩ := (restores_rolledBackState_iff hn hg he r.vals).mp hres
    exact ⟨hrn, ha, hre, r, hr, hv⟩
  · rintro ⟨hrn, ha, hre, r, hr, hv⟩
    obtain ⟨store, hs, hrl⟩ := hsa r.vals
    refine ⟨_, _, store, _, bind_eq_ok.mpr ⟨r, hr, bind_eq_ok.mpr ⟨store, mapErr_eq_ok.mpr hs, rfl⟩⟩, hrl, ?_⟩
    exact (restores_rolledBackState_iff hn hg he r.vals).mpr ⟨hrn, ha, hre, hv⟩

def sampleNode : Node :=
  run apply (Node.new (makeGenesisState (sampleGenesis 1 sampleValidators_valid))) [sampleFirst (sampleResponse 1)]

def sampleSecond (resp : Response) (round : ℤ) : BlockCall sampleEnv where
  delivery := .prepare (sampleDraft sampleNode.state (sampleLastCommit (sampleBlockID 1))
    (by decide +kernel)) resp none round
  blockID := sampleBlockID 2
  blockSize := 100
  lastCommit := noOffer
  evidenceOk := true

/-- If neither hash nor the round changes with the block, the state before it is restored. -/
theorem same_appHash_rolls_back :
    RollsBackTo sampleEnv (sampleNode.apply (sampleSecond (sampleResponse 1) 0)) sampleNode.state := by
  have hf : (sampleNode.outcome (sampleSecond (sampleResponse 1) 0)).toOption.map
      (fun result => (result.2.lastBlockRound, result.1.header.appHash, result.1.header.resultsHash)) =
      some (sampleNode.state.lastBlockRound, sampleNode.state.lastAppHash, sampleNode.state.lastResultsHash) := by
    decide +kernel
  have hv : ((sampleNode.apply (sampleSecond (sampleResponse 1) 0)).store.loadValidatorsWithProposer
      sampleCrypto sampleNode.state.lastBlockHeight
      (sampleNode.apply (sampleSecond (sampleResponse 1) 0)).blockStore).toOption.map (·.vals) =
      some sampleNode.state.lastValidators := by
    decide +kernel
  obtain ⟨⟨block, after⟩, ho, hf⟩ := map_eq_some_iff.mp hf
  obtain ⟨r, hr, hv⟩ := map_eq_some_iff.mp hv
  simp only [Prod.mk.injEq] at hf
  exact (rollback_inverts_iff sampleEnv (sampleGenesis 1 sampleValidators_valid) [sampleFirst (sampleResponse 1)]
    (sampleSecond (sampleResponse 1) 0) block after (by decide +kernel) (toOption_eq_some.mp ho)).mpr
    ⟨hf.1, hf.2.1, hf.2.2, r, toOption_eq_some.mp hr, hv⟩

/-- With another application hash, decided in another round, the rolled back state has the hash and the round of
the block that was rolled back. -/
theorem rolled_back_appHash_of_newer_block :
    let rolled := ((sampleNode.apply (sampleSecond (sampleResponse 2) 1)).rollback sampleEnv).toOption.bind
      (·.2.2.state)
    sampleNode.state.lastAppHash = replicate hashSize 1 ∧
    sampleNode.state.lastBlockRound = 0 ∧
    rolled.map (·.lastBlockHeight) = some sampleNode.state.lastBlockHeight ∧
    rolled.map (·.lastAppHash) = some (replicate hashSize 2) ∧
    rolled.map (·.lastBlockRound) = some 1 := by
  decide +kernel

end Node

end Tenderdash.Execution
