import Tenderdash.State.ChainIntegrity
import Tenderdash.State.LoadValidators

/-!
A node that applies blocks one after another: each is delivered to the application, saved in the block
store and finalized, and the new state is saved in the state store.

* `Grows` — what one applied block changes, from the checks of `FinalizeBlock` and the round state;
* `apply_of_outcome` — a block that is finalized is always written.
-/

namespace Tenderdash.Execution

open Lib Go SelectProposer StateStore List CurrentRoundState

variable {env : Env}

structure Node where
  state : State
  earlier : List State
  store : StateStore
  metas : List (ℤ × BlockMeta)

structure BlockCall (env : Env) where
  delivery : Delivery
  blockID : BlockID
  blockSize : ℤ
  lastCommit : OfferedCommit env.crypto
  evidenceOk : Bool

namespace Node

variable (node : Node)

def saved : List State := node.state :: node.earlier

def blockStore : BlockStore where
  base := (node.metas.getLast?.map (·.1)).getD 0
  loadBlockMeta height := node.metas.lookup height

def new (genesis : State) : Node where
  state := genesis
  earlier := []
  store := (StateStore.new.save genesis).toOption.getD StateStore.new
  metas := []

/-- The meta of a block, as `SaveBlock` makes it. -/
def metaOf (block : Block) (blockID : BlockID) (blockSize round : ℤ) : BlockMeta :=
  ⟨blockID, blockSize, block.header, block.txs.length, round, block.coreChainLock.isSome⟩

/-- The block and the state after it, if `ApplyBlock` succeeds; the cache is empty. -/
def outcome (call : BlockCall env) : Go String (Block × State) := do
  let (candidate, block) ← call.delivery.deliver env node.state
  let after ← env.finalizeBlock [] node.state candidate call.blockID block call.lastCommit.verified call.evidenceOk
  .ok (block, after)

/-- Apply a block: it is saved in the block store, finalized, and the new state is saved. -/
def apply (call : BlockCall env) : Node :=
  match node.outcome call with
  | .error _ => node
  | .ok (block, after) =>
    match node.store.save after with
    | .error _ => node
    | .ok store =>
      { state := after
        earlier := node.saved
        store := store
        metas := (block.header.height,
          metaOf block call.blockID call.blockSize call.delivery.roundParams.round) :: node.metas }

abbrev savedMeta (call : BlockCall env) (block : Block) : BlockMeta :=
  metaOf block call.blockID call.blockSize call.delivery.roundParams.round

structure Standing (node : Node) : Prop where
  height_pos : 1 ≤ saveHeight node.state
  started : 0 ≤ node.state.lastBlockHeight
  changed : node.state.lastHeightValidatorsChanged = saveValidatorsChanged node.state
  changed_le : saveValidatorsChanged node.state ≤ saveHeight node.state

lemma Standing.new {keys : KeyOracle} (genDoc : GenesisDoc keys) : (new (makeGenesisState genDoc)).Standing :=
  ⟨genDoc.one_le_initialHeight, le_refl 0, rfl, le_refl _⟩

variable {node : Node}

/-! ### One block -/

structure Grows (env : Env) (node : Node) (rp : RoundParams) (block : Block) (blockID : BlockID)
    (after : State) : Prop where
  sealed : Applied.Sealed env ⟨block, blockID, node.state, after⟩
  height : block.header.height = saveHeight node.state
  saveHeight_eq : saveHeight after = saveHeight node.state + 1
  size : 0 < after.validators.size
  started : 0 ≤ after.lastBlockHeight
  appVersion : after.version.app = after.consensusParams.version.appVersion
  changed : after.lastHeightValidatorsChanged = saveValidatorsChanged after
  changed_eq : saveValidatorsChanged after =
    if CurrentRoundState.changesValidators rp then saveHeight after else saveValidatorsChanged node.state
  params : (after.consensusParams = node.state.consensusParams ∧
      after.lastHeightConsensusParamsChanged = node.state.lastHeightConsensusParamsChanged) ∨
    after.lastHeightConsensusParamsChanged = saveHeight after
  validators : CurrentRoundState.changesValidators rp = false →
    after.validators.quorumType = node.state.validators.quorumType ∧
      after.validators.hasPublicKeys = node.state.validators.hasPublicKeys

lemma no_updates_of_changesValidators {d : Delivery} (h : changesValidators d.roundParams = false) :
    ∀ update ∈ d.roundParams.validatorSetUpdate, update.validatorUpdates = [] := by
  have hs : d.roundParams.source ≠ .initChain := by cases d <;> simp [Delivery.roundParams]
  intro update hu
  have hvu : d.roundParams.validatorSetUpdate = some update := hu
  simpa [changesValidators, hs, hvu] using h

variable {call : BlockCall env} {block : Block} {after : State}

lemma Grows.of_outcome (hn : node.Standing) (h : node.outcome call = .ok (block, after)) :
    Grows env node call.delivery.roundParams block call.blockID after := by
  obtain ⟨⟨candidate, block'⟩, hd, h⟩ := of_bind h
  obtain ⟨after', hf, h⟩ := of_bind h
  cases h
  have hfo : candidate.IsFor env.keys call.delivery.roundParams node.state := by
    obtain ⟨_, -, hd⟩ := of_bind hd
    obtain ⟨_, hnw, hd⟩ := of_bind hd
    cases hd
    exact isFor_of_new hnw
  obtain ⟨cache, hv, hu⟩ := of_bind hf
  obtain ⟨cache', hca, -⟩ := of_bind hv
  have hfi : HeaderFits env node.state block.header := headerFits_of_uncached hca
  have hs := sealed_of_finalizeBlock hd (fun p => call.lastCommit.verifies) hfi hf
  have hst := hn.started
  have hp := hn.height_pos
  -- the block has the height that the state before it was saved for
  have hh : block.header.height = saveHeight node.state := by
    unfold saveHeight
    split_ifs with hfr
    · exact hfi.first (by omega)
    · exact hfi.next (by omega)
  have hne : node.state.nextHeight = saveHeight node.state := by
    unfold State.nextHeight saveHeight
    split_ifs <;> omega
  have hl : after.lastBlockHeight = block.header.height := hs.height
  have hsa : saveHeight after = saveHeight node.state + 1 := by
    rw [← hh]
    unfold saveHeight
    rw [if_neg (by omega), hl]
  have hc : after.lastHeightValidatorsChanged = saveValidatorsChanged after := by
    unfold saveValidatorsChanged
    rw [if_neg (by omega)]
  cases hu
  exact {
    sealed := hs
    height := hh
    saveHeight_eq := hsa
    size := ValidatorSet.size_pos_of_validateBasic (validateBasic_of_valsetUpdate hfo.validators_eq)
    started := by
      show 0 ≤ block.header.height
      omega
    appVersion := rfl
    changed := hc
    changed_eq := by
      rw [← hc, hsa, ← hne, ← hn.changed]
      exact hfo.changed_eq
    params := by
      rw [hsa, ← hne]
      exact populateConsensusParams_cases hfo.params_eq
    validators := fun hno =>
      valsetUpdate_of_no_updates (no_updates_of_changesValidators hno) hfo.validators_eq }

def grown (call : BlockCall env) (block : Block) (after : State) : Node where
  state := after
  earlier := node.saved
  store :=
    { state := some after
      validators := upsert (saveHeight after)
        (fun _ => validatorsInfo (saveHeight after) (saveValidatorsChanged after) after.validators)
        node.store.validators
      params := upsert (saveHeight after)
        (fun _ => paramsInfo (saveHeight after) after.lastHeightConsensusParamsChanged after.consensusParams)
        node.store.params }
  metas := (block.header.height, metaOf block call.blockID call.blockSize call.delivery.roundParams.round) :: node.metas

lemma Grows.changed_le {rp : RoundParams} {blockID : BlockID} (hg : Grows env node rp block blockID after)
    (hn : node.Standing) : saveValidatorsChanged after ≤ saveHeight after := by
  rw [hg.changed_eq]
  split_ifs
  · exact le_refl _
  have hle := hn.changed_le
  have hs := hg.saveHeight_eq
  omega

lemma apply_of_outcome (hn : node.Standing)
    (h : node.outcome call = .ok (block, after)) : node.apply call = node.grown call block after := by
  have hle := (Grows.of_outcome hn h).changed_le hn
  have hs : node.store.save after = .ok (node.grown call block after).store := by
    unfold save failIf
    dsimp only
    rw [if_neg (not_lt.mpr hle)]
    rfl
  unfold apply
  rw [h]
  dsimp only
  rw [hs]
  rfl

lemma Grows.standing (hn : node.Standing) (hg : Grows env node call.delivery.roundParams block call.blockID after) :
    (node.grown call block after).Standing where
  height_pos := by
    have hs := hg.saveHeight_eq
    have hp := hn.height_pos
    show 1 ≤ saveHeight after
    omega
  started := hg.started
  changed := hg.changed
  changed_le := hg.changed_le hn

/-! ### The block metas -/

section Grown

variable {call : BlockCall env} {block : Block} {after : State}

lemma loadBlockMeta_grown_of_lt (node : Node) (call : BlockCall env) (after : State) {height : ℤ}
    (h : height < block.header.height) :
    (node.grown call block after).blockStore.loadBlockMeta height = node.blockStore.loadBlockMeta height := by
  unfold blockStore grown
  dsimp only
  rw [lookup_cons, show (height == block.header.height) = false by simpa using h.ne]

lemma loadBlockMeta_grown_self :
    (node.grown call block after).blockStore.loadBlockMeta block.header.height = some (savedMeta call block) := by
  unfold blockStore grown
  dsimp only
  rw [lookup_cons, beq_self_eq_true]

end Grown

lemma apply_cases {P : Node → Prop} (hn : node.Standing) (call : BlockCall env) (hs : P node)
    (hg : ∀ block after, node.outcome call = .ok (block, after) → P (node.grown call block after)) :
    P (node.apply call) := by
  cases ho : node.outcome call with
  | error e =>
    unfold apply
    rw [ho]
    exact hs
  | ok result =>
    obtain ⟨block, after⟩ := result
    rw [apply_of_outcome hn ho]
    exact hg block after ho

/-! ### The genesis state -/

lemma store_new (genDoc : GenesisDoc env.keys) :
    (new (makeGenesisState genDoc)).store =
      { state := some (makeGenesisState genDoc)
        validators := [(genDoc.initialHeight,
          validatorsInfo genDoc.initialHeight genDoc.initialHeight genDoc.validators)]
        params := [(genDoc.initialHeight,
          paramsInfo genDoc.initialHeight genDoc.initialHeight genDoc.consensusParams)] } := by
  have hs : StateStore.new.save (makeGenesisState genDoc) = _ :=
    bind_eq_ok.mpr ⟨(), failIf_eq_ok.mpr (lt_irrefl genDoc.initialHeight), rfl⟩
  unfold new
  rw [hs]
  rfl

/-! ### The records of parameters -/

structure ParamsFiled (node : Node) (state : State) : Prop where
  height_le : saveHeight state ≤ saveHeight node.state
  record : node.store.params.lookup (saveHeight state) =
    some (paramsInfo (saveHeight state) state.lastHeightConsensusParamsChanged state.consensusParams)
  stored : ∃ full ∈ node.saved, saveHeight full = state.lastHeightConsensusParamsChanged ∧
    full.lastHeightConsensusParamsChanged = saveHeight full ∧
    full.consensusParams = state.consensusParams

lemma loadConsensusParams_of_filed {state : State} (hn : ∀ state ∈ node.saved, node.ParamsFiled state)
    (hs : state ∈ node.saved) : node.store.loadConsensusParams (saveHeight state) = .ok state.consensusParams := by
  unfold loadConsensusParams
  rw [(hn state hs).record]
  dsimp only [paramsInfo]
  by_cases hf : state.lastHeightConsensusParamsChanged = saveHeight state
  · rw [if_pos hf]
  obtain ⟨full, hm, hh, hc, hp⟩ := (hn state hs).stored
  rw [if_neg hf]
  rw [← hh, (hn full hm).record]
  dsimp only [paramsInfo, Option.bind]
  rw [if_pos hc, hp]

lemma ParamsFiled.new (genDoc : GenesisDoc env.keys) :
    (new (makeGenesisState genDoc)).ParamsFiled (makeGenesisState genDoc) := by
  refine ⟨le_refl _, ?_, ⟨_, mem_cons_self, rfl, rfl, rfl⟩⟩
  rw [store_new]
  exact lookup_cons_self

lemma ParamsFiled.grown {state after : State} (hf : node.ParamsFiled state) (call : BlockCall env) (block : Block)
    (hs : saveHeight after = saveHeight node.state + 1) : (node.grown call block after).ParamsFiled state := by
  have hle := hf.height_le
  refine ⟨?_, ?_, ?_⟩
  · show saveHeight state ≤ saveHeight after
    omega
  · exact (lookup_upsert_of_ne _ _ (by omega)).trans hf.record
  · exact hf.stored.imp fun full hfu => ⟨mem_cons_of_mem _ hfu.1, hfu.2⟩

lemma Grows.paramsFiled {call : BlockCall env} {block : Block} {after : State}
    (hg : Grows env node call.delivery.roundParams block call.blockID after)
    (hf : node.ParamsFiled node.state) : (node.grown call block after).ParamsFiled after := by
  refine ⟨le_refl _, lookup_upsert_self .., ?_⟩
  rcases hg.params with ⟨hp, hc⟩ | hc
  · obtain ⟨full, hm, hh, ho, hv⟩ := hf.stored
    exact ⟨full, mem_cons_of_mem _ hm, hh.trans hc.symm, ho, hv.trans hp.symm⟩
  · exact ⟨after, mem_cons_self, hc.symm, hc, rfl⟩

end Node

end Tenderdash.Execution
