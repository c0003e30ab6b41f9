import Tenderdash.State.BlockExecutor

/-!
The cache of validated blocks. `ValidateBlock` looks a block up by the hash of its header and returns at once if a
block with that hash has passed.

What `validateBlock` checks falls into two parts (`validateBlock_iff`). The checks of the header read only what the hash
covers, so that they hold for every block the cache lets through (`HeaderPasses.of_validated`). The checks of the body
are skipped: transactions, evidence, chain lock and last commit are compared with the header by `validateBlock` alone,
and a block with the header of another one has its hash whatever its body is.
-/

namespace Tenderdash.Execution

open Lib Go Run List

variable {env : Env} {state : State} {block : Block} {lastCommit : VerifiedCommit} {cache cache' : Cache}
  {evidenceOk : Bool}

/-- What `validateBlock` checks of a header. -/
def HeaderPasses (env : Env) (state : State) (header : Header) : Prop :=
  validateHeader header = .ok () ∧ header.version.block = state.version.block ∧ header.chainID = state.chainID ∧
    (state.lastBlockHeight = 0 → header.height = state.initialHeight) ∧
    (0 < state.lastBlockHeight → header.height = state.lastBlockHeight + 1) ∧
    header.lastBlockID = state.lastBlockID ∧
    header.consensusHash = state.consensusParams.hashConsensusParams env.crypto ∧
    header.validatorsHash = state.validators.hash env.crypto ∧ header.proposerProTxHash.length = hashSize ∧
    state.validators.hasProTxHash header.proposerProTxHash = true ∧ validateTime state header = .ok ()

/-- What `validateBlock` checks of the rest of a block. -/
structure BodyPasses (env : Env) (state : State) (block : Block) (lastCommit : VerifiedCommit) : Prop where
  chainLock : validateChainLock block.coreChainLock = .ok ()
  commit : ∃ commit, block.lastCommit = some commit ∧ commit.validateBasic = .ok () ∧
    env.commitHash commit = block.header.lastCommitHash
  txs : env.txsHash block.txs = block.header.dataHash
  evidence : block.evidence.forM env.evidenceValidateBasic = .ok ()
  evidenceHash : env.evidenceHash block.evidence = block.header.evidenceHash
  verified : validateLastCommit env.crypto state block lastCommit = .ok ()
  size : env.evidenceByteSize block.evidence ≤ state.consensusParams.evidence.maxBytes

lemma validateBlock_iff : validateBlock env state block lastCommit = .ok () ↔
    HeaderPasses env state block.header ∧ BodyPasses env state block lastCommit := by
  simp only [validateBlock, Block.validateBasic, HeaderPasses, bind_eq_ok, failIf_eq_ok, Unique.exists_iff, ne_eq,
    not_not, not_and, gt_iff_lt, not_lt, Bool.not_eq_false]
  cases hc : block.lastCommit with
  | none =>
    refine iff_of_false (fun h => nomatch h.1.2.2) fun h => ?_
    obtain ⟨commit, hs, -⟩ := h.2.commit
    rw [hc] at hs
    cases hs
  | some commit =>
    simp only [bind_eq_ok, failIf_eq_ok, Unique.exists_iff, not_not]
    constructor
    · rintro ⟨⟨hh, hlo, hba, hha, htx, he, hr⟩, -, hv, hch, hf, hn, hid, hpa, hva, hve, hl, hp, ht, hsi⟩
      exact ⟨⟨hh, hv, hch, hf, hn, hid, hpa, hva, hl, hp, ht⟩, hlo, ⟨commit, hc, hba, hha⟩, htx, he, hr, hve, hsi⟩
    rintro ⟨⟨hh, hv, hch, hf, hn, hid, hpa, hva, hl, hp, ht⟩, hb⟩
    obtain ⟨_, hs, hba, hha⟩ := hb.commit
    cases hc.symm.trans hs
    exact ⟨⟨hh, hb.chainLock, hba, hha, hb.txs, hb.evidence, hb.evidenceHash⟩, hb.chainLock,
      hv, hch, hf, hn, hid, hpa, hva, hb.verified, hl, hp, ht, hb.size⟩

lemma HeaderPasses.of_hashed {h h' : Header} (hp : HeaderPasses env state h) (heq : hashed h = hashed h') :
    HeaderPasses env state h' := by
  have hh : HeaderPasses env state (hashed h) := hp
  rw [heq] at hh
  exact hh

def Collides (env : Env) (cache : Cache) (block : Block) : Prop :=
  ∃ header ∈ cache, env.headerHash header = env.blockHash block ∧ hashed header ≠ hashed block.header

lemma HeaderPasses.of_validated (hc : ∀ h ∈ cache, HeaderPasses env state h)
    (h : env.validateBlockCached cache state block lastCommit evidenceOk = .ok cache') :
    (Collides env cache block ∨ HeaderPasses env state block.header) ∧ ∀ h ∈ cache', HeaderPasses env state h := by
  unfold Env.validateBlockCached at h
  split_ifs at h with hh
  · cases h
    obtain ⟨header, hm, heq⟩ := any_eq_true.mp hh
    refine ⟨?_, hc⟩
    by_cases hs : hashed header = hashed block.header
    · exact .inr ((hc header hm).of_hashed hs)
    · exact .inl ⟨header, hm, by simpa using heq, hs⟩
  obtain ⟨_, hv, h⟩ := of_bind h
  obtain ⟨_, -, h⟩ := of_bind h
  cases h
  have hp := (validateBlock_iff.mp hv).1
  exact ⟨.inr hp, forall_mem_cons.mpr ⟨hp, hc⟩⟩

lemma HeaderPasses.after (hc : ∀ h ∈ cache, HeaderPasses env state h) :
    ∀ h ∈ (env.validateBlockCached cache state block lastCommit evidenceOk).toOption.getD cache,
      HeaderPasses env state h := by
  cases h : env.validateBlockCached cache state block lastCommit evidenceOk with
  | error e => exact hc
  | ok cache' => exact (of_validated hc h).2

/-- A call of `ValidateBlock`, with the verdict of the evidence pool. -/
structure Validation where
  block : Block
  lastCommit : VerifiedCommit
  evidenceOk : Bool

namespace Validation

variable (env : Env) (state : State) (cache : Cache) (call : Validation)

def filled : Block := env.fillHeader call.block

def returns : Go String Cache :=
  env.validateBlockCached cache state (call.filled env) call.lastCommit call.evidenceOk

def step : Cache :=
  (call.returns env state cache).toOption.getD cache

def Valid : Prop :=
  validateBlock env state (call.filled env) call.lastCommit = .ok () ∧ call.evidenceOk = true

lemma passes_run (env : Env) (state : State) (calls : List Validation) :
    ∀ h ∈ run (step env state) [] calls, HeaderPasses env state h :=
  run_invariant (P := fun cache => ∀ h ∈ cache, HeaderPasses env state h) (fun _ _ => HeaderPasses.after) calls
    (by simp)

/-- **What the cache loses.** After any calls at one height, a call that returns no error was made with a valid block
exactly if the body of the block passes its checks, or else its hash collides with the hash of another header. -/
theorem cached_verdict (env : Env) (state : State) (calls : List Validation) (call : Validation) (cache : Cache)
    (h : call.returns env state (run (step env state) [] calls) = .ok cache) :
    (call.Valid env state ↔ BodyPasses env state (call.filled env) call.lastCommit ∧ call.evidenceOk = true) ∨
      Collides env (run (step env state) [] calls) (call.filled env) := by
  obtain ⟨hc | hp, -⟩ := HeaderPasses.of_validated (passes_run env state calls) h
  · exact .inr hc
  refine .inl ⟨fun hv => ⟨(validateBlock_iff.mp hv.1).2, hv.2⟩, fun hb => ?_⟩
  exact ⟨validateBlock_iff.mpr ⟨hp, hb.1⟩, hb.2⟩

def sampleState : State := makeGenesisState (sampleGenesis 1 sampleValidators_valid)

def sampleCall (txs : List Bytes) : Validation where
  block := { sampleEnv.fillHeader (sampleDraft sampleState noCommit sampleTime_valid) with txs := txs }
  lastCommit := ⟨none, none⟩
  evidenceOk := true

/-- A block passes once one with its header has, with transactions that the header does not name. -/
theorem swapped_txs_pass : ((sampleCall [[1]]).returns sampleEnv sampleState
      (run (step sampleEnv sampleState) [] [sampleCall []])).isOk = true ∧
    ¬ (sampleCall [[1]]).Valid sampleEnv sampleState := by
  refine ⟨by decide +kernel, fun hv => ?_⟩
  have hf : (validateBlock sampleEnv sampleState ((sampleCall [[1]]).filled sampleEnv) ⟨none, none⟩).isOk = false := by
    decide +kernel
  rw [show validateBlock sampleEnv sampleState ((sampleCall [[1]]).filled sampleEnv) ⟨none, none⟩ = .ok () from
    hv.1] at hf
  cases hf

/-- The block passes again, and rightly. -/
theorem repeated_block_passes : ∃ cache, (sampleCall []).returns sampleEnv sampleState
      (run (step sampleEnv sampleState) [] [sampleCall []]) = .ok cache ∧
    ((sampleCall []).Valid sampleEnv sampleState ↔ BodyPasses sampleEnv sampleState ((sampleCall []).filled sampleEnv)
      ⟨none, none⟩ ∧ true = true) := by
  have hok : ((sampleCall []).returns sampleEnv sampleState
      (run (step sampleEnv sampleState) [] [sampleCall []])).isOk = true := by decide +kernel
  obtain ⟨cache, h⟩ := isOk_iff.mp hok
  refine ⟨cache, h, (cached_verdict sampleEnv sampleState [sampleCall []] (sampleCall []) cache h).resolve_right ?_⟩
  unfold Collides
  decide +kernel

end Validation

end Tenderdash.Execution
