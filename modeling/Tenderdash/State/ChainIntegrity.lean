import Tenderdash.State.ValidationCache

/-!
Blocks that are finalized one after another form a chain.

* `HeaderFits` — what `validateBlock` checks of a header against the state before it, also for a block that
  the cache lets through;
* `Applied.Sealed` — what finalizing a block writes into the state, by the checks that are never spared;
* `Follows` — the link between two blocks, from the first two (`Applied.follows`).
-/

namespace Tenderdash.Execution

open Lib Go Run List Option

variable {env : Env}

/-! ### What is checked -/

structure HeaderFits (env : Env) (state : State) (header : Header) : Prop where
  first : state.lastBlockHeight = 0 → header.height = state.initialHeight
  next : 0 < state.lastBlockHeight → header.height = state.lastBlockHeight + 1
  lastBlockID : header.lastBlockID = state.lastBlockID
  consensusHash : header.consensusHash = state.consensusParams.hashConsensusParams env.crypto
  validatorsHash : header.validatorsHash = state.validators.hash env.crypto
  proposer : state.validators.hasProTxHash header.proposerProTxHash = true
  time : header.height > state.initialHeight → before state.lastBlockTime header.time = true

variable {state : State} {block : Block} {lastCommit : VerifiedCommit} {d : Delivery} {candidate : CurrentRoundState}
  {evidenceOk : Bool} {cache : Cache} {C : Crypto}

lemma HeaderPasses.fits {header : Header} (h : HeaderPasses env state header) : HeaderFits env state header := by
  obtain ⟨-, -, -, hf, hn, hid, hpa, hv, -, hp, ht⟩ := h
  refine ⟨hf, hn, hid, hpa, hv, hp, fun hl => ?_⟩
  rw [validateTime, if_pos hl, failIf_eq_ok] at ht
  simpa using ht

lemma headerFits_of_uncached
    (h : env.validateBlockCached [] state block lastCommit evidenceOk = .ok cache) :
    HeaderFits env state block.header :=
  ((HeaderPasses.of_validated (by simp) h).1.resolve_left (by simp [Collides])).fits

lemma verifyCommit_of_verifyLastCommit
    (hpr : ∀ p, lastCommit.proof = some p →
      Verifies C p.thresholdKeyType p.thresholdKeyBytes (p.signHashes, p.signatures))
    (h : verifyLastCommit C state block lastCommit = .ok ()) :
    ValidatorSet.verifyCommit C (some state.lastValidators) state.chainID state.lastBlockID
      (block.header.height - 1) block.lastCommit none = .ok () := by
  unfold verifyLastCommit at h
  split at h
  · cases h
  · cases h
  next skipped hv =>
  unfold verifyCommitUnlessVerified at hv
  split at hv
  · -- skipped: the proof covers the call
    next hc =>
    unfold VerifiedCommit.covers at hc
    split at hc
    · cases hc
    · cases hc
    · cases hc
    next p vals commit hp hva hco =>
    cases hva
    rw [hco]
    exact CommitProof.verifyCommit_of_checkMatches (hpr p hp) hc
  · cases hv
  · split at hv
    · assumption
    · cases hv
    · cases hv

/-! ### Finalizing one block -/

structure Applied where
  block : Block
  blockID : BlockID
  before : State
  after : State

structure Applied.Sealed (env : Env) (a : Applied) : Prop where
  fits : HeaderFits env a.before a.block.header
  height : a.after.lastBlockHeight = a.block.header.height
  blockID : a.after.lastBlockID = a.blockID
  time : a.after.lastBlockTime = a.block.header.time
  chainID : a.after.chainID = a.before.chainID
  initialHeight : a.after.initialHeight = a.before.initialHeight
  validators : a.after.lastValidators = a.before.validators
  validatorsHash : a.after.validators.hash env.crypto = a.block.header.nextValidatorsHash
  consensusHash : a.after.consensusParams.hashConsensusParams env.crypto = a.block.header.nextConsensusHash
  coreHeight : a.after.lastCoreChainLockedBlockHeight = a.block.header.coreChainLockedHeight
  coreHeight_le : a.before.lastCoreChainLockedBlockHeight ≤ a.block.header.coreChainLockedHeight
  commit : a.before.initialHeight < a.block.header.height →
    ValidatorSet.verifyCommit env.crypto (some a.before.lastValidators) a.before.chainID
      a.before.lastBlockID (a.block.header.height - 1) a.block.lastCommit none = .ok ()

lemma of_validateCoreChainLock (h : validateCoreChainLock block state = .ok ()) :
    (block.coreChainLock = none → block.header.coreChainLockedHeight = state.lastCoreChainLockedBlockHeight) ∧
    ∀ chainLock, block.coreChainLock = some chainLock →
      block.header.coreChainLockedHeight = chainLock.coreBlockHeight ∧
        state.lastCoreChainLockedBlockHeight < chainLock.coreBlockHeight := by
  unfold validateCoreChainLock at h
  cases hl : block.coreChainLock with
  | none =>
    rw [hl] at h
    exact ⟨fun _ => not_not.mp (failIf_eq_ok.mp h), fun _ hc => by cases hc⟩
  | some chainLock =>
    rw [hl] at h
    obtain ⟨_, heq, hlt⟩ := of_bind h
    have he' := not_not.mp (failIf_eq_ok.mp heq)
    have hl' := not_le.mp (failIf_eq_ok.mp hlt)
    refine ⟨fun hc => by (cases hc), fun other ho => ?_⟩
    cases ho
    exact ⟨he', he' ▸ hl'⟩

@[simp] lemma coreChainLock_fillHeader (block : Block) :
    (env.fillHeader block).coreChainLock = block.coreChainLock := by
  unfold Env.fillHeader
  split <;> rfl

section

variable (hd : d.deliver env state = .ok (candidate, block))

include hd

/-- The chain lock of the round state is the one of the block, if the block's passes its check: one that is
not higher than the last, which the round state drops, does not pass. -/
lemma coreChainLock_of_deliver
    (hl : validateCoreChainLock block state = .ok ()) : block.coreChainLock = candidate.coreChainLock := by
  obtain ⟨_, -, hd⟩ := of_bind hd
  obtain ⟨candidate', hn, hd⟩ := of_bind hd
  cases hd
  cases d with
  | prepare draft resp lock round => exact coreChainLock_fillHeader _
  | process b resp round =>
    rw [(CurrentRoundState.isFor_of_new hn).coreChainLock_eq]
    have hc := (of_validateCoreChainLock hl).2
    rw [coreChainLock_fillHeader] at hc ⊢
    show b.coreChainLock = b.coreChainLock.filter _
    cases hb : b.coreChainLock with
    | none => rfl
    | some chainLock =>
      rw [filter_some_pos]
      exact decide_eq_true (hc chainLock hb).2

lemma coreHeight_of_deliver (hl : validateCoreChainLock block state = .ok ()) :
    (match candidate.coreChainLock with
      | some chainLock => chainLock.coreBlockHeight
      | none => state.lastCoreChainLockedBlockHeight) = block.header.coreChainLockedHeight ∧
      state.lastCoreChainLockedBlockHeight ≤ block.header.coreChainLockedHeight := by
  obtain ⟨hn, hs⟩ := of_validateCoreChainLock hl
  rw [coreChainLock_of_deliver hd hl] at hn hs
  cases hc : candidate.coreChainLock with
  | none => exact ⟨(hn hc).symm, (hn hc).ge⟩
  | some chainLock =>
    obtain ⟨heq, hlt⟩ := hs chainLock hc
    exact ⟨heq.symm, heq ▸ hlt.le⟩

lemma sealed_of_finalizeBlock {after : State} {blockID : BlockID}
    (hpr : ∀ p, lastCommit.proof = some p →
      Verifies env.crypto p.thresholdKeyType p.thresholdKeyBytes (p.signHashes, p.signatures))
    (hf : HeaderFits env state block.header)
    (h : env.finalizeBlock cache state candidate blockID block lastCommit evidenceOk = .ok after) :
    Applied.Sealed env ⟨block, blockID, state, after⟩ := by
  obtain ⟨cache', hv, h⟩ := of_bind h
  cases h
  simp only [Env.validateBlockWithRoundState, bind_eq_ok, failIf_eq_ok, Unique.exists_iff, ne_eq, not_not] at hv
  obtain ⟨_, -, -, -, hc, hva, hp, hlo, -⟩ := hv
  obtain ⟨hco, hle⟩ := coreHeight_of_deliver hd hlo
  exact {
    fits := hf
    height := rfl
    blockID := rfl
    time := rfl
    chainID := rfl
    initialHeight := rfl
    validators := rfl
    validatorsHash := hva.symm
    consensusHash := hp.symm
    coreHeight := hco
    coreHeight_le := hle
    commit := fun hl => by
      rw [reverifyLastCommit, if_pos hl] at hc
      exact verifyCommit_of_verifyLastCommit hpr hc }

end

/-! ### The link between two blocks -/

structure Follows (env : Env) (older newer : Applied) : Prop where
  height : newer.block.header.height = older.block.header.height + 1
  lastBlockID : newer.block.header.lastBlockID = older.blockID
  validatorsHash : newer.block.header.validatorsHash = older.block.header.nextValidatorsHash
  consensusHash : newer.block.header.consensusHash = older.block.header.nextConsensusHash
  time : before older.block.header.time newer.block.header.time = true
  coreHeight : older.block.header.coreChainLockedHeight ≤ newer.block.header.coreChainLockedHeight
  commit : ValidatorSet.verifyCommit env.crypto (some older.before.validators) older.before.chainID
    older.blockID older.block.header.height newer.block.lastCommit none = .ok ()

lemma Applied.follows {older newer : Applied} (ho : older.Sealed env) (hn : newer.Sealed env)
    (hon : newer.before = older.after) (hf : older.before.initialHeight ≤ older.block.header.height)
    (hp : 0 < older.block.header.height) : Follows env older newer := by
  have hh : newer.block.header.height = older.block.header.height + 1 := by
    have hla : newer.before.lastBlockHeight = older.block.header.height := hon ▸ ho.height
    rw [← hla]
    exact hn.fits.next (by omega)
  have hi : newer.before.initialHeight = older.before.initialHeight := hon ▸ ho.initialHeight
  have hl : newer.before.initialHeight < newer.block.header.height := by omega
  refine ⟨hh, ?_, ?_, ?_, ?_, ?_, ?_⟩
  · rw [hn.fits.lastBlockID, hon, ho.blockID]
  · rw [hn.fits.validatorsHash, hon, ho.validatorsHash]
  · rw [hn.fits.consensusHash, hon, ho.consensusHash]
  · have ht := hn.fits.time hl
    rwa [hon, ho.time] at ht
  · have hle := hn.coreHeight_le
    rwa [hon, ho.coreHeight] at hle
  have hc := hn.commit hl
  rw [hon, ho.validators, ho.chainID, ho.blockID, hh, add_sub_cancel_right] at hc
  exact hc

/-! ### Runs of the executor -/

/-- A commit with its proof, as callers offer it: a proof is made by `VerifyCommitSignatures` only. -/
structure OfferedCommit (C : Crypto) where
  verified : VerifiedCommit
  minted : verified.proof = none ∨ ∃ vals chainID blockID height commit budget,
    verifyCommitSignatures C vals chainID blockID height commit budget = .ok verified

def noOffer {C : Crypto} : OfferedCommit C := ⟨⟨none, none⟩, .inl rfl⟩

lemma OfferedCommit.verifies (lastCommit : OfferedCommit C) {p : CommitProof}
    (hp : lastCommit.verified.proof = some p) :
    Verifies C p.thresholdKeyType p.thresholdKeyBytes (p.signHashes, p.signatures) := by
  rcases lastCommit.minted with hn | ⟨vals, chainID, blockID, height, commit, budget, hm⟩
  · rw [hn] at hp
    cases hp
  obtain ⟨p', hp', hv⟩ := CommitProof.verifies_of_verifyCommitSignatures hm
  rw [hp'] at hp
  cases hp
  exact hv

structure Executor where
  state : State
  cache : Cache
  applied : List Applied

inductive Event (env : Env) where
  | validate (block : Block) (lastCommit : OfferedCommit env.crypto) (evidenceOk : Bool)
  | finalize (d : Delivery) (blockID : BlockID) (lastCommit : OfferedCommit env.crypto)
      (evidenceOk written : Bool)

namespace Executor

def new (genesis : State) : Executor := ⟨genesis, [], []⟩

def cacheAfter (env : Env) (s : Executor) (block : Block) (lastCommit : VerifiedCommit) (evidenceOk : Bool) : Cache :=
  (env.validateBlockCached s.cache s.state block lastCommit evidenceOk).toOption.getD s.cache

variable (s : Executor) {genesis : State}

/-- One call. A block that was finalized and written changes the state and clears the cache. -/
def step : Event env → Executor
  | .validate block lastCommit evidenceOk =>
    { s with cache := s.cacheAfter env (env.fillHeader block) lastCommit.verified evidenceOk }
  | .finalize d blockID lastCommit evidenceOk written =>
    match d.deliver env s.state with
    | .error _ => s
    | .ok (candidate, block) =>
      match env.finalizeBlock s.cache s.state candidate blockID block lastCommit.verified evidenceOk, written with
      | .ok after, true => ⟨after, [], ⟨block, blockID, s.state, after⟩ :: s.applied⟩
      | _, _ => { s with cache := s.cacheAfter env block lastCommit.verified evidenceOk }

def examined : Event env → Option Block
  | .validate block _ _ => some (env.fillHeader block)
  | .finalize d _ _ _ _ => (d.deliver env s.state).toOption.map (·.2)

/-- The block of a call does not collide with a block in the cache: equal hashes come from equal hashed
fields. -/
def CollisionFree (event : Event env) : Prop :=
  ∀ block ∈ s.examined event, ∀ header ∈ s.cache, env.headerHash header = env.blockHash block →
    hashed header = hashed block.header

structure Linked (env : Env) (genesis : State) (s : Executor) : Prop where
  cache : ∀ header ∈ s.cache, HeaderPasses env s.state header
  current : s.state = (s.applied.head?.map (·.after)).getD genesis
  sealed : ∀ a ∈ s.applied, a.Sealed env
  heights : ∀ a ∈ s.applied, a.before.initialHeight = genesis.initialHeight ∧
    genesis.initialHeight ≤ a.block.header.height
  first : ∀ a ∈ s.applied.getLast?, a.block.header.height = genesis.initialHeight
  chain : s.applied.IsChain fun newer older => Follows env older newer

lemma Linked.cons {s : Executor} (hs : Linked env genesis s)
    (hg : genesis.lastBlockHeight = 0 ∧ 1 ≤ genesis.initialHeight) {a : Applied}
    (hbe : a.before = s.state) (ha : a.Sealed env) : Linked env genesis ⟨a.after, [], a :: s.applied⟩ := by
  have hc := hs.current
  have hfi := ha.fits
  cases hap : s.applied with
  | nil =>
    rw [hap] at hc
    have hge : a.before = genesis := hbe.trans hc
    rw [hge] at hfi
    have hh := hfi.first hg.1
    refine ⟨by simp, rfl, by simpa using ha, ?_, by simpa using hh, isChain_singleton _⟩
    simp [hge, hh]
  | cons last rest =>
    rw [hap] at hc
    have hl : a.before = last.after := hbe.trans hc
    have hm : last ∈ s.applied := by simp [hap]
    obtain ⟨hi, hle⟩ := hs.heights last hm
    have hf : Follows env last a := Applied.follows (hs.sealed last hm) ha hl (by omega) (by omega)
    refine ⟨by simp, rfl, ?_, ?_, ?_, ?_⟩
    · intro b hb
      rcases mem_cons.mp hb with rfl | hb
      · exact ha
      · exact hs.sealed b (hap ▸ hb)
    · intro b hb
      rcases mem_cons.mp hb with rfl | hb
      · have heq := hf.height
        exact ⟨by rw [hl, (hs.sealed last hm).initialHeight, hi], by omega⟩
      · exact hs.heights b (hap ▸ hb)
    · intro b hb
      exact hs.first b (hap ▸ hb)
    · exact isChain_cons_cons.mpr ⟨hf, hap ▸ hs.chain⟩

lemma Linked.step {s : Executor} (hs : Linked env genesis s)
    (hg : genesis.lastBlockHeight = 0 ∧ 1 ≤ genesis.initialHeight) (event : Event env)
    (hfr : s.CollisionFree event) : Linked env genesis (s.step event) := by
  have hc : ∀ {block : Block} {lastCommit : VerifiedCommit} {evidenceOk : Bool},
      Linked env genesis { s with cache := s.cacheAfter env block lastCommit evidenceOk } :=
    { hs with cache := HeaderPasses.after hs.cache }
  cases event with
  | validate block lastCommit evidenceOk => exact hc
  | finalize d blockID lastCommit evidenceOk written =>
    simp only [Executor.step]
    cases hd : d.deliver env s.state with
    | error e => exact hs
    | ok delivered =>
      obtain ⟨candidate, block⟩ := delivered
      have he : block ∈ s.examined (.finalize d blockID lastCommit evidenceOk written) := by
        simp [examined, hd, Except.toOption]
      dsimp only
      split
      · next after hf =>
        obtain ⟨cache', hv, -⟩ := of_bind hf
        obtain ⟨cache'', hca, -⟩ := of_bind hv
        obtain ⟨header, hm, heq, hne⟩ | hp := (HeaderPasses.of_validated hs.cache hca).1
        · exact absurd (hfr block he header hm heq) hne
        exact hs.cons hg rfl (sealed_of_finalizeBlock hd (fun p => lastCommit.verifies) hp.fits hf)
      · exact hc

/-- **Chain integrity.** In every run of the executor from a genesis state, whatever the application
answers, the first finalized block has the initial height, every next one is linked to the one before it,
and the state after a block has the block's core chain locked height. -/
theorem finalized_chain (env : Env) (genDoc : GenesisDoc env.keys) (events : List (Event env))
    (hrun : Admitted step CollisionFree (new (makeGenesisState genDoc)) events) :
    let s := run step (new (makeGenesisState genDoc)) events
    (∀ a ∈ s.applied.getLast?, a.block.header.height = genDoc.initialHeight) ∧
      (s.applied.IsChain fun newer older => Follows env older newer) ∧
      ∀ a ∈ s.applied, a.before.lastCoreChainLockedBlockHeight ≤ a.block.header.coreChainLockedHeight ∧
        a.after.lastCoreChainLockedBlockHeight = a.block.header.coreChainLockedHeight := by
  intro s
  have hs : Linked env (makeGenesisState genDoc) s := by
    refine hrun.invariant (fun s event hs hf => hs.step ⟨rfl, genDoc.one_le_initialHeight⟩ event hf) ?_
    exact ⟨by simp [new], rfl, by simp [new], by simp [new], by simp [new], by simp [new]⟩
  exact ⟨hs.first, hs.chain, fun a ha => ⟨(hs.sealed a ha).coreHeight_le, (hs.sealed a ha).coreHeight⟩⟩

def sampleRun : List (Event sampleEnv) :=
  let genesis := makeGenesisState (sampleGenesis 1 sampleValidators_valid)
  let first := sampleDraft genesis noCommit sampleTime_valid
  let afterFirst := { genesis with lastBlockHeight := 1, lastBlockID := sampleBlockID 1 }
  let second := sampleDraft afterFirst (sampleLastCommit (sampleBlockID 1)) (by decide +kernel)
  [.finalize (.prepare first (sampleResponse 1) none 0) (sampleBlockID 1) noOffer true true,
    .finalize (.prepare second (sampleResponse 2) (some ⟨7, List.replicate hashSize 1,
      List.replicate signatureSize 1⟩) 0) (sampleBlockID 2) noOffer true true]

lemma collisionFree_of_cache_eq_nil {s : Executor} (h : s.cache = []) (event : Event env) : s.CollisionFree event := by
  intro block _ header hm
  rw [h] at hm
  cases hm

theorem sampleRun_chain :
    let s := run step (new (makeGenesisState (sampleGenesis 1 sampleValidators_valid))) sampleRun
    s.applied.length = 2 ∧ s.applied.IsChain fun newer older => Follows sampleEnv older newer := by
  refine ⟨by decide +kernel, (finalized_chain sampleEnv (sampleGenesis 1 sampleValidators_valid) sampleRun
    ⟨?_, ?_, trivial⟩).2.1⟩
  · exact collisionFree_of_cache_eq_nil rfl _
  · exact collisionFree_of_cache_eq_nil (by decide +kernel) _

end Executor

end Tenderdash.Execution
