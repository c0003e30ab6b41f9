import Tenderdash.State.Store

/-!
When `LoadValidators` finds a proposer, and which. The set itself is never changed by the search; the search
fails if the consensus version is not known, or if the proposer it starts from is not a member of the set.

For the next height the search and the selector of consensus are two procedures. They part after a change of
the quorum, where the height selector starts at the second validator and the search at the first, and at
height 2, where the search starts from the first validator whoever proposed the first block.
-/

namespace Tenderdash.Execution

open Lib Go SelectProposer SelectProposer.Selector List ValidatorSet

variable {C : Crypto}

/-- The consensus versions that `NewProposerSelector` knows. -/
def KnownVersion (params : ConsensusParams) : Prop :=
  params.version.consensusVersion = 0 ∨ params.version.consensusVersion = 1

instance (params : ConsensusParams) : Decidable (KnownVersion params) := by
  unfold KnownVersion
  infer_instance

variable {vals : ValidatorSet} {height : ℤ} {bs : BlockStore} {s : Selector} (version : SelectProposer.Version)
  {proTxHash : Bytes} {index : ℤ} {round : ℤ}

lemma setProposer_of_index (h : 0 ≤ vals.indexByProTxHash proTxHash) :
    Rotation.setProposer ⟨vals, index⟩ proTxHash = .ok ⟨vals, vals.indexByProTxHash proTxHash⟩ := by
  unfold Rotation.setProposer
  rw [if_neg (not_lt.mpr h)]

lemma index_nonneg_of_mem {val : Validator} (h : val ∈ vals.validators) : 0 ≤ vals.indexByProTxHash val.proTxHash := by
  unfold indexByProTxHash
  cases hf : vals.validators.findIdx? fun other => other.proTxHash = val.proTxHash with
  | some index => simp
  | none =>
    have hn := findIdx?_eq_none_iff.mp hf val h
    simp at hn

lemma index_nonneg_of_hasProTxHash (h : vals.hasProTxHash proTxHash = true) : 0 ≤ vals.indexByProTxHash proTxHash := by
  simp only [hasProTxHash, decide_eq_true_eq, any_eq_true] at h
  obtain ⟨-, val, hv, rfl⟩ := h
  exact index_nonneg_of_mem hv

/-! ### Selectors keep the set -/

lemma new_vals {version : SelectProposer.Version} {vset : Rotation} (hs : 0 < vset.vals.size)
    (h : Selector.new C version vset height round (some bs) = .ok s) : s.rotation.vals = vset.vals := by
  rw [new_eq vset hs] at h
  split_ifs at h
  · obtain ⟨index, -, rfl⟩ := map_eq_ok.mp h
    rfl
  · cases h
    rfl

lemma updateScores_vals {s' : Selector} (hsi : 0 < s.rotation.vals.size)
    (h : s.updateScores C height round (some bs) = .ok s') : s'.rotation.vals = s.rotation.vals := by
  unfold updateScores at h
  dsimp only at h
  by_cases hs : height - s.height = 0
  · rw [if_pos hs] at h
    split at h
    · cases h
      rfl
    · split at h <;> (cases h; rfl)
  · rw [if_neg hs] at h
    by_cases hb : height - s.height < 0
    · rw [if_pos hb] at h
      cases h
    rw [if_neg hb] at h
    by_cases hj : 1 < height - s.height
    · rw [if_pos hj] at h
      split at h
      · cases h
      obtain ⟨s₁, hs₁, h⟩ := of_bind h
      rw [mapErr_eq_ok, proposerFromStore_eq hsi] at hs₁
      obtain ⟨index, -, rfl⟩ := map_eq_ok.mp hs₁
      cases h
      rfl
    · rw [if_neg hj] at h
      cases h
      rfl

lemma storeIndex_stored {blockMeta : BlockMeta}
    (hm : bs.loadBlockMeta height = some blockMeta) (hh : blockMeta.header.validatorsHash = vals.hash C)
    (hi : 0 ≤ vals.indexByProTxHash blockMeta.header.proposerProTxHash) :
    storeIndex C version vals height blockMeta.round bs =
      .ok (if height = 0 ∨ height = 1 then 0 else (vals.indexByProTxHash blockMeta.header.proposerProTxHash +
        match version with | .height => -blockMeta.round | .heightRound => (0 : ℤ)) % vals.size) := by
  unfold storeIndex
  split_ifs
  · rfl
  · cases version <;> simp [target, heightTarget, heightRoundTarget, hm, hh, bind, Except.bind, not_lt.mpr hi, int32]

lemma updateScores_next (index round : ℤ) (bs : BlockStore) :
    Selector.updateScores C ⟨version, ⟨vals, index⟩, height, round⟩ (height + 1) 0 (some bs) =
      .ok ⟨version, ⟨vals, (index + 1) % vals.size⟩, height + 1, 0⟩ := by
  unfold updateScores
  dsimp only
  rw [if_neg (by omega), if_neg (by omega), if_neg (by omega)]
  cases version <;> simp [Rotation.incProposerIndex]

lemma exists_updateScores (h : height = s.height ∨ height = s.height + 1)
    (bs : BlockStore) : ∃ s', s.updateScores C height 0 (some bs) = .ok s' := by
  rcases h with rfl | rfl
  · unfold updateScores
    dsimp only
    rw [if_pos (sub_self _)]
    split
    · exact ⟨_, rfl⟩
    · split_ifs <;> exact ⟨_, rfl⟩
  · exact ⟨_, updateScores_next ..⟩

/-! ### The search for a proposer -/

namespace StateStore

variable {valSet : ValidatorSet} {height : ℤ} {bs : BlockStore} {r : Rotation} {params : ConsensusParams}
  {blockMeta : BlockMeta}

def versionOf (params : ConsensusParams) : SelectProposer.Version :=
  if params.version.consensusVersion = 0 then .height else .heightRound

lemma newProposerSelector_eq (hv : KnownVersion params) (vset : Rotation) (round : ℤ) :
    newProposerSelector C params vset height round bs = Selector.new C (versionOf params) vset height round (some bs) := by
  unfold newProposerSelector versionOf
  rcases hv with h | h
  · rw [if_pos h, if_pos h]
  · rw [if_neg (by omega), if_pos h, if_neg (by omega)]

lemma exists_proposerFromMeta (hsi : 0 < valSet.size)
    (hv : KnownVersion params) (hm : bs.loadBlockMeta blockMeta.header.height = some blockMeta)
    (hha : blockMeta.header.validatorsHash = valSet.hash C)
    (hi : 0 ≤ valSet.indexByProTxHash blockMeta.header.proposerProTxHash)
    (hh : height = blockMeta.header.height ∨ height = blockMeta.header.height + 1) :
    ∃ r, proposerFromMeta C params valSet blockMeta height bs = .ok r := by
  obtain ⟨s, hs, hsh⟩ : ∃ s, newProposerSelector C params
      ⟨valSet, valSet.indexByProTxHash blockMeta.header.proposerProTxHash⟩ blockMeta.header.height
      blockMeta.round bs = .ok s ∧ s.height = blockMeta.header.height := by
    rw [newProposerSelector_eq hv, new_eq _ hsi, storeIndex_stored _ hm hha hi]
    split_ifs <;> exact ⟨_, rfl, rfl⟩
  obtain ⟨s', hs'⟩ := exists_updateScores (C := C) (hsh ▸ hh) bs
  refine ⟨s'.rotation, ?_⟩
  unfold proposerFromMeta
  rw [setProposer_of_index hi]
  dsimp only [bind, Except.bind, mapErr]
  rw [hs]
  dsimp only [updateHeightRound]
  rw [hs']

lemma of_proposerFromMeta (hsi : 0 < valSet.size) (h : proposerFromMeta C params valSet blockMeta height bs = .ok r) :
    r.vals = valSet ∧ KnownVersion params ∧ 0 ≤ valSet.indexByProTxHash blockMeta.header.proposerProTxHash := by
  obtain ⟨vset, hse, h⟩ := of_bind h
  obtain ⟨s, hs, h⟩ := of_bind h
  obtain ⟨s', hs', h⟩ := of_bind h
  cases h
  obtain ⟨hi, rfl⟩ := setProposer_eq_ok (mapErr_eq_ok.mp hse)
  have hs := mapErr_eq_ok.mp hs
  have hv : KnownVersion params := by
    unfold newProposerSelector at hs
    split_ifs at hs with h0 h1
    · exact .inl h0
    · exact .inr h1
    · cases hs
  rw [newProposerSelector_eq hv] at hs
  have hva := new_vals hsi hs
  exact ⟨(updateScores_vals (by rw [hva]; exact hsi) (mapErr_eq_ok.mp hs')).trans hva, hv, hi⟩

lemma firstProposer_eq (hs : 0 < valSet.size) : firstProposer valSet = .ok ⟨valSet, 0⟩ := by
  have hg : valSet.validators[0]? = some valSet.validators[0] := getElem?_eq_getElem hs
  have hi := indexByProTxHash_eq hg fun j hj => by omega
  rw [firstProposer, getByIndex_eq_some.mpr ⟨le_rfl, hg⟩]
  simp [Rotation.setProposer, hi]

lemma findProposer_vals {store : StateStore} (hs : 0 < valSet.size)
    (h : store.findProposer C valSet height bs = .ok r) : r.vals = valSet := by
  have hf : firstProposer valSet = .ok r → r.vals = valSet := by
    rw [firstProposer_eq hs]
    rintro ⟨⟩
    rfl
  unfold findProposer at h
  split_ifs at h
  · exact hf h
  split at h
  · exact (of_proposerFromMeta hs h).1
  split at h
  · cases h
  split_ifs at h
  · cases h
  · exact hf h
  · exact (of_proposerFromMeta hs h).1

/-! ### The search and the selector of consensus -/

/-- The proposer of round 0 that the selector `updateToState` builds names. -/
def consensusProposer (C : Crypto) (params : ConsensusParams) (vset : Rotation) (height : ℤ) (bs : BlockStore) :
    Go String (Option Validator) := do
  let s ← newProposerSelector C params vset height 0 bs
  return (← s.getProposer C height 0 (some bs)).2

/-- The search and consensus name the same proposer: after a change of the quorum in version 1; otherwise from
height 3 on, and at height 2 if the proposer of the first block, in version 0 less the round the node saw it
committed in, is the first validator. -/
def namesSame (params : ConsensusParams) (valSet : ValidatorSet) (height : ℤ) (prevMeta : BlockMeta) : Bool :=
  if prevMeta.header.validatorsHash ≠ prevMeta.header.nextValidatorsHash then versionOf params = .heightRound
  else height ≠ 2 || (valSet.indexByProTxHash prevMeta.header.proposerProTxHash -
    match versionOf params with | .height => prevMeta.round | .heightRound => (0 : ℤ)) % valSet.size = 0

lemma consensusProposer_eq (hv : KnownVersion params) (hs : 0 < bs.base ∧ bs.base ≤ height)
    (hin : 0 ≤ index ∧ index < valSet.size) :
    consensusProposer C params ⟨valSet, index⟩ height bs =
      ((storeIndex C (versionOf params) valSet height 0 bs).mapErr ("could not initialize proposer: " ++ ·)).map
        valSet.getByIndex := by
  have hn : named C (versionOf params) ⟨valSet, index⟩ height bs [] 0 = _ := named_eq hin (by simp) (by norm_num)
  rw [if_pos hs] at hn
  rw [consensusProposer, newProposerSelector_eq hv]
  refine hn.trans ?_
  rcases hi : storeIndex C (versionOf params) valSet height 0 bs with (e | msg) | i
  · rfl
  · rfl
  · have hm := storeIndex_mem (by omega) hi
    simp [Except.map, mapErr, Int.emod_eq_of_lt hm.1 hm.2]

lemma proposerFromMeta_next (hsi : 0 < valSet.size) (hv : KnownVersion params)
    (hs : 0 < bs.base ∧ bs.base ≤ height - 1) (hp : bs.loadBlockMeta (height - 1) = some blockMeta)
    (hm : blockMeta.header.height = height - 1) (hh : blockMeta.header.validatorsHash = valSet.hash C)
    (hi : 0 ≤ valSet.indexByProTxHash blockMeta.header.proposerProTxHash) :
    proposerFromMeta C params valSet blockMeta height bs =
      .ok ⟨valSet, ((if height - 1 = 0 ∨ height - 1 = 1 then 0 else
        (valSet.indexByProTxHash blockMeta.header.proposerProTxHash + match versionOf params with
          | .height => -blockMeta.round | .heightRound => (0 : ℤ)) % valSet.size) + 1) % valSet.size⟩ := by
  have hu := @updateScores_next C valSet (height - 1) (versionOf params)
  rw [sub_add_cancel] at hu
  unfold proposerFromMeta
  rw [setProposer_of_index hi]
  dsimp only [bind, Except.bind, mapErr]
  rw [hm, newProposerSelector_eq hv, new_eq _ hsi, if_pos hs, storeIndex_stored _ hp hh hi]
  dsimp only [Except.map, mapErr, updateHeightRound]
  rw [hu]

/-- **One proposer.** For a height above 1 whose block is not stored yet and whose set is the one the previous
header announces, the proposer `LoadValidators` returns is the one consensus starts the height with, exactly if
`namesSame` says so. -/
theorem loaded_proposer_agrees_iff (C : Crypto) (store : StateStore) (bs : BlockStore) (height : ℤ)
    (valSet : ValidatorSet) (params : ConsensusParams) (prevMeta : BlockMeta) (index : ℤ) (hheight : 1 < height)
    (hvals : store.loadValidators height = .ok valSet) (hparams : store.loadConsensusParams height = .ok params)
    (hversion : KnownVersion params) (hstore : 0 < bs.base ∧ bs.base ≤ height - 1)
    (hmissing : bs.loadBlockMeta height = none) (hprev : bs.loadBlockMeta (height - 1) = some prevMeta)
    (hmeta : prevMeta.header.height = height - 1) (hnext : prevMeta.header.nextValidatorsHash = valSet.hash C)
    (hnodup : (valSet.validators.map (·.proTxHash)).Nodup) (hindex : 0 ≤ index ∧ index < valSet.size)
    (hproposer : prevMeta.header.validatorsHash = prevMeta.header.nextValidatorsHash →
      0 ≤ valSet.indexByProTxHash prevMeta.header.proposerProTxHash) :
    (store.loadValidatorsWithProposer C height bs).map (·.proposer) =
      consensusProposer C params ⟨valSet, index⟩ height bs ↔ namesSame params valSet height prevMeta = true := by
  have hs : 0 < valSet.size := by omega
  have hl : store.loadValidatorsWithProposer C height bs =
      if prevMeta.header.validatorsHash ≠ prevMeta.header.nextValidatorsHash then .ok ⟨valSet, 0⟩
      else proposerFromMeta C params valSet prevMeta height bs := by
    rw [loadValidatorsWithProposer, hvals]
    simp only [bind, Except.bind, findProposer, hparams, hmissing, hprev, if_neg hheight.ne', hnext,
      firstProposer_eq hs, Except.toOption, Option.getD_some, ne_eq, not_true_eq_false, if_false]
  have he : EndsBefore bs height := ⟨by omega, hmissing⟩
  rw [hl, consensusProposer_eq hversion ⟨hstore.1, by omega⟩ hindex,
    storeIndex_next hs hnodup he (by omega) hprev, ← hnext]
  unfold namesSame
  by_cases hr : prevMeta.header.validatorsHash = prevMeta.header.nextValidatorsHash
  · rw [if_neg (not_not.mpr hr), if_neg (not_not.mpr hr), if_pos hr,
      if_neg (not_lt.mpr (hproposer hr)), proposerFromMeta_next hs hversion hstore hprev hmeta
        (hr.trans hnext) (hproposer hr)]
    have hm : ∀ i : ℤ, 0 ≤ i % valSet.size ∧ i % valSet.size < valSet.size := fun i =>
      ⟨Int.emod_nonneg i (by omega), Int.emod_lt_of_pos i (by exact_mod_cast hs)⟩
    have hi : ∀ i j : ℤ, valSet.getByIndex (i % valSet.size) = valSet.getByIndex (j % valSet.size) ↔
        (j - i) % valSet.size = 0 := fun i j =>
      ⟨fun h => Int.emod_eq_zero_of_dvd (Int.modEq_iff_dvd.mp (getByIndex_injective hnodup (hm i) (hm j) h)),
        fun h => congrArg _ (Int.modEq_iff_dvd.mpr (Int.dvd_of_emod_eq_zero h))⟩
    simp only [Except.map, mapErr, Except.ok.injEq, Rotation.proposer, Bool.or_eq_true, decide_eq_true_eq]
    by_cases ht : height = 2
    · rw [if_pos (by omega), hi]
      simp only [ht, ne_eq, not_true_eq_false, false_or]
      cases versionOf params <;> ring_nf
    · rw [if_neg (by omega), Int.emod_add_emod, hi]
      simp only [ht, ne_eq, not_false_eq_true, true_or, iff_true]
      cases versionOf params <;> ring_nf <;> rfl
  · rw [if_pos hr, if_pos hr, if_neg hr]
    cases versionOf params with
    | heightRound => simp [Except.map, mapErr, Rotation.proposer]
    | height =>
      split_ifs with ht
      · have hne : ¬valSet.getByIndex 0 = valSet.getByIndex 1 := fun h => by
          have := getByIndex_injective hnodup ⟨le_rfl, by omega⟩ ⟨by decide, by omega⟩ h
          omega
        simpa [Except.map, mapErr, Rotation.proposer] using hne
      · simp [Except.map, mapErr, Go.crash]

def sampleRecords (vals : ValidatorSet) : StateStore :=
  ⟨none, [(2, ⟨some vals, 2⟩)], [(2, ⟨some .default, 2⟩)]⟩

/-- At height 2, after a first block by the first validator in round 0. -/
theorem second_height_agrees :
    ((sampleRecords (sampleValidators 4)).loadValidatorsWithProposer .sample 2 (sampleStore 0)).map (·.proposer) =
      consensusProposer .sample .default ⟨sampleValidators 4, 0⟩ 2 (sampleStore 0) := by
  refine (loaded_proposer_agrees_iff .sample (sampleRecords (sampleValidators 4)) (sampleStore 0) 2
    (sampleValidators 4) _ ⟨sampleBlockID 1, 0, sampleHeader 1 (sampleValidators 4), 0, 0, false⟩ 0 (by decide) rfl rfl
    (.inl rfl) (by decide) rfl rfl rfl rfl (by decide) (by decide) fun _ => by decide).mpr ?_
  decide +kernel

def rotatedValidators : ValidatorSet :=
  { sampleValidators 4 with thresholdPublicKey := some ⟨0, List.replicate pubKeySize 2⟩ }

def rotatedStore : BlockStore where
  base := 1
  loadBlockMeta height := if height = 1 then some ⟨sampleBlockID 1, 0, { sampleHeader 1 (sampleValidators 4) with
    nextValidatorsHash := rotatedValidators.hash .sample }, 0, 0, false⟩ else none

/-- After a change of the quorum in version 0 the search names the first validator and consensus the second. -/
theorem rotated_proposers_differ :
    ((sampleRecords rotatedValidators).loadValidatorsWithProposer .sample 2 rotatedStore).map (·.proposer) =
        .ok (some (sampleValidator 0)) ∧
      consensusProposer .sample .default ⟨rotatedValidators, 0⟩ 2 rotatedStore = .ok (some (sampleValidator 1)) := by
  decide +kernel

end StateStore

end Tenderdash.Execution
