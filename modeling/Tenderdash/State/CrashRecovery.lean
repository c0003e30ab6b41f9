import Tenderdash.State.Replay

/-!
Crash recovery: the replay after each number of writes of a block (`replay_synced`, `replay_behind`, `replay_ahead`),
and in every run.
-/

namespace Tenderdash.Execution

open Lib Go Run List Function

variable {env : Env} {α : Type}

/-! ### One block -/

structure Accepted (env : Env) (process : Go String Response) (accepts : Bool) (state : State)
    (stored : StoredBlock) (evidenceOk : Bool) (resp : Response) (after : State) : Prop where
  process_eq : process = .ok resp
  accepts_eq : accepts = true
  evidence_eq : evidenceOk = true
  appHash_ne : resp.appHash ≠ []
  lastAppHash : after.lastAppHash = resp.appHash
  lastBlockHeight : after.lastBlockHeight = stored.block.header.height
  initialHeight : after.initialHeight = state.initialHeight
  first : state.lastBlockHeight = 0 → stored.block.header.height = state.initialHeight
  next : 0 < state.lastBlockHeight → stored.block.header.height = state.lastBlockHeight + 1

lemma fillHeader_height (block : Block) : (env.fillHeader block).header.height = block.header.height := by
  unfold Env.fillHeader
  split <;> rfl

variable {state : State} {evidenceOk : Bool} {process : Go String Response} {accepts : Bool}

lemma evidenceOk_of_validated {block : Block} {lastCommit : VerifiedCommit} {cache : Cache}
    (h : env.validateBlockCached [] state block lastCommit evidenceOk = .ok cache) : evidenceOk = true := by
  unfold Env.validateBlockCached at h
  obtain ⟨_, -, h⟩ := of_bind h
  obtain ⟨_, he, -⟩ := of_bind h
  simpa using failIf_eq_ok.mp he

lemma accepted_of_applyBlock {stored : StoredBlock} {resp : Response}
    {after : State} (h : applyBlock env process accepts state stored evidenceOk = .ok (resp, after)) :
    Accepted env process accepts state stored evidenceOk resp after := by
  obtain ⟨answer, hp, h⟩ := of_bind h
  obtain ⟨⟨candidate, block⟩, hd, h⟩ := of_bind h
  obtain ⟨_, ha, h⟩ := of_bind h
  obtain ⟨after', hfi, h⟩ := of_bind h
  cases h
  obtain ⟨_, hl, hd⟩ := of_bind hd
  obtain ⟨_, hn, hd⟩ := of_bind hd
  cases hd
  obtain ⟨cache, hv, hu⟩ := of_bind hfi
  cases hu
  obtain ⟨cache', hc, -⟩ := of_bind hv
  have hf := headerFits_of_uncached hc
  have hheight : (env.fillHeader stored.block).header.height = stored.block.header.height := fillHeader_height _
  exact {
    process_eq := hp
    accepts_eq := by simpa using failIf_eq_ok.mp ha
    evidence_eq := evidenceOk_of_validated hc
    appHash_ne := by
      rintro hni
      refine failIf_eq_ok.mp hl ?_
      rw [show (Delivery.roundParams _).appHash = [] from hni]
      decide
    lastAppHash := (CurrentRoundState.isFor_of_new hn).appHash_eq
    lastBlockHeight := hheight
    initialHeight := rfl
    first := fun h0 => hheight.symm.trans (hf.first h0)
    next := fun h0 => hheight.symm.trans (hf.next h0) }

lemma applyBlock_mock {stored : StoredBlock} {resp : Response}
    {after : State} (h : applyBlock env process accepts state stored evidenceOk = .ok (resp, after)) :
    applyBlock env (.ok resp) true state stored true = .ok (resp, after) := by
  have ha := accepted_of_applyBlock h
  rwa [ha.process_eq, ha.accepts_eq, ha.evidence_eq] at h

/-! ### The replay after each write -/

namespace Disk

lemma storeBase_cons (disk : Disk α) (stored : StoredBlock) (app : α) (responses : ℤ → Option Response)
    (state : State) : storeBase ⟨app, stored :: disk.blocks, responses, state⟩ =
      if disk.blocks = [] then stored.block.header.height else disk.storeBase := by
  unfold storeBase
  cases hb : disk.blocks with
  | nil => rfl
  | cons b bs => simp

lemma loadBlock_cons (disk : Disk α) (stored : StoredBlock) (app : α) (responses : ℤ → Option Response) (state : State)
    : loadBlock ⟨app, stored :: disk.blocks, responses, state⟩ stored.block.header.height = .ok stored := by
  simp [loadBlock]

end Disk

lemma ReplayState.validate_eq_ok {rs : ReplayState} {state : State} (hst : rs.storeHeight ≠ 0)
    (hf : ¬ (rs.appHeight = 0 ∧ state.initialHeight < rs.storeBase))
    (hb : ¬ (0 < rs.appHeight ∧ rs.appHeight < rs.storeBase - 1)) (ha : rs.appHeight ≤ rs.storeHeight)
    (hs : rs.stateHeight ≤ rs.storeHeight) (hn : rs.storeHeight ≤ rs.stateHeight + 1) : rs.validate state = .ok () := by
  unfold validate
  rw [if_neg hst, if_neg hf, if_neg hb, if_neg (not_lt.mpr ha), if_neg (not_lt.mpr hs), if_neg (not_lt.mpr hn)]

namespace Replayer

variable (R : Replayer env α)

structure Synced (disk : Disk α) : Prop where
  app_height : R.app.height disk.app = disk.state.lastBlockHeight
  store_height : disk.storeHeight = disk.state.lastBlockHeight
  base_le : disk.storeBase ≤ disk.storeHeight
  height_nonneg : 0 ≤ disk.state.lastBlockHeight
  one_le_initialHeight : 1 ≤ disk.state.initialHeight
  app_hash : disk.state.lastBlockHeight ≠ 0 →
    R.app.appHash disk.app = disk.state.lastAppHash ∧ disk.state.lastAppHash ≠ []
  fresh : disk.state.lastBlockHeight = 0 → disk.blocks = [] ∧ disk.app = R.app.start ∧
    ∃ res, R.app.initChain = .ok res ∧ initState env.crypto R.typeValid R.genDoc res disk.state = .ok disk.state

variable {R} {disk : Disk α} {stored : StoredBlock} {evidenceOk : Bool} {resp : Response} {after : State}

lemma Synced.execInitChain (h : R.Synced disk) (storeHeight storeBase : ℤ) : ∃ ws,
    R.execInitChain ⟨storeHeight, storeBase, disk.state.lastBlockHeight, R.app.height disk.app,
      R.app.appHash disk.app⟩ disk.state = .ok (⟨storeHeight, storeBase, disk.state.lastBlockHeight,
        disk.state.lastBlockHeight, disk.state.lastAppHash⟩, ws) ∧ delivered ws = [] ∧
    ∀ blocks responses, ws.foldl Disk.perform ⟨disk.app, blocks, responses, disk.state⟩ =
      ⟨disk.app, blocks, responses, disk.state⟩ := by
  unfold Replayer.execInitChain
  by_cases hz : disk.state.lastBlockHeight = 0
  · obtain ⟨-, ha, res, hr, hi⟩ := h.fresh hz
    refine ⟨[.initChain R.app.start, .save disk.state], ?_, rfl, fun blocks responses => by rw [ha]; rfl⟩
    rw [if_neg (not_not.mpr (h.app_height.trans hz)), hr]
    refine bind_eq_ok.mpr ⟨res, rfl, ?_⟩
    rw [if_neg (not_not.mpr hz), hi, (lastBlockHeight_of_initState hi).2.2, h.app_height]
    rfl
  · refine ⟨[], ?_, rfl, fun _ _ => rfl⟩
    rw [if_pos (by rw [h.app_height]; exact hz), (h.app_hash hz).1, h.app_height]

lemma replay_synced (h : R.Synced disk) :
    ∃ ws, R.replay disk = .ok ws ∧ ws.foldl Disk.perform disk = disk ∧ delivered ws = [] := by
  obtain ⟨ws, hi, hd, hsa⟩ := h.execInitChain disk.storeHeight disk.storeBase
  have hdi : ws.foldl Disk.perform disk = disk := hsa disk.blocks disk.responses
  refine ⟨ws, bind_eq_ok.mpr ⟨_, hi, ?_⟩, hdi, hd⟩
  dsimp only
  rw [hdi]
  have hs := h.store_height
  have hb := h.base_le
  by_cases hz : disk.state.lastBlockHeight = 0
  · refine bind_eq_ok.mpr ⟨(), ?_, if_pos (hs.trans hz)⟩
    unfold ReplayState.validate
    rw [if_pos (hs.trans hz)]
    exact failIf_eq_ok.mpr (not_not.mpr rfl)
  refine bind_eq_ok.mpr ⟨(), ReplayState.validate_eq_ok ?_ ?_ ?_ ?_ ?_ ?_, ?_⟩
  any_goals
    dsimp only
    omega
  · rw [if_neg (by omega)]
    refine bind_eq_ok.mpr ⟨(disk.state.lastAppHash, []), ?_, ?_⟩
    · unfold syncStateIfItIsEqualStore
      dsimp only
      rw [if_neg (by omega), if_neg (by omega), if_pos hs.symm]
      exact bind_eq_ok.mpr ⟨(), failIf_eq_ok.mpr (not_not.mpr rfl), rfl⟩
    rw [if_pos (h.app_hash hz).2, append_nil]

section

variable (h : R.Synced disk) (hreal : R.applyReal disk stored true = .ok (resp, after))

include hreal

lemma syncStateAt_real (responses : ℤ → Option Response) :
    R.syncStateAt ⟨disk.app, stored :: disk.blocks, responses, disk.state⟩ none stored.block.header.height =
      .ok (after, [.saveABCIResponses stored.block.header.height resp, R.finalizeWrite disk stored, .save after]) :=
  bind_eq_ok.mpr ⟨stored, Disk.loadBlock_cons disk stored .., bind_eq_ok.mpr ⟨(resp, after), hreal, rfl⟩⟩

lemma syncStateAt_mock (app : α) (responses : ℤ → Option Response) :
    R.syncStateAt ⟨app, stored :: disk.blocks, responses, disk.state⟩ (some resp) stored.block.header.height =
      .ok (after, [.saveABCIResponses stored.block.header.height resp, .save after]) :=
  bind_eq_ok.mpr ⟨stored, Disk.loadBlock_cons disk stored ..,
    bind_eq_ok.mpr ⟨(resp, after), applyBlock_mock hreal, rfl⟩⟩

variable (hheight : stored.block.header.height = disk.state.lastBlockHeight + 1) {responses : ℤ → Option Response}

include h hheight

lemma replay_lacking {app : α} {appHeight : ℤ} {hash : Bytes}
    {ws' : List (Write α)} (ws : List (Write α)) (d : Disk α) (hd : d = ⟨app, stored :: disk.blocks, responses, disk.state⟩)
    (hap : appHeight = disk.state.lastBlockHeight ∨ appHeight = stored.block.header.height)
    (hi : R.execInitChain ⟨d.storeHeight, d.storeBase, d.state.lastBlockHeight, R.app.height d.app,
      R.app.appHash d.app⟩ d.state = .ok (⟨d.storeHeight, d.storeBase, d.state.lastBlockHeight, appHeight, hash⟩, ws))
    (hsa : ws.foldl Disk.perform d = d)
    (hsy : R.syncStateIfItIsOneAheadOfStore ⟨d.storeHeight, d.storeBase, d.state.lastBlockHeight, appHeight, hash⟩ d =
      .ok (after.lastAppHash, ws')) : R.replay d = .ok (ws ++ ws') := by
  have ha := accepted_of_applyBlock hreal
  have hst := h.store_height
  have hb := h.base_le
  have hn := h.height_nonneg
  have hb' := Disk.storeBase_cons disk stored app responses disk.state
  have hs' : d.storeHeight = stored.block.header.height := by rw [hd]; rfl
  have hs : d.state = disk.state := by rw [hd]
  have hl := congrArg State.lastBlockHeight hs
  rw [← hd] at hb'
  refine bind_eq_ok.mpr ⟨_, hi, ?_⟩
  dsimp only
  rw [hsa]
  refine bind_eq_ok.mpr ⟨(), ReplayState.validate_eq_ok ?_ ?_ ?_ ?_ ?_ ?_, ?_⟩
  any_goals
    dsimp only
    omega
  · rintro ⟨hz, hlt⟩
    dsimp only at hz hlt
    have hf : disk.state.lastBlockHeight = 0 := by omega
    rw [hb', if_pos (h.fresh hf).1, hs] at hlt
    exact absurd (ha.first hf) hlt.ne'
  rw [if_neg (by omega)]
  refine bind_eq_ok.mpr ⟨([], []), ?_, ?_⟩
  · unfold syncStateIfItIsEqualStore
    exact if_pos (by dsimp only; omega)
  rw [if_neg (by simp)]
  refine bind_eq_ok.mpr ⟨_, hsy, ?_⟩
  rw [if_pos (by rw [ha.lastAppHash]; exact ha.appHash_ne), append_nil]

lemma replay_behind (responses : ℤ → Option Response) :
    ∃ ws, R.replay ⟨disk.app, stored :: disk.blocks, responses, disk.state⟩ = .ok ws ∧
      ws.foldl Disk.perform ⟨disk.app, stored :: disk.blocks, responses, disk.state⟩ =
        ⟨R.app.finalizeBlock disk.app stored.block stored.commit, stored :: disk.blocks,
          Function.update responses stored.block.header.height (some resp), after⟩ ∧
      delivered ws = [stored.block.header.height] := by
  obtain ⟨ws, hi, hd, hs⟩ := h.execInitChain stored.block.header.height
    (Disk.storeBase ⟨disk.app, stored :: disk.blocks, responses, disk.state⟩)
  refine ⟨ws ++ [.saveABCIResponses stored.block.header.height resp, R.finalizeWrite disk stored, .save after],
    replay_lacking h hreal hheight ws _ rfl (.inl rfl) hi (hs ..) ?_, ?_, ?_⟩
  · refine (if_neg (not_not.mpr hheight)).trans ((if_neg (lt_irrefl _)).trans ((if_pos rfl).trans ?_))
    exact bind_eq_ok.mpr ⟨_, syncStateAt_real hreal responses, rfl⟩
  · rw [foldl_append, hs]
    rfl
  · rw [delivered, filterMap_append, ← delivered, hd]
    rfl

lemma replay_ahead (hr : responses stored.block.header.height = some resp) :
    let app := R.app.finalizeBlock disk.app stored.block stored.commit
    ∃ ws, R.replay ⟨app, stored :: disk.blocks, responses, disk.state⟩ = .ok ws ∧
      ws.foldl Disk.perform ⟨app, stored :: disk.blocks, responses, disk.state⟩ =
        ⟨app, stored :: disk.blocks, responses, after⟩ ∧ delivered ws = [] := by
  intro app
  have hn := h.height_nonneg
  have ha : R.app.height app = stored.block.header.height := R.app.height_finalizeBlock ..
  refine ⟨[.saveABCIResponses stored.block.header.height resp, .save after],
    replay_lacking h hreal hheight [] _ rfl (.inr ha) (if_pos ?_) rfl ?_, ?_, rfl⟩
  · dsimp only
    omega
  · refine (if_neg (not_not.mpr hheight)).trans ((if_neg ?_).trans ((if_neg ?_).trans ((if_pos ha).trans ?_)))
    · dsimp only
      omega
    · dsimp only
      omega
    have hs : Disk.storeHeight ⟨app, stored :: disk.blocks, responses, disk.state⟩ = stored.block.header.height := rfl
    simp only [hs, hr]
    exact bind_eq_ok.mpr ⟨_, syncStateAt_mock hreal app responses, rfl⟩
  · show Disk.mk app (stored :: disk.blocks) (update responses _ _) after = _
    rw [← hr, update_eq_self]

end

/-! ### Runs -/

lemma Synced.one_le_height (h : R.Synced disk) (hreal : R.applyReal disk stored evidenceOk = .ok (resp, after)) :
    1 ≤ stored.block.header.height := by
  have ha := accepted_of_applyBlock hreal
  have hi := h.one_le_initialHeight
  rcases h.height_nonneg.eq_or_lt with hz | hp
  · rw [ha.first hz.symm]
    exact hi
  rw [ha.next hp]
  omega

lemma Synced.written (h : R.Synced disk) (hreal : R.applyReal disk stored evidenceOk = .ok (resp, after))
    (responses : ℤ → Option Response) :
    R.Synced ⟨R.app.finalizeBlock disk.app stored.block stored.commit, stored :: disk.blocks, responses, after⟩ := by
  have ha := accepted_of_applyBlock hreal
  have hp := h.one_le_height hreal
  have hheight := ha.lastBlockHeight
  exact {
    app_height := (R.app.height_finalizeBlock ..).trans hheight.symm
    store_height := hheight.symm
    base_le := by
      rw [Disk.storeBase_cons]
      show _ ≤ stored.block.header.height
      split_ifs with hni
      · exact le_refl _
      -- the block is not the first one
      have hz : disk.state.lastBlockHeight ≠ 0 := fun hz => hni (h.fresh hz).1
      have hn := h.height_nonneg
      have hb := h.base_le
      have hs := h.store_height
      rw [ha.next (by omega)]
      omega
    height_nonneg := by
      show 0 ≤ after.lastBlockHeight
      omega
    one_le_initialHeight := by
      show 1 ≤ after.initialHeight
      rw [ha.initialHeight]
      exact h.one_le_initialHeight
    app_hash := fun _ => ⟨(R.app.appHash_finalizeBlock _ _ _ resp ha.process_eq).trans ha.lastAppHash.symm,
      by rw [show (Disk.mk _ _ _ after).state.lastAppHash = _ from ha.lastAppHash]; exact ha.appHash_ne⟩
    fresh := fun hz => absurd (show after.lastBlockHeight = 0 from hz) (by omega) }

variable (R) (node : Option (Disk α)) (input : (StoredBlock × Bool) × Option ℕ)

def missing (appHeight storeHeight : ℤ) : List ℤ :=
  (List.range (storeHeight - appHeight).toNat).map fun i : ℕ => appHeight + 1 + i

lemma missing_self (height : ℤ) : missing height height = [] := by simp [missing]

lemma missing_succ (height : ℤ) : missing height (height + 1) = [height + 1] := by simp [missing]

def Recoverable (disk : Disk α) (k : ℕ) : Prop :=
  disk.state.lastBlockHeight = 0 → disk.state.initialHeight = 1 ∨ k = 0 ∨ 4 ≤ k

instance (disk : Disk α) (k : ℕ) : Decidable (Recoverable disk k) := by
  unfold Recoverable
  infer_instance

def restart (disk : Disk α) : Option (Disk α) :=
  (R.replay disk).toOption.map fun ws => ws.foldl Disk.perform disk

def blank : Disk α := ⟨R.app.start, [], fun _ => none, makeGenesisState R.genDoc⟩

def turn : Option (Disk α) :=
  node.bind fun disk => match input.2 with
    | none => some (R.apply disk input.1)
    | some k => R.restart (R.crashed disk input.1 k)

def Admits : Prop :=
  ∀ disk ∈ node, ∀ k ∈ input.2, Recoverable disk k

instance (node : Option (Disk α)) (input : (StoredBlock × Bool) × Option ℕ) : Decidable (Admits node input) := by
  unfold Admits
  infer_instance

def kept (inputs : List ((StoredBlock × Bool) × Option ℕ)) : List (StoredBlock × Bool) :=
  inputs.filterMap fun input => if input.2 = some 0 then none else some input.1

variable {R} {call : StoredBlock × Bool} (initialHeight : ℤ)

lemma Synced.apply (h : R.Synced disk) (call : StoredBlock × Bool) : R.Synced (R.apply disk call) := by
  unfold Replayer.apply
  cases hw : R.writes disk call with
  | error e => exact h
  | ok ws =>
    obtain ⟨⟨resp, after⟩, hreal, hws⟩ := of_bind hw
    cases hws
    exact h.written hreal _

/-- **One crash.** The replay delivers what the application lacks, and leads to the disk before the block or
after it. -/
lemma replay_crashed (h : R.Synced disk) (call : StoredBlock × Bool) {k : ℕ} (hk : Recoverable disk k) :
    ∃ ws, R.replay (R.crashed disk call k) = .ok ws ∧
      ws.foldl Disk.perform (R.crashed disk call k) = (if k = 0 then disk else R.apply disk call) ∧
      delivered ws = missing (R.app.height (R.crashed disk call k).app) (R.crashed disk call k).storeHeight := by
  have hl : ∀ {disk : Disk α}, R.Synced disk → missing (R.app.height disk.app) disk.storeHeight = [] := by
    intro disk h
    rw [h.app_height, h.store_height, missing_self]
  unfold crashed Replayer.apply
  cases hw : R.writes disk call with
  | error e =>
    obtain ⟨ws, hr, hdi, hd⟩ := replay_synced h
    exact ⟨ws, hr, by rw [hdi]; split_ifs <;> rfl, hd.trans (hl h).symm⟩
  | ok written =>
    obtain ⟨⟨resp, after⟩, hreal, hws⟩ := of_bind hw
    have ha := accepted_of_applyBlock hreal
    have hre := hreal
    rw [ha.evidence_eq] at hre
    cases hws
    -- between the first write and the last one the block is one ahead of the state
    have hn : k ≠ 0 → ¬ 4 ≤ k → call.1.block.header.height = disk.state.lastBlockHeight + 1 := by
      intro hf hla
      rcases h.height_nonneg.eq_or_lt with hz | hp
      · have := hk hz.symm
        rw [ha.first hz.symm]
        omega
      · exact ha.next hp
    have hm : call.1.block.header.height = disk.state.lastBlockHeight + 1 →
        missing (R.app.height disk.app) call.1.block.header.height = [call.1.block.header.height] := by
      intro hheight
      rw [h.app_height, hheight, missing_succ]
    match k with
    | 0 =>
      obtain ⟨ws, hr, hdi, hd⟩ := replay_synced h
      exact ⟨ws, hr, hdi, hd.trans (hl h).symm⟩
    | 1 =>
      have hheight := hn (by omega) (by omega)
      obtain ⟨ws, hr, hdi, hd⟩ := replay_behind h hre hheight disk.responses
      exact ⟨ws, hr, hdi, hd.trans (hm hheight).symm⟩
    | 2 =>
      have hheight := hn (by omega) (by omega)
      obtain ⟨ws, hr, hdi, hd⟩ := replay_behind h hre hheight
        (update disk.responses call.1.block.header.height (some resp))
      refine ⟨ws, hr, hdi.trans ?_, hd.trans (hm hheight).symm⟩
      rw [update_idem]
      rfl
    | 3 =>
      have hheight := hn (by omega) (by omega)
      obtain ⟨ws, hr, hdi, hd⟩ := replay_ahead h hre hheight
        (update_self call.1.block.header.height (some resp) disk.responses)
      refine ⟨ws, hr, hdi, hd.trans ?_⟩
      show [] = missing (R.app.height (R.app.finalizeBlock ..)) call.1.block.header.height
      rw [R.app.height_finalizeBlock, missing_self]
    | k + 4 =>
      have hs := h.written hreal (update disk.responses call.1.block.header.height (some resp))
      obtain ⟨ws, hr, hdi, hd⟩ := replay_synced hs
      simp only [take_succ_cons, take_nil]
      exact ⟨ws, hr, hdi, hd.trans (hl hs).symm⟩

lemma synced_of_restart_blank (h : R.restart R.blank = some disk) : R.Synced disk := by
  obtain ⟨ws, hr, rfl⟩ := Option.map_eq_some_iff.mp h
  obtain ⟨⟨rs, ws₀⟩, hi, hr⟩ := of_bind (toOption_eq_some.mp hr)
  have ha : R.app.height R.blank.app = 0 := R.app.height_start
  unfold execInitChain at hi
  rw [if_neg (not_not.mpr ha)] at hi
  obtain ⟨res, hre, hi⟩ := of_bind hi
  obtain ⟨state, hs, hi⟩ := of_bind hi
  cases hi
  obtain ⟨_, -, hr⟩ := of_bind hr
  cases hr
  obtain ⟨hheight, hin, -⟩ := lastBlockHeight_of_initState hs
  replace hheight : state.lastBlockHeight = 0 := hheight
  replace hin : state.initialHeight = R.genDoc.initialHeight := hin
  exact {
    app_height := R.app.height_start.trans hheight.symm
    store_height := hheight.symm
    base_le := le_refl _
    height_nonneg := hheight.symm.le
    one_le_initialHeight := hin.symm ▸ R.genDoc.one_le_initialHeight
    app_hash := (absurd hheight)
    fresh := fun _ => ⟨rfl, rfl, res, hre, initState_idem hs⟩ }

lemma run_turn (h : R.Synced disk) {inputs : List ((StoredBlock × Bool) × Option ℕ)}
    (hr : Admitted R.turn Admits (some disk) inputs) :
    run R.turn (some disk) inputs = some (run R.apply disk (kept inputs)) ∧
      R.Synced (run R.apply disk (kept inputs)) := by
  induction inputs generalizing disk with
  | nil => exact ⟨rfl, h⟩
  | cons input inputs ih =>
    obtain ⟨call, crash⟩ := input
    obtain ⟨ha, hr⟩ := hr
    rw [run_cons]
    cases crash with
    | none => exact ih (h.apply call) hr
    | some k =>
      obtain ⟨ws, hre, hd, -⟩ := replay_crashed h call (ha disk rfl k rfl)
      have ht : R.turn (some disk) (call, some k) = some (if k = 0 then disk else R.apply disk call) := by
        show R.restart (R.crashed disk call k) = _
        unfold restart
        rw [hre, ← hd]
        rfl
      rw [ht] at hr ⊢
      rcases eq_or_ne k 0 with rfl | hk
      · exact ih h hr
      rw [if_neg hk] at hr ⊢
      have hke : kept ((call, some k) :: inputs) = call :: kept inputs := by simp [kept, hk]
      rw [hke]
      exact ih (h.apply call) hr

def sampleApp : Application (ℤ × Bytes) where
  height := (·.1)
  appHash := (·.2)
  start := (0, [])
  initChain := .ok ⟨[], none, ⟨[], none, []⟩, none, 0, none⟩
  processProposal _ block _ := .ok ⟨block.header.appHash, [], none, none⟩
  acceptsExtensions _ _ _ := true
  finalizeBlock _ block _ := (block.header.height, block.header.appHash)
  height_start := rfl
  height_finalizeBlock _ _ _ := rfl
  appHash_finalizeBlock _ block _ _ h := by
    cases h
    rfl

def sampleReplayer (h : 1 ≤ initialHeight) : Replayer sampleEnv (ℤ × Bytes) where
  app := sampleApp
  genDoc := { sampleGenesis 1 sampleValidators_valid with initialHeight := initialHeight, one_le_initialHeight := h }
  typeValid _ := true
  loadValidators _ _ := Go.fail "no validators"

def sampleDisk (h : 1 ≤ initialHeight) : Disk (ℤ × Bytes) :=
  ((sampleReplayer initialHeight h).restart (sampleReplayer initialHeight h).blank).getD
    (sampleReplayer initialHeight h).blank

def sampleCall (h : 1 ≤ initialHeight)
    (ht : (Timestamp.mk (sampleDisk initialHeight h).state.nextHeight 0).valid = true) : StoredBlock × Bool :=
  let state := (sampleDisk initialHeight h).state
  let draft := sampleDraft state noCommit ht
  let block := ((Delivery.prepare draft (sampleResponse 1) none 0).deliver sampleEnv state).toOption.map (·.2)
  (⟨block.getD draft, sampleBlockID 1, noCommit⟩, true)

end Replayer

end Tenderdash.Execution
