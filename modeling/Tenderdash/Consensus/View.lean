import Tenderdash.Consensus.StateData

/-!
An abstract node: of the state data it keeps what the safety of the protocol rests on, with a block
reduced to its ID, and it changes by the moves of the protocol. Most of what an action does is no move
at all, and an action that does much is several moves in a row.

A move says what it needs, and no more: a prevote follows the prevote rule, a lock needs a majority of
prevotes for the block the node holds, a height ends with a decision. From that follow the facts about
every node, whatever its peers do: `Sane`, and `Grows` along every sequence of moves. That a lock is
never ahead of the valid block needs more than the protocol promises, `Settled`; a move of a regular
sequence keeps it (`Ordered`).
-/

namespace Tenderdash

open HeightVoteSet List

/-- What safety rests on in the state data of a node. The lists at the end are what the node has asked
its signer and its ticker for, and what it has finalized. -/
structure View where
  height : ℤ
  round : ℤ
  step : RoundStep
  triggered : Bool
  validators : ValidatorSet
  chainID : String
  held : Option BlockID
  heldParts : Bool
  lockedRound : ℤ
  locked : Option BlockID
  lockedParts : Bool
  validRound : ℤ
  valid : Option BlockID
  commitRound : ℤ
  parked : Option Commit
  queuedFor : ℤ
  queued : List Commit
  votes : HeightVoteSet
  asked : List Vote
  ticks : List TimeoutInfo
  finalized : List (ℤ × BlockID)

namespace View

variable (v : View) (state : ChainState)

def polka (r : ℤ) : Option BlockID := twoThirdsMajority (v.votes.prevotes r)

def majority (r : ℤ) : Option BlockID := twoThirdsMajority (v.votes.precommits r)

def Queued (c : Commit) : Prop := v.queuedFor = v.height ∧ c ∈ v.queued

def Verifies (C : Crypto) (v : View) (c : Commit) : Prop :=
  c.height = v.height ∧ 0 ≤ c.round ∧ ∃ budget, ValidatorSet.verifyCommit C (some v.validators) v.chainID c.blockID
    v.height (some c) budget = .ok ()

def IsVote (type : SignedMsgType) (blockID : BlockID) (vote : Vote) : Prop :=
  vote.type = type ∧ vote.height = v.height ∧ vote.round = v.round ∧ vote.blockID = blockID

/-- The prevote rule: the node holds the block, and is not locked, is locked on it, or knows a
majority for it that is not older than its lock. -/
def MayPrevote (blockID : BlockID) : Prop :=
  v.held = some blockID ∧ (v.lockedRound = -1 ∨ v.locked = some blockID ∨
    ∃ r < v.round, v.lockedRound ≤ r ∧ v.polka r = some blockID)

def Settled : Prop :=
  v.parked = none → v.step < .precommit → ∀ blockID, blockID.isNil = false →
    v.polka v.round = some blockID → v.held = some blockID → v.locked = some blockID → v.round ≤ v.validRound

def start (votes : HeightVoteSet) (queuedFor : ℤ) (queued : List Commit)
    (asked : List Vote) (ticks : List TimeoutInfo) (finalized : List (ℤ × BlockID)) : View where
  height := state.nextHeight
  round := 0
  step := .newHeight
  triggered := false
  validators := state.validators
  chainID := state.chainID
  held := none
  heldParts := false
  lockedRound := -1
  locked := none
  lockedParts := false
  validRound := -1
  valid := none
  commitRound := -1
  parked := none
  queuedFor := queuedFor
  queued := queued
  votes := votes
  asked := asked
  ticks := ticks
  finalized := finalized

def next (votes : HeightVoteSet) (blockID : BlockID) : View :=
  start state votes v.queuedFor v.queued v.asked (v.ticks ++ [⟨state.nextHeight, 0, .newHeight⟩])
    (v.finalized ++ [(v.height, blockID)])

end View

/-! ### Moves -/

/-- What a node may take in: how a vote set may change, which commits it may be given and which states
its application may answer with. A regular one keeps the node settled. -/
structure Intake where
  C : Crypto
  regular : Prop
  change : ℤ → SignedMsgType → VoteSet → VoteSet → Prop
  change_refl : ∀ r t vs, change r t vs vs
  change_majority : ∀ r t vs vs' blockID, change r t vs vs' → vs.maj23 = some blockID →
    vs'.maj23 = some blockID
  given : Commit → Prop
  next : ChainState → Prop

inductive Move (I : Intake) : View → View → Prop
  | votes {v : View} (votes : HeightVoteSet) (hv : Evolves I.change v.votes votes)
      (hse : I.regular → v.Settled → { v with votes := votes }.Settled) :
      Move I v { v with votes := votes }
  /-- A majority of prevotes for the block the node holds makes it the valid block. -/
  | polka {v : View} (votes : HeightVoteSet) (blockID : BlockID)
      (hv : Evolves I.change v.votes votes) (hn : blockID.isNil = false)
      (hp : twoThirdsMajority (votes.prevotes v.round) = some blockID)
      (hh : v.held = some blockID) :
      Move I v { v with votes := votes, validRound := v.round, valid := some blockID }
  | drop {v : View} (parts : Bool) : Move I v { v with held := none, heldParts := parts }
  | complete {v : View} (blockID : BlockID)
      (hse : I.regular → v.Settled →
        { v with held := some blockID, heldParts := true }.Settled) :
      Move I v { v with held := some blockID, heldParts := true }
  /-- The block of a majority of prevotes is complete. -/
  | completeValid {v : View} (blockID : BlockID) (hn : blockID.isNil = false)
      (hp : v.polka v.round = some blockID) :
      Move I v { v with
        held := some blockID, heldParts := true, validRound := v.round, valid := some blockID }
  /-- Commits are parked, queued, or given up. -/
  | commits {v : View} (parked : Option Commit) (queuedFor : ℤ) (queued : List Commit)
      (hpa : ∀ c, parked = some c →
        v.parked = some c ∨ v.Queued c ∨ (I.given c ∧ v.Verifies I.C c))
      (hqf : queuedFor ≤ v.height)
      (hq : queuedFor = v.height → ∀ c ∈ queued, v.Queued c ∨ (I.given c ∧ v.Verifies I.C c))
      (hh : I.regular → v.parked.isSome → parked = none → v.held = none) :
      Move I v { v with parked := parked, queuedFor := queuedFor, queued := queued }
  /-- A step that ends with a timeout at the latest. -/
  | await {v : View} (step : RoundStep) (hs : v.step < step) (hc : step < .applyCommit) :
      Move I v { v with ticks := v.ticks ++ [⟨v.height, v.round, step⟩], step := step }
  | prevote {v : View} (blockID : BlockID) (asked : List Vote) (hs : v.step < .prevote)
      (ha : ∀ vote ∈ asked, v.IsVote .prevote blockID vote)
      (hru : (v.held.isSome → v.heldParts = true) → blockID.isNil = false → v.MayPrevote blockID)
      (ho : asked.length ≤ 1) :
      Move I v { v with asked := v.asked ++ asked, step := .prevote }
  | precommitNil {v : View} (asked : List Vote) (hs : v.step < .precommit)
      (ha : ∀ vote ∈ asked, v.IsVote .precommit .nil vote) (ho : asked.length ≤ 1) :
      Move I v { v with asked := v.asked ++ asked, step := .precommit }
  | lock {v : View} (blockID : BlockID) (asked : List Vote) (hs : v.step < .precommit)
      (ha : ∀ vote ∈ asked, v.IsVote .precommit blockID vote) (hn : blockID.isNil = false)
      (hp : v.polka v.round = some blockID) (hh : v.held = some blockID) (ho : asked.length ≤ 1) :
      Move I v { v with
        asked := v.asked ++ asked, step := .precommit
        lockedRound := v.round, locked := some blockID, lockedParts := v.heldParts
        validRound := v.round, valid := some blockID }
  /-- The lock on a block is renewed. -/
  | relock {v : View} (blockID : BlockID) (asked : List Vote) (hs : v.step < .precommit)
      (ha : ∀ vote ∈ asked, v.IsVote .precommit blockID vote) (hn : blockID.isNil = false)
      (hp : v.polka v.round = some blockID) (hh : v.held = some blockID)
      (hl : v.locked = some blockID) (hpa : I.regular → v.parked = none)
      (ho : asked.length ≤ 1) :
      Move I v { v with asked := v.asked ++ asked, step := .precommit, lockedRound := v.round }
  /-- The block is dropped on the way, unless a commit waits for it. -/
  | newRound {v : View} (round : ℤ) (hr : v.round < round ∨ (v.round = round ∧ v.step = .newHeight))
      (hh : round ≠ 0 → v.parked = none → v.held = none) :
      Move I v { v with round := round, step := .newRound, triggered := false }
  | schedule {v : View} (ti : TimeoutInfo) (hhe : ti.height = v.height)
      (hr : ti.round ≤ v.round) : Move I v { v with ticks := v.ticks ++ [ti] }
  /-- The round ends with a timeout at the latest. -/
  | trigger {v : View} :
      Move I v { v with ticks := v.ticks ++ [⟨v.height, v.round, .precommitWait⟩], triggered := true }
  | enterCommit {v : View} (commitRound : ℤ) (hr : 0 ≤ commitRound) :
      Move I v { v with step := .applyCommit, commitRound := commitRound }
  /-- The decided block is the locked one. -/
  | retake {v : View} (hs : v.step = .applyCommit) :
      Move I v { v with held := v.locked, heldParts := v.lockedParts }
  /-- The block of a majority of precommits or of a parked commit is applied. -/
  | apply {v : View} (state : ChainState) (votes : HeightVoteSet) (blockID : BlockID)
      (hne : I.next state) (hhe : state.lastBlockHeight = v.height)
      (hv : HeightVoteSet.new state.chainID state.nextHeight state.validators = .ok votes)
      (hn : blockID.isNil = false)
      (hd : (∃ r, v.majority r = some blockID) ∨
        ∃ c, v.parked = some c ∧ c.blockID = blockID) :
      Move I v (v.next state votes blockID)

abbrev Moves (I : Intake) : View → View → Prop := Relation.ReflTransGen (Move I)

lemma Moves.invariant {I : Intake} {P : View → Prop} (hm : ∀ v v', P v → Move I v v' → P v')
    {v v' : View} (h : Moves I v v') (hv : P v) : P v' := by
  induction h with
  | refl => exact hv
  | tail _ hl ih => exact hm _ _ ih hl

/-! ### What holds for every node -/

namespace View

structure Sane (v : View) : Prop where
  height_pos : 1 ≤ v.height
  round_nonneg : 0 ≤ v.round
  votes_chainID : v.votes.chainID = v.chainID
  votes_height : v.votes.height = v.height
  votes_valSet : v.votes.valSet = v.validators
  held_parts : v.held.isSome → v.heldParts = true
  locked_iff : v.locked.isSome ↔ 0 ≤ v.lockedRound
  locked_ge : -1 ≤ v.lockedRound
  locked_le : v.lockedRound ≤ v.round
  locked_parts : v.locked.isSome → v.lockedParts = true
  locked_polka : ∀ blockID, v.locked = some blockID →
    blockID.isNil = false ∧ v.polka v.lockedRound = some blockID
  locked_step : v.lockedRound = v.round → .precommit ≤ v.step
  valid_iff : v.valid.isSome ↔ 0 ≤ v.validRound
  valid_le : v.validRound ≤ v.round
  valid_polka : ∀ blockID, v.valid = some blockID →
    blockID.isNil = false ∧ v.polka v.validRound = some blockID
  commitRound_nonneg : v.step = .applyCommit → 0 ≤ v.commitRound
  parked_round : ∀ c, v.parked = some c → 0 ≤ c.round
  queued_round : ∀ c, v.Queued c → 0 ≤ c.round
  queuedFor_le : v.queuedFor ≤ v.height
  ticks_le : ∀ ti ∈ v.ticks, ti.height ≤ v.height ∧ (ti.height = v.height → ti.round ≤ v.round)

variable {v v' : View} {I : Intake} {blockID : BlockID}

lemma nextHeight_eq (h : 1 ≤ v.height) {state : ChainState}
    (hh : state.lastBlockHeight = v.height) : state.nextHeight = v.height + 1 := by
  unfold ChainState.nextHeight
  rw [hh, if_neg (by omega)]

lemma Sane.start {state : ChainState} {votes : HeightVoteSet} {queuedFor : ℤ} {queued : List Commit}
    {asked : List Vote} {ticks : List TimeoutInfo} {finalized : List (ℤ × BlockID)}
    (hv : new state.chainID state.nextHeight state.validators = .ok votes)
    (hp : 1 ≤ state.nextHeight) (hq : queuedFor < state.nextHeight)
    (ht : ∀ ti ∈ ticks, ti.height ≤ state.nextHeight ∧ (ti.height = state.nextHeight → ti.round ≤ 0)) :
    (start state votes queuedFor queued asked ticks finalized).Sane where
  height_pos := hp
  round_nonneg := le_refl _
  votes_chainID := (evolves_new hv).chainID_eq
  votes_height := (evolves_new hv).height_eq
  votes_valSet := (evolves_new hv).valSet_eq
  held_parts := by rintro ⟨⟩
  locked_iff := by simp [View.start]
  locked_ge := le_refl _
  locked_le := show (-1 : ℤ) ≤ 0 by decide
  locked_parts := by rintro ⟨⟩
  locked_polka := by rintro B ⟨⟩
  locked_step := by rintro ⟨⟩
  valid_iff := by simp [View.start]
  valid_le := show (-1 : ℤ) ≤ 0 by decide
  valid_polka := by rintro B ⟨⟩
  commitRound_nonneg := nofun
  parked_round := by rintro c ⟨⟩
  queued_round := by
    rintro c ⟨hh, -⟩
    exact absurd hh hq.ne
  queuedFor_le := hq.le
  ticks_le := ht

lemma polka_mono {votes : HeightVoteSet} (hv : Evolves I.change v.votes votes) {r : ℤ}
    (h : v.polka r = some blockID) : twoThirdsMajority (votes.prevotes r) = some blockID :=
  hv.majority_mono (fun vs vs' => I.change_majority r .prevote vs vs' blockID) h

lemma Sane.votes (h : v.Sane) {votes : HeightVoteSet} (hv : Evolves I.change v.votes votes) :
    { v with votes := votes }.Sane :=
  { h with
    votes_chainID := hv.chainID_eq.trans h.votes_chainID
    votes_height := hv.height_eq.trans h.votes_height
    votes_valSet := hv.valSet_eq.trans h.votes_valSet
    locked_polka := fun B hB => ⟨(h.locked_polka B hB).1, polka_mono hv (h.locked_polka B hB).2⟩
    valid_polka := fun B hB => ⟨(h.valid_polka B hB).1, polka_mono hv (h.valid_polka B hB).2⟩ }

lemma Sane.validate (h : v.Sane) (hn : blockID.isNil = false)
    (hp : v.polka v.round = some blockID) : { v with validRound := v.round, valid := some blockID }.Sane :=
  { h with
    valid_iff := ⟨fun _ => h.round_nonneg, fun _ => rfl⟩
    valid_le := le_refl _
    valid_polka := by
      rintro B ⟨⟩
      exact ⟨hn, hp⟩ }

lemma Sane.step (h : v.Sane) {step : RoundStep} (hs : v.step ≤ step)
    (hc : step = .applyCommit → 0 ≤ v.commitRound) : { v with step := step }.Sane :=
  { h with
    locked_step := fun heq => Nat.le_trans (h.locked_step heq) hs
    commitRound_nonneg := hc }

lemma Sane.tick (h : v.Sane) (ti : TimeoutInfo) (hh : ti.height = v.height)
    (hr : ti.round ≤ v.round) : { v with ticks := v.ticks ++ [ti] }.Sane := by
  refine { h with ticks_le := fun ti' hti => ?_ }
  rcases mem_append.mp hti with ho | hn
  · exact h.ticks_le ti' ho
  rw [mem_singleton.mp hn]
  exact ⟨hh.le, fun _ => hr⟩

theorem Sane.move (h : v.Sane) (hm : Move I v v') : v'.Sane := by
  cases hm with
  | votes votes hv => exact h.votes hv
  | polka votes blockID hv hn hp => exact (h.votes hv).validate hn hp
  | drop parts => exact { h with held_parts := by rintro ⟨⟩ }
  | complete blockID => exact { h with held_parts := fun _ => rfl }
  | completeValid blockID hn hp =>
    exact { h.validate hn hp with held_parts := fun _ => rfl }
  | commits parked queuedFor queued hpa hqf hq =>
    exact { h with
      queuedFor_le := hqf
      parked_round := by
        intro c hc
        rcases hpa c hc with ho | ho | hg
        · exact h.parked_round c ho
        · exact h.queued_round c ho
        · exact hg.2.2.1
      queued_round := by
        rintro c ⟨hh, hc⟩
        rcases hq hh c hc with ho | hg
        · exact h.queued_round c ho
        · exact hg.2.2.1 }
  | await step hs hco =>
    have ht := h.tick ⟨v.height, v.round, step⟩ rfl (le_refl _)
    exact ht.step (Nat.le_of_lt hs) (by rintro rfl; exact absurd hco (lt_irrefl 8))
  | prevote blockID asked hs => exact { h.step (Nat.le_of_lt hs) nofun with }
  | precommitNil asked hs => exact { h.step (Nat.le_of_lt hs) nofun with }
  | lock blockID asked hs _ hn hp hhe =>
    have hva := (h.step (Nat.le_of_lt hs) nofun).validate hn hp
    exact { hva with
      locked_iff := ⟨fun _ => h.round_nonneg, fun _ => rfl⟩
      locked_ge := by have := h.round_nonneg; dsimp only; omega
      locked_le := le_refl _
      locked_parts := fun _ => h.held_parts (by rw [hhe]; rfl)
      locked_polka := by
        rintro B ⟨⟩
        exact ⟨hn, hp⟩
      locked_step := fun _ => Nat.le_refl _ }
  | relock blockID asked hs _ hn hp _ hl =>
    exact { h.step (Nat.le_of_lt hs) nofun with
      locked_iff := ⟨fun _ => h.round_nonneg, fun _ => by rw [hl]; rfl⟩
      locked_ge := by have := h.round_nonneg; dsimp only; omega
      locked_le := le_refl _
      locked_polka := by
        intro B hB
        rw [show v.locked = some B from hB] at hl
        cases hl
        exact ⟨hn, hp⟩
      locked_step := fun _ => Nat.le_refl _ }
  | newRound round hro =>
    have hle : v.round ≤ round := by omega
    have hl : v.lockedRound ≠ round := by
      intro heq
      rcases hro with hlt | ⟨hr, hs⟩
      · have := h.locked_le; omega
      -- the round is the same, and the node has not even entered it
      have := h.locked_step (heq.trans hr.symm)
      rw [hs] at this
      exact absurd this (by decide)
    exact { h with
      round_nonneg := h.round_nonneg.trans hle
      locked_le := h.locked_le.trans hle
      locked_step := fun heq => absurd heq hl
      valid_le := h.valid_le.trans hle
      commitRound_nonneg := nofun
      ticks_le := fun ti hti => ⟨(h.ticks_le ti hti).1, fun heq => ((h.ticks_le ti hti).2 heq).trans hle⟩ }
  | schedule ti hh hro => exact h.tick ti hh hro
  | trigger => exact { h.tick ⟨v.height, v.round, .precommitWait⟩ rfl (le_refl _) with }
  | enterCommit commitRound hro =>
    have hs : RoundStep.precommit ≤ .applyCommit := by decide
    exact { h with locked_step := fun _ => hs, commitRound_nonneg := fun _ => hro }
  | retake => exact { h with held_parts := h.locked_parts }
  | apply state votes blockID _ hh hv =>
    have hnx := nextHeight_eq h.height_pos hh
    have hpo := h.height_pos
    have hq := h.queuedFor_le
    refine start hv (by omega) (by omega) fun ti hti => ?_
    rcases mem_append.mp hti with ho | hne
    · have := (h.ticks_le ti ho).1
      exact ⟨by omega, by omega⟩
    rw [mem_singleton.mp hne]
    exact ⟨le_refl _, fun _ => le_refl _⟩

def Grows (v v' : View) : Prop :=
  v.height < v'.height ∨ (v.height = v'.height ∧ v.lockedRound ≤ v'.lockedRound ∧ v.validRound ≤ v'.validRound)

lemma Grows.refl (v : View) : v.Grows v := .inr ⟨rfl, le_refl _, le_refl _⟩

lemma Grows.trans {a b c : View} (h : a.Grows b) (h' : b.Grows c) : a.Grows c := by
  unfold Grows at *
  omega

lemma Sane.grows (h : v.Sane) (hm : Move I v v') : v.Grows v' := by
  have hl := h.locked_le
  have hv := h.valid_le
  cases hm with
  | apply state votes blockID _ hh =>
    have := nextHeight_eq h.height_pos hh
    left
    dsimp only [next, View.start]
    omega
  | polka | completeValid => exact .inr ⟨rfl, le_refl _, hv⟩
  | lock => exact .inr ⟨rfl, hl, hv⟩
  | relock => exact .inr ⟨rfl, hl, le_refl _⟩
  | _ => exact .inr ⟨rfl, le_refl _, le_refl _⟩

/-! ### What holds for a regular node -/

structure Ordered (v : View) : Prop extends Sane v where
  locked_le_valid : v.lockedRound ≤ v.validRound
  settled : v.Settled

lemma settled_of_le (h : v.round ≤ v.validRound) : v.Settled := fun _ _ _ _ _ _ _ => h

lemma settled_of_step (h : .precommit ≤ v.step) : v.Settled := fun _ hlt =>
  absurd h (Nat.not_le.mpr hlt)

lemma settled_of_held (h : v.held = none) : v.Settled := by
  intro _ _ B _ _ hh
  rw [h] at hh
  cases hh

theorem Ordered.move (hI : I.regular) (h : v.Ordered) (hm : Move I v v') : v'.Ordered := by
  have hs := h.toSane.move hm
  have hle := h.locked_le_valid
  have hst : RoundStep.precommit ≤ .precommit := by decide
  cases hm with
  | votes votes _ hse => exact ⟨hs, hle, hse hI h.settled⟩
  | polka | completeValid => exact ⟨hs, h.locked_le, settled_of_le (le_refl _)⟩
  | drop => exact ⟨hs, hle, settled_of_held rfl⟩
  | complete blockID hse => exact ⟨hs, hle, hse hI h.settled⟩
  | commits parked queuedFor queued _ _ _ hh =>
    refine ⟨hs, hle, fun hn => ?_⟩
    cases hp : v.parked with
    | none => exact h.settled hp
    | some c => exact settled_of_held (hh hI (by rw [hp]; rfl) hn) hn
  | await step hl' =>
    exact ⟨hs, hle, fun hn hlt => h.settled hn (Nat.lt_trans hl' hlt)⟩
  | prevote blockID asked hlt =>
    have hlt' : v.step < .precommit := Nat.lt_trans hlt (by decide)
    exact ⟨hs, hle, fun hn _ => h.settled hn hlt'⟩
  | precommitNil => exact ⟨hs, hle, settled_of_step hst⟩
  | lock => exact ⟨hs, le_refl _, settled_of_step hst⟩
  | relock blockID asked hlt _ hni hpo hh hl hp =>
    -- the block became valid before
    exact ⟨hs, h.settled (hp hI) hlt blockID hni hpo hh hl, settled_of_step hst⟩
  | newRound round hr hh =>
    refine ⟨hs, hle, fun hn _ => ?_⟩
    rcases hr with hlt | ⟨rfl, hne⟩
    · have := h.round_nonneg
      exact settled_of_held (hh (by omega) hn) hn (show RoundStep.newRound < .precommit by decide)
    · exact h.settled hn (by rw [hne]; decide)
  | schedule | trigger => exact ⟨hs, hle, h.settled⟩
  | enterCommit => exact ⟨hs, hle, settled_of_step (show RoundStep.precommit ≤ .applyCommit by decide)⟩
  | retake hc => exact ⟨hs, hle, settled_of_step (by rw [hc]; decide)⟩
  | apply => exact ⟨hs, le_refl _, settled_of_held rfl⟩

end View

end Tenderdash
