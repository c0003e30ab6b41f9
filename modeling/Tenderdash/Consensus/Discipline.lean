import Tenderdash.Consensus.EventMoves
import Tenderdash.Types.VoteSetBacking

/-!
What the votes of a node have to do with the votes it has seen. A node is informed if its vote sets, its
commits and what it has finalized are backed by votes that were said (`Informed`), and it is disciplined if
its own votes keep the rules of the protocol (`Disciplined`): one vote in each round and step, a precommit
for a block only with a quorum of prevotes, and after it a prevote for another block only with a later
quorum. Moves keep both.
-/

namespace Tenderdash

open Lib Locking HeightVoteSet List VoteSet

/-- Who said what: the validator with an index voted for a block, in a step of a round of a height. -/
abbrev Said := SignedMsgType → ℤ → ℤ → ℕ → BlockID → Prop

structure Committee where
  validators : ValidatorSet
  chainID : String
  power : ℕ
  quorum : ℕ
  equal : ∀ val ∈ validators.validators, val.votingPower = power
  reached : ∀ k : ℕ, validators.quorumVotingThresholdPower ≤ power * k → quorum ≤ k

namespace Committee

variable (K : Committee)

def members : Finset ℕ := Finset.range K.validators.validators.length

def Agrees (said : Said) (type : SignedMsgType) (height round : ℤ) (blockID : BlockID) : Prop :=
  Quorum K.members K.quorum fun i => said type height round i blockID

variable {blockID : BlockID}

lemma Agrees.mono {K : Committee} {said said' : Said} (hs : ∀ t h r i b, said t h r i b → said' t h r i b)
    {type : SignedMsgType} {height round : ℤ} (h : K.Agrees said type height round blockID) :
    K.Agrees said' type height round blockID :=
  Quorum.mono h fun i => hs type height round i blockID

end Committee

namespace View

/-! ### What a node knows -/

structure Informed (K : Committee) (said : Said) (v : View) : Prop where
  validators : v.validators = K.validators
  chainID : v.chainID = K.chainID
  backed : ∀ r t vs, v.votes.getVoteSet r t = some vs →
    vs.Backed (fun i blockID => said t v.height r i blockID) ∧ vs.ballot = ⟨K.chainID, v.height, r, t, K.validators⟩
  parked : ∀ c, v.parked = some c → c.height = v.height ∧ K.Agrees said .precommit c.height c.round c.blockID
  queued : ∀ c, v.Queued c → c.height = v.height ∧ K.Agrees said .precommit c.height c.round c.blockID
  finalized : ∀ entry ∈ v.finalized,
    entry.2.isNil = false ∧ ∃ r, K.Agrees said .precommit entry.1 r entry.2

variable {K : Committee} {said said' : Said} {v v' : View} {asked : List Vote} {I : Intake}

lemma Informed.mono (hs : ∀ t h r i b, said t h r i b → said' t h r i b) (h : v.Informed K said) :
    v.Informed K said' where
  validators := h.validators
  chainID := h.chainID
  backed := fun r t vs hvs =>
    ⟨(h.backed r t vs hvs).1.mono (hs t v.height r), (h.backed r t vs hvs).2⟩
  parked := fun c hc => ⟨(h.parked c hc).1, (h.parked c hc).2.mono hs⟩
  queued := fun c hc => ⟨(h.queued c hc).1, (h.queued c hc).2.mono hs⟩
  finalized := fun entry he => ⟨(h.finalized entry he).1, (h.finalized entry he).2.imp fun _ hr => hr.mono hs⟩

lemma Informed.agrees (h : v.Informed K said) {r : ℤ} {t : SignedMsgType}
    (hm : twoThirdsMajority (v.votes.getVoteSet r t) = some blockID) : K.Agrees said t v.height r blockID := by
  obtain ⟨vs, hvs, hm⟩ := Option.bind_eq_some_iff.mp hm
  obtain ⟨hb, hba⟩ := h.backed r t vs hvs
  have hv : vs.valSet = K.validators := congrArg Ballot.vals hba
  have hq := hb.quorum (p := K.power) (q := K.quorum) (by rw [hv]; exact K.equal) (by rw [hv]; exact K.reached) hm
  rwa [hv] at hq

lemma Informed.start {state : ChainState} {votes : HeightVoteSet} {queuedFor : ℤ} {queued : List Commit} {ticks : List TimeoutInfo} {finalized : List (ℤ × BlockID)}
    (hv : state.validators = K.validators) (hch : state.chainID = K.chainID)
    (hvo : new state.chainID state.nextHeight state.validators = .ok votes)
    (hqf : queuedFor < state.nextHeight)
    (hf : ∀ entry ∈ finalized, entry.2.isNil = false ∧ ∃ r, K.Agrees said .precommit entry.1 r entry.2) :
    (start state votes queuedFor queued asked ticks finalized).Informed K said := by
  refine ⟨hv, hch, fun r t vs hvs => ?_, nofun, fun c hc => absurd hc.1 hqf.ne, hf⟩
  obtain ⟨vs₀, hs, hfr⟩ := (evolves_new hvo).comes r t vs hvs
  rcases hfr with hso | ⟨-, rfl⟩
  · cases hso
  -- the vote sets are new
  rw [show vs = _ from hs]
  refine ⟨backed_new .., ?_⟩
  rw [hv, hch]
  rfl

/-- What a node takes in with an event is said: a vote that verifies was said by its validator, a commit that
verifies by a quorum, and the application keeps the validators. -/
structure Truthful (K : Committee) (said : Said) (C : Crypto) (W : World) (event : Event) : Prop where
  vote : ∀ msg peerID fromReplay, event = .vote msg peerID fromReplay → ∀ i val,
    K.validators.validators[i]? = some val →
    (∃ budget, msg.ref.vote.verify C K.chainID K.validators.quorumType K.validators.quorumHash val.pubKey
      val.proTxHash budget = .ok ()) →
    said msg.ref.vote.type msg.ref.vote.height msg.ref.vote.round i msg.ref.vote.blockID
  commit : ∀ commit peerID fromReplay, event = .commit commit peerID fromReplay →
    (∃ budget, ValidatorSet.verifyCommit C (some K.validators) K.chainID commit.blockID commit.height
      (some commit) budget = .ok ()) →
    K.Agrees said .precommit commit.height commit.round commit.blockID
  next : ∀ n before crs blockID commit state immediately,
    W.finalizeBlock n before crs blockID commit = .ok (state, immediately) →
    state.validators = K.validators ∧ state.chainID = K.chainID

section Intake

variable {W : World} {cfg : Config} {event : Event} {regular : Prop}

lemma Informed.votes (h : v.Informed K said) (ht : Truthful K said cfg.C W event) {votes : HeightVoteSet}
    (hh : v.votes.height = v.height) (hch : v.votes.chainID = v.chainID)
    (hvl : v.votes.valSet = v.validators) (hvo : Evolves (intake W cfg event regular).change v.votes votes) :
    ∀ r t vs, votes.getVoteSet r t = some vs →
      vs.Backed (fun i blockID => said t v.height r i blockID) ∧
        vs.ballot = ⟨K.chainID, v.height, r, t, K.validators⟩ := by
  intro r t vs' hv'
  obtain ⟨vs, hc, hf⟩ := hvo.comes r t vs' hv'
  -- the vote set it comes from is backed
  have ho : vs.Backed (said t v.height r) ∧ vs.ballot = ⟨K.chainID, v.height, r, t, K.validators⟩ := by
    rcases hf with hso | ⟨-, rfl⟩
    · exact h.backed r t vs hso
    refine ⟨backed_new .., ?_⟩
    rw [hh, hch, hvl, h.validators, h.chainID]
    rfl
  obtain ⟨hba, hb⟩ := ho
  rcases hc with rfl | ⟨msg, peerID, fromReplay, check, added, err, he, hm, hr, hty, had⟩ |
    ⟨peerID, blockID, height, rfl⟩
  · exact ⟨hba, hb⟩
  · obtain ⟨chain, hgt, rnd, typ, vals⟩ : vs.chainID = K.chainID ∧ vs.height = v.height ∧ vs.round = r ∧
        vs.signedMsgType = t ∧ vs.valSet = K.validators := by simpa [ballot] using hb
    have hp : ∀ val ∈ vs.valSet.validators, 0 ≤ val.votingPower := by
      intro val hva
      rw [vals] at hva
      rw [K.equal val hva]
      exact Int.natCast_nonneg _
    refine (hba.addVote hp (Vote.proper_of_validateBasic msg.valid) (fun val identity ha => ?_)
      had).imp_right (·.trans hb)
    have hv := verify_of_checkSignatures hm ha.checked
    have hva := ha.validator
    rw [chain, vals] at hv
    rw [vals] at hva
    have hs := ht.vote msg peerID fromReplay he _ val hva hv
    rwa [ha.height_eq, hgt, ← hr, ← hty] at hs
  · exact (hba.setPeerMaj23 peerID blockID height r).imp_right (·.trans hb)

lemma Informed.given (h : v.Informed K said) (ht : Truthful K said cfg.C W event) {c : Commit}
    (hg : (intake W cfg event regular).given c) (hve : v.Verifies cfg.C c) :
    c.height = v.height ∧ K.Agrees said .precommit c.height c.round c.blockID := by
  obtain ⟨peerID, fromReplay, he⟩ := hg
  obtain ⟨hh, -, budget, hv⟩ := hve
  rw [h.validators, h.chainID, ← hh] at hv
  exact ⟨hh, ht.commit c peerID fromReplay he ⟨budget, hv⟩⟩

lemma Informed.move (h : v.Informed K said) (hs : v.Sane) (ht : Truthful K said cfg.C W event)
    (hm : Move (intake W cfg event regular) v v') : v'.Informed K said := by
  cases hm with
  | votes votes hvo =>
    exact { h with
      backed := h.votes ht hs.votes_height hs.votes_chainID hs.votes_valSet hvo }
  | polka votes blockID hvo =>
    exact { h with
      backed := h.votes ht hs.votes_height hs.votes_chainID hs.votes_valSet hvo }
  | commits parked queuedFor queued hp _ hq =>
    refine { h with parked := fun c hc => ?_, queued := fun c hc => ?_ }
    · rcases hp c hc with ho | ho | ⟨hg, hv⟩
      · exact h.parked c ho
      · exact h.queued c ho
      · exact h.given ht hg hv
    rcases hq hc.1 c hc.2 with ho | ⟨hg, hv⟩
    · exact h.queued c ho
    · exact h.given ht hg hv
  | apply state votes blockID hn hh hvo hni hd =>
    obtain ⟨n, before, crs, id, commit, immediately, han⟩ := hn
    obtain ⟨hva, hch⟩ := ht.next _ _ _ _ _ _ _ han
    have hnh := nextHeight_eq hs.height_pos hh
    have hqf := hs.queuedFor_le
    refine .start hva hch hvo (by omega) fun entry he => ?_
    rcases mem_append.mp he with ho | hne
    · exact h.finalized entry ho
    rw [mem_singleton.mp hne]
    refine ⟨hni, ?_⟩
    rcases hd with ⟨r, hma⟩ | ⟨c, hp, rfl⟩
    · exact ⟨r, h.agrees hma⟩
    obtain ⟨hc, ha⟩ := h.parked c hp
    exact ⟨c.round, hc ▸ ha⟩
  | _ => exact { h with }

end Intake

/-! ### What a node says -/

def voteStep : SignedMsgType → RoundStep
  | .prevote => .prevote
  | .precommit => .precommit
  | _ => .newHeight

structure Careful (v : View) : Prop where
  height_le : ∀ vote ∈ v.asked, vote.height ≤ v.height
  round_nonneg : ∀ vote ∈ v.asked, 0 ≤ vote.round
  round_le : ∀ vote ∈ v.asked, vote.height = v.height → vote.round ≤ v.round
  step_le : ∀ vote ∈ v.asked, vote.height = v.height → vote.round = v.round → voteStep vote.type ≤ v.step
  once : ∀ a ∈ v.asked, ∀ b ∈ v.asked, a.type = b.type → a.height = b.height → a.round = b.round →
    a.blockID = b.blockID

lemma Careful.fresh (h : v.Careful) {type : SignedMsgType} (hs : v.step < voteStep type) {vote : Vote}
    (hv : vote ∈ v.asked) (hh : vote.height = v.height) (hr : vote.round = v.round) : vote.type ≠ type := by
  rintro rfl
  exact absurd (h.step_le vote hv hh hr) (Nat.not_le.mpr hs)

lemma Careful.cast (h : v.Careful) (hsa : v.Sane) (type : SignedMsgType)
    (hs : v.step < voteStep type) (had : ∀ vote ∈ asked, v.IsVote type blockID vote) :
    { v with asked := v.asked ++ asked, step := voteStep type }.Careful := by
  refine ⟨fun vote hv => ?_, fun vote hv => ?_, fun vote hv hh => ?_,
    fun vote hv hh hr => ?_, fun a ha b hb ht hh hr => ?_⟩
  · rcases mem_append.mp hv with ho | hn
    · exact h.height_le vote ho
    · exact (had vote hn).2.1.le
  · rcases mem_append.mp hv with ho | hn
    · exact h.round_nonneg vote ho
    · rw [(had vote hn).2.2.1]
      exact hsa.round_nonneg
  · rcases mem_append.mp hv with ho | hn
    · exact h.round_le vote ho hh
    · exact (had vote hn).2.2.1.le
  · rcases mem_append.mp hv with ho | hn
    · exact le_trans (h.step_le vote ho hh hr) (Nat.le_of_lt hs)
    · rw [(had vote hn).1]
      exact Nat.le_refl _
  -- an old vote is not of the step the node votes in now
  rcases mem_append.mp ha with ha | ha <;> rcases mem_append.mp hb with hb | hb
  · exact h.once a ha b hb ht hh hr
  · obtain ⟨hbt, hbh, hbr, -⟩ := had b hb
    exact absurd (ht.trans hbt) (h.fresh hs ha (hh.trans hbh) (hr.trans hbr))
  · obtain ⟨hat, hah, har, -⟩ := had a ha
    exact absurd (ht.symm.trans hat) (h.fresh hs hb (hh.symm.trans hah) (hr.symm.trans har))
  · rw [(had a ha).2.2.2, (had b hb).2.2.2]

lemma Careful.move (h : v.Careful) (hsa : v.Sane) (hm : Move I v v') : v'.Careful := by
  cases hm with
  | await step hs =>
    refine { h with step_le := fun vote hv hh hr => ?_ }
    exact Nat.le_trans (h.step_le vote hv hh hr) (le_of_lt hs)
  | prevote blockID asked hs ha => exact h.cast hsa .prevote hs ha
  | precommitNil asked hs ha => exact h.cast hsa .precommit hs ha
  | lock blockID asked hs ha => exact { h.cast hsa .precommit hs ha with }
  | relock blockID asked hs ha => exact { h.cast hsa .precommit hs ha with }
  | newRound round hr =>
    refine { h with round_le := fun vote hv hh => ?_, step_le := fun vote hv hh heq => ?_ }
    · have := h.round_le vote hv hh
      dsimp only
      omega
    -- there are no votes of the new round yet
    have hle := h.round_le vote hv hh
    dsimp only at heq ⊢
    rcases hr with hlt | ⟨hsm, hs⟩
    · omega
    have hv' := h.step_le vote hv hh (heq.trans hsm.symm)
    rw [hs] at hv'
    exact Nat.le_trans hv' (by decide)
  | enterCommit =>
    refine { h with step_le := fun vote _ _ _ => ?_ }
    show voteStep vote.type ≤ RoundStep.applyCommit
    unfold voteStep
    split <;> decide
  | apply state votes blockID _ hh =>
    have hn := nextHeight_eq hsa.height_pos hh
    refine ⟨fun vote hv => ?_, h.round_nonneg, fun vote hv heq => ?_, fun vote hv heq => ?_, h.once⟩
    all_goals
      have := h.height_le vote hv
      dsimp only [next, start] at *
      omega
  | _ => exact { h with }

structure Disciplined (K : Committee) (said : Said) (v : View) : Prop extends Careful v where
  polka : ∀ vote ∈ v.asked, vote.type = .precommit → vote.blockID.isNil = false →
    K.Agrees said .prevote vote.height vote.round vote.blockID
  locked : ∀ vote ∈ v.asked, vote.height = v.height → vote.type = .precommit → vote.blockID.isNil = false →
    vote.round ≤ v.lockedRound
  released : ∀ a ∈ v.asked, ∀ b ∈ v.asked, a.type = .precommit → a.blockID.isNil = false →
    b.type = .prevote → b.blockID.isNil = false → a.height = b.height → a.round < b.round →
    ∃ r, a.round ≤ r ∧ r < b.round ∧ K.Agrees said .prevote a.height r b.blockID

lemma Disciplined.mono (hs : ∀ t h r i b, said t h r i b → said' t h r i b) (h : v.Disciplined K said) :
    v.Disciplined K said' where
  toCareful := h.toCareful
  polka := fun vote hv ht hn => (h.polka vote hv ht hn).mono hs
  locked := h.locked
  released := fun a ha b hb hat han hbt hbn hh hro =>
    (h.released a ha b hb hat han hbt hbn hh hro).imp fun _ hr =>
      ⟨hr.1, hr.2.1, hr.2.2.mono hs⟩

lemma Disciplined.released_of_mayPrevote (h : v.Disciplined K said) (hi : v.Informed K said) (hs : v.Sane)
    (hst : v.step < .prevote) (hm : v.MayPrevote blockID) {a : Vote} (ha : a ∈ v.asked)
    (ht : a.type = .precommit) (hni : a.blockID.isNil = false) (hh : a.height = v.height) :
    ∃ r, a.round ≤ r ∧ r < v.round ∧ K.Agrees said .prevote a.height r blockID := by
  have hle := h.locked a ha hh ht hni
  have hn := h.round_nonneg a ha
  rw [hh]
  rcases hm.2 with hf | hsa | ⟨r, hlt, hge, hp⟩
  · omega
  · -- the lock is of an earlier round: this one has not reached its precommit step
    refine ⟨v.lockedRound, hle, ?_, hi.agrees (hs.locked_polka blockID hsa).2⟩
    refine lt_of_le_of_ne hs.locked_le fun heq => ?_
    exact absurd (hs.locked_step heq) (not_le.mpr (Nat.lt_trans hst (by decide)))
  · exact ⟨r, hle.trans hge, hlt, hi.agrees hp⟩

lemma Disciplined.precommit (h : v.Disciplined K said) (hi : v.Informed K said) (had : ∀ vote ∈ asked, v.IsVote .precommit blockID vote)
    (hp : v.polka v.round = some blockID) {w : View} (hc : w.Careful) (hh : w.height = v.height)
    (hs : w.asked = v.asked ++ asked) (hr : w.lockedRound = v.round) : w.Disciplined K said := by
  refine ⟨hc, fun vote hv ht hni => ?_, fun vote hv heq ht hni => ?_, fun a ha b hb hat han hbt hbn heq hlt => ?_⟩
  · rw [hs] at hv
    rcases mem_append.mp hv with ho | hn
    · exact h.polka vote ho ht hni
    obtain ⟨-, hvh, hvr, hvb⟩ := had vote hn
    rw [hvh, hvr, hvb]
    exact hi.agrees hp
  · rw [hs] at hv
    rw [hr]
    rcases mem_append.mp hv with ho | hn
    · exact h.round_le vote ho (heq.trans hh)
    · exact (had vote hn).2.2.1.le
  · rw [hs] at ha hb
    rcases mem_append.mp hb with hb | hb
    · rcases mem_append.mp ha with ha | ha
      · exact h.released a ha b hb hat han hbt hbn heq hlt
      · -- no prevote of a later round
        obtain ⟨-, hah, har, -⟩ := had a ha
        have hle := h.round_le b hb (heq.symm.trans hah)
        omega
    · have hb' := (had b hb).1
      rw [hbt] at hb'
      cases hb'

lemma Disciplined.move (h : v.Disciplined K said) (hi : v.Informed K said) (hs : v.Sane)
    (hm : Move I v v') : v'.Disciplined K said := by
  have hc := h.toCareful.move hs hm
  cases hm with
  | prevote blockID asked hst had hr =>
    have hol : ∀ vote ∈ v.asked ++ asked, vote.type = .precommit → vote ∈ v.asked := by
      intro vote hv ht
      refine (mem_append.mp hv).resolve_right fun hne => ?_
      rw [(had vote hne).1] at ht
      cases ht
    refine ⟨hc, fun vote hv ht => h.polka vote (hol vote hv ht) ht,
      fun vote hv heq ht => h.locked vote (hol vote hv ht) heq ht,
      fun a ha b hb hat han hbt hbn hh hlt => ?_⟩
    have ha := hol a ha hat
    rcases mem_append.mp hb with hb | hb
    · exact h.released a ha b hb hat han hbt hbn hh hlt
    obtain ⟨-, hbh, hbr, hbb⟩ := had b hb
    rw [hbb] at hbn ⊢
    rw [hbr]
    exact h.released_of_mayPrevote hi hs hst (hr hs.held_parts hbn) ha hat han (hh.trans hbh)
  | precommitNil asked hst had =>
    have hol : ∀ vote ∈ v.asked ++ asked, vote.type = .prevote ∨ vote.blockID.isNil = false → vote ∈ v.asked := by
      intro vote hv ho
      refine (mem_append.mp hv).resolve_right fun hne => ?_
      rw [(had vote hne).1, (had vote hne).2.2.2] at ho
      rcases ho with ho | ho <;> cases ho
    exact ⟨hc, fun vote hv ht hn => h.polka vote (hol vote hv (.inr hn)) ht hn,
      fun vote hv heq ht hn => h.locked vote (hol vote hv (.inr hn)) heq ht hn,
      fun a ha b hb hat han hbt => h.released a (hol a ha (.inr han)) b (hol b hb (.inl hbt)) hat han hbt⟩
  | lock blockID asked hst had _ hp =>
    exact h.precommit hi had hp hc rfl rfl rfl
  | relock blockID asked hst had _ hp =>
    exact h.precommit hi had hp hc rfl rfl rfl
  | apply state votes blockID _ hh =>
    have hnx := nextHeight_eq hs.height_pos hh
    refine ⟨hc, h.polka, fun vote hv heq => ?_, h.released⟩
    have hle := h.height_le vote hv
    dsimp only [next, start] at heq
    omega
  | _ => exact { h with toCareful := hc }

end View

end Tenderdash
