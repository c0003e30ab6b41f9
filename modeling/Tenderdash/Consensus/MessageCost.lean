import Tenderdash.Consensus.Charges
import Tenderdash.Consensus.LockInvariant
import Tenderdash.Consensus.Msgs
import Tenderdash.Consensus.PeerLanes

/-!
The price of a message and the work it forces. A message of a peer is priced from what it declares, on the wire and
once more when it is decoded; while it is handled, its signatures are charged to the verification budget in stages.
-/

namespace Tenderdash

open Lib Go

/-! ### Prices -/

def isNilBlockID (blockID : Tmproto.BlockID) : Bool :=
  blockID.hash.length = 0 ∧ blockID.partSetHeader.total = 0 ∧ blockID.partSetHeader.hash.length = 0 ∧
    blockID.stateID.length = 0

/-- The fields of a nil vote have their zero values. -/
def voteMessageCost : Option Tmproto.Vote → Go String ℤ
  | some vote => voteCost vote.type (isNilBlockID vote.blockID) vote.voteExtensions.length
  | none => voteCost .unknown true 0

def commitMessageCost : Option Tmproto.Commit → Go String ℤ
  | some commit => commitCost commit.thresholdVoteExtensions.length
  | none => commitCost 0

def peerMessageCost : Tmcons.Payload → Go String ℤ
  | .vote vote => voteMessageCost vote
  | .commit commit => commitMessageCost commit
  | _ => .ok baseMessageCost

def Msgs.Message.budgetedMessageCost : Msgs.Message → Go String ℤ
  | .proposal ptr => .ok (if ptr.isSome then baseMessageCost else 0)
  | .vote (some v) => voteCost v.type v.blockID.isNil v.voteExtensions.length
  | .commit (some c) => commitCost c.thresholdVoteExtensions.length
  | _ => .ok 0

lemma isNil_blockIDFromProto {bID : Tmproto.BlockID} {blockID : BlockID} (h : blockIDFromProto bID = .ok blockID) :
    blockID.isNil = isNilBlockID bID := by
  obtain ⟨ph, hph, h⟩ := of_bind h
  obtain ⟨_, -, hph⟩ := of_bind hph
  obtain ⟨_, -, h⟩ := of_bind h
  cases hph
  cases h
  simp [BlockID.isNil, PartSetHeader.isZero, isNilBlockID, and_assoc]

variable {m : Msgs.Message}

lemma budgetedMessageCost_le_peerMessageCost {payload : Tmcons.Payload} {price : ℤ}
    (hd : Msgs.msgFromProto payload = .ok m) (hp : m.budgetedMessageCost = .ok price) :
    ∃ cost, peerMessageCost payload = .ok cost ∧ price ≤ cost := by
  obtain ⟨pb, hpb, hd⟩ := of_bind hd
  obtain ⟨_, -, hd⟩ := of_bind hd
  cases hd
  cases payload with
  | vote vote =>
    obtain ⟨v, hv, hpb⟩ := of_bind hpb
    cases hpb
    have hv := mapErr_eq_ok.mp hv
    cases vote with
    | none => cases hv
    | some pv =>
      obtain ⟨blockID, hbi, hv⟩ := of_bind hv
      obtain ⟨exts, he, hv⟩ := of_bind hv
      cases hv
      refine ⟨price, ?_, le_refl _⟩
      rw [← hp]
      simp only [peerMessageCost, voteMessageCost, Msgs.Message.budgetedMessageCost,
        voteExtensionsFromProto_length he, isNil_blockIDFromProto hbi]
  | commit commit =>
    obtain ⟨c, hc, hpb⟩ := of_bind hpb
    cases hpb
    have hc := mapErr_eq_ok.mp hc
    cases commit with
    | none => cases hc
    | some cp =>
      obtain ⟨bi, -, hc⟩ := of_bind hc
      obtain ⟨_, -, hc⟩ := of_bind hc
      cases hc
      exact ⟨price, hp, le_refl _⟩
  | proposal proposal =>
    obtain ⟨p, -, hpb⟩ := of_bind hpb
    cases hpb
    cases hp
    exact ⟨baseMessageCost, rfl, le_refl _⟩
  | newRoundStep msg | proposalPol msg | blockPart msg | voteSetMaj23 msg =>
    obtain ⟨_, -, hpb⟩ := of_bind hpb
    cases hpb
    cases hp
    exact ⟨baseMessageCost, rfl, by decide⟩
  | newValidBlock msg | voteSetBits msg =>
    obtain ⟨_, -, hpb⟩ := of_bind hpb
    obtain ⟨_, -, hpb⟩ := of_bind hpb
    cases hpb
    cases hp
    exact ⟨baseMessageCost, rfl, by decide⟩
  | hasVote msg | hasCommit msg =>
    cases hpb
    cases hp
    exact ⟨baseMessageCost, rfl, by decide⟩

/-! ### Waiting for the budget -/

/-- Without a limiter nothing is metered; a limiter is made for a positive rate. -/
structure RateVerificationBudget where
  limiter : Option { limiter : TokenBucket // 0 < limiter.limit }
  maxWait : ℚ

namespace RateVerificationBudget

def nanosecond : ℚ := 1 / 10 ^ 9

/-- The loop of `waitFor` on the readings of its clock. The context is done after the last one. -/
def waitLoop (limiter : TokenBucket) (cost : ℤ) (deadline : ℚ) : List ℚ → Bool
  | [] => false
  | now :: readings =>
    let missing := cost - limiter.tokensAt now
    if missing ≤ 0 then true
    else if deadline < now + (missing / limiter.limit + nanosecond) then false
    else waitLoop limiter cost deadline readings

variable (budget : RateVerificationBudget) {readings : List ℚ}

def waitFor (start : ℚ) (readings : List ℚ) (cost : ℤ) : Bool :=
  match budget.limiter with
  | none => true
  | some limiter =>
    if cost ≤ 0 then true
    else if limiter.val.burst < cost then false
    else waitLoop limiter.val cost (start + budget.maxWait) readings

/-- `Allow`, at the successive times of the clock. -/
def allow (clock : ℕ → ℚ) : VerificationBudget :=
  match budget.limiter with
  | none => fun _ _ => true
  | some limiter => limiter.val.meter clock

lemma enough_of_waitLoop {limiter : TokenBucket} {cost : ℤ} {deadline : ℚ}
    (h : waitLoop limiter cost deadline readings = true) : ∃ now ∈ readings, cost ≤ limiter.tokensAt now := by
  induction readings with
  | nil => cases h
  | cons now readings ih =>
    unfold waitLoop at h
    dsimp only at h
    split at h
    next hm => exact ⟨now, List.mem_cons_self, by linarith⟩
    · split at h
      · cases h
      · obtain ⟨later, hl, he⟩ := ih h
        exact ⟨later, List.mem_cons_of_mem now hl, he⟩

lemma covers_of_waitFor {budget : RateVerificationBudget} {start : ℚ} {cost : ℕ}
    (hco : 0 < cost) (h : budget.waitFor start readings cost = true) {clock : ℕ → ℚ} (hc : Monotone clock)
    (hla : ∀ now ∈ readings, now ≤ clock 0) : Meter.Covers (budget.allow clock) cost := by
  unfold waitFor at h
  unfold allow
  cases hl : budget.limiter with
  | none => exact fun _ _ _ => rfl
  | some limiter =>
    rw [hl] at h
    dsimp only at h
    rw [if_neg (by omega)] at h
    split at h
    · cases h
    obtain ⟨now, hn, he⟩ := enough_of_waitLoop h
    exact TokenBucket.covers_meter hc limiter.property.le (hla now hn) (by exact_mod_cast he)

end RateVerificationBudget

/-! ### The price covers the work -/

def Proposal.signedFields (p : Proposal) : ProposalProto :=
  ⟨p.height, p.round, p.polRound, p.blockID, p.timestamp, p.signature, p.coreChainLockedHeight⟩

def StateData.handlePeerMessage (W : World) (cfg : Config) (sd : StateData) (addr : ℕ) (peerID : String) :
    Msgs.Message → Except String (Outcome Unit)
  | .proposal (some proposal) =>
    sd.setProposal W cfg proposal.signedFields (W.peerBudget peerID false)
  | .vote (some vote) => do
    let (sd, result) ← sd.addVote W cfg ⟨addr, vote⟩ peerID false
    return (sd, result.map fun _ => ())
  | .commit (some commit) => sd.tryAddCommit W cfg commit peerID false
  | _ => .ok (sd, .ok ())

def ConsensusError.isBudgetExhausted : ConsensusError → Bool
  | .budgetExhausted | .vote .budgetExhausted | .verifyCommit .budgetExhausted => true
  | _ => false

def Msgs.Message.work : Msgs.Message → ℕ
  | .proposal (some _) => 1
  | .vote (some v) => verificationWork v.voteExtensions.length
  | .commit (some c) => verificationWork c.thresholdVoteExtensions.length
  | _ => 0

lemma extensionCount_cases (n : ℕ) :
    extensionCount n = .ok (n : ℤ) ∧ verificationWork n = 1 + n ∨
      (∃ msg, extensionCount n = .error msg) ∧ verificationWork n = 0 := by
  unfold extensionCount verificationWork failIf
  by_cases hm : maxVoteExtensions < n
  · rw [if_pos hm, if_pos hm]
    exact .inr ⟨⟨_, rfl⟩, rfl⟩
  rw [if_neg hm, if_neg hm]
  exact .inl ⟨rfl, rfl⟩

lemma commitCost_cases (n : ℕ) :
    commitCost n = .ok (verificationWork n : ℤ) ∨ (∃ msg, commitCost n = .error msg) ∧ verificationWork n = 0 := by
  rcases extensionCount_cases n with ⟨hc, hw⟩ | ⟨⟨msg, hc⟩, hw⟩
  · refine .inl ?_
    rw [commitCost, hc, hw, Nat.cast_add]
    rfl
  refine .inr ⟨⟨msg, ?_⟩, hw⟩
  rw [commitCost, hc]
  rfl

lemma voteCost_of_valid {v : Vote} (hv : v.validateBasic = .ok ()) :
    voteCost v.type v.blockID.isNil v.voteExtensions.length = commitCost v.voteExtensions.length := by
  refine bind_congr_ok fun n hn => ?_
  split
  next hb =>
    rw [(Vote.valid_of_validateBasic hv).bare hb] at hn
    cases hn
    rfl
  · rfl

lemma budgetedMessageCost_cases (hv : m.validateBasic = .ok ()) :
    m.budgetedMessageCost = .ok (m.work : ℤ) ∨ (∃ msg, m.budgetedMessageCost = .error msg) ∧ m.work = 0 := by
  cases m with
  | proposal ptr =>
    cases ptr with
    | none => cases hv
    | some p => exact .inl rfl
  | vote ptr =>
    cases ptr with
    | none => cases hv
    | some v =>
      have hc : Msgs.Message.budgetedMessageCost (.vote (some v)) = commitCost v.voteExtensions.length :=
        voteCost_of_valid hv
      rw [hc]
      exact commitCost_cases v.voteExtensions.length
  | commit ptr =>
    cases ptr with
    | none => cases hv
    | some c => exact commitCost_cases c.thresholdVoteExtensions.length
  | _ => exact .inl rfl

lemma handlePeerMessage_within (W : World) (cfg : Config) (sd : StateData) (addr : ℕ) {peerID : String}
    (hp : peerID ≠ "") (m : Msgs.Message) :
    ∃ sd' e, e.isBudgetExhausted = true ∧ Within [] m.work
      (fun budget => sd.handlePeerMessage (W.withBudget budget) cfg addr peerID m) (.ok (sd', .error e)) := by
  have hf : ∃ sd' e, e.isBudgetExhausted = true ∧ Within [] 0
      (fun _ : Option Meter => (.ok (sd, .ok ()) : Except String (Outcome Unit))) (.ok (sd', .error e)) :=
    ⟨sd, .budgetExhausted, rfl, Within.free ..⟩
  cases m with
  | proposal ptr =>
    cases ptr with
    | none => exact hf
    | some p => exact ⟨sd, .budgetExhausted, rfl, sd.setProposal_within W cfg p.signedFields hp⟩
  | vote ptr =>
    cases ptr with
    | none => exact hf
    | some v =>
      obtain ⟨sd', h⟩ := sd.addVote_within W cfg ⟨addr, v⟩ hp
      exact ⟨sd', .vote .budgetExhausted, rfl, h.andThen rfl⟩
  | commit ptr =>
    cases ptr with
    | none => exact hf
    | some c => exact ⟨sd, .verifyCommit .budgetExhausted, rfl, sd.tryAddCommit_within W cfg c hp⟩
  | _ => exact hf

/-- **The price covers the work.** A message that a peer sent and `MsgFromProto` accepted is charged, in whatever state
it is handled, no more than its price, and its price on the wire is no less. If the budget waited until it held the
price and charges nothing else, no charge is refused: the message is handled as if there were no budget. A message
without a price is not charged. -/
theorem price_covers_work {payload : Tmcons.Payload} {m : Msgs.Message} (hdecode : Msgs.msgFromProto payload = .ok m)
    {peerID : String} (hpeer : peerID ≠ "") (W : World) (cfg : Config) (sd : StateData) (addr : ℕ) :
    let handled := fun budget => sd.handlePeerMessage (W.withBudget budget) cfg addr peerID m
    (∀ price, m.budgetedMessageCost = .ok price →
      (∃ costs : List ℕ, (costs.sum : ℤ) ≤ price ∧
        (∀ allow : VerificationBudget, (Meter.Allows allow [] costs → handled (some allow) = handled none) ∧
          (¬ Meter.Allows allow [] costs →
            ∃ sd' e, handled (some allow) = .ok (sd', .error e) ∧ e.isBudgetExhausted = true)) ∧
        ∀ (budget : RateVerificationBudget) (start : ℚ) (readings : List ℚ) (clock : ℕ → ℚ),
          budget.waitFor start readings price = true → Monotone clock → (∀ now ∈ readings, now ≤ clock 0) →
          Meter.Allows (budget.allow clock) [] costs) ∧
      ∃ cost, peerMessageCost payload = .ok cost ∧ price ≤ cost) ∧
    ∀ msg, m.budgetedMessageCost = .error msg → ∀ allow : VerificationBudget, handled (some allow) = handled none := by
  intro handled
  have hv : m.validateBasic = .ok () := by
    obtain ⟨pb, -, hdecode⟩ := of_bind hdecode
    obtain ⟨_, hv, hdecode⟩ := of_bind hdecode
    cases hdecode
    exact hv
  obtain ⟨sd', e, he, hwi⟩ := handlePeerMessage_within W cfg sd addr hpeer m
  constructor
  · intro price hp
    have hw : price = m.work := by
      rcases budgetedMessageCost_cases hv with hc | ⟨⟨msg, hc⟩, -⟩
      · exact Except.ok.inj (hp.symm.trans hc)
      · cases hp.symm.trans hc
    subst hw
    refine ⟨?_, budgetedMessageCost_le_peerMessageCost hdecode hp⟩
    obtain ⟨costs, hpo, hs, ha, hr⟩ := hwi
    refine ⟨costs, by exact_mod_cast hs, fun allow => ⟨ha allow,
      fun hn => ⟨sd', e, hr allow hn, he⟩⟩, fun budget start readings clock hwa hcl hl => ?_⟩
    cases costs with
    | nil => trivial
    | cons cost costs =>
      have hc := hpo cost List.mem_cons_self
      have hw : 0 < m.work := hc.trans_le ((Nat.le_add_right cost costs.sum).trans hs)
      exact (RateVerificationBudget.covers_of_waitFor hw hwa hcl hl).allows (by simpa using hs)
  · intro msg hc allow
    have hw : m.work = 0 := by
      rcases budgetedMessageCost_cases hv with hok | ⟨-, hw⟩
      · cases hc.symm.trans hok
      · exact hw
    rw [hw] at hwi
    exact hwi.of_zero allow

def pricedVote : Vote :=
  { StateData.lockVote .precommit 0 1 StateData.lockID with
    voteExtensions := [⟨.threshold, ⟨.thresholdRecover, [1], List.replicate signatureSize 1, none⟩⟩] }

def pricedPayload : Tmcons.Payload :=
  let blockID := pricedVote.blockID
  .vote (some ⟨.precommit, 1, 0, ⟨blockID.hash, ⟨blockID.partSetHeader.total, blockID.partSetHeader.hash⟩,
    blockID.stateID⟩, pricedVote.validatorProTxHash, 1, pricedVote.blockSignature,
    pricedVote.voteExtensions.map fun ext => some ext.proto⟩)

def pricedBudget : RateVerificationBudget := ⟨some ⟨⟨50, 66, 2, 0⟩, by norm_num⟩, 1⟩

/-- Both stages of the precommit are paid. -/
theorem pricedVote_covered : ∃ sd, StateData.reached StateData.lockConfig StateData.lockState none
      StateData.lockingRound = some sd ∧
    Msgs.msgFromProto pricedPayload = .ok (.vote (some pricedVote)) ∧
    peerMessageCost pricedPayload = .ok 2 ∧ pricedBudget.waitFor 0 [0] 2 = true ∧
    sd.handlePeerMessage (StateData.lockWorld.withBudget (some (pricedBudget.allow fun _ => 0))) StateData.lockConfig 9
        "peer" (.vote (some pricedVote)) =
      sd.handlePeerMessage (StateData.lockWorld.withBudget none) StateData.lockConfig 9 "peer"
        (.vote (some pricedVote)) := by
  have hr : (StateData.reached StateData.lockConfig StateData.lockState none
      StateData.lockingRound).isSome := by decide +kernel
  obtain ⟨sd, hsd⟩ := Option.isSome_iff_exists.mp hr
  have hd : Msgs.msgFromProto pricedPayload = .ok (.vote (some pricedVote)) := by decide +kernel
  have hw : pricedBudget.waitFor 0 [0] 2 = true := by decide +kernel
  obtain ⟨⟨costs, -, hc, hp⟩, -⟩ := (@price_covers_work _ _ hd "peer" (by decide) StateData.lockWorld
    StateData.lockConfig sd 9).1 2 (by decide +kernel)
  exact ⟨sd, hsd, hd, by decide +kernel, hw, (hc _).1 (hp pricedBudget 0 [0] (fun _ => 0) hw monotone_const (by simp))⟩

end Tenderdash
