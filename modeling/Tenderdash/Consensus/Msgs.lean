import Tenderdash.Types.Proto

/-!
The messages of consensus, as the node holds them and as the generated code has them, and the records of
the write-ahead log made from them.

Most come back as they were. A proposal loses its core chain lock, a bit array that was nil is found empty, a
commit at height 0 is refused for its block ID, an extension gets the Go type its type field asks for, and the
log forgets when a message was received and over which connection.
-/

namespace Tenderdash

open Lib Go Option BitArray

/-! ### Messages in generated form -/

namespace Tmcons

structure NewRoundStep where
  height : ℤ
  round : ℤ
  step : ℕ
  secondsSinceStartTime : ℤ
  lastCommitRound : ℤ
  deriving DecidableEq, Repr

structure NewValidBlock where
  height : ℤ
  round : ℤ
  blockPartSetHeader : Tmproto.PartSetHeader
  blockParts : Option Tmproto.BitArray
  isCommit : Bool
  deriving DecidableEq, Repr

structure ProposalPOL where
  height : ℤ
  proposalPolRound : ℤ
  proposalPol : Tmproto.BitArray
  deriving DecidableEq, Repr

structure BlockPart where
  height : ℤ
  round : ℤ
  part : Tmproto.Part
  deriving DecidableEq, Repr

structure HasVote where
  height : ℤ
  round : ℤ
  type : SignedMsgType
  index : ℤ
  deriving DecidableEq, Repr

structure HasCommit where
  height : ℤ
  round : ℤ
  deriving DecidableEq, Repr

structure VoteSetMaj23 where
  height : ℤ
  round : ℤ
  type : SignedMsgType
  blockID : Tmproto.BlockID
  deriving DecidableEq, Repr

structure VoteSetBits where
  height : ℤ
  round : ℤ
  type : SignedMsgType
  blockID : Tmproto.BlockID
  votes : Tmproto.BitArray
  deriving DecidableEq, Repr

/-- What a message can carry. A vote or a commit may be missing from its message. -/
inductive Payload where
  | newRoundStep (msg : NewRoundStep)
  | newValidBlock (msg : NewValidBlock)
  | proposal (proposal : Tmproto.Proposal)
  | proposalPol (msg : ProposalPOL)
  | blockPart (msg : BlockPart)
  | vote (vote : Option Tmproto.Vote)
  | hasVote (msg : HasVote)
  | commit (commit : Option Tmproto.Commit)
  | hasCommit (msg : HasCommit)
  | voteSetMaj23 (msg : VoteSetMaj23)
  | voteSetBits (msg : VoteSetBits)
  deriving DecidableEq, Repr

/-- A message, without a payload if it is of a type this build does not know. -/
structure Message where
  sum : Option Payload
  deriving DecidableEq, Repr

inductive WALMessage where
  | eventDataRoundState (height round : ℤ) (step : String)
  | msgInfo (msg : Message) (peerID : String)
  | timeoutInfo (duration height round : ℤ) (step : ℕ)
  | endHeight (height : ℤ)
  deriving DecidableEq, Repr

end Tmcons

namespace Msgs

/-! ### Messages -/

def maxVotesCount : ℕ := 10000

/-- `RoundStepType.IsValid`. -/
def stepIsValid (step : UInt8) : Bool := 0x01 ≤ step ∧ step ≤ 0x08

structure NewRoundStepMessage where
  height : ℤ
  round : ℤ
  step : UInt8
  secondsSinceStartTime : ℤ
  lastCommitRound : ℤ
  deriving DecidableEq

structure NewValidBlockMessage where
  height : ℤ
  round : ℤ
  blockPartSetHeader : PartSetHeader
  blockParts : Option BitArray
  isCommit : Bool
  deriving DecidableEq

structure ProposalPOLMessage where
  height : ℤ
  proposalPOLRound : ℤ
  proposalPOL : Option BitArray
  deriving DecidableEq

structure BlockPartMessage where
  height : ℤ
  round : ℤ
  part : Option (Part Bytes)
  deriving DecidableEq

structure HasVoteMessage where
  height : ℤ
  round : ℤ
  type : SignedMsgType
  index : ℤ
  deriving DecidableEq

structure HasCommitMessage where
  height : ℤ
  round : ℤ
  deriving DecidableEq

structure VoteSetMaj23Message where
  height : ℤ
  round : ℤ
  type : SignedMsgType
  blockID : BlockID
  deriving DecidableEq

structure VoteSetBitsMessage where
  height : ℤ
  round : ℤ
  type : SignedMsgType
  blockID : BlockID
  votes : Option BitArray
  deriving DecidableEq

/-- `Message`, by the type that implements it. The pointer of a proposal, vote or commit message may be
nil. -/
inductive Message where
  | newRoundStep (msg : NewRoundStepMessage)
  | newValidBlock (msg : NewValidBlockMessage)
  | proposal (proposal : Option Proposal)
  | proposalPOL (msg : ProposalPOLMessage)
  | blockPart (msg : BlockPartMessage)
  | vote (vote : Option Vote)
  | hasVote (msg : HasVoteMessage)
  | commit (commit : Option Commit)
  | hasCommit (msg : HasCommitMessage)
  | voteSetMaj23 (msg : VoteSetMaj23Message)
  | voteSetBits (msg : VoteSetBitsMessage)
  deriving DecidableEq

def deref {α : Type} (method : α → Go String Unit) : Option α → Go String Unit
  | none => Go.crash "nil pointer dereference"
  | some receiver => method receiver

/-- `ValidateBasic` of each message. -/
def Message.validateBasic : Message → Go String Unit
  | .newRoundStep m => do
    failIf (m.height < 0) "negative Height"
    failIf (m.round < 0) "negative Round"
    failIf (stepIsValid m.step = false) "invalid Step"
    failIf (m.lastCommitRound < -1) "invalid LastCommitRound (cannot be < -1)"
  | .newValidBlock m => do
    failIf (m.height < 0) "negative Height"
    failIf (m.round < 0) "negative Round"
    m.blockPartSetHeader.validateBasic.mapErr ("wrong BlockPartSetHeader: " ++ ·)
    failIf (BitArray.size m.blockParts = 0) "empty blockParts"
    failIf (BitArray.size m.blockParts ≠ m.blockPartSetHeader.total)
      s!"blockParts bit array size {BitArray.size m.blockParts} not equal to BlockPartSetHeader.Total {m.blockPartSetHeader.total}"
    failIf (maxBlockPartsCount < BitArray.size m.blockParts)
      s!"blockParts bit array is too big: {BitArray.size m.blockParts}, max: {maxBlockPartsCount}"
  | .proposal ptr => deref Proposal.validateBasic ptr
  | .proposalPOL m => do
    failIf (m.height < 0) "negative Height"
    failIf (m.proposalPOLRound < 0) "negative ProposalPOLRound"
    failIf (BitArray.size m.proposalPOL = 0) "empty ProposalPOL bit array"
    failIf (maxVotesCount < BitArray.size m.proposalPOL)
      s!"proposalPOL bit array is too big: {BitArray.size m.proposalPOL}, max: {maxVotesCount}"
  | .blockPart m => do
    failIf (m.height < 0) "negative Height"
    failIf (m.round < 0) "negative Round"
    (deref (Part.validateBasic List.length) m.part).mapErr ("wrong Part: " ++ ·)
  | .vote ptr => deref Vote.validateBasic ptr
  | .hasVote m => do
    failIf (m.height < 0) "negative Height"
    failIf (m.round < 0) "negative Round"
    failIf (isVoteTypeValid m.type = false) "invalid Type"
    failIf (m.index < 0) "negative Index"
  | .commit ptr => deref Commit.validateBasic ptr
  | .hasCommit m => do
    failIf (m.height < 0) "negative Height"
    failIf (m.round < 0) "negative Round"
  | .voteSetMaj23 m => do
    failIf (m.height < 0) "negative Height"
    failIf (m.round < 0) "negative Round"
    failIf (isVoteTypeValid m.type = false) "invalid Type"
    m.blockID.validateBasic.mapErr ("wrong BlockID: " ++ ·)
  | .voteSetBits m => do
    failIf (m.height < 0) "negative Height"
    failIf (m.round < 0) "negative Round"
    failIf (isVoteTypeValid m.type = false) "invalid Type"
    m.blockID.validateBasic.mapErr ("wrong BlockID: " ++ ·)
    failIf (maxVotesCount < BitArray.size m.votes)
      s!"votes bit array is too big: {BitArray.size m.votes}, max: {maxVotesCount}"

/-! ### Conversions -/

/-- The payload that `MsgToProto` makes of a message. -/
def toPayload : Message → Go String Tmcons.Payload
  | .newRoundStep m =>
    .ok (.newRoundStep ⟨m.height, m.round, m.step.toNat, m.secondsSinceStartTime, m.lastCommitRound⟩)
  | .newValidBlock m =>
    .ok (.newValidBlock ⟨m.height, m.round, m.blockPartSetHeader.toProto, BitArray.toProto m.blockParts, m.isCommit⟩)
  | .proposal proposal => .ok (.proposal (Proposal.toProto proposal))
  | .proposalPOL m =>
    match BitArray.toProto m.proposalPOL with
    | none => Go.crash "nil pointer dereference"
    | some pbBits => .ok (.proposalPol ⟨m.height, m.proposalPOLRound, pbBits⟩)
  | .blockPart m =>
    match m.part with
    | none => Go.fail "msg to proto error: nil part"
    | some part => .ok (.blockPart ⟨m.height, m.round, part.toProto⟩)
  | .vote vote => .ok (.vote (vote.map Vote.toTmproto))
  | .hasVote m => .ok (.hasVote ⟨m.height, m.round, m.type, m.index⟩)
  | .commit commit => .ok (.commit (commit.map Commit.toProto))
  | .hasCommit m => .ok (.hasCommit ⟨m.height, m.round⟩)
  | .voteSetMaj23 m => .ok (.voteSetMaj23 ⟨m.height, m.round, m.type, m.blockID.toProto⟩)
  | .voteSetBits m =>
    let bits := (BitArray.toProto m.votes).getD ⟨0, []⟩
    .ok (.voteSetBits ⟨m.height, m.round, m.type, m.blockID.toProto, bits⟩)

def msgToProto : Option Message → Go String Tmcons.Message
  | none => Go.fail "consensus: message is nil"
  | some msg => return ⟨some (← toPayload msg)⟩

def safeConvertUint8 (a : ℤ) : Go String UInt8 :=
  if 255 < a then Go.fail "integer overflow"
  else if a < 0 then Go.fail "integer overflow"
  else .ok (UInt8.ofNat a.toNat)

/-- The message that `MsgFromProto` makes of a payload, before it is validated. -/
def fromPayload : Tmcons.Payload → Go String Message
  | .newRoundStep msg => do
    let rs ← (safeConvertUint8 msg.step).mapErr ("denying message due to possible overflow: " ++ ·)
    return .newRoundStep ⟨msg.height, msg.round, rs, msg.secondsSinceStartTime, msg.lastCommitRound⟩
  | .newValidBlock msg => do
    let psh ← (partSetHeaderFromProto msg.blockPartSetHeader).mapErr ("parts header to proto error: " ++ ·)
    let bits ← (BitArray.fromProto msg.blockParts).mapErr ("parts to proto error: " ++ ·)
    return .newValidBlock ⟨msg.height, msg.round, psh, some bits, msg.isCommit⟩
  | .proposal msg => do
    let p ← (proposalFromProto msg).mapErr ("proposal msg to proto error: " ++ ·)
    return .proposal (some p)
  | .proposalPol msg => do
    let bits ← (BitArray.fromProto (some msg.proposalPol)).mapErr ("proposal PoL to proto error: " ++ ·)
    return .proposalPOL ⟨msg.height, msg.proposalPolRound, some bits⟩
  | .blockPart msg => do
    let part ← (partFromProto msg.part).mapErr ("blockpart msg to proto error: " ++ ·)
    return .blockPart ⟨msg.height, msg.round, some part⟩
  | .vote msg => do
    let vote ← (voteFromProto msg).mapErr ("vote msg to proto error: " ++ ·)
    return .vote (some vote)
  | .hasVote msg => .ok (.hasVote ⟨msg.height, msg.round, msg.type, msg.index⟩)
  | .commit msg => do
    let commit ← (commitFromProto msg).mapErr ("commit msg to proto error: " ++ ·)
    return .commit (some commit)
  | .hasCommit msg => .ok (.hasCommit ⟨msg.height, msg.round⟩)
  | .voteSetMaj23 msg => do
    let bi ← (blockIDFromProto msg.blockID).mapErr ("voteSetMaj23 msg to proto error: " ++ ·)
    return .voteSetMaj23 ⟨msg.height, msg.round, msg.type, bi⟩
  | .voteSetBits msg => do
    let bi ← (blockIDFromProto msg.blockID).mapErr ("block ID to proto error: " ++ ·)
    let bits ← (BitArray.fromProto (some msg.votes)).mapErr ("votes to proto error: " ++ ·)
    return .voteSetBits ⟨msg.height, msg.round, msg.type, bi, some bits⟩

def msgFromProto (payload : Tmcons.Payload) : Go String Message := do
  let pb ← fromPayload payload
  pb.validateBasic
  return pb

def msgFromProtoMsg (msg : Tmcons.Message) : Go String Message :=
  match msg.sum with
  | none => Go.fail "consensus: message not recognized"
  | some payload => msgFromProto payload

/-! ### Records of the log -/

structure MsgInfo where
  msg : Option Message
  peerID : String
  receiveTime : Timestamp
  connID : ℕ
  deriving DecidableEq

/-- `WALMessage`, by the type that implements it. -/
inductive WALMessage where
  | eventDataRoundState (height round : ℤ) (step : String)
  | msgInfo (mi : MsgInfo)
  | timeoutInfo (duration height round : ℤ) (step : UInt8)
  | endHeight (height : ℤ)
  deriving DecidableEq

def walToProto : WALMessage → Go String Tmcons.WALMessage
  | .eventDataRoundState height round step => .ok (.eventDataRoundState height round step)
  | .msgInfo mi => do
    let consMsg ← msgToProto mi.msg
    return .msgInfo consMsg mi.peerID
  | .timeoutInfo duration height round step => .ok (.timeoutInfo duration height round step.toNat)
  | .endHeight height => .ok (.endHeight height)

/-- The receive time and the connection are left at their zero values. -/
def walFromProto : Tmcons.WALMessage → Go String WALMessage
  | .eventDataRoundState height round step => .ok (.eventDataRoundState height round step)
  | .msgInfo msg peerID => do
    let walMsg ← (msgFromProtoMsg msg).mapErr ("msgInfo from proto error: " ++ ·)
    return .msgInfo { msg := some walMsg, peerID := peerID, receiveTime := .zero, connID := 0 }
  | .timeoutInfo duration height round step => do
    let tis ← (safeConvertUint8 step).mapErr ("denying message due to possible overflow: " ++ ·)
    return .timeoutInfo duration height round tis
  | .endHeight height => .ok (.endHeight height)

/-! ### What comes back -/

def resent (m : Message) : Go String Message := msgToProto (some m) >>= msgFromProtoMsg

def reread (w : WALMessage) : Go String WALMessage := walToProto w >>= walFromProto

def Message.Survives : Message → Prop
  | .proposal ptr => ∀ p, ptr = some p → p.coreChainLockUpdate = none
  | .vote ptr => ∀ v, ptr = some v → ∀ ext ∈ v.voteExtensions, ext.Decoded
  | .commit ptr => ∀ c, ptr = some c → c.height = 0 → c.blockID.validateBasic = .ok ()
  | .voteSetBits m => m.votes ≠ none
  | _ => True

def WALMessage.Survives : WALMessage → Prop
  | .msgInfo mi => (∃ m, mi.msg = some m ∧ m.validateBasic = .ok () ∧ m.Survives) ∧
      mi.receiveTime = .zero ∧ mi.connID = 0
  | _ => True

@[simp] lemma safeConvertUint8_toNat (step : UInt8) : safeConvertUint8 step.toNat = .ok step := by
  have hlt := step.toNat_lt
  have hb : ¬((255 : ℤ) < step.toNat) := by omega
  have hn : ¬((step.toNat : ℤ) < 0) := by omega
  simp only [safeConvertUint8, if_neg hb, if_neg hn, Int.toNat_natCast, UInt8.ofNat_toNat]

variable {m m' : Message} {payload : Tmcons.Payload}

lemma validateBasic_of_msgFromProto (h : msgFromProto payload = .ok m) : m.validateBasic = .ok () := by
  obtain ⟨pb, -, h⟩ := of_bind h
  obtain ⟨_, hv, h⟩ := of_bind h
  cases h
  exact hv

lemma resent_eq_ok : resent m = .ok m' ↔ ∃ payload, toPayload m = .ok payload ∧ msgFromProto payload = .ok m' := by
  unfold resent msgToProto
  simp only [bind_eq_ok]
  constructor
  · rintro ⟨_, ⟨payload, hto, h⟩, hf⟩
    cases h
    exact ⟨payload, hto, hf⟩
  rintro ⟨payload, hto, hf⟩
  exact ⟨_, ⟨payload, hto, rfl⟩, hf⟩

lemma resent_eq_self (h : m.validateBasic = .ok ())
    (hto : toPayload m = .ok payload) : resent m = .ok m ↔ fromPayload payload = .ok m := by
  rw [resent_eq_ok]
  constructor
  · rintro ⟨payload', ht', hf⟩
    obtain rfl : payload = payload' := Except.ok.inj (hto.symm.trans ht')
    obtain ⟨pb, hpb, hr⟩ := of_bind hf
    obtain ⟨_, -, hr⟩ := of_bind hr
    cases hr
    exact hpb
  · intro hpb
    exact ⟨payload, hto, bind_eq_ok.mpr ⟨m, hpb, bind_eq_ok.mpr ⟨(), h, rfl⟩⟩⟩

lemma some_of_deref {α : Type} {method : α → Go String Unit} {receiver : Option α}
    (h : deref method receiver = .ok ()) : ∃ a, receiver = some a ∧ method a = .ok () := by
  cases receiver with
  | none => cases h
  | some a => exact ⟨a, rfl, h⟩

lemma some_of_size_ne_zero {bA : Option BitArray} (h : size bA ≠ 0) : ∃ b, bA = some b ∧ b.bits ≠ 0 := by
  cases bA with
  | none => exact absurd rfl h
  | some b => exact ⟨b, rfl, h⟩

lemma fromProto_toProto_of_size {b : BitArray} (h : b.bits ≤ maxVotesCount) :
    fromProto (toProto (some b)) = .ok b :=
  fromProto_toProto (lt_of_le_of_lt h (by decide))

lemma newValidBlock_back {m : NewValidBlockMessage} (h : (Message.newValidBlock m).validateBasic = .ok ()) :
    resent (.newValidBlock m) = .ok (.newValidBlock m) := by
  rw [resent_eq_self h rfl]
  simp only [Message.validateBasic, bind_eq_ok, failIf_eq_ok, mapErr_eq_ok] at h
  obtain ⟨_, -, _, -, _, hp, _, hs, _, -, hm⟩ := h
  obtain ⟨b, hb, -⟩ := some_of_size_ne_zero hs
  have hbi : b.bits ≤ maxVotesCount := by
    rw [hb] at hm
    exact (not_lt.mp hm).trans (by decide)
  refine bind_eq_ok.mpr ⟨m.blockPartSetHeader, mapErr_eq_ok.mpr (partSetHeaderFromProto_toProto.mpr ⟨hp, rfl⟩), ?_⟩
  refine bind_eq_ok.mpr ⟨b, mapErr_eq_ok.mpr ?_, by rw [← hb]; rfl⟩
  rw [hb]
  exact fromProto_toProto_of_size hbi

lemma proposal_back {ptr : Option Proposal} (h : (Message.proposal ptr).validateBasic = .ok ()) :
    resent (.proposal ptr) = .ok (.proposal ptr) ↔ (Message.proposal ptr).Survives := by
  obtain ⟨p, rfl, hp⟩ := some_of_deref h
  have hb : fromPayload (.proposal (Proposal.toProto (some p))) =
      .ok (.proposal (some { p with coreChainLockUpdate := none })) :=
    bind_eq_ok.mpr ⟨_, mapErr_eq_ok.mpr (proposalFromProto_toProto hp), rfl⟩
  rw [resent_eq_self h rfl, hb]
  constructor
  · rintro heq q ⟨⟩
    have hs : { p with coreChainLockUpdate := none } = p := by simpa using heq
    exact (congrArg Proposal.coreChainLockUpdate hs).symm
  intro hn
  have hl : p.coreChainLockUpdate = none := hn p rfl
  rw [← hl]

lemma proposalPOL_back {m : ProposalPOLMessage} (h : (Message.proposalPOL m).validateBasic = .ok ()) :
    resent (.proposalPOL m) = .ok (.proposalPOL m) := by
  have hv := h
  simp only [Message.validateBasic, bind_eq_ok, failIf_eq_ok] at h
  obtain ⟨_, -, _, -, _, hs, hm⟩ := h
  obtain ⟨height, round, pol⟩ := m
  obtain ⟨b, rfl, hb⟩ := some_of_size_ne_zero hs
  have hpb : toProto (some b) = some ⟨b.bits, b.elems⟩ := if_neg fun hc => hb hc.2
  have hto : toPayload (.proposalPOL ⟨height, round, some b⟩) =
      .ok (.proposalPol ⟨height, round, ⟨b.bits, b.elems⟩⟩) := by simp only [toPayload, hpb]
  rw [resent_eq_self hv hto]
  refine bind_eq_ok.mpr ⟨b, mapErr_eq_ok.mpr ?_, rfl⟩
  rw [← hpb]
  exact fromProto_toProto_of_size (not_lt.mp hm)

lemma blockPart_back {m : BlockPartMessage} (h : (Message.blockPart m).validateBasic = .ok ()) :
    resent (.blockPart m) = .ok (.blockPart m) := by
  have hv := h
  simp only [Message.validateBasic, bind_eq_ok, failIf_eq_ok, mapErr_eq_ok] at h
  obtain ⟨_, -, _, -, hp⟩ := h
  obtain ⟨height, round, ptr⟩ := m
  obtain ⟨part, rfl, hp⟩ := some_of_deref hp
  rw [resent_eq_self hv rfl]
  exact bind_eq_ok.mpr ⟨part, mapErr_eq_ok.mpr (partFromProto_toProto.mpr ⟨hp, rfl⟩), rfl⟩

lemma vote_back {ptr : Option Vote} (h : (Message.vote ptr).validateBasic = .ok ()) :
    resent (.vote ptr) = .ok (.vote ptr) ↔ (Message.vote ptr).Survives := by
  obtain ⟨v, rfl, hv⟩ := some_of_deref h
  have hs : (Message.vote (some v)).Survives ↔ ∀ ext ∈ v.voteExtensions, ext.Decoded := by simp [Message.Survives]
  rw [resent_eq_self h rfl, hs, ← voteFromProto_toTmproto hv]
  constructor
  · intro hf
    obtain ⟨v', hv', hr⟩ := of_bind hf
    cases hr
    exact mapErr_eq_ok.mp hv'
  · exact fun hf => bind_eq_ok.mpr ⟨v, mapErr_eq_ok.mpr hf, rfl⟩

lemma commit_back {ptr : Option Commit} (h : (Message.commit ptr).validateBasic = .ok ()) :
    resent (.commit ptr) = .ok (.commit ptr) ↔ (Message.commit ptr).Survives := by
  obtain ⟨c, rfl, hc⟩ := some_of_deref h
  rw [resent_eq_self h rfl]
  constructor
  · rintro hf c' ⟨⟩ -
    obtain ⟨c', hc', hr⟩ := of_bind hf
    cases hr
    exact (commitFromProto_toProto.mp (mapErr_eq_ok.mp hc')).2.1
  intro hs
  have hb : c.blockID.validateBasic = .ok () := by
    by_cases hh : 1 ≤ c.height
    · exact Commit.validateBasic_blockID hc hh
    -- the height is not negative either
    unfold Commit.validateBasic at hc
    simp only [bind_eq_ok, failIf_eq_ok] at hc
    exact hs c rfl (by omega)
  have hba : commitFromProto (some c.toProto) = .ok c := commitFromProto_toProto.mpr ⟨hc, hb, rfl⟩
  exact bind_eq_ok.mpr ⟨c, mapErr_eq_ok.mpr hba, rfl⟩

lemma voteSetMaj23_back {m : VoteSetMaj23Message} (h : (Message.voteSetMaj23 m).validateBasic = .ok ()) :
    resent (.voteSetMaj23 m) = .ok (.voteSetMaj23 m) := by
  rw [resent_eq_self h rfl]
  simp only [Message.validateBasic, bind_eq_ok, mapErr_eq_ok] at h
  obtain ⟨_, -, _, -, _, -, hb⟩ := h
  exact bind_eq_ok.mpr ⟨m.blockID, mapErr_eq_ok.mpr (blockIDFromProto_toProto.mpr ⟨hb, rfl⟩), rfl⟩

lemma voteSetBits_back {m : VoteSetBitsMessage} (h : (Message.voteSetBits m).validateBasic = .ok ()) :
    resent (.voteSetBits m) = .ok (.voteSetBits m) ↔ (Message.voteSetBits m).Survives := by
  rw [resent_eq_self h rfl]
  simp only [Message.validateBasic, bind_eq_ok, failIf_eq_ok, mapErr_eq_ok] at h
  obtain ⟨_, -, _, -, _, -, _, hbl, hm⟩ := h
  obtain ⟨height, round, type, blockID, votes⟩ := m
  constructor
  · rintro hf hn
    obtain ⟨bi, -, hf⟩ := of_bind hf
    obtain ⟨bits, -, hf⟩ := of_bind hf
    have hv : some bits = votes := congrArg VoteSetBitsMessage.votes (Message.voteSetBits.inj (Except.ok.inj hf))
    exact some_ne_none bits (hv.trans hn)
  · intro hs
    obtain ⟨b, hb⟩ := ne_none_iff_exists'.mp hs
    obtain rfl : votes = some b := hb
    have hbi : fromProto (some ((toProto (some b)).getD ⟨0, []⟩)) = .ok b := by
      by_cases hz : b.bits = 0
      · rw [eq_empty hz]
        rfl
      have hpb : toProto (some b) = some ⟨b.bits, b.elems⟩ := if_neg fun hc => hz hc.2
      rw [hpb, getD_some, ← hpb]
      exact fromProto_toProto_of_size (not_lt.mp hm)
    refine bind_eq_ok.mpr ⟨blockID, mapErr_eq_ok.mpr (blockIDFromProto_toProto.mpr ⟨hbl, rfl⟩), ?_⟩
    exact bind_eq_ok.mpr ⟨b, mapErr_eq_ok.mpr hbi, rfl⟩

lemma resent_iff (h : m.validateBasic = .ok ()) : resent m = .ok m ↔ m.Survives := by
  cases m with
  | newRoundStep m =>
    refine iff_of_true ((resent_eq_self h rfl).mpr ?_) trivial
    exact bind_eq_ok.mpr ⟨m.step, mapErr_eq_ok.mpr (safeConvertUint8_toNat m.step), rfl⟩
  | newValidBlock m => exact iff_of_true (newValidBlock_back h) trivial
  | proposal ptr => exact proposal_back h
  | proposalPOL m => exact iff_of_true (proposalPOL_back h) trivial
  | blockPart m => exact iff_of_true (blockPart_back h) trivial
  | vote ptr => exact vote_back h
  | hasVote m => exact iff_of_true ((resent_eq_self h rfl).mpr rfl) trivial
  | commit ptr => exact commit_back h
  | hasCommit m => exact iff_of_true ((resent_eq_self h rfl).mpr rfl) trivial
  | voteSetMaj23 m => exact iff_of_true (voteSetMaj23_back h) trivial
  | voteSetBits m => exact voteSetBits_back h

lemma validateBasic_of_resent (h : resent m = .ok m') : m'.validateBasic = .ok () := by
  obtain ⟨payload, -, hf⟩ := resent_eq_ok.mp h
  exact validateBasic_of_msgFromProto hf

lemma reread_msgInfo_eq_ok {mi : MsgInfo} {w : WALMessage} :
    reread (.msgInfo mi) = .ok w ↔ ∃ m m', mi.msg = some m ∧ resent m = .ok m' ∧
      w = .msgInfo ⟨some m', mi.peerID, .zero, 0⟩ := by
  unfold reread walToProto resent
  simp only [bind_eq_ok]
  constructor
  · rintro ⟨_, ⟨consMsg, hms, hto⟩, hf⟩
    cases hto
    obtain ⟨walMsg, hw, hr⟩ := of_bind hf
    cases hr
    cases hm : mi.msg with
    | none =>
      rw [hm] at hms
      cases hms
    | some m => exact ⟨m, walMsg, rfl, ⟨consMsg, hm ▸ hms, mapErr_eq_ok.mp hw⟩, rfl⟩
  · rintro ⟨m, m', hm, ⟨consMsg, hms, hw⟩, rfl⟩
    exact ⟨_, ⟨consMsg, hm ▸ hms, rfl⟩, bind_eq_ok.mpr ⟨m', mapErr_eq_ok.mpr hw, rfl⟩⟩

lemma reread_iff (w : WALMessage) : reread w = .ok w ↔ w.Survives := by
  cases w with
  | eventDataRoundState height round step => exact iff_of_true rfl trivial
  | timeoutInfo duration height round step =>
    refine iff_of_true (bind_eq_ok.mpr ⟨_, rfl, ?_⟩) trivial
    exact bind_eq_ok.mpr ⟨step, mapErr_eq_ok.mpr (safeConvertUint8_toNat step), rfl⟩
  | endHeight height => exact iff_of_true rfl trivial
  | msgInfo mi =>
    rw [reread_msgInfo_eq_ok]
    obtain ⟨msg, peerID, receiveTime, connID⟩ := mi
    constructor
    · rintro ⟨m, m', hm, hb, heq⟩
      obtain ⟨rfl, -, rfl, rfl⟩ : msg = some m' ∧ True ∧ receiveTime = .zero ∧ connID = 0 := by simpa using heq
      obtain rfl : m' = m := some.inj hm
      have hv := validateBasic_of_resent hb
      exact ⟨⟨m', rfl, hv, (resent_iff hv).mp hb⟩, rfl, rfl⟩
    · rintro ⟨⟨m, hm, hv, hs⟩, ht, hc⟩
      refine ⟨m, m, hm, (resent_iff hv).mpr hs, ?_⟩
      simp_all

/-- A message that passes `ValidateBasic` is received as it was sent exactly if it is no proposal with a
core chain lock, no vote with an extension whose Go type is not that of its type field, no commit at
height 0 with an invalid block ID and no answer to a claim with nil for the votes. A record of the log is
read as it was written exactly if it is no message, or one that is valid and received as it was sent,
with the zero values for the time of its arrival and its connection. -/
theorem messages_survive (m : Message) (w : WALMessage) :
    (m.validateBasic = .ok () → (resent m = .ok m ↔ m.Survives)) ∧ (reread w = .ok w ↔ w.Survives) :=
  ⟨resent_iff, reread_iff w⟩

def lockedProposal : Proposal where
  type := .proposal
  height := 1
  round := 0
  polRound := -1
  blockID := sampleBlockID 1
  timestamp := ⟨5, 0⟩
  signature := List.replicate signatureSize 1
  coreChainLockedHeight := 7
  coreChainLockUpdate := some ⟨7, List.replicate hashSize 1, List.replicate signatureSize 1⟩

/-- The core chain lock of the proposal is gone after the wire, and the time at which a valid message was
received after the log. -/
theorem lockedProposal_changes :
    (Message.proposal (some lockedProposal)).validateBasic = .ok () ∧
      resent (.proposal (some lockedProposal)) =
        .ok (.proposal (some { lockedProposal with coreChainLockUpdate := none })) ∧
      reread (.msgInfo ⟨some (.hasCommit ⟨1, 0⟩), "peer", ⟨5, 0⟩, 0⟩) =
        .ok (.msgInfo ⟨some (.hasCommit ⟨1, 0⟩), "peer", .zero, 0⟩) := by
  decide +kernel

/-- Without the chain lock the proposal survives, and so does its record. -/
theorem unlockedProposal_survives :
    resent (.proposal (some { lockedProposal with coreChainLockUpdate := none })) =
        .ok (.proposal (some { lockedProposal with coreChainLockUpdate := none })) ∧
      reread (.timeoutInfo 3 1 0 4) = .ok (.timeoutInfo 3 1 0 4) :=
  have h := messages_survive (.proposal (some { lockedProposal with coreChainLockUpdate := none })) (.timeoutInfo 3 1 0 4)
  ⟨(h.1 (by decide +kernel)).mpr fun p hp => by cases hp; rfl, h.2.mpr trivial⟩

end Msgs

end Tenderdash
