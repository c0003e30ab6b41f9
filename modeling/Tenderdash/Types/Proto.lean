import Tenderdash.State.BlockExecutor
import Tenderdash.Types.BitArray

/-!
The protobuf forms of the values that consensus messages carry, and the conversions between the two
forms. Each direction is written by hand in the source, field by field, and so it is here. A pointer is
an option, a slice is the list of its items.

Every conversion from protobuf also validates, so what the conversions do to a value that was converted
before is said once for each type, in one shape: the value comes back exactly if its own `ValidateBasic`
accepts it (`..FromProto_toProto`). Two types break the shape. A commit at height 0 need not have a valid
block ID, and a proposal comes back without its core chain lock.
-/

namespace Tenderdash

open Lib Go List

def Timestamp.zero : Timestamp := ⟨-62135596800, 0⟩

/-! ### Generated structs -/

namespace Tmproto

structure PartSetHeader where
  total : ℕ
  hash : Bytes
  deriving DecidableEq, Repr

structure BlockID where
  hash : Bytes
  partSetHeader : PartSetHeader
  stateID : Bytes
  deriving DecidableEq, Repr

structure CoreChainLock where
  coreBlockHeight : ℕ
  coreBlockHash : Bytes
  signature : Bytes
  deriving DecidableEq, Repr

structure Proposal where
  type : SignedMsgType
  height : ℤ
  round : ℤ
  polRound : ℤ
  blockID : BlockID
  timestamp : Timestamp
  signature : Bytes
  coreChainLockedHeight : ℕ
  coreChainLockUpdate : Option CoreChainLock
  deriving DecidableEq, Repr

structure Vote where
  type : SignedMsgType
  height : ℤ
  round : ℤ
  blockID : BlockID
  validatorProTxHash : Bytes
  validatorIndex : ℤ
  blockSignature : Bytes
  voteExtensions : List (Option VoteExtensionProto)
  deriving DecidableEq, Repr

structure Commit where
  height : ℤ
  round : ℤ
  blockID : BlockID
  quorumHash : Bytes
  thresholdBlockSignature : Bytes
  thresholdVoteExtensions : List (Option VoteExtensionProto)
  deriving DecidableEq, Repr

structure Proof where
  total : ℤ
  index : ℤ
  leafHash : Bytes
  aunts : List Bytes
  deriving DecidableEq, Repr

structure Part where
  index : ℕ
  bytes : Bytes
  proof : Proof
  deriving DecidableEq, Repr

structure BitArray where
  bits : ℤ
  elems : List UInt64
  deriving DecidableEq, Repr

end Tmproto

/-! ### Bit arrays -/

namespace BitArray

/-- Nil for nil and for an array without bits. -/
def toProto : Option BitArray → Option Tmproto.BitArray
  | none => none
  | some bA => if bA.elems.length = 0 ∧ bA.bits = 0 then none else some ⟨bA.bits, bA.elems⟩

/-- `FromProto` on a new array. -/
def fromProto : Option Tmproto.BitArray → Go String BitArray
  | none => .ok empty
  | some pb =>
    if pb.bits < 0 then Go.fail "negative Bits"
    else if 2 ^ 31 - 1 < pb.bits then Go.fail "too many Bits"
    else if h : pb.elems.length = numElems pb.bits.toNat then .ok ⟨pb.bits.toNat, pb.elems, h⟩
    else Go.fail s!"invalid number of Elems: got {pb.elems.length}, but exp {numElems pb.bits.toNat}"

lemma fromProto_toProto {bA : BitArray} (h : bA.bits < 2 ^ 31) : fromProto (toProto (some bA)) = .ok bA := by
  rcases eq_zero_or_pos bA.bits with hz | hp
  · rw [eq_empty hz]
    rfl
  have hno : ¬(bA.elems.length = 0 ∧ bA.bits = 0) := fun hc => by omega
  have hn : ¬((bA.bits : ℤ) < 0) := by omega
  have hm : ¬((2 : ℤ) ^ 31 - 1 < bA.bits) := by omega
  simp only [toProto, if_neg hno, fromProto, if_neg hn, if_neg hm, Int.toNat_natCast, dif_pos bA.length_elems]

end BitArray

/-! ### Part-set headers and block IDs -/

def PartSetHeader.toProto (psh : PartSetHeader) : Tmproto.PartSetHeader where
  total := psh.total
  hash := psh.hash

def partSetHeaderFromProto (ppsh : Tmproto.PartSetHeader) : Go String PartSetHeader := do
  let psh : PartSetHeader := ⟨ppsh.total, ppsh.hash⟩
  psh.validateBasic
  return psh

lemma partSetHeaderFromProto_toProto {psh psh' : PartSetHeader} :
    partSetHeaderFromProto psh.toProto = .ok psh' ↔ psh.validateBasic = .ok () ∧ psh = psh' := by
  unfold partSetHeaderFromProto
  rw [bind_eq_ok]
  constructor
  · rintro ⟨⟨⟩, hv, h⟩
    cases h
    exact ⟨hv, rfl⟩
  rintro ⟨hv, rfl⟩
  exact ⟨(), hv, rfl⟩

def BlockID.toProto (blockID : BlockID) : Tmproto.BlockID where
  hash := blockID.hash
  partSetHeader := blockID.partSetHeader.toProto
  stateID := blockID.stateID

def blockIDFromProto (bID : Tmproto.BlockID) : Go String BlockID := do
  let ph ← partSetHeaderFromProto bID.partSetHeader
  let blockID : BlockID := ⟨bID.hash, ph, bID.stateID⟩
  blockID.validateBasic
  return blockID

lemma BlockID.validateBasic_partSetHeader {blockID : BlockID} (h : blockID.validateBasic = .ok ()) :
    blockID.partSetHeader.validateBasic = .ok () := by
  obtain ⟨_, -, h⟩ := of_bind h
  obtain ⟨_, hp, -⟩ := of_bind h
  exact mapErr_eq_ok.mp hp

lemma blockIDFromProto_toProto {blockID blockID' : BlockID} :
    blockIDFromProto blockID.toProto = .ok blockID' ↔ blockID.validateBasic = .ok () ∧ blockID = blockID' := by
  unfold blockIDFromProto
  rw [bind_eq_ok]
  constructor
  · rintro ⟨ph, hph, h⟩
    obtain ⟨-, rfl⟩ := partSetHeaderFromProto_toProto.mp hph
    obtain ⟨_, hv, h⟩ := of_bind h
    cases h
    exact ⟨hv, rfl⟩
  · rintro ⟨hv, rfl⟩
    have hph := partSetHeaderFromProto_toProto.mpr ⟨BlockID.validateBasic_partSetHeader hv, rfl⟩
    exact ⟨blockID.partSetHeader, hph, bind_eq_ok.mpr ⟨(), hv, rfl⟩⟩

/-! ### Parts -/

def Proof.toProto (sp : Proof Bytes) : Tmproto.Proof where
  total := sp.total
  index := sp.index
  leafHash := sp.leafHash
  aunts := sp.aunts

def proofFromProto (pb : Tmproto.Proof) : Go String (Proof Bytes) := do
  let sp : Proof Bytes := ⟨pb.total, pb.index, pb.leafHash, pb.aunts⟩
  sp.validateBasic List.length
  return sp

lemma proofFromProto_toProto {sp sp' : Proof Bytes} :
    proofFromProto sp.toProto = .ok sp' ↔ sp.validateBasic length = .ok () ∧ sp = sp' := by
  unfold proofFromProto
  rw [bind_eq_ok]
  constructor
  · rintro ⟨⟨⟩, hv, h⟩
    cases h
    exact ⟨hv, rfl⟩
  rintro ⟨hv, rfl⟩
  exact ⟨(), hv, rfl⟩

def Part.toProto (part : Part Bytes) : Tmproto.Part where
  index := part.index
  bytes := part.bytes
  proof := part.proof.toProto

def partFromProto (pb : Tmproto.Part) : Go String (Part Bytes) := do
  let proof ← proofFromProto pb.proof
  let part : Part Bytes := ⟨pb.index, pb.bytes, proof⟩
  part.validateBasic List.length
  return part

lemma Part.validateBasic_proof {part : Part Bytes} (h : part.validateBasic length = .ok ()) :
    part.proof.validateBasic length = .ok () := by
  obtain ⟨_, -, h⟩ := of_bind h
  obtain ⟨_, hp, -⟩ := of_bind h
  exact mapErr_eq_ok.mp hp

lemma partFromProto_toProto {part part' : Part Bytes} :
    partFromProto part.toProto = .ok part' ↔ part.validateBasic length = .ok () ∧ part = part' := by
  unfold partFromProto
  rw [bind_eq_ok]
  constructor
  · rintro ⟨proof, hp, h⟩
    obtain ⟨-, rfl⟩ := proofFromProto_toProto.mp hp
    obtain ⟨_, hv, h⟩ := of_bind h
    cases h
    exact ⟨hv, rfl⟩
  · rintro ⟨hv, rfl⟩
    have hp := proofFromProto_toProto.mpr ⟨Part.validateBasic_proof hv, rfl⟩
    exact ⟨part.proof, hp, bind_eq_ok.mpr ⟨(), hv, rfl⟩⟩

/-! ### Votes -/

/-- `Vote.ToProto`, with the block ID in its generated form. -/
def Vote.toTmproto (vote : Vote) : Tmproto.Vote where
  type := vote.type
  height := vote.height
  round := vote.round
  blockID := vote.blockID.toProto
  validatorProTxHash := vote.validatorProTxHash
  validatorIndex := vote.validatorIndex
  blockSignature := vote.blockSignature
  voteExtensions := vote.voteExtensions.map fun ext => some ext.proto

/-- `VoteFromProto`, which leaves the validation of the vote to its caller. -/
def voteFromProto : Option Tmproto.Vote → Go String Vote
  | none => Go.fail "nil vote"
  | some pv => do
    let blockID ← blockIDFromProto pv.blockID
    let extensions ← voteExtensionsFromProto pv.voteExtensions
    return ⟨pv.type, pv.height, pv.round, blockID, pv.validatorProTxHash, pv.validatorIndex,
      pv.blockSignature, extensions⟩

lemma voteExtensionsFromProto_map_iff {exts : List VoteExtension} :
    voteExtensionsFromProto (exts.map fun ext => some ext.proto) = .ok exts ↔ ∀ ext ∈ exts, ext.Decoded := by
  refine ⟨fun h => ?_, voteExtensionsFromProto_map⟩
  induction exts with
  | nil => simp
  | cons ext exts ih =>
    obtain ⟨ext', het, h⟩ := of_bind h
    obtain ⟨exts', hex, h⟩ := of_bind h
    cases h
    intro e he
    rcases mem_cons.mp he with rfl | he
    · exact het
    · exact ih hex e he

lemma voteFromProto_toTmproto {vote : Vote} (h : vote.validateBasic = .ok ()) :
    voteFromProto (some vote.toTmproto) = .ok vote ↔ ∀ ext ∈ vote.voteExtensions, ext.Decoded := by
  have hb : blockIDFromProto vote.blockID.toProto = .ok vote.blockID := by
    refine blockIDFromProto_toProto.mpr ⟨?_, rfl⟩
    unfold Vote.validateBasic at h
    simp only [bind_eq_ok, mapErr_eq_ok] at h
    obtain ⟨_, -, _, -, _, -, _, hv, -⟩ := h
    exact hv
  rw [← voteExtensionsFromProto_map_iff, voteFromProto, bind_eq_ok]
  constructor
  · rintro ⟨blockID, -, h⟩
    obtain ⟨exts, he, h⟩ := of_bind h
    have hba : exts = vote.voteExtensions := congrArg Vote.voteExtensions (Except.ok.inj h)
    rw [hba] at he
    exact he
  · intro he
    exact ⟨vote.blockID, hb, bind_eq_ok.mpr ⟨vote.voteExtensions, he, rfl⟩⟩

/-! ### Commits -/

def Commit.toProto (commit : Commit) : Tmproto.Commit where
  height := commit.height
  round := commit.round
  blockID := commit.blockID.toProto
  quorumHash := commit.quorumHash
  thresholdBlockSignature := commit.thresholdBlockSignature
  thresholdVoteExtensions := commit.thresholdVoteExtensions

def commitFromProto : Option Tmproto.Commit → Go String Commit
  | none => Go.fail "nil Commit"
  | some cp => do
    let bi ← blockIDFromProto cp.blockID
    let commit : Commit := ⟨cp.height, cp.round, bi, cp.quorumHash, cp.thresholdBlockSignature,
      cp.thresholdVoteExtensions⟩
    commit.validateBasic
    return commit

/-- The block ID of a commit is checked on the way back, at height 0 too, where `ValidateBasic` of the
commit skips it. -/
lemma commitFromProto_toProto {commit commit' : Commit} :
    commitFromProto (some commit.toProto) = .ok commit' ↔
      commit.validateBasic = .ok () ∧ commit.blockID.validateBasic = .ok () ∧ commit = commit' := by
  unfold commitFromProto
  rw [bind_eq_ok]
  constructor
  · rintro ⟨bi, hbi, h⟩
    obtain ⟨hb, rfl⟩ := blockIDFromProto_toProto.mp hbi
    obtain ⟨_, hv, h⟩ := of_bind h
    cases h
    exact ⟨hv, hb, rfl⟩
  · rintro ⟨hv, hb, rfl⟩
    exact ⟨commit.blockID, blockIDFromProto_toProto.mpr ⟨hb, rfl⟩, bind_eq_ok.mpr ⟨(), hv, rfl⟩⟩

lemma Commit.validateBasic_blockID {commit : Commit} (h : commit.validateBasic = .ok ())
    (hh : 1 ≤ commit.height) : commit.blockID.validateBasic = .ok () := by
  unfold validateBasic at h
  simp only [if_pos hh, bind_eq_ok, mapErr_eq_ok] at h
  obtain ⟨_, -, _, -, _, ⟨_, -, _, hb, -⟩, -⟩ := h
  exact hb

/-! ### Proposals -/

def Execution.CoreChainLock.toProto (cl : Execution.CoreChainLock) : Tmproto.CoreChainLock where
  coreBlockHeight := cl.coreBlockHeight
  coreBlockHash := cl.coreBlockHash
  signature := cl.signature

structure Proposal where
  type : SignedMsgType
  height : ℤ
  round : ℤ
  polRound : ℤ
  blockID : BlockID
  timestamp : Timestamp
  signature : Bytes
  coreChainLockedHeight : ℕ
  coreChainLockUpdate : Option Execution.CoreChainLock
  deriving DecidableEq, Repr

namespace Proposal

def validateBasic (p : Proposal) : Go String Unit := do
  failIf (p.type ≠ .proposal) "invalid Type"
  failIf (p.height < 0) "negative Height"
  failIf (p.coreChainLockedHeight = 2 ^ 32 - 1) "core height not set"
  failIf (p.round < 0) "negative Round"
  failIf (p.polRound < -1) "negative POLRound (exception: -1)"
  p.blockID.validateBasic.mapErr ("wrong BlockID: " ++ ·)
  failIf (p.blockID.isComplete = false) "expected a complete, non-empty BlockID"
  Execution.validateChainLock p.coreChainLockUpdate
  failIf (p.signature.length = 0) "signature is missing"
  failIf (signatureSize < p.signature.length) s!"signature is too big (max: {signatureSize})"

/-- `Proposal.ToProto`; a nil proposal becomes the zero value. -/
def toProto : Option Proposal → Tmproto.Proposal
  | none => ⟨.unknown, 0, 0, 0, ⟨[], ⟨0, []⟩, []⟩, .zero, [], 0, none⟩
  | some p => {
      blockID := p.blockID.toProto
      type := p.type
      height := p.height
      coreChainLockedHeight := p.coreChainLockedHeight
      coreChainLockUpdate := p.coreChainLockUpdate.map Execution.CoreChainLock.toProto
      round := p.round
      polRound := p.polRound
      timestamp := p.timestamp
      signature := p.signature }

end Proposal

/-- It does not read the core chain lock of the message. -/
def proposalFromProto (pp : Tmproto.Proposal) : Go String Proposal := do
  let blockID ← blockIDFromProto pp.blockID
  let p : Proposal := {
    blockID := blockID
    type := pp.type
    height := pp.height
    coreChainLockedHeight := pp.coreChainLockedHeight
    round := pp.round
    polRound := pp.polRound
    timestamp := pp.timestamp
    signature := pp.signature
    coreChainLockUpdate := none }
  p.validateBasic
  return p

lemma proposalFromProto_toProto {p : Proposal} (h : p.validateBasic = .ok ()) :
    proposalFromProto (Proposal.toProto (some p)) = .ok { p with coreChainLockUpdate := none } := by
  have hp : p.blockID.validateBasic = .ok () ∧
      Proposal.validateBasic { p with coreChainLockUpdate := none } = .ok () := by
    unfold Proposal.validateBasic at h ⊢
    simp only [bind_eq_ok, mapErr_eq_ok] at h ⊢
    obtain ⟨_, ht, _, hh, _, hco, _, hr, _, hpo, _, hb, _, hc, _, -, hs⟩ := h
    exact ⟨hb, (), ht, (), hh, (), hco, (), hr, (), hpo, (), hb, (), hc, (), rfl, hs⟩
  exact bind_eq_ok.mpr ⟨p.blockID, blockIDFromProto_toProto.mpr ⟨hp.1, rfl⟩, bind_eq_ok.mpr ⟨(), hp.2, rfl⟩⟩

end Tenderdash
