import Tenderdash.Types.Basic

/-!
What validators sign: vote extensions, votes as they travel in protobuf form, the sign items built
from them, and the check of a set of signatures against those items.

A vote extension held by a vote is a Go value of one of three types that embeds the protobuf
message. The type of the Go value and the type field of the message agree after a conversion from
protobuf, but nothing keeps later writes to the message from breaking that, so both are kept.
-/

namespace Tenderdash

open Lib Go

abbrev LLMQType := ℤ

/-! ### Sign items -/

structure SignItem where
  llmqType : LLMQType
  id : Bytes
  msgHash : Bytes
  quorumHash : Bytes
  signHash : Bytes
  msg : Bytes
  deriving DecidableEq, Repr

namespace SignItem

/-- `NewSignItemFromHash`. Its `UpdateSignHash` panics on an item that `Validate` rejects and on a
quorum type that is not a byte. The checksum test of `Validate` needs a raw message, which is still
empty here. -/
def newFromHash (C : Crypto) (quorumType : LLMQType) (quorumHash reqID msgHash : Bytes) : Go String SignItem :=
  if reqID.length ≠ hashSize then Go.crash "invalid sign item: invalid request ID size"
  else if msgHash.length ≠ hashSize then Go.crash "invalid sign item: invalid hash size"
  else if quorumHash.length ≠ quorumHashSize then
    Go.crash "invalid sign item: invalid quorum hash size"
  else if quorumType < 0 ∨ 255 < quorumType then Go.crash "value out of range for uint8"
  else
    .ok {
      llmqType := quorumType
      id := reqID
      msgHash := msgHash
      quorumHash := quorumHash
      signHash := C.buildSignHash (UInt8.ofNat quorumType.toNat) quorumHash.reverse reqID.reverse msgHash.reverse
      msg := [] }

/-- `NewSignItem`. -/
def new (C : Crypto) (quorumType : LLMQType) (quorumHash reqID msg : Bytes) : Go String SignItem :=
  return { ← newFromHash C quorumType quorumHash reqID (C.checksum msg) with msg := msg }

def verifySignature (C : Crypto) (item : SignItem) (key : PubKey) (sig : Bytes) : Bool :=
  key.verifySignatureDigest C item.signHash sig

variable {quorumType : LLMQType} {quorumHash reqID : Bytes} {msgHash : Bytes} {item : SignItem} {msg : Bytes}

lemma newFromHash_eq_ok (C : Crypto) (hq : quorumHash.length = quorumHashSize)
    (ht : 0 ≤ quorumType ∧ quorumType ≤ 255) (hr : reqID.length = hashSize) (hm : msgHash.length = hashSize) :
    ∃ item, newFromHash C quorumType quorumHash reqID msgHash = .ok item := by
  unfold newFromHash
  rw [if_neg (not_not.mpr hr), if_neg (not_not.mpr hm), if_neg (not_not.mpr hq),
    if_neg (not_or.mpr ⟨not_lt.mpr ht.1, not_lt.mpr ht.2⟩)]
  exact ⟨_, rfl⟩

lemma new_eq_ok (C : Crypto) (hq : quorumHash.length = quorumHashSize)
    (ht : 0 ≤ quorumType ∧ quorumType ≤ 255) (hr : reqID.length = hashSize) :
    ∃ item, new C quorumType quorumHash reqID msg = .ok item := by
  obtain ⟨item, hi⟩ := newFromHash_eq_ok C hq ht hr (C.checksum_length msg)
  exact ⟨_, bind_eq_ok.mpr ⟨item, hi, rfl⟩⟩

lemma newFromHash_signHash_length {C : Crypto}
    (h : newFromHash C quorumType quorumHash reqID msgHash = .ok item) : item.signHash.length = hashSize := by
  unfold newFromHash at h
  split at h
  · cases h
  split at h
  · cases h
  split at h
  · cases h
  split at h
  · cases h
  · cases h; simp

lemma new_signHash_length {C : Crypto}
    (h : new C quorumType quorumHash reqID msg = .ok item) : item.signHash.length = hashSize := by
  obtain ⟨item', hi, h⟩ := of_bind h
  cases h
  have hl := newFromHash_signHash_length hi
  exact hl

end SignItem

def heightRoundRequestID (C : Crypto) (tag : String) (height round : ℤ) : Bytes :=
  C.checksum (tag.toUTF8.data.toList ++ Wire.leBytes 8 height ++ Wire.leBytes 4 round)

/-! ### Vote extensions -/

/-- Type field of a vote extension; the enumeration is open on the wire. -/
inductive VoteExtensionType where
  | default
  | thresholdRecover
  | thresholdRecoverRaw
  | other (code : ℤ)
  deriving DecidableEq, Repr

def VoteExtensionType.code : VoteExtensionType → ℤ
  | default => 0
  | thresholdRecover => 1
  | thresholdRecoverRaw => 2
  | other c => c

inductive VoteExtensionKind where
  | generic
  | threshold
  | thresholdRaw
  deriving DecidableEq, Repr

/-- The protobuf message. A sign request ID that is set but nil counts as not set. -/
structure VoteExtensionProto where
  type : VoteExtensionType
  extension : Bytes
  signature : Bytes
  signRequestId : Option Bytes
  deriving DecidableEq, Repr

structure VoteExtension where
  kind : VoteExtensionKind
  proto : VoteExtensionProto
  deriving DecidableEq, Repr

def voteExtensionFromProto (ve : VoteExtensionProto) : Go String VoteExtension :=
  match ve.type with
  | .default => .ok ⟨.generic, ve⟩
  | .thresholdRecover => .ok ⟨.threshold, ve⟩
  | .thresholdRecoverRaw => .ok ⟨.thresholdRaw, ve⟩
  | .other c => Go.fail s!"unknown vote extension type: {c}"

/-- `VoteExtensionsFromProto`, with `none` for a nil element. -/
def voteExtensionsFromProto : List (Option VoteExtensionProto) → Go String (List VoteExtension)
  | [] => .ok []
  | none :: _ => Go.fail "nil vote extension"
  | some pve :: rest => return (← voteExtensionFromProto pve) :: (← voteExtensionsFromProto rest)

lemma voteExtensionsFromProto_map {exts : List VoteExtension}
    (h : ∀ ext ∈ exts, voteExtensionFromProto ext.proto = .ok ext) :
    voteExtensionsFromProto (exts.map fun ext => some ext.proto) = .ok exts := by
  induction exts with
  | nil => rfl
  | cons ext exts ih =>
    have hr := ih fun e he => h e (List.mem_cons_of_mem _ he)
    exact bind_eq_ok.mpr ⟨ext, h ext List.mem_cons_self, bind_eq_ok.mpr ⟨exts, hr, rfl⟩⟩

lemma voteExtensionsFromProto_returns (pves : List (Option VoteExtensionProto)) :
    Go.Returns (voteExtensionsFromProto pves) := by
  induction pves with
  | nil => exact returns_ok []
  | cons pve pves ih =>
    cases pve with
    | none => exact returns_fail _
    | some pve =>
      refine returns_bind ?_ fun ext _ => returns_bind ih fun exts _ => returns_ok _
      unfold voteExtensionFromProto
      split <;> simp

namespace VoteExtension

variable (ext : VoteExtension) (C : Crypto)

/-- `IsThresholdRecoverable`, decided by the Go type. -/
def isThresholdRecoverable : Bool :=
  match ext.kind with
  | .generic => false
  | .threshold | .thresholdRaw => true

def setSignature (sig : Bytes) : VoteExtension :=
  { ext with proto := { ext.proto with signature := sig } }

/-- `CanonicalizeVoteExtension` and its delimited encoding. -/
def canonicalBytes (chainID : String) (ext : VoteExtensionProto) (height round : ℤ) : Go String Bytes :=
  match ext.type with
  | .default | .thresholdRecover =>
    .ok (Wire.delimited (Wire.bytesField 1 ext.extension ++ Wire.fixed64Field 2 height ++
      Wire.fixed64Field 3 round ++ Wire.bytesField 4 chainID.toUTF8.data.toList ++
      Wire.varintField 5 ext.type.code))
  | _ => Go.fail "provided vote extension type does not have canonical form for signing"

/-- `SignItem`, which the raw type overrides. -/
def signItem (chainID : String) (height round : ℤ) (quorumType : LLMQType)
    (quorumHash : Bytes) (ext : VoteExtension) : Go String SignItem :=
  let requestID := heightRoundRequestID C "dpevote" height round
  match ext.kind with
  | .generic | .threshold => do
    SignItem.new C quorumType quorumHash requestID (← canonicalBytes chainID ext.proto height round)
  | .thresholdRaw =>
    let signRequestID :=
      match ext.proto.signRequestId with
      | some received => (C.checksum (C.checksum received)).reverse
      | none => requestID
    if ext.proto.extension.length ≠ hashSize then
      Go.fail s!"invalid vote extension: extension must be {hashSize} bytes long"
    else SignItem.newFromHash C quorumType quorumHash signRequestID ext.proto.extension.reverse

@[simp] lemma signItem_setSignature (chainID : String) (height round : ℤ)
    (quorumType : LLMQType) (quorumHash : Bytes) (ext : VoteExtension) (sig : Bytes) :
    (ext.setSignature sig).signItem C chainID height round quorumType quorumHash =
      ext.signItem C chainID height round quorumType quorumHash := rfl

lemma signItem_returns (chainID : String) (height round : ℤ) {quorumType : LLMQType} {quorumHash : Bytes}
    (hq : quorumHash.length = quorumHashSize) (ht : 0 ≤ quorumType ∧ quorumType ≤ 255) (ext : VoteExtension) :
    Go.Returns (ext.signItem C chainID height round quorumType quorumHash) := by
  have hre : (heightRoundRequestID C "dpevote" height round).length = hashSize := by simp [heightRoundRequestID]
  have hn : ∀ msg, Go.Returns (SignItem.new C quorumType quorumHash
      (heightRoundRequestID C "dpevote" height round) msg) := by
    intro msg
    have hok : ∃ item, SignItem.new C quorumType quorumHash
        (heightRoundRequestID C "dpevote" height round) msg = .ok item :=
      SignItem.new_eq_ok C hq ht hre
    obtain ⟨item, hi⟩ := hok
    rw [hi]
    exact returns_ok item
  have hb : Go.Returns (canonicalBytes chainID ext.proto height round) := by
    unfold canonicalBytes
    split <;> simp
  unfold signItem
  split
  · exact returns_bind hb fun msg _ => hn msg
  · exact returns_bind hb fun msg _ => hn msg
  dsimp only
  split
  · exact returns_fail _
  next he =>
  have hm : ext.proto.extension.reverse.length = hashSize := by simpa using he
  cases ext.proto.signRequestId with
  | none =>
    obtain ⟨item, hi⟩ := SignItem.newFromHash_eq_ok C hq ht hre hm
    exact hi ▸ returns_ok item
  | some received =>
    have hr : (C.checksum (C.checksum received)).reverse.length = hashSize := by simp
    obtain ⟨item, hi⟩ := SignItem.newFromHash_eq_ok C hq ht hr hm
    exact hi ▸ returns_ok item

lemma signItem_signHash_length {C : Crypto} {chainID : String} {height round : ℤ} {quorumType : LLMQType}
    {quorumHash : Bytes} {ext : VoteExtension} {item : SignItem}
    (h : ext.signItem C chainID height round quorumType quorumHash = .ok item) : item.signHash.length = hashSize := by
  unfold signItem at h
  split at h
  · obtain ⟨msg, -, h⟩ := of_bind h
    exact SignItem.new_signHash_length h
  · obtain ⟨msg, -, h⟩ := of_bind h
    exact SignItem.new_signHash_length h
  dsimp only at h
  split at h
  · cases h
  · exact SignItem.newFromHash_signHash_length h

def Decoded : Prop := voteExtensionFromProto ext.proto = .ok ext

def validate : Go String Unit := do
  failIf (ext.proto.type = .default) "vote extension type DEFAULT is not supported"
  failIf (ext.proto.type = .thresholdRecoverRaw ∧ ext.proto.extension.length ≠ hashSize)
    s!"invalid vote extension size: got {ext.proto.extension.length}, expected {hashSize}"
  failIf (0 < ext.proto.extension.length ∧ ext.proto.signature.length = 0) "vote extension signature is missing"
  failIf (signatureSize < ext.proto.signature.length) s!"vote extension signature is too big (max: {signatureSize})"
  match ext.proto.signRequestId with
  | none => pure ()
  | some requestID =>
    failIf (ext.proto.type ≠ .thresholdRecoverRaw) "vote extension sign request id is not supported"
    failIf (¬ ("\x06plwdtx".toUTF8.data.toList <+: requestID) ∧ ¬ ("dpevote".toUTF8.data.toList <+: requestID))
      "vote extension sign request id must have dpevote or \\x06plwdtx prefix"

end VoteExtension

end Tenderdash
