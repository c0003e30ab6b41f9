import Tenderdash.Types.SignItem

/-!
Proposals in protobuf form and what their signature covers. The core chain lock fields travel with
a proposal but are not part of its sign bytes.
-/

namespace Tenderdash

open Lib

structure Timestamp where
  seconds : ℤ
  nanos : ℤ
  deriving DecidableEq, Repr

namespace Timestamp

/-- The range of times the protobuf library agrees to encode: years 1 to 9999. -/
def valid (t : Timestamp) : Bool :=
  -62135596800 ≤ t.seconds ∧ t.seconds < 253402300800 ∧ 0 ≤ t.nanos ∧ t.nanos < 1000000000

def marshal (t : Timestamp) : Bytes := Wire.varintField 1 t.seconds ++ Wire.varintField 2 t.nanos

end Timestamp

structure ProposalProto where
  height : ℤ
  round : ℤ
  polRound : ℤ
  blockID : BlockID
  timestamp : Timestamp
  signature : Bytes
  coreChainLockedHeight : ℕ
  deriving DecidableEq, Repr

namespace ProposalProto

/-- `ProposalBlockSignBytes`, which panics on a time that has no encoding. -/
def signBytes (chainID : String) (p : ProposalProto) : Go String Bytes :=
  if p.timestamp.valid then
    .ok (Wire.delimited (
      Wire.varintField 1 SignedMsgType.proposal.code ++ Wire.fixed64Field 2 p.height ++
      Wire.fixed64Field 3 p.round ++ Wire.varintField 4 p.polRound ++
      (match p.blockID.canonical with
        | some canonical => Wire.messageField 5 canonical
        | none => []) ++
      Wire.messageField 6 p.timestamp.marshal ++ Wire.bytesField 7 chainID.toUTF8.data.toList))
  else Go.crash "timestamp out of range"

/-- `ProposalBlockSignID`: the digest a proposer signs. -/
def signID (C : Crypto) (chainID : String) (p : ProposalProto) (quorumType : LLMQType)
    (quorumHash : Bytes) : Go String Bytes := do
  let bz ← p.signBytes chainID
  let item ← SignItem.newFromHash C quorumType quorumHash
    (heightRoundRequestID C "dpproposal" p.height p.round) (C.checksum bz)
  return item.signHash

end ProposalProto

end Tenderdash
