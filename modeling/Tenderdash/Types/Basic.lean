import Tenderdash.Lib.Go
import Tenderdash.Lib.Wire

/-!
The values every other module is about: the cryptographic primitives the node calls but does not
implement, public keys, signed message types, part-set headers and block IDs.

Heights, rounds, indices and voting powers are integers. A Go byte slice is a byte string, and an
optional byte string where the code tells a nil slice from an empty one.
-/

namespace Tenderdash

open Lib Go List Bool Wire

def hashSize : ℕ := 32

def proTxHashSize : ℕ := 32

def quorumHashSize : ℕ := 32

def signatureSize : ℕ := 96

def pubKeySize : ℕ := 48

abbrev KeyType := ℕ

structure PubKey where
  keyType : KeyType
  bytes : Bytes
  deriving DecidableEq, Repr

/-- The primitives of the crypto libraries. A checksum and a sign hash are fixed-size arrays in the
source, so their lengths come with them. -/
structure Crypto where
  checksum : Bytes → Bytes
  checksum_length : ∀ b, (checksum b).length = hashSize
  buildSignHash : UInt8 → Bytes → Bytes → Bytes → Bytes
  buildSignHash_length : ∀ t q r m, (buildSignHash t q r m).length = hashSize
  /-- The answer depends on the key's type and bytes, the digest and the signature alone. -/
  verifySignatureDigest : KeyType → Bytes → Bytes → Bytes → Bool
  signDigest : Bytes → Bytes → Go String Bytes
  recoverThresholdSignature : List Bytes → List Bytes → Go String Bytes

attribute [simp] Crypto.checksum_length Crypto.buildSignHash_length

def PubKey.verifySignatureDigest (C : Crypto) (key : PubKey) (digest sig : Bytes) : Bool :=
  C.verifySignatureDigest key.keyType key.bytes digest sig

def fitHash (b : Bytes) : Bytes := (b ++ List.replicate hashSize 0).take hashSize

lemma fitHash_length (b : Bytes) : (fitHash b).length = hashSize := by simp [fitHash]

/-- Primitives simple enough to evaluate the model with: the digest of a message is its beginning,
and a signature is the key followed by the digest. -/
def Crypto.sample : Crypto where
  checksum := fitHash
  checksum_length := fitHash_length
  buildSignHash _ _ _ m := fitHash m
  buildSignHash_length _ _ _ m := fitHash_length m
  verifySignatureDigest _ key digest sig := sig = key ++ digest
  signDigest key digest := .ok (key ++ digest)
  recoverThresholdSignature sigs _ := .ok (sigs.headD [])

/-! ### Signed message types -/

/-- Type of a signed message. The enumeration is open on the wire: any other code can arrive. -/
inductive SignedMsgType where
  | unknown
  | prevote
  | precommit
  | proposal
  | other (code : ℤ)
  deriving DecidableEq, Repr

def SignedMsgType.code : SignedMsgType → ℤ
  | unknown => 0
  | prevote => 1
  | precommit => 2
  | proposal => 32
  | other c => c

def isVoteTypeValid : SignedMsgType → Bool
  | .prevote | .precommit => true
  | _ => false

/-! ### Part-set headers and block IDs -/

def validateHash (h : Bytes) : Go String Unit :=
  failIf (0 < h.length ∧ h.length ≠ hashSize) s!"expected size to be {hashSize} bytes, got {h.length} bytes"

def blockPartSizeBytes : ℕ := 65536

def maxBlockSizeBytes : ℕ := 104857600

def maxBlockPartsCount : ℕ := maxBlockSizeBytes / blockPartSizeBytes + 1

structure PartSetHeader where
  total : ℕ
  hash : Bytes
  deriving DecidableEq, Repr, Inhabited

namespace PartSetHeader

variable (psh : PartSetHeader)

/-- `PartSetHeader.IsZero` of the domain type. -/
def isZero : Bool := psh.total = 0 ∧ psh.hash.length = 0

/-- `PartSetHeader.IsZero` of the protobuf type, which ignores the total. -/
def isZeroProto : Bool := psh.hash.length = 0

def validateBasic : Go String Unit := do
  failIf (maxBlockPartsCount < psh.total) s!"too many parts: {psh.total}, max: {maxBlockPartsCount}"
  (validateHash psh.hash).mapErr ("wrong Hash: " ++ ·)

def marshal : Bytes :=
  Wire.varintField 1 psh.total ++ Wire.bytesField 2 psh.hash

lemma marshal_injective {a b : PartSetHeader} (ha : 0 < a.total) (hb : 0 < b.total)
    (ha' : a.total < 2 ^ 64) (hb' : b.total < 2 ^ 64) (hah : a.hash.length = hashSize)
    (hbh : b.hash.length = hashSize) (h : a.marshal = b.marshal) : a = b := by
  have hf : ∀ c : PartSetHeader, c.hash.length = hashSize →
      bytesField 2 c.hash = (uvarint 18 ++ uvarint hashSize) ++ c.hash := by
    intro c hc
    rw [bytesField, if_neg (by rintro hn; simp [hn, hashSize] at hc), messageField, hc]
  unfold marshal at h
  simp only [hf a hah, hf b hbh, ← append_assoc] at h
  obtain ⟨hl, hh⟩ := append_inj' h (by rw [hah, hbh])
  have ht := varintField_injective ha' hb' ha hb (append_cancel_right (append_cancel_right hl))
  cases a
  cases b
  simp_all

end PartSetHeader

structure BlockID where
  hash : Bytes
  partSetHeader : PartSetHeader
  stateID : Bytes
  deriving DecidableEq, Repr, Inhabited

namespace BlockID

variable (b : BlockID)

def isNil : Bool :=
  b.hash.length = 0 ∧ b.partSetHeader.isZero ∧ b.stateID.length = 0

def isComplete : Bool :=
  b.hash.length = hashSize ∧ 0 < b.partSetHeader.total ∧
    b.partSetHeader.hash.length = hashSize ∧ b.stateID.length = hashSize

/-- `BlockID.IsZero` of the protobuf type. -/
def isZeroProto : Bool :=
  b.hash.length = 0 ∧ b.partSetHeader.isZeroProto ∧ b.stateID.length = 0

def validateBasic : Go String Unit := do
  (validateHash b.hash).mapErr ("wrong Hash: " ++ ·)
  b.partSetHeader.validateBasic.mapErr ("wrong PartSetHeader: " ++ ·)
  failIf (b.hash.length ≠ 0 ∧ b.stateID.length ≠ hashSize)
    s!"expected state ID len: {hashSize}, actual: {b.stateID.length}"

/-- `BlockID.Key`: hash, encoded part-set header and state ID, with nothing between them. -/
def key : Bytes := b.hash ++ b.partSetHeader.marshal ++ b.stateID

lemma eq_of_isNil {b : BlockID} (h : b.isNil) : b = ⟨[], ⟨0, []⟩, []⟩ := by
  obtain ⟨hash, ⟨total, pshHash⟩, stateID⟩ := b
  simp_all [isNil, PartSetHeader.isZero]

lemma key_injective {a b : BlockID} (ha : a.isNil ∨ a.isComplete) (hb : b.isNil ∨ b.isComplete)
    (ha' : a.partSetHeader.total < 2 ^ 64) (hb' : b.partSetHeader.total < 2 ^ 64) (h : a.key = b.key) : a = b := by
  have he : ∀ c : BlockID, c.isNil → c.key = [] := by
    intro c hc
    rw [eq_of_isNil hc]
    rfl
  have hf : ∀ c : BlockID, c.isComplete → c.key ≠ [] := by
    intro c hc hn
    simp only [isComplete, decide_and, and_eq_true, decide_eq_true_eq] at hc
    simp [key] at hn
    simp [hn.1, hashSize] at hc
  rcases ha with ha | ha <;> rcases hb with hb | hb
  · rw [eq_of_isNil ha, eq_of_isNil hb]
  · exact absurd (h ▸ he a ha) (hf b hb)
  · exact absurd (h.symm ▸ he b hb) (hf a ha)
  simp only [isComplete, decide_and, and_eq_true, decide_eq_true_eq] at ha hb
  obtain ⟨hah, hat, hap, has⟩ := ha
  obtain ⟨hbh, hbt, hbp, hbs⟩ := hb
  obtain ⟨hl, hs⟩ := append_inj' h (by rw [has, hbs])
  obtain ⟨hh, hp⟩ := append_inj hl (by rw [hah, hbh])
  have := PartSetHeader.marshal_injective hat hbt ha' hb' hap hbp hp
  cases a
  cases b
  simp_all

/-- The encoding of `ToCanonicalBlockID`, without the state ID; nothing for a zero block ID. -/
def canonical : Option Bytes :=
  if b.isZeroProto then none
  else
    let psh := if b.partSetHeader.isZeroProto then ⟨0, []⟩ else b.partSetHeader
    some (Wire.bytesField 1 b.hash ++ Wire.messageField 2 psh.marshal)

def nil : BlockID := ⟨[], ⟨0, []⟩, []⟩

end BlockID

end Tenderdash
