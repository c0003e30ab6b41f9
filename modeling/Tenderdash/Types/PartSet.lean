import Tenderdash.Lib.Merkle
import Tenderdash.Lib.Run
import Tenderdash.Types.Basic

/-!
Block parts. The bytes of a block are cut into chunks, the chunks are the leaves of a Merkle tree,
and whoever knows the header, the number of chunks and the root, can collect the chunks from
anybody: each part comes with a proof that is checked against the root.

The digests are those of an arbitrary hasher, with the size each digest has; the node's own hasher
is `Crypto.merkle`, whose digests are byte strings.
-/

namespace Tenderdash

open Lib Go

def Crypto.merkle (C : Crypto) : Merkle.Hasher Bytes Bytes where
  leaf b := C.checksum (0 :: b)
  inner l r := C.checksum (1 :: (l ++ r))
  empty := C.checksum []

variable {D : Type} [DecidableEq D]

/-! ### Proofs -/

def maxAunts : ℕ := 100

structure Proof (D : Type) where
  total : ℤ
  index : ℤ
  leafHash : D
  aunts : List D
  deriving DecidableEq

variable (H : Merkle.Hasher Bytes D)

/-- `computeHashFromAunts`, on the aunts in reverse: the source takes them from the end. -/
def computeHashFromAunts (H : Merkle.Hasher Bytes D) (index total : ℤ) (leafHash : D) : List D → Go String D
  | [] =>
    if total ≤ index ∨ index < 0 ∨ total ≤ 0 then
      Go.fail s!"invalid index {index} and/or total {total}"
    else if total = 1 then .ok leafHash
    else Go.fail "expected at least one inner hash"
  | aunt :: aunts =>
    if total ≤ index ∨ index < 0 ∨ total ≤ 0 then
      Go.fail s!"invalid index {index} and/or total {total}"
    else if total = 1 then Go.fail "unexpected inner hashes"
    else
      let numLeft : ℤ := Merkle.splitPoint total.toNat
      if index < numLeft then do
        let leftHash ← computeHashFromAunts H index numLeft leafHash aunts
        return H.inner leftHash aunt
      else do
        let rightHash ← computeHashFromAunts H (index - numLeft) (total - numLeft) leafHash aunts
        return H.inner aunt rightHash

namespace Proof

def verify (sp : Proof D) (rootHash : D) (leaf : Bytes) : Go String Unit := do
  failIf (sp.total < 0) "proof total must be positive"
  failIf (sp.index < 0) "proof index cannot be negative"
  failIf (sp.leafHash ≠ H.leaf leaf) "invalid leaf hash"
  let computedHash ← (computeHashFromAunts H sp.index sp.total sp.leafHash
    sp.aunts.reverse).mapErr ("compute root hash: " ++ ·)
  failIf (computedHash ≠ rootHash) "invalid root hash"

/-- `Proof.ValidateBasic`, for digests of the given sizes. -/
def validateBasic (size : D → ℕ) (sp : Proof D) : Go String Unit := do
  failIf (sp.total < 0) "negative Total"
  failIf (sp.index < 0) "negative Index"
  failIf (size sp.leafHash ≠ hashSize) s!"expected LeafHash size to be {hashSize}, got {size sp.leafHash}"
  failIf (maxAunts < sp.aunts.length) s!"expected no more than {maxAunts} aunts, got {sp.aunts.length}"
  failIf (∃ aunt ∈ sp.aunts, size aunt ≠ hashSize) s!"expected Aunts size to be {hashSize}"

end Proof

/-! ### Parts and part sets -/

structure Part (D : Type) where
  index : ℕ
  bytes : Bytes
  proof : Proof D
  deriving DecidableEq

def Part.validateBasic (size : D → ℕ) (part : Part D) : Go String Unit := do
  failIf (blockPartSizeBytes < part.bytes.length) s!"too big: {part.bytes.length} bytes, max: {blockPartSizeBytes}"
  (part.proof.validateBasic size).mapErr ("wrong Proof: " ++ ·)
  failIf ((part.index : ℤ) ≠ part.proof.index) "error part index does not match proof index"

inductive PartSetError where
  | unexpectedIndex
  | indexMismatch
  | invalidProof
  deriving DecidableEq, Repr

structure PartSet (D : Type) where
  total : ℕ
  hash : D
  parts : List (Option (Part D))
  partsBitArray : List Bool
  count : ℕ
  byteSize : ℕ
  deriving DecidableEq

namespace PartSet

/-- `NewPartSetFromHeader`. -/
def newFromHeader (total : ℕ) (hash : D) : PartSet D where
  total := total
  hash := hash
  parts := List.replicate total none
  partsBitArray := List.replicate total false
  count := 0
  byteSize := 0

/-- The slice of one part: its bounds are products of 32-bit integers, which wrap around. -/
def slice (data : Bytes) (partSize i : ℕ) : Go String Bytes :=
  let lo := i * partSize % 2 ^ 32
  let hi := min data.length ((i + 1) * partSize % 2 ^ 32)
  if hi < lo then Go.crash "slice bounds out of range" else .ok ((data.take hi).drop lo)

/-- `ProofsFromByteSlices`: the proof of one item, with the aunts from the leaf up. -/
def proofOf (items : List Bytes) (i : ℕ) (item : Bytes) : Proof D where
  total := items.length
  index := i
  leafHash := H.leaf item
  aunts := (Merkle.trail H items i).reverse

/-- `NewPartSetFromData` on a 32-bit part size. The number of parts is computed in 32 bits, and a
part size of zero is a division by zero. -/
def newFromData (data : Bytes) (partSize : ℕ) : Go String (PartSet D) := do
  if partSize = 0 then Go.crash "integer divide by zero"
  let total := (data.length + partSize + (2 ^ 32 - 1)) % 2 ^ 32 / partSize
  let partsBytes ← (List.range total).mapM (slice data partSize)
  return {
    total := total
    hash := Merkle.root H partsBytes
    parts := partsBytes.mapIdx fun i b => some ⟨i, b, proofOf H partsBytes i b⟩
    partsBitArray := List.replicate total true
    count := total
    byteSize := data.length }

/-- The set after the call, and whether the part was added. The total of the proof is not compared with the total of the
set. -/
def addPart (ps : PartSet D) (part : Part D) : PartSet D × Go PartSetError Bool :=
  if ps.total ≤ part.index then (ps, Go.fail .unexpectedIndex)
  else if (part.index : ℤ) ≠ part.proof.index then (ps, Go.fail .indexMismatch)
  else if (ps.parts.getD part.index none).isSome then (ps, .ok false)
  else if (part.proof.verify H ps.hash part.bytes).isOk = false then (ps, Go.fail .invalidProof)
  else
    ({ ps with
        parts := ps.parts.set part.index (some part)
        partsBitArray := ps.partsBitArray.set part.index true
        count := ps.count + 1
        byteSize := ps.byteSize + part.bytes.length }, .ok true)

def isComplete (ps : PartSet D) : Bool := ps.count = ps.total

end PartSet

/-! ### Reading a complete set -/

structure PartSetReader (D : Type) where
  current : Bytes
  rest : List (Option (Part D))
  deriving DecidableEq

/-- `GetReader`, which looks at the first part at once. -/
def PartSet.getReader (ps : PartSet D) : Go String (PartSetReader D) :=
  if ps.isComplete = false then Go.crash "Cannot GetReader() on incomplete PartSet"
  else
    match ps.parts with
    | [] => Go.crash "index out of range"
    | none :: _ => Go.crash "nil pointer dereference"
    | some p :: rest => .ok ⟨p.bytes, rest⟩

namespace PartSetReader

/-- `Read` into a buffer of length `n`: the bytes read, whether the end was reported, and the
reader after the call. The underlying byte reader reports the end also to an empty buffer. -/
def read (n : ℕ) : Bytes → List (Option (Part D)) → Go String (Bytes × Bool × PartSetReader D)
  | cur, [] =>
    if n ≤ cur.length then
      if cur = [] then .ok ([], true, ⟨[], []⟩) else .ok (cur.take n, false, ⟨cur.drop n, []⟩)
    else .ok (cur, true, ⟨[], []⟩)
  | cur, p :: rest =>
    if n ≤ cur.length then
      if cur = [] then .ok ([], true, ⟨[], p :: rest⟩)
      else .ok (cur.take n, false, ⟨cur.drop n, p :: rest⟩)
    else
      match p with
      | none => Go.crash "nil pointer dereference"
      | some p => do
        let (out, eof, r) ← read (n - cur.length) p.bytes rest
        return (cur ++ out, eof, r)

def drain : List ℕ → PartSetReader D → Go String (Bytes × Bool)
  | [], _ => .ok ([], false)
  | n :: bufs, r => do
    let (out, eof, r') ← read n r.current r.rest
    if eof then return (out, true)
    let (out', eof') ← drain bufs r'
    return (out ++ out', eof')

end PartSetReader

end Tenderdash
