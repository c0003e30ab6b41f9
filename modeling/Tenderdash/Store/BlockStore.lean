import Mathlib.Data.Prod.Lex
import Tenderdash.Lib.Table
import Tenderdash.Types.Commit
import Tenderdash.Types.Header

/-!
The block store: block metas, parts, commits and hashes, each under keys of its own family.

Stored values decode to what was encoded. A batch is written at once. The iterator of a range reads the
entries in the order of their keys, so a family that is pruned by ranges is a table.
-/

namespace Tenderdash.Store

open Lib

structure FullBlock where
  header : Header
  hash : Bytes
  stateID : Bytes
  lastCommit : Commit
  numTxs : ℤ
  hasCoreChainLock : Bool
  deriving DecidableEq, Repr

def newBlockMeta (block : FullBlock) (blockParts : PartSet Bytes) (round : ℤ) : BlockMeta where
  blockID := ⟨block.hash, ⟨blockParts.total, blockParts.hash⟩, block.stateID⟩
  blockSize := blockParts.byteSize
  header := block.header
  numTxs := block.numTxs
  round := round
  hasCoreChainLock := block.hasCoreChainLock

structure BlockStore where
  metas : Table ℤ BlockMeta
  parts : Table (ℤ ×ₗ ℕ) (Part Bytes)
  commits : Table ℤ Commit
  hashes : List (Bytes × ℤ)
  seenCommit : Option Commit
  seenCommitsAt : Table ℤ Commit

namespace BlockStore

/-- `NewBlockStore` on an empty database. -/
def new : BlockStore := ⟨[], [], [], [], none, []⟩

variable (bs : BlockStore) (decode : Bytes → Option FullBlock)

/-- The metas that `Base` and `Height` iterate over. -/
def listed : Table ℤ BlockMeta :=
  bs.metas.filter fun e => 1 ≤ e.1 ∧ e.1 < 2 ^ 63 - 1

def base : ℤ := (bs.listed.head?.map (·.1)).getD 0

def height : ℤ := (bs.listed.getLast?.map (·.1)).getD 0

def loadBlockMeta (height : ℤ) : Option BlockMeta := bs.metas.get height

def loadBlockPart (height : ℤ) (index : ℕ) : Option (Part Bytes) :=
  bs.parts.get (toLex (height, index))

def loadBlockCommit (height : ℤ) : Option Commit := bs.commits.get height

/-- A block of which a part is missing is missing; bytes that do not decode are a panic. -/
def loadBlock (bs : BlockStore) (height : ℤ) : Go String (Option FullBlock) :=
  match bs.loadBlockMeta height with
  | none => .ok none
  | some blockMeta =>
    match (List.range blockMeta.blockID.partSetHeader.total).mapM fun i =>
        bs.loadBlockPart height i with
    | none => .ok none
    | some parts =>
      match decode (parts.flatMap (·.bytes)) with
      | none => Go.crash "error reading block"
      | some block => .ok (some block)

def loadBlockByHash (bs : BlockStore) (hash : Bytes) : Go String (Option FullBlock) :=
  match bs.hashes.lookup hash with
  | none => .ok none
  | some height => bs.loadBlock decode height

structure Entry where
  block : FullBlock
  blockParts : PartSet Bytes
  seenCommit : Commit

def Entry.height (e : Entry) : ℤ := e.block.header.height

def Entry.blockMeta (e : Entry) : BlockMeta := newBlockMeta e.block e.blockParts e.seenCommit.round

/-- `saveBlockPart` for all parts, from the first one on. -/
def savePartsFrom (height : ℤ) : ℕ → List (Option (Part Bytes)) → Table (ℤ ×ₗ ℕ) (Part Bytes) →
    Go String (Table (ℤ ×ₗ ℕ) (Part Bytes))
  | _, [], parts => .ok parts
  | _, none :: _, _ => Go.crash "unable to make part into proto"
  | i, some part :: rest, parts => savePartsFrom height (i + 1) rest (parts.set (toLex (height, i)) part)

/-- Every error of `saveBlockToBatch` is a panic. -/
def saveBlock (e : Entry) : Go String BlockStore := do
  if 0 < bs.base ∧ e.height ≠ bs.height + 1 then
    Go.crash s!"BlockStore can only save contiguous blocks. Wanted {bs.height + 1}, got {e.height}"
  else if e.blockParts.isComplete = false then
    Go.crash "BlockStore can only save complete block part sets"
  else if e.height ≠ e.seenCommit.height then
    Go.crash "BlockStore cannot save seen commit of a different height"
  else
    let parts ← savePartsFrom e.height 0 (e.blockParts.parts.take e.blockParts.total) bs.parts
    .ok
      { metas := bs.metas.set e.height e.blockMeta
        parts := parts
        commits := bs.commits.set (e.height - 1) e.block.lastCommit
        hashes := upsert e.block.hash (fun _ => e.height) bs.hashes
        seenCommit := some e.seenCommit
        seenCommitsAt := bs.seenCommitsAt.set e.height e.seenCommit }

/-! ### Pruning -/

/-- `batchDelete` ends a batch at this number of keys. -/
def pruneBatchSize : ℕ := 1000

/-- One batch that a prune writes. A meta is deleted with the hash key of its block. -/
inductive Write where
  | metas (batch : Table ℤ BlockMeta)
  | parts (batch : Table (ℤ ×ₗ ℕ) (Part Bytes))
  | commits (batch : Table ℤ Commit)

def write : Write → BlockStore
  | .metas batch =>
    { bs with
      metas := bs.metas.erase (batch.map (·.1))
      hashes := bs.hashes.filter fun e => e.1 ∉ batch.map (·.2.blockID.hash) }
  | .parts batch => { bs with parts := bs.parts.erase (batch.map (·.1)) }
  | .commits batch => { bs with commits := bs.commits.erase (batch.map (·.1)) }

/-- `pruneRange` on the metas, then on the parts, then on the commits below a height. -/
def pruneWrites (height : ℤ) : List Write :=
  (Table.batches pruneBatchSize (bs.metas.length + 1) bs.metas 0 height).map .metas ++
    ((Table.batches pruneBatchSize (bs.parts.length + 1) bs.parts (toLex (0, 0)) (toLex (height, 0))).map .parts ++
    (Table.batches pruneBatchSize (bs.commits.length + 1) bs.commits 0 height).map .commits)

/-- `PruneBlocks`, up to a number of batch writes: the process may crash after any of them. -/
def pruneBlocks (height : ℤ) (writes : ℕ) : BlockStore :=
  if height ≤ 0 ∨ bs.height < height then bs
  else ((bs.pruneWrites height).take writes).foldl write bs

inductive Op where
  | save (e : Entry)
  | prune (height : ℤ) (writes : ℕ)

/-- One call. A save that panics writes nothing. -/
def step : Op → BlockStore
  | .save e => (bs.saveBlock e).toOption.getD bs
  | .prune height writes => bs.pruneBlocks height writes

end BlockStore

end Tenderdash.Store
