import Tenderdash.Types.Basic

/-!
The cache of transactions a mempool has seen. It keeps keys in the order of their last use and forgets
the oldest one when it is full, whether or not that transaction is still pooled.
-/

namespace Tenderdash

open Lib Function

/-- `ResponseCheckTx`, with the fields the mempool reads. -/
structure ResponseCheckTx where
  code : ℕ
  codespace : String
  info : String
  data : Bytes
  gasWanted : ℤ
  priority : ℤ
  sender : String
  deriving DecidableEq, Repr

def codeTypeOK : ℕ := 0

def maxCachedRejectionBytes : ℕ := 2048

/-- The keys, least recently used first, which are those of the map too; the responses that rejected a transaction; and
the transactions that were committed. -/
structure LRUTxCache where
  size : ℤ
  keys : List Bytes
  rejections : Bytes → Option ResponseCheckTx
  committed : Bytes → Bool

namespace LRUTxCache

/-- `NewLRUTxCache`, and the cache after `Reset`. -/
def new (size : ℤ) : LRUTxCache := ⟨size, [], fun _ => none, fun _ => false⟩

variable (c : LRUTxCache) (key : Bytes)

def forget : LRUTxCache :=
  { c with
    keys := c.keys.erase key
    rejections := update c.rejections key none
    committed := update c.committed key false }

/-- Whether the key is new. -/
def push : LRUTxCache × Bool :=
  if key ∈ c.keys then ({ c with keys := c.keys.erase key ++ [key] }, false)
  else
    let c := match c.keys with
      | front :: _ => if c.size ≤ c.keys.length then c.forget front else c
      | [] => c
    ({ c with keys := c.keys ++ [key] }, true)

def setRejection (res : ResponseCheckTx) : LRUTxCache :=
  if key ∉ c.keys ∨ c.committed key then c
  else if maxCachedRejectionBytes < res.codespace.utf8ByteSize + res.info.utf8ByteSize + res.data.length then
    { c with rejections := update c.rejections key none }
  else
    { c with
      rejections := update c.rejections key (some { res with gasWanted := 0, priority := 0, sender := "" }) }

def markCommitted : LRUTxCache :=
  if key ∉ c.keys then c
  else { c with
    rejections := update c.rejections key none
    committed := update c.committed key true }

end LRUTxCache

/-- A cache that is disabled remembers nothing. -/
inductive TxCache where
  | nop
  | lru (c : LRUTxCache)

namespace TxCache

/-- The cache `NewTxMempool` makes. -/
def new (cacheSize : ℤ) : TxCache := if 0 < cacheSize then .lru (.new cacheSize) else .nop

variable (cache : TxCache)

def reset : TxCache → TxCache
  | nop => .nop
  | lru c => .lru (.new c.size)

def push (key : Bytes) : TxCache × Bool :=
  match cache with
  | nop => (.nop, true)
  | lru c => (.lru (c.push key).1, (c.push key).2)

def remove (key : Bytes) : TxCache :=
  match cache with
  | nop => .nop
  | lru c => .lru (c.forget key)

def setRejection (key : Bytes) (res : ResponseCheckTx) : TxCache :=
  match cache with
  | nop => .nop
  | lru c => .lru (c.setRejection key res)

def markCommitted (key : Bytes) : TxCache :=
  match cache with
  | nop => .nop
  | lru c => .lru (c.markCommitted key)

def rejection (key : Bytes) : Option ResponseCheckTx :=
  match cache with
  | nop => none
  | lru c => c.rejections key

end TxCache

end Tenderdash
