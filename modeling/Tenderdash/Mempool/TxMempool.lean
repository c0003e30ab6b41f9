import Tenderdash.Mempool.Cache

/-!
The mempool, with its calls made one at a time. The concurrent list is a list of element numbers, and
the transaction of an element stays readable after the element is removed, as it does behind a pointer.
What the application answers, the clock and the hooks are inputs of the calls.
-/

namespace Tenderdash

open Lib Function

/-- `MempoolConfig`, with the fields the mempool reads. -/
structure MempoolConfig where
  size : ℤ
  maxTxsBytes : ℤ
  maxTxBytes : ℤ
  cacheSize : ℤ
  keepInvalidTxsInCache : Bool
  ttlNumBlocks : ℤ
  ttlDuration : ℤ

structure WrappedTx where
  tx : Bytes
  height : ℤ
  timestamp : ℤ
  gasWanted : ℤ
  priority : ℤ
  sender : String
  peers : List ℕ
  deriving DecidableEq, Repr

def WrappedTx.size (w : WrappedTx) : ℤ := w.tx.length

def WrappedTx.setPeer (w : WrappedTx) (id : ℕ) : WrappedTx :=
  if id ∈ w.peers then w else { w with peers := w.peers ++ [id] }

structure TxInfo where
  senderID : ℕ
  senderNodeID : String

def unknownPeerID : ℕ := 0

inductive CheckTxError where
  | tooLarge
  | preCheck
  | connection
  | inCache
  | application
  | postCheck
  deriving DecidableEq, Repr

/-- What a caller of `CheckTx` gets: an error, and the response its callback is called with. -/
structure CheckTxResult where
  err : Option CheckTxError
  response : Option ResponseCheckTx
  deriving DecidableEq, Repr

/-- A hook that accepts returns true. -/
structure TxMempool where
  txsBytes : ℤ
  height : ℤ
  preCheck : Option (Bytes → Bool)
  postCheck : Option (Bytes → ResponseCheckTx → Bool)
  txs : List ℕ
  elts : ℕ → WrappedTx
  fresh : ℕ
  txByKey : Bytes → Option ℕ
  txBySender : String → Option ℕ
  cache : TxCache

namespace TxMempool

/-- `NewTxMempool`. -/
def new (cfg : MempoolConfig) (preCheck : Option (Bytes → Bool))
    (postCheck : Option (Bytes → ResponseCheckTx → Bool)) : TxMempool where
  txsBytes := 0
  height := 0
  preCheck := preCheck
  postCheck := postCheck
  txs := []
  elts := fun _ => ⟨[], 0, 0, 0, 0, "", []⟩
  fresh := 0
  txByKey := fun _ => none
  txBySender := fun _ => none
  cache := .new cfg.cacheSize

variable (C : Crypto) (cfg : MempoolConfig) (mp : TxMempool) (tx : Bytes) (w : WrappedTx)

def keyOf (e : ℕ) : Bytes := C.checksum (mp.elts e).tx

def setElt (e : ℕ) (w : WrappedTx) : TxMempool :=
  { mp with elts := update mp.elts e w }

/-- What `removeTxByKey` and `removeTxByElement` share. -/
def unlink (key : Bytes) (e : ℕ) : TxMempool :=
  { mp with
    txByKey := update mp.txByKey key none
    txBySender := update mp.txBySender (mp.elts e).sender none
    txs := mp.txs.erase e
    txsBytes := mp.txsBytes - (mp.elts e).size }

/-- A missing transaction is an error that leaves the mempool as it is. -/
def removeTxByKey (key : Bytes) : TxMempool :=
  match mp.txByKey key with
  | some e => mp.unlink key e
  | none => mp

def removeTxByElement (e : ℕ) : TxMempool := mp.unlink (mp.keyOf C e) e

def uncache : TxMempool :=
  { mp with cache := mp.cache.remove (C.checksum tx) }

def dropElement (e : ℕ) : TxMempool :=
  (mp.removeTxByElement C e).uncache C (mp.elts e).tx

def flush : TxMempool :=
  let mp := mp.txs.foldl (removeTxByElement C) mp
  { mp with cache := mp.cache.reset }

def cacheInvalid (res : ResponseCheckTx) : TxMempool :=
  if cfg.keepInvalidTxsInCache = false then mp.uncache C tx
  else if res.code ≠ codeTypeOK then
    { mp with cache := mp.cache.setRejection (C.checksum tx) res }
  else mp

def passesPostCheck (res : ResponseCheckTx) : Bool :=
  mp.postCheck.all fun f => f tx res

def canAddTx : Bool :=
  ¬(cfg.size ≤ mp.txs.length ∨ cfg.maxTxsBytes < w.size + mp.txsBytes)

/-- The order of eviction: lowest priority first, and newest first among equals. -/
def evictsBefore (a b : ℕ) : Bool :=
  if (mp.elts a).priority = (mp.elts b).priority then
    (mp.elts b).timestamp ≤ (mp.elts a).timestamp
  else (mp.elts a).priority < (mp.elts b).priority

def victims (priority : ℤ) : List ℕ :=
  mp.txs.filter fun e => (mp.elts e).priority < priority

/-- Elements are removed until enough bytes are free. An element that is already removed is skipped. -/
def evict (size : ℤ) : ℤ → List ℕ → TxMempool → TxMempool × Bool
  | _, [], mp => (mp, false)
  | evicted, e :: rest, mp =>
    if e ∉ mp.txs then evict size evicted rest mp
    else
      let mp' := mp.dropElement C e
      if size ≤ evicted + (mp.elts e).size then (mp', true)
      else evict size (evicted + (mp.elts e).size) rest mp'

def insertTx : TxMempool :=
  { mp with
    elts := update mp.elts mp.fresh w
    fresh := mp.fresh + 1
    txs := mp.txs ++ [mp.fresh]
    txByKey := update mp.txByKey (C.checksum w.tx) (some mp.fresh)
    txBySender := if w.sender ≠ "" then update mp.txBySender w.sender (some mp.fresh) else mp.txBySender
    txsBytes := mp.txsBytes + w.size }

/-- The room `addNewTransaction` makes: whether the transaction fits. -/
def makeRoom (priority : ℤ) : TxMempool × Bool :=
  if mp.canAddTx cfg w then (mp, true)
  else
    let victims := mp.victims priority
    if (victims.map fun e => (mp.elts e).size).sum < w.size then (mp, false)
    else evict C w.size 0 (victims.mergeSort mp.evictsBefore) mp

/-- `addNewTransaction` up to the insertion: the mempool with room made, and the transaction to be
inserted. -/
def admitTx (res : ResponseCheckTx) : TxMempool × Option WrappedTx × Option CheckTxError :=
  if mp.passesPostCheck w.tx res = false then
    (mp.cacheInvalid C cfg w.tx res, none, some .postCheck)
  else if res.code ≠ codeTypeOK then (mp.cacheInvalid C cfg w.tx res, none, none)
  else if res.sender ≠ "" ∧ (mp.txBySender res.sender).isSome then (mp, none, none)
  else match mp.makeRoom C cfg w res.priority with
    | (mp, false) => (mp.uncache C w.tx, none, none)
    | (mp, true) =>
      (mp, some { w with gasWanted := res.gasWanted, priority := res.priority, sender := res.sender }, none)

/-- The transaction is in the cache: its sender is recorded if it is pooled. A local caller learns why
it was rejected. -/
def seenBefore (info : TxInfo) : TxMempool × CheckTxResult :=
  match mp.txByKey (C.checksum tx) with
  | some e => (mp.setElt e ((mp.elts e).setPeer info.senderID), ⟨some .inCache, none⟩)
  | none =>
    if info.senderID = unknownPeerID ∧ info.senderNodeID = "" then
      match mp.cache.rejection (C.checksum tx) with
      | some res => (mp, ⟨none, some res⟩)
      | none => (mp, ⟨some .inCache, none⟩)
    else (mp, ⟨some .inCache, none⟩)

/-- `CheckTx` up to the insertion. The connection to the application, its answer and the clock are
given. -/
def prepareTx (info : TxInfo) (connected : Bool)
    (answer : Option ResponseCheckTx) (now : ℤ) : TxMempool × Option WrappedTx × CheckTxResult :=
  if cfg.maxTxBytes < tx.length then (mp, none, ⟨some .tooLarge, none⟩)
  else if (mp.preCheck.all fun f => f tx) = false then (mp, none, ⟨some .preCheck, none⟩)
  else if connected = false then (mp, none, ⟨some .connection, none⟩)
  else
    let (cache, isNew) := mp.cache.push (C.checksum tx)
    let mp := { mp with cache := cache }
    if isNew = false then
      let (mp, result) := mp.seenBefore C tx info
      (mp, none, result)
    else match answer with
      | none => (mp.uncache C tx, none, ⟨some .application, none⟩)
      | some res =>
        let w : WrappedTx := ⟨tx, mp.height, now, 0, 0, "", [info.senderID]⟩
        let (mp, inserted, err) := mp.admitTx C cfg w res
        (mp, inserted, ⟨err, some res⟩)

def insertAdmitted : Option WrappedTx → TxMempool
  | some w => mp.insertTx C w
  | none => mp

def checkTx (info : TxInfo) (connected : Bool)
    (answer : Option ResponseCheckTx) (now : ℤ) : TxMempool × CheckTxResult :=
  let (mp, inserted, result) := mp.prepareTx C cfg tx info connected answer now
  (mp.insertAdmitted C inserted, result)

def expired (blockHeight now : ℤ) (e : ℕ) : Bool :=
  (0 < cfg.ttlNumBlocks ∧ cfg.ttlNumBlocks < blockHeight - (mp.elts e).height) ∨
    (0 < cfg.ttlDuration ∧ cfg.ttlDuration < now - (mp.elts e).timestamp)

def purgeExpiredTxs (blockHeight now : ℤ) : TxMempool :=
  mp.txs.foldl (fun mp e => if mp.expired cfg blockHeight now e then mp.dropElement C e else mp) mp

/-- What `Update` does with one transaction of the block. -/
def commitTx (entry : Bytes × ℕ) : TxMempool :=
  let (tx, code) := entry
  let key := C.checksum tx
  let mp :=
    if code = codeTypeOK then { mp with cache := (mp.cache.push key).1.markCommitted key }
    else if cfg.keepInvalidTxsInCache = false then mp.uncache C tx
    else mp
  mp.removeTxByKey key

/-- `Update`, for a block whose transactions come with their result codes. The answers of a recheck
arrive later, one by one. -/
def update (blockHeight now : ℤ) (blockTxs : List (Bytes × ℕ)) (preCheck : Option (Bytes → Bool))
    (postCheck : Option (Bytes → ResponseCheckTx → Bool)) : TxMempool :=
  let mp := { mp with
    height := blockHeight
    preCheck := preCheck.or mp.preCheck
    postCheck := postCheck.or mp.postCheck }
  (blockTxs.foldl (commitTx C cfg) mp).purgeExpiredTxs C cfg blockHeight now

def handleRecheckResult (res : ResponseCheckTx) : TxMempool :=
  match mp.txByKey (C.checksum tx) with
  | none => mp
  | some e =>
    if res.code = codeTypeOK ∧ mp.passesPostCheck tx res then
      mp.setElt e { mp.elts e with priority := res.priority }
    else (mp.removeTxByElement C e).cacheInvalid C cfg (mp.elts e).tx res

inductive Call where
  | checkTx (tx : Bytes) (info : TxInfo) (connected : Bool) (answer : Option ResponseCheckTx) (now : ℤ)
  | removeTxByKey (key : Bytes)
  | update (blockHeight now : ℤ) (blockTxs : List (Bytes × ℕ)) (preCheck : Option (Bytes → Bool))
      (postCheck : Option (Bytes → ResponseCheckTx → Bool))
  | recheckResult (tx : Bytes) (res : ResponseCheckTx)
  | flush

def call : Call → TxMempool
  | .checkTx tx info connected answer now => (mp.checkTx C cfg tx info connected answer now).1
  | .removeTxByKey key => mp.removeTxByKey key
  | .update blockHeight now blockTxs preCheck postCheck =>
    mp.update C cfg blockHeight now blockTxs preCheck postCheck
  | .recheckResult tx res => mp.handleRecheckResult C cfg tx res
  | .flush => mp.flush C

end TxMempool

end Tenderdash
