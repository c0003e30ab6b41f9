import Tenderdash.Mempool.TxMempool
import Tenderdash.Types.ConsensusParams
import Tenderdash.Types.PartSetRoundTrip

/-!
The size of a proposed block. The mempool counts its transactions as they are encoded, while the
check of the application's answer adds up their bare lengths.
-/

namespace Tenderdash.Proposing

open Lib Go Wire List

/-- A block: its transactions, and its other parts as they are encoded. -/
structure Block where
  header : Bytes
  txs : List Bytes
  evidence : Bytes
  lastCommit : Option Bytes
  coreChainLock : Option Bytes

def data (txs : List Bytes) : Bytes := txs.flatMap (messageField 1)

def computeProtoSizeForTxs (txs : List Bytes) : ℤ := (data txs).length

def Block.toProto (b : Block) : Bytes :=
  messageField 1 b.header ++ messageField 2 (data b.txs) ++ messageField 3 b.evidence ++
    b.lastCommit.elim [] (messageField 4) ++ b.coreChainLock.elim [] (messageField 5)

def maxHeaderBytes : ℤ := 726

def maxCoreChainLockSize : ℤ := 132

def maxOverheadForBlock : ℤ := 11

def maxCommitOverheadBytes : ℤ := (110 + 2) + (8 + 2) + (4 + 2) + (32 + 2) + (96 + 2) + 0

/-- What `MaxDataBytes` sets aside for the parts of a block besides its transactions. -/
def reserved (commit : Option Bytes) (evidenceBytes : ℤ) : ℤ :=
  maxOverheadForBlock + maxHeaderBytes + maxCoreChainLockSize +
    commit.elim maxCommitOverheadBytes (fun c => c.length) + evidenceBytes

def maxDataBytes (maxBytes : ℤ) (commit : Option Bytes) (evidenceBytes : ℤ) : Go String ℤ := do
  failIf (maxBytes - reserved commit evidenceBytes < 0)
    "block MaxBytes is too small to accommodate header + lastCommit + core chain lock + evidence"
  return maxBytes - reserved commit evidenceBytes

/-- The loop of `ReapMaxBytesMaxGas`, over the entries in their order. Gas is added up in 64 bits. -/
def reap (maxBytes maxGas totalBytes totalGas : ℤ) : List WrappedTx → List Bytes
  | [] => []
  | w :: ws =>
    let totalGas := (totalGas + w.gasWanted).bmod (2 ^ 64)
    let totalBytes := totalBytes + computeProtoSizeForTxs [w.tx]
    if (0 ≤ maxGas ∧ maxGas < totalGas) ∨ (0 ≤ maxBytes ∧ maxBytes < totalBytes) then []
    else w.tx :: reap maxBytes maxGas totalBytes totalGas ws

def reapMaxBytesMaxGas (maxBytes maxGas : ℤ) (entries : List WrappedTx) : List Bytes :=
  reap maxBytes maxGas 0 0 entries

inductive Action where
  | unknown | unmodified | added | removed | delayed
  deriving DecidableEq

structure TxRecord where
  action : Action
  tx : Bytes

def txsOf (actions : List Action) (trs : List TxRecord) : List Bytes :=
  (trs.filter (·.action ∈ actions)).map TxRecord.tx

/-- `TxRecordSet.Validate`. The running size of the included transactions is over the limit at some
transaction if it is at the last. -/
def validate (maxSizeBytes : ℤ) (otxs : List Bytes) (trs : List TxRecord) : Go String Unit := do
  let included := txsOf [.unmodified, .added] trs
  failIf (txsOf [.unknown] trs ≠ []) "transactions marked unknown"
  failIf (¬(trs.map TxRecord.tx).Nodup) "found duplicate transaction"
  failIf (included ≠ [] ∧ maxSizeBytes < ((included.map length).sum : ℕ)) "transaction data size exceeds maximum"
  failIf (∃ tx ∈ txsOf [.unmodified] trs, tx ∉ otxs) "new transaction incorrectly marked as unmodified"
  failIf (∃ tx ∈ txsOf [.removed] trs, tx ∉ otxs) "new transaction incorrectly marked as removed"
  failIf (∃ tx ∈ txsOf [.delayed] trs, tx ∉ otxs) "new transaction incorrectly marked as delayed"
  failIf (∃ tx ∈ txsOf [.added] trs, tx ∈ otxs) "existing transaction incorrectly marked as added"

/-- An answer to `PrepareProposal`: the records, and what the remaining checks of the answer make of
the block with the included transactions, an error or its header and its core chain lock. -/
structure Response where
  txRecords : List TxRecord
  updateBlock : List Bytes → Go String (Bytes × Option Bytes)

section Proposal

variable (params : BlockParams) (entries : List WrappedTx) (evidence : Bytes) (evSize : ℤ) (commit : Option Bytes)
  (prepareProposal : ℤ → List Bytes → Go String Response)

/-- `CreateProposalBlock`, with the pending evidence and its size as the pool returns them. -/
def createProposalBlock : Go String Block := do
  let room ← maxDataBytes params.maxBytes commit evSize
  let txs := reapMaxBytesMaxGas room params.maxGas entries
  let response ← prepareProposal room txs
  validate room txs response.txRecords
  let itxs := txsOf [.unmodified, .added] response.txRecords
  let (header, coreChainLock) ← response.updateBlock itxs
  return ⟨header, itxs, evidence, commit, coreChainLock⟩

lemma reap_le {maxBytes total : ℤ} (maxGas gas : ℤ) (ht : total ≤ maxBytes) (hm : 0 ≤ maxBytes) :
    total + (data (reap maxBytes maxGas total gas entries)).length ≤ maxBytes := by
  induction entries generalizing total gas with
  | nil => simpa [reap, data] using ht
  | cons w ws ih =>
    rw [reap]
    split
    · simpa [data] using ht
    · rename_i hc
      have : total + computeProtoSizeForTxs [w.tx] ≤ maxBytes := by omega
      have := ih ((gas + w.gasWanted).bmod (2 ^ 64)) this
      simp [computeProtoSizeForTxs, data] at this ⊢
      omega

lemma length_data_le {txs others : List Bytes} (hn : txs.Nodup) (hs : txs ⊆ others) :
    (data txs).length ≤ (data others).length := by
  obtain ⟨l, hp, hl⟩ := subperm_of_subset hn hs
  rw [data, ← (hp.flatMap_right (messageField 1)).length_eq]
  exact (hl.flatMap (messageField 1)).length_le

/-- The size of the block besides its transactions: the block without any, and the longer length of
its data. -/
def Block.framing (b : Block) : ℤ :=
  { b with txs := [] }.toProto.length + ((uvarint (data b.txs).length).length - 1)

lemma Block.length_toProto (b : Block) : (b.toProto.length : ℤ) = b.framing + (data b.txs).length := by
  have : (uvarint 0).length = 1 := rfl
  simp only [toProto, framing, messageField, length_append, data, flatMap_nil, length_nil]
  omega

end Proposal

def smallTxs (n : ℕ) : List Bytes := (range n).map fun i : ℕ => leBytes 2 i

lemma smallTxs_nodup {n : ℕ} (hn : n ≤ 256 ^ 2) : (smallTxs n).Nodup := by
  refine Nodup.map_on (fun i hi j hj h => ?_) nodup_range
  have := congrArg leUint h
  rw [mem_range] at hi hj
  rwa [leUint_leBytes (by omega), leUint_leBytes (by omega)] at this

lemma txsOf_map_added (actions : List Action) (txs : List Bytes) :
    txsOf actions (txs.map (TxRecord.mk .added)) = if .added ∈ actions then txs else [] := by
  split <;> simp [txsOf, filter_map, Function.comp_def, *]

def adding (txs : List Bytes) (_ : ℤ) (_ : List Bytes) : Go String Response :=
  .ok ⟨txs.map (TxRecord.mk .added), fun _ => .ok (replicate 500 0, none)⟩

lemma createProposalBlock_adding {txs : List Bytes} (hn : txs.Nodup) (hs : (txs.map length).sum ≤ 1271) :
    createProposalBlock ⟨2400, -1⟩ [] [] 0 none (adding txs) = .ok ⟨replicate 500 0, txs, [], none, none⟩ := by
  have hs : (((txs.map length).sum : ℕ) : ℤ) ≤ 1271 := by omega
  have hv : validate 1271 [] (txs.map (TxRecord.mk .added)) = .ok () := by
    simpa [validate, txsOf_map_added, bind_eq_ok, Function.comp_def, hn] using fun _ => hs
  simp only [createProposalBlock, show maxDataBytes 2400 none 0 = .ok 1271 from rfl, bind, Except.bind, adding,
    reapMaxBytesMaxGas, reap, hv, txsOf_map_added]
  rfl

end Tenderdash.Proposing
