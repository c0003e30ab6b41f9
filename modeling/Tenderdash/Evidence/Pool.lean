import Tenderdash.Types.ValidatorSet
import Tenderdash.Types.Vote

/-!
The evidence pool: evidence of a validator that signed two votes in one step waits here until a block
carries it.

The database holds a record for every pending piece of evidence, ordered by height and hash, and one for
every committed piece. The block store and the store of validator sets are given to a call as what they
answer. What only gossip reads, the list and the set of identities, is left out.
-/

namespace Tenderdash.Evidence

open Lib Go

/-- Times are counted in nanoseconds. -/
structure DuplicateVoteEvidence where
  voteA : Vote
  voteB : Vote
  totalVotingPower : ℤ
  validatorPower : ℤ
  timestamp : ℤ
  deriving DecidableEq, Repr

variable (ev : DuplicateVoteEvidence)

def DuplicateVoteEvidence.height : ℤ := ev.voteA.height

structure Codec where
  hash : DuplicateVoteEvidence → Bytes
  listSize : List DuplicateVoteEvidence → ℤ

/-- The key of evidence in the database, under the prefix of pending or of committed evidence. -/
def Codec.key (codec : Codec) (ev : DuplicateVoteEvidence) : ℤ × Bytes := (ev.height, codec.hash ev)

def keyLE (a b : ℤ × Bytes) : Bool := a.1 < b.1 ∨ (a.1 = b.1 ∧ ¬b.2 < a.2)

structure EvidenceParams where
  maxAgeNumBlocks : ℤ
  maxAgeDuration : ℤ
  maxBytes : ℤ
  deriving DecidableEq, Repr

structure PoolState where
  chainID : String
  lastBlockHeight : ℤ
  lastBlockTime : ℤ
  params : EvidenceParams
  lastValidators : ValidatorSet

/-- What the block store and the state store answer: the time of a block and the validators of a
height. -/
structure Stores where
  blockTime : ℤ → Option ℤ
  loadValidators : ℤ → Option ValidatorSet

/-- The counter of pending evidence is an integer, and `wrapped` tells whether a decrement took it below zero, where the
machine's counter wraps. -/
structure Pool where
  pending : List DuplicateVoteEvidence
  committed : List (ℤ × Bytes)
  evidenceSize : ℤ
  wrapped : Bool
  pendingLoaded : Bool
  state : PoolState
  consensusBuffer : List (Vote × Vote)
  pruningHeight : ℤ
  pruningTime : ℤ

inductive EvidenceError where
  | disabled
  | missingBlock
  | tooOld
  | missingValidators
  | invalid (why : String)
  | wrongABCI
  | alreadyCommitted
  | duplicate
  | crash (msg : String)
  deriving DecidableEq, Repr

/-! ### Duplicate votes -/

/-- `GetByProTxHash`, without the index. -/
def getByProTxHash (vals : ValidatorSet) (proTxHash : Bytes) : Option Validator :=
  vals.validators.find? fun val => val.proTxHash = proTxHash

/-- The votes are ordered by the keys of their blocks. -/
def newDuplicateVoteEvidence (vote1 vote2 : Vote) (blockTime : ℤ) (vals : ValidatorSet) :
    Option DuplicateVoteEvidence :=
  (getByProTxHash vals vote1.validatorProTxHash).map fun val =>
    let ordered := if vote1.blockID.key < vote2.blockID.key then (vote1, vote2) else (vote2, vote1)
    ⟨ordered.1, ordered.2, vals.totalVotingPower, val.votingPower, blockTime⟩

/-- `ValidateABCI` returns no error. -/
def validateABCI (val : Validator) (vals : ValidatorSet) (evTime : ℤ) : Bool :=
  ev.timestamp = evTime ∧ val.votingPower = ev.validatorPower ∧ vals.totalVotingPower = ev.totalVotingPower

def generateABCI (val : Validator) (vals : ValidatorSet) (evTime : ℤ) : DuplicateVoteEvidence :=
  { ev with
    validatorPower := val.votingPower
    totalVotingPower := vals.totalVotingPower
    timestamp := evTime }

def verifyVoteSignature (C : Crypto) (chainID : String) (vals : ValidatorSet) (key : PubKey)
    (vote : Vote) : Go String Unit := do
  let item ← makeBlockSignItem C chainID vote.toProto vals.quorumType vals.quorumHash
  failIf (key.verifySignatureDigest C item.signHash vote.blockSignature = false) "invalid block signature"

def verifyDuplicateVote (C : Crypto) (ev : DuplicateVoteEvidence) (chainID : String)
    (vals : ValidatorSet) : Go String Unit :=
  match getByProTxHash vals ev.voteA.validatorProTxHash with
  | none => Go.fail "not a validator at this height"
  | some val => do
    failIf (ev.voteA.height ≠ ev.voteB.height ∨ ev.voteA.round ≠ ev.voteB.round ∨
      ev.voteA.type ≠ ev.voteB.type) "h/r/s does not match"
    failIf (ev.voteA.validatorProTxHash ≠ ev.voteB.validatorProTxHash) "validator proTxHash do not match"
    failIf (ev.voteA.blockID = ev.voteB.blockID) "block IDs are the same"
    match val.pubKey with
    | some key => do
      verifyVoteSignature C chainID vals key ev.voteA
      verifyVoteSignature C chainID vals key ev.voteB
    | none => failIf vals.hasPublicKeys "we don't have a public key of validator"

/-! ### Pending and committed evidence -/

namespace Pool

variable (codec : Codec) (C : Crypto) (stores : Stores) (pool : Pool) (state : PoolState)
  (evs : List DuplicateVoteEvidence)

def enabled : Bool := 0 < pool.state.params.maxBytes

def isPending (ev : DuplicateVoteEvidence) : Bool :=
  codec.key ev ∈ pool.pending.map codec.key

def isCommitted (ev : DuplicateVoteEvidence) : Bool := codec.key ev ∈ pool.committed

def isExpired (ev : DuplicateVoteEvidence) : Bool :=
  pool.state.params.maxAgeNumBlocks < pool.state.lastBlockHeight - ev.height ∧
    pool.state.params.maxAgeDuration < pool.state.lastBlockTime - ev.timestamp

def put (ev : DuplicateVoteEvidence) (records : List DuplicateVoteEvidence) : List DuplicateVoteEvidence :=
  (records.filter fun other => codec.key other ≠ codec.key ev).orderedInsert
    (fun a b => keyLE (codec.key a) (codec.key b)) ev

def addPendingEvidence (ev : DuplicateVoteEvidence) : Pool :=
  { pool with pending := put codec ev pool.pending, evidenceSize := pool.evidenceSize + 1 }

/-- Records are deleted in one batch, and the counter is decremented by the number of their hashes,
which are collected in a map. -/
def deletePending : Pool :=
  let count : ℤ := (evs.map codec.hash).dedup.length
  { pool with
    pending := pool.pending.filter fun other => codec.key other ∉ evs.map codec.key
    evidenceSize := pool.evidenceSize - count
    wrapped := pool.wrapped || pool.evidenceSize < count }

def markEvidenceAsCommitted : Pool :=
  let known := evs.filter fun ev => pool.isPending codec ev
  let pool := { pool with committed := evs.map codec.key ++ pool.committed }
  if known = [] then pool else pool.deletePending codec known

/-- The expired records at the front go, and the first one left says when to look again. -/
def removeExpiredPendingEvidence : Pool :=
  let expired := pool.pending.takeWhile pool.isExpired
  let next := match pool.pending.dropWhile pool.isExpired with
    | ev :: _ => (ev.height + pool.state.params.maxAgeNumBlocks + 1,
        ev.timestamp + pool.state.params.maxAgeDuration + 1000000000)
    | [] => (pool.state.lastBlockHeight, pool.state.lastBlockTime)
  let pool := if expired = [] then pool else pool.deletePending codec expired
  { pool with pruningHeight := next.1, pruningTime := next.2 }

def loadPendingEvidence : Pool :=
  let pool := pool.removeExpiredPendingEvidence codec
  { pool with evidenceSize := pool.pending.length, pendingLoaded := true }

def listEvidence (maxBytes : ℤ) : List DuplicateVoteEvidence → List DuplicateVoteEvidence → List DuplicateVoteEvidence
  | listed, [] => listed
  | listed, ev :: rest =>
    if maxBytes ≠ -1 ∧ maxBytes < codec.listSize (listed ++ [ev]) then listed
    else listEvidence maxBytes (listed ++ [ev]) rest

def pendingEvidence (maxBytes : ℤ) : List DuplicateVoteEvidence :=
  if pool.enabled = false ∨ maxBytes = 0 ∨ pool.evidenceSize = 0 then []
  else listEvidence codec maxBytes [] pool.pending

/-! ### Verification -/

/-- The age check of `verify`. -/
def tooOld (ev : DuplicateVoteEvidence) (evTime : ℤ) : Bool :=
  pool.state.params.maxAgeDuration < pool.state.lastBlockTime - evTime ∧
    pool.state.params.maxAgeNumBlocks < pool.state.lastBlockHeight - ev.height

/-- The checks of `verify`. Evidence with the wrong power or time passes them with a corrected copy. -/
def examine (ev : DuplicateVoteEvidence) : Except EvidenceError (Option DuplicateVoteEvidence) :=
  match stores.blockTime ev.height with
  | none => .error .missingBlock
  | some evTime =>
    if pool.tooOld ev evTime then .error .tooOld
    else match stores.loadValidators ev.height with
      | none => .error .missingValidators
      | some vals =>
        match verifyDuplicateVote C ev pool.state.chainID vals, getByProTxHash vals ev.voteA.validatorProTxHash with
        | .error (.err why), _ => .error (.invalid why)
        | .error (.panicked msg), _ => .error (.crash msg)
        | .ok (), none => .error (.crash "nil pointer dereference")
        | .ok (), some val =>
          if validateABCI ev val vals evTime then .ok none
          else .ok (some (generateABCI ev val vals evTime))

/-- A corrected copy is added, and the call fails. -/
def verify (ev : DuplicateVoteEvidence) : Pool × Except EvidenceError Unit :=
  match pool.examine C stores ev with
  | .error e => (pool, .error e)
  | .ok none => (pool, .ok ())
  | .ok (some corrected) =>
    (if pool.enabled then pool.addPendingEvidence codec corrected else pool, .error .wrongABCI)

def addEvidence (ev : DuplicateVoteEvidence) : Pool × Except EvidenceError Unit :=
  if pool.enabled = false then (pool, .error .disabled)
  else if pool.isPending codec ev ∨ pool.isCommitted codec ev then (pool, .ok ())
  else match pool.verify codec C stores ev with
    | (pool, .error e) => (pool, .error e)
    | (pool, .ok ()) => (pool.addPendingEvidence codec ev, .ok ())

/-- What `CheckEvidence` does with one piece of evidence, before it looks for duplicates. -/
def checkOne (ev : DuplicateVoteEvidence) : Pool × Except EvidenceError Unit :=
  if pool.isPending codec ev then (pool, .ok ())
  else if pool.isCommitted codec ev then (pool, .error .alreadyCommitted)
  else match pool.verify codec C stores ev with
    | (pool, .error e) => (pool, .error e)
    | (pool, .ok ()) => (if pool.enabled then pool.addPendingEvidence codec ev else pool, .ok ())

/-- `CheckEvidence`, with the hashes seen so far. -/
def checkEvidence : List Bytes → List DuplicateVoteEvidence → Pool → Pool × Except EvidenceError Unit
  | _, [], pool => (pool, .ok ())
  | seen, ev :: rest, pool =>
    match pool.checkOne codec C stores ev with
    | (pool, .error e) => (pool, .error e)
    | (pool, .ok ()) =>
      if codec.hash ev ∈ seen then (pool, .error .duplicate)
      else checkEvidence (codec.hash ev :: seen) rest pool

def reportConflictingVotes (voteA voteB : Vote) : Pool :=
  if pool.enabled = false then pool
  else { pool with consensusBuffer := pool.consensusBuffer ++ [(voteA, voteB)] }

/-! ### Updates -/

def bufferedEvidence (votes : Vote × Vote) : Option DuplicateVoteEvidence :=
  if votes.1.height = state.lastBlockHeight then
    newDuplicateVoteEvidence votes.1 votes.2 state.lastBlockTime state.lastValidators
  else if votes.1.height < state.lastBlockHeight then
    match stores.loadValidators votes.1.height, stores.blockTime votes.1.height with
    | some vals, some time => newDuplicateVoteEvidence votes.1 votes.2 time vals
    | _, _ => none
  else none

/-- What `processConsensusBuffer` does with one pair of votes. -/
def processVotes (pool : Pool) (votes : Vote × Vote) : Pool :=
  match bufferedEvidence stores state votes with
  | none => pool
  | some ev =>
    if pool.isPending codec ev ∨ pool.isCommitted codec ev then pool
    else pool.addPendingEvidence codec ev

def processConsensusBuffer : Pool :=
  { pool.consensusBuffer.foldl (processVotes codec stores state) pool with consensusBuffer := [] }

/-- Pending evidence is loaded when evidence is enabled for the first time, and pruned when it is
enabled again and when the time has come. -/
def activate (previous : PoolState) : Pool :=
  let pool :=
    if pool.pendingLoaded = false then pool.loadPendingEvidence codec
    else if previous.params.maxBytes = 0 then pool.removeExpiredPendingEvidence codec
    else pool
  if 0 < pool.evidenceSize ∧ pool.pruningHeight < pool.state.lastBlockHeight ∧
      pool.pruningTime < pool.state.lastBlockTime then pool.removeExpiredPendingEvidence codec
  else pool

/-- A state that is not ahead of the pool's is a panic, before anything was written. -/
def update : Pool :=
  if state.lastBlockHeight ≤ pool.state.lastBlockHeight then pool
  else
    let previous := pool.state
    let pool := if evs = [] then pool else pool.markEvidenceAsCommitted codec evs
    if state.params.maxBytes = 0 then
      let pool := if 0 < previous.params.maxBytes then pool.processConsensusBuffer codec stores state else pool
      { pool with state := state, consensusBuffer := [] }
    else
      let pool := pool.processConsensusBuffer codec stores state
      { pool with state := state }.activate codec previous

/-- `NewPool` on a database and `Start`. -/
def start (pending : List DuplicateVoteEvidence) (committed : List (ℤ × Bytes)) (state : PoolState) : Pool :=
  let pool : Pool := ⟨pending, committed, 0, false, false, state, [], 0, 0⟩
  if pool.enabled then pool.loadPendingEvidence codec else pool

/-- A call to the pool, with what the stores answer. A restart is a new pool on the same database. -/
inductive Call where
  | addEvidence (stores : Stores) (ev : DuplicateVoteEvidence)
  | checkEvidence (stores : Stores) (evs : List DuplicateVoteEvidence)
  | reportConflictingVotes (voteA voteB : Vote)
  | update (stores : Stores) (state : PoolState) (evs : List DuplicateVoteEvidence)
  | restart (state : PoolState)

def call : Call → Pool
  | .addEvidence stores ev => (pool.addEvidence codec C stores ev).1
  | .checkEvidence stores evs => (checkEvidence codec C stores [] evs pool).1
  | .reportConflictingVotes voteA voteB => pool.reportConflictingVotes voteA voteB
  | .update stores state evs => pool.update codec stores state evs
  | .restart state => start codec pool.pending pool.committed state

end Pool

end Tenderdash.Evidence
