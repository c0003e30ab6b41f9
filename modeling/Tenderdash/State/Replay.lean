import Tenderdash.State.ChainIntegrity
import Tenderdash.State.InitChain

/-!
What a node does when it starts. A block is applied in four writes: to the block store, to the stored
responses, to the application and to the state store (`Replayer.writes`). After a crash between any two of
them `BlockReplayer.Replay` compares the heights of the three and writes what is missing (`Replayer.replay`),
for the last block with the application itself or with a mock of it that repeats the stored response.
-/

namespace Tenderdash.Execution

open Lib Go

/-! ### The application and the disk -/

/-- A deterministic application. It persists its state with `FinalizeBlock`, and reports the height and the hash
of its last block; before the first block `InitChain` gives its state. -/
structure Application (α : Type) where
  height : α → ℤ
  appHash : α → Bytes
  start : α
  initChain : Go String ResponseInitChain
  processProposal : α → Block → ℤ → Go String Response
  acceptsExtensions : α → Block → Commit → Bool
  finalizeBlock : α → Block → Commit → α
  height_start : height start = 0
  height_finalizeBlock : ∀ a block commit, height (finalizeBlock a block commit) = block.header.height
  appHash_finalizeBlock : ∀ a block commit resp, processProposal a block commit.round = .ok resp →
    appHash (finalizeBlock a block commit) = resp.appHash

structure StoredBlock where
  block : Block
  blockID : BlockID
  commit : Commit

structure Disk (α : Type) where
  app : α
  blocks : List StoredBlock
  responses : ℤ → Option Response
  state : State

inductive Write (α : Type) where
  | saveBlock (stored : StoredBlock)
  | saveABCIResponses (height : ℤ) (resp : Response)
  | initChain (after : α)
  | finalizeBlock (height : ℤ) (after : α)
  | save (state : State)

def delivered {α : Type} (ws : List (Write α)) : List ℤ :=
  ws.filterMap fun
    | .finalizeBlock height _ => some height
    | _ => none

namespace Disk

variable {α : Type}

variable (disk : Disk α)

def perform : Write α → Disk α
  | .saveBlock stored => { disk with blocks := stored :: disk.blocks }
  | .saveABCIResponses height resp => { disk with responses := Function.update disk.responses height (some resp) }
  | .initChain after => { disk with app := after }
  | .finalizeBlock _ after => { disk with app := after }
  | .save state => { disk with state := state }

/-- `Height` of the block store. -/
def storeHeight : ℤ := (disk.blocks.head?.map (·.block.header.height)).getD 0

/-- `Base` of the block store. -/
def storeBase : ℤ := (disk.blocks.getLast?.map (·.block.header.height)).getD 0

/-- `LoadBlock`, `LoadBlockMeta` and `LoadSeenCommitAt`. -/
def loadBlock (height : ℤ) : Go String StoredBlock :=
  match disk.blocks.find? fun stored => stored.block.header.height = height with
  | some stored => .ok stored
  | none => Go.crash "nil pointer dereference"

end Disk

/-! ### Applying a block -/

/-- The response that is stored. -/
def RoundParams.toProcessProposal (rp : RoundParams) : Response :=
  ⟨rp.appHash, rp.txResults, rp.consensusParamUpdates, rp.validatorSetUpdate⟩

/-- `ApplyBlock` up to its writes, for an application that answers the proposal with `process`: the response to
store and the new state. No commit has been verified before. -/
def applyBlock (env : Env) (process : Go String Response) (accepts : Bool) (state : State)
    (stored : StoredBlock) (evidenceOk : Bool) : Go String (Response × State) := do
  let resp ← process
  let delivery := Delivery.process stored.block resp stored.commit.round
  let (candidate, block) ← delivery.deliver env state
  failIf (accepts = false) "commit extensions rejected"
  let after ← env.finalizeBlock [] state candidate stored.blockID block ⟨none, none⟩ evidenceOk
  .ok (delivery.roundParams.toProcessProposal, after)

structure Replayer (env : Env) (α : Type) where
  app : Application α
  genDoc : GenesisDoc env.keys
  typeValid : LLMQType → Bool
  loadValidators : Disk α → ℤ → Go String ValidatorSet

namespace Replayer

variable {env : Env} {α : Type} (R : Replayer env α)

variable (disk : Disk α) (call : StoredBlock × Bool) (stored : StoredBlock)

/-- `ApplyBlock` with the real application. -/
def applyReal (evidenceOk : Bool) : Go String (Response × State) :=
  applyBlock env (R.app.processProposal disk.app stored.block stored.commit.round)
    (R.app.acceptsExtensions disk.app stored.block stored.commit) disk.state stored evidenceOk

def finalizeWrite : Write α :=
  .finalizeBlock stored.block.header.height (R.app.finalizeBlock disk.app stored.block stored.commit)

def writes : Go String (List (Write α)) := do
  let (resp, after) ← R.applyReal disk call.1 call.2
  .ok [.saveBlock call.1, .saveABCIResponses call.1.block.header.height resp, R.finalizeWrite disk call.1, .save after]

/-- The disk after the first `k` writes of a block. A block that is refused writes nothing. -/
def crashed (k : ℕ) : Disk α :=
  match R.writes disk call with
  | .ok ws => (ws.take k).foldl Disk.perform disk
  | .error _ => disk

def apply : Disk α :=
  match R.writes disk call with
  | .ok ws => ws.foldl Disk.perform disk
  | .error _ => disk

end Replayer

/-! ### The replay -/

structure ReplayState where
  storeHeight : ℤ
  storeBase : ℤ
  stateHeight : ℤ
  appHeight : ℤ
  appHash : Bytes

def checkAppHashEqualsOneFromState (appHash : Bytes) (state : State) : Go String Unit :=
  failIf (appHash ≠ state.lastAppHash) "state.AppHash does not match AppHash after replay"

def checkAppHashEqualsOneFromBlock (appHash : Bytes) (block : Block) : Go String Unit :=
  failIf (appHash ≠ block.header.appHash) "block.AppHash does not match AppHash after replay"

/-- `validate` of the heights. -/
def ReplayState.validate (rs : ReplayState) (state : State) : Go String Unit :=
  if rs.storeHeight = 0 then checkAppHashEqualsOneFromState rs.appHash state
  else if rs.appHeight = 0 ∧ state.initialHeight < rs.storeBase then Go.fail "app block height is too far below store base"
  else if 0 < rs.appHeight ∧ rs.appHeight < rs.storeBase - 1 then
    Go.fail "app block height is too far below store base"
  else if rs.storeHeight < rs.appHeight then Go.fail "app block height is higher than core"
  else if rs.storeHeight < rs.stateHeight then Go.fail "StateBlockHeight > StoreBlockHeight"
  else if rs.stateHeight + 1 < rs.storeHeight then Go.fail "StoreBlockHeight > StateBlockHeight + 1"
  else .ok ()

namespace Replayer

variable {env : Env} {α : Type} (R : Replayer env α)

variable (rs : ReplayState) (disk : Disk α)

/-- The application hash, and the writes. -/
def execInitChain (state : State) : Go String (ReplayState × List (Write α)) :=
  if rs.appHeight ≠ 0 then .ok (rs, [])
  else do
    let res ← R.app.initChain
    let rs := { rs with appHash := res.appHash }
    if state.lastBlockHeight ≠ 0 then .ok (rs, [.initChain R.app.start])
    else do
      let state ← initState env.crypto R.typeValid R.genDoc res state
      .ok (rs, [.initChain R.app.start, .save state])

/-- `syncStateAt` with the real application, or with a mock of it that gives a stored response and takes no
block. -/
def syncStateAt (mock : Option Response) (height : ℤ) : Go String (State × List (Write α)) := do
  let stored ← disk.loadBlock height
  match mock with
  | none => do
    let (resp, after) ← R.applyReal disk stored true
    .ok (after, [.saveABCIResponses stored.block.header.height resp, R.finalizeWrite disk stored, .save after])
  | some answer => do
    let (resp, after) ← applyBlock env (.ok answer) true disk.state stored true
    .ok (after, [.saveABCIResponses stored.block.header.height resp, .save after])

/-- The block goes to the application, and the state stays. -/
def replayBlock (acc : Disk α × List (Write α) × Bytes) (height : ℤ) : Go String (Disk α × List (Write α) × Bytes) := do
  let (disk, ws, _) := acc
  let stored ← disk.loadBlock height
  let validators ← if disk.state.validators.quorumHash = stored.commit.quorumHash then .ok disk.state.validators
    else R.loadValidators disk height
  let resp ← R.app.processProposal disk.app stored.block stored.commit.round
  let (candidate, _) ← (Delivery.process stored.block resp stored.commit.round).deliver env
    { disk.state with validators := validators }
  failIf (R.app.acceptsExtensions disk.app stored.block stored.commit = false) "commit extensions rejected"
  checkAppHashEqualsOneFromBlock candidate.appHash stored.block
  .ok (disk.perform (R.finalizeWrite disk stored), ws ++ [R.finalizeWrite disk stored], candidate.appHash)

/-- The application is further behind. With `mutateState` the last block is applied in full. -/
def replayBlocks (mutateState : Bool) : Go String (Bytes × List (Write α)) := do
  let finalBlock := if mutateState then rs.storeHeight - 1 else rs.storeHeight
  let firstBlock := if rs.appHeight + 1 = 1 then disk.state.initialHeight else rs.appHeight + 1
  let heights := (List.range (finalBlock - firstBlock + 1).toNat).map fun i : ℕ => firstBlock + i
  let (disk', ws, appHash) ← heights.foldlM R.replayBlock (disk, [], [])
  if mutateState then do
    let (after, ws') ← R.syncStateAt disk' none rs.storeHeight
    .ok (after.lastAppHash, ws ++ ws')
  else do
    checkAppHashEqualsOneFromState appHash disk.state
    .ok (appHash, ws)

def syncStateIfItIsEqualStore : Go String (Bytes × List (Write α)) :=
  if rs.storeHeight ≠ rs.stateHeight then .ok ([], [])
  else if rs.appHeight < rs.storeHeight then R.replayBlocks rs disk false
  else if rs.appHeight = rs.storeHeight then do
    checkAppHashEqualsOneFromState rs.appHash disk.state
    .ok (rs.appHash, [])
  else .ok ([], [])

def syncStateIfItIsOneAheadOfStore : Go String (Bytes × List (Write α)) :=
  if rs.storeHeight ≠ rs.stateHeight + 1 then .ok ([], [])
  else if rs.appHeight < rs.stateHeight then R.replayBlocks rs disk true
  else if rs.appHeight = rs.stateHeight then do
    let (after, ws) ← R.syncStateAt disk none rs.storeHeight
    .ok (after.lastAppHash, ws)
  else if rs.appHeight = rs.storeHeight then
    match disk.responses rs.storeHeight with
    | none => Go.fail "could not find results for height"
    | some resp => do
      let (after, ws) ← R.syncStateAt disk (some resp) rs.storeHeight
      .ok (after.lastAppHash, ws)
  else .ok ([], [])

/-- The writes it makes. An application hash that is nil stands for a case that does not apply. -/
def replay : Go String (List (Write α)) := do
  let (rs, ws) ← R.execInitChain ⟨disk.storeHeight, disk.storeBase, disk.state.lastBlockHeight,
    R.app.height disk.app, R.app.appHash disk.app⟩ disk.state
  let disk := ws.foldl Disk.perform disk
  rs.validate disk.state
  if rs.storeHeight = 0 then .ok ws
  else do
    let (appHash, ws₁) ← R.syncStateIfItIsEqualStore rs disk
    if appHash ≠ [] then .ok (ws ++ ws₁)
    else do
      let (appHash, ws₂) ← R.syncStateIfItIsOneAheadOfStore rs disk
      if appHash ≠ [] then .ok (ws ++ ws₁ ++ ws₂) else Go.fail "uncovered case!"

end Replayer

end Tenderdash.Execution
