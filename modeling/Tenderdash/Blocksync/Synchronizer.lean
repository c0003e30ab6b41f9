import Tenderdash.Lib.Assoc
import Tenderdash.Lib.Run

/-!
Block synchronization: the synchronizer of `internal/blocksync`, its job generator and its peer store.

One producer asks for heights, a pool of workers fetches blocks, and one consumer takes their results
and applies the blocks in height order; the p2p goroutines add and remove peers at any time. Each of
them is cut at the points where it releases a lock, so that a run is any interleaving of these pieces:
the state holds what the goroutines share and where each of them stands.
-/

namespace Tenderdash.Blocksync

def maxPendingRequestsPerPeer : ℤ := 20

def maxPendingApplyBytes : ℕ := 256 * 2 ^ 20

def maxOutstandingHeights : ℤ := 64

def maxConsecutiveFailures : ℤ := 5

abbrev NodeID := String

/-! ### The peer store -/

structure PeerData where
  numPending : ℤ
  numFailures : ℤ
  height : ℤ
  base : ℤ
  missingThrough : ℤ
deriving DecidableEq, Repr

namespace PeerData

def newPeerData (base height : ℤ) : PeerData := ⟨0, 0, height, base, 0⟩

/-- The count never falls below zero. -/
def addPending (peer : PeerData) (delta : ℤ) : PeerData :=
  { peer with numPending := max 0 (peer.numPending + delta) }

def resetFailures (peer : PeerData) : PeerData := { peer with numFailures := 0 }

def heightBetweenPeerHeightRange (height : ℤ) (peer : PeerData) : Bool :=
  height ≥ peer.base && height ≤ peer.height && height > peer.missingThrough

end PeerData

abbrev PeerStore := List (NodeID × PeerData)

namespace PeerStore

variable (peers : PeerStore) (peerID : NodeID)

/-- A known peer moves its range only; what is counted about it stays. -/
def upsert (base height : ℤ) : PeerStore :=
  Lib.upsert peerID
    (fun known => match known with
      | none => PeerData.newPeerData base height
      | some peer => { peer with base, height })
    peers

def delete : PeerStore :=
  peers.filter fun entry => entry.1 != peerID

def update (f : PeerData → PeerData) : PeerStore :=
  peers.map fun entry => if entry.1 = peerID then (entry.1, f entry.2) else entry

def maxHeight : ℤ :=
  peers.foldl (fun highest entry => max highest entry.2.height) 0

/-- The request stops being pending and the run of failures grows. The answer says whether the peer is
to be dropped; an unknown peer is not. -/
def addFailure (maxFailures : ℤ) : PeerStore × Bool :=
  let failed (peer : PeerData) := { peer.addPending (-1) with numFailures := peer.numFailures + 1 }
  (peers.update peerID failed,
    match peers.lookup peerID with
    | none => false
    | some peer => decide ((failed peer).numFailures ≥ maxFailures))

def recordMissingBlock (height : ℤ) : PeerStore :=
  peers.update peerID fun peer =>
    { peer.addPending (-1) with missingThrough := max peer.missingThrough height }

/-- The peer may be asked for the height. Which of the peers that may be is asked is the choice of its
service record, an answer of the environment here. -/
def canReserve (height : ℤ) : Bool :=
  match peers.lookup peerID with
  | none => false
  | some peer =>
    peer.numPending < maxPendingRequestsPerPeer && peer.heightBetweenPeerHeightRange height

end PeerStore

/-! ### The job generator -/

structure JobGenerator where
  height : ℤ
  pushedBack : List ℤ
deriving DecidableEq, Repr

namespace JobGenerator

variable (gen : JobGenerator)

def nextHeight : ℤ × JobGenerator :=
  match gen.pushedBack with
  | height :: rest => (height, { gen with pushedBack := rest })
  | [] => (gen.height, { gen with height := gen.height + 1 })

def pushBack (heights : List ℤ) : JobGenerator :=
  if heights = [] then gen
  else
    let queue := heights.foldl
      (fun queued height => if height ∈ queued then queued else queued ++ [height]) gen.pushedBack
    { gen with pushedBack := queue.insertionSort (· ≤ ·) }

def shouldJobBeGenerated (peers : PeerStore) (applyHeight : ℤ) (pendingBytes : ℕ) : Bool :=
  if gen.pushedBack ≠ [] then true
  else if pendingBytes ≥ maxPendingApplyBytes ∨ gen.height - applyHeight ≥ maxOutstandingHeights then
    false
  else gen.height ≤ peers.maxHeight

end JobGenerator

/-! ### The synchronizer -/

structure BlockResponse where
  peerID : NodeID
  size : ℕ
deriving DecidableEq, Repr

structure Job where
  height : ℤ
  peerID : NodeID
deriving DecidableEq, Repr

/-- Where the producer stands in `produceJob`. -/
inductive Producer where
  | idle
  /-- `backlog` has been read. -/
  | checking (applyHeight : ℤ) (pendingBytes : ℕ)
  /-- `shouldJobBeGenerated` has said yes. -/
  | generating
  /-- In `getPeer`. -/
  | waiting (height : ℤ)
  /-- In the worker pool's `Send`. -/
  | sending (job : Job)
deriving DecidableEq, Repr

/-- Where the consumer stands in `consumeJobResult`. -/
inductive Consumer where
  | receiving
  /-- At the head of the loop of `applyBlock`. -/
  | looking
  | applying (resp : BlockResponse)
  /-- About to call `RemovePeer`. -/
  | removing (peerID : NodeID)
  /-- Between the two halves of `RemovePeer`. -/
  | requeueing (heights : List ℤ)
deriving DecidableEq, Repr

structure Synchronizer where
  height : ℤ
  pendingToApply : List (ℤ × BlockResponse)
  jobGen : JobGenerator
  peerStore : PeerStore
  producer : Producer
  consumer : Consumer
  /-- Jobs handed to the worker pool whose results have not been received. -/
  inFlight : List Job
  /-- What the calls of `RemovePeer` by the p2p goroutines have dropped and not queued yet. -/
  removals : List (List ℤ)
deriving DecidableEq, Repr

/-- What the goroutines do between two lock releases, with the answers of the network, the worker pool
and the application. -/
inductive Event where
  | backlog
  | shouldJobBeGenerated
  | nextHeight
  | reservePeer (peerID : NodeID)
  | send
  /-- The result of a job: any error but a missing block. -/
  | failed (job : Job)
  /-- The peer says it does not have the block. -/
  | missing (job : Job)
  /-- The block was received, decoded and has the requested height. -/
  | received (job : Job) (size : ℕ)
  | getPendingResponse
  /-- `Apply` succeeded. -/
  | advance
  | applyFailed
  /-- `Apply` ended with a context error. -/
  | applyCancelled
  /-- The consumer's own removal of a peer, in two halves. -/
  | dropOwn
  | requeueOwn
  | addPeer (peerID : NodeID) (base height : ℤ)
  /-- A removal of a peer by a p2p goroutine, in two halves. -/
  | dropPeer (peerID : NodeID)
  | requeue (heights : List ℤ)
deriving DecidableEq, Repr

namespace Synchronizer

def new (startHeight : ℤ) : Synchronizer :=
  ⟨startHeight, [], ⟨startHeight, []⟩, [], .idle, .receiving, [], []⟩

variable (s : Synchronizer) (job : Job)

def pendingBytes : ℕ := (s.pendingToApply.map fun entry => entry.2.size).sum

def addBlock (height : ℤ) (resp : BlockResponse) : Synchronizer :=
  if height < s.height then s
  else if (s.pendingToApply.lookup height).isSome then s
  else { s with pendingToApply := s.pendingToApply ++ [(height, resp)] }

/-- The first half of `RemovePeer`: the heights that have to be fetched again. -/
def dropPeer (peerID : NodeID) : List ℤ × Synchronizer :=
  ((s.pendingToApply.filter fun entry => entry.2.peerID == peerID).map (·.1),
    { s with
      pendingToApply := s.pendingToApply.filter fun entry => entry.2.peerID != peerID
      peerStore := s.peerStore.delete peerID })

def pushBack (heights : List ℤ) : Synchronizer :=
  { s with jobGen := s.jobGen.pushBack heights }

def advance : Synchronizer :=
  { s with
    pendingToApply := s.pendingToApply.filter fun entry => entry.1 != s.height
    height := s.height + 1 }

/-! #### The producer -/

def produce : Event → Synchronizer
  | .backlog =>
    match s.producer with
    | .idle => { s with producer := .checking s.height s.pendingBytes }
    | _ => s
  | .shouldJobBeGenerated =>
    match s.producer with
    | .checking applyHeight pendingBytes =>
      if s.jobGen.shouldJobBeGenerated s.peerStore applyHeight pendingBytes then
        { s with producer := .generating }
      else { s with producer := .idle }
    | _ => s
  | .nextHeight =>
    match s.producer with
    | .generating =>
      { s with producer := .waiting s.jobGen.nextHeight.1, jobGen := s.jobGen.nextHeight.2 }
    | _ => s
  | .reservePeer peerID =>
    match s.producer with
    | .waiting height =>
      if s.peerStore.canReserve peerID height then
        { s with
          peerStore := s.peerStore.update peerID (·.addPending 1)
          producer := .sending ⟨height, peerID⟩ }
      else s
    | _ => s
  | .send =>
    match s.producer with
    | .sending job => { s with inFlight := s.inFlight ++ [job], producer := .idle }
    | _ => s
  | _ => s

/-! #### The consumer -/

def canReceive : Bool :=
  s.consumer = .receiving && s.inFlight.contains job

def consumeFailed : Synchronizer :=
  let (peers, tooMany) := s.peerStore.addFailure job.peerID maxConsecutiveFailures
  { s.pushBack [job.height] with
    inFlight := s.inFlight.erase job
    peerStore := peers
    consumer := if tooMany then .removing job.peerID else .receiving }

def consumeMissing : Synchronizer :=
  { s.pushBack [job.height] with
    inFlight := s.inFlight.erase job
    peerStore := s.peerStore.recordMissingBlock job.peerID job.height }

def consumeReceived (size : ℕ) : Synchronizer :=
  { s.addBlock job.height ⟨job.peerID, size⟩ with
    inFlight := s.inFlight.erase job
    peerStore := s.peerStore.update job.peerID fun peer => (peer.addPending (-1)).resetFailures
    consumer := .looking }

def consume : Event → Synchronizer
  | .failed job => if s.canReceive job then s.consumeFailed job else s
  | .missing job => if s.canReceive job then s.consumeMissing job else s
  | .received job size => if s.canReceive job then s.consumeReceived job size else s
  | .getPendingResponse =>
    match s.consumer with
    | .looking =>
      match s.pendingToApply.lookup s.height with
      | some resp => { s with consumer := .applying resp }
      | none => { s with consumer := .receiving }
    | _ => s
  | .advance =>
    match s.consumer with
    | .applying _ => { s.advance with consumer := .looking }
    | _ => s
  | .applyFailed =>
    match s.consumer with
    -- the failure is charged to the peer that supplied the block
    | .applying resp => { s with consumer := .removing resp.peerID }
    | _ => s
  | .applyCancelled =>
    match s.consumer with
    -- the response stays pending and is retried when the next result arrives
    | .applying _ => { s with consumer := .receiving }
    | _ => s
  | .dropOwn =>
    match s.consumer with
    | .removing peerID => { (s.dropPeer peerID).2 with consumer := .requeueing (s.dropPeer peerID).1 }
    | _ => s
  | .requeueOwn =>
    match s.consumer with
    | .requeueing heights => { s.pushBack heights with consumer := .receiving }
    | _ => s
  | _ => s

/-! #### The p2p goroutines -/

def peerUpdate : Event → Synchronizer
  | .addPeer peerID base height => { s with peerStore := s.peerStore.upsert peerID base height }
  | .dropPeer peerID =>
    { (s.dropPeer peerID).2 with removals := s.removals ++ [(s.dropPeer peerID).1] }
  | .requeue heights =>
    if heights ∈ s.removals then
      { s.pushBack heights with removals := s.removals.erase heights }
    else s
  | _ => s

/-- One step of one of the goroutines. An event that cannot happen in a state leaves it unchanged. -/
def step (event : Event) : Synchronizer :=
  match event with
  | .backlog | .shouldJobBeGenerated | .nextHeight | .reservePeer _ | .send => s.produce event
  | .failed _ | .missing _ | .received _ _ | .getPendingResponse | .advance | .applyFailed
  | .applyCancelled | .dropOwn | .requeueOwn => s.consume event
  | .addPeer _ _ _ | .dropPeer _ | .requeue _ => s.peerUpdate event

def run (startHeight : ℤ) (events : List Event) : Synchronizer :=
  Lib.Run.run step (new startHeight) events

end Synchronizer

end Tenderdash.Blocksync
