import Tenderdash.Types.Vote

/-!
The lanes through which the messages of peers reach the consensus goroutine: every peer has a queue of its own, and a
rotation of the lanes that hold messages decides whose turn it is. A lane is granted one quantum of work per turn and
saves what its head costs; room for a message that arrives is taken from whoever uses most of the bound that is short.

The operations also say what they did: a trace of notes, each with the state it was made in.
-/

namespace Tenderdash

open Lib

/-! ### The price of a message -/

/-- `baseMessageCost`, and with it `laneQuantum`. -/
abbrev baseMessageCost : ℤ := 1

abbrev laneQuantum : ℤ := baseMessageCost

abbrev laneCapacity : ℕ := 512

abbrev laneMessageOverhead : ℕ := 2 ^ 10

abbrev laneIdleTimeout : ℤ := 60

/-- What the lanes ask about a message: the work it can force, the size of its wire form and the overhead of its
repeated elements. -/
structure Tariff (M : Type) where
  budgetedMessageCost : M → Go String ℤ
  marshaledMessageSize : M → ℕ
  retainedElementOverhead : M → ℕ

/-- A message and its sender, with the connection session that the context of its arrival carries. -/
structure MsgInfo (M : Type) where
  peerID : String
  session : Option ℕ
  msg : M
  deriving DecidableEq

variable {M : Type}

def roundedPayloadBytes (marshaled : ℕ) : ℕ := marshaled * 13 / 10

def laneMessageBytes (tariff : Tariff M) (mi : MsgInfo M) : ℕ :=
  laneMessageOverhead + roundedPayloadBytes (tariff.marshaledMessageSize mi.msg) + tariff.retainedElementOverhead mi.msg

/-- Never less than the turn that even a message verifying nothing takes. -/
def laneTurnCost (tariff : Tariff M) (mi : MsgInfo M) : ℤ :=
  match tariff.budgetedMessageCost mi.msg with
  | .ok cost => if cost < baseMessageCost then baseMessageCost else cost
  | .error _ => baseMessageCost

lemma laneTurnCost_pos (tariff : Tariff M) (mi : MsgInfo M) : 1 ≤ laneTurnCost tariff mi := by
  have hb : baseMessageCost = 1 := rfl
  unfold laneTurnCost
  split
  · split <;> omega
  · exact le_rfl

/-! ### The messages of the reactor -/

/-- What the price of a message depends on, and the size of its wire form. A proposal, a vote, a commit or a part may
be missing. -/
inductive Message where
  | proposal (marshaled : ℕ) (present : Bool)
  | vote (marshaled : ℕ) (vote : Option (SignedMsgType × Bool × ℕ))
  | commit (marshaled : ℕ) (thresholdVoteExtensions : Option ℕ)
  | blockPart (marshaled : ℕ) (aunts : Option ℕ)
  | other (marshaled : ℕ)
  deriving DecidableEq

def extensionCount (n : ℕ) : Go String ℤ := do
  Go.failIf (maxVoteExtensions < n) s!"too many vote extensions: {n} (max {maxVoteExtensions})"
  return n

/-- Extensions are counted before the type is looked at. -/
def voteCost (voteType : SignedMsgType) (nilBlock : Bool) (extensions : ℕ) : Go String ℤ := do
  let n ← extensionCount extensions
  if voteType ≠ .precommit ∨ nilBlock then return baseMessageCost
  return baseMessageCost + n

def commitCost (extensions : ℕ) : Go String ℤ := do
  let n ← extensionCount extensions
  return baseMessageCost + n

namespace Message

def budgetedMessageCost : Message → Go String ℤ
  | .proposal _ present => .ok (if present then baseMessageCost else 0)
  | .vote _ none => .ok 0
  | .vote _ (some (voteType, nilBlock, extensions)) => voteCost voteType nilBlock extensions
  | .commit _ none => .ok 0
  | .commit _ (some extensions) => commitCost extensions
  | .blockPart _ _ => .ok 0
  | .other _ => .ok 0

/-- `retainedElementOverhead`: 512 bytes for an extension and 64 for an aunt. -/
def retainedElementOverhead : Message → ℕ
  | .vote _ (some (_, _, extensions)) => 512 * extensions
  | .commit _ (some extensions) => 512 * extensions
  | .blockPart _ (some aunts) => 64 * aunts
  | _ => 0

def marshaledMessageSize : Message → ℕ
  | .proposal n _ | .vote n _ | .commit n _ | .blockPart n _ | .other n => n

def tariff : Tariff Message := ⟨budgetedMessageCost, marshaledMessageSize, retainedElementOverhead⟩

end Message

/-! ### The lanes -/

structure QueuedMsg (M : Type) where
  info : MsgInfo M
  bytes : ℕ
  deriving DecidableEq

structure PeerLane (M : Type) where
  queue : List (QueuedMsg M) := []
  bytes : ℤ := 0
  deficit : ℤ := 0
  turnOpen : Bool := false
  lastActive : ℤ := 0
  deriving DecidableEq

def PeerLane.active (lane : PeerLane M) : Bool := lane.queue ≠ []

structure PeerLanes (M : Type) where
  bufferCapacity : ℤ
  byteCapacity : ℤ
  lanes : String → Option (PeerLane M)
  rotation : List String
  queued : ℤ
  queuedBytes : ℤ
  lastGC : ℤ
  sessions : String → Option ℕ
  nextSession : ℕ

inductive ShedReason where
  | laneFull
  | allLanesFull
  | lanesHoldTooMuch
  deriving DecidableEq

/-- What an operation did. A turn of the rotation is one iteration of the loop of `next`: it passes, or it serves a
message, and says whether it was granted a quantum. A message was shed for that of `sender`; `head` says whether it
stood at the head of its lane. -/
inductive Note (M : Type) where
  | idle
  | admitted (peerID : String)
  | accepted (mi : MsgInfo M)
  | shed (reason : ShedReason) (sender lane : String) (mi : MsgInfo M) (head : Bool)
  | passed (lane : String) (granted : Bool)
  | served (lane : String) (mi : MsgInfo M) (granted : Bool)
  | purged (lane : String) (dropped : List (MsgInfo M))
  deriving DecidableEq

abbrev Trace (M : Type) := List (PeerLanes M × Note M)

namespace PeerLanes

/-- `newPeerLanes`. -/
def new (bufferCapacity byteCapacity now : ℤ) : PeerLanes M where
  bufferCapacity := bufferCapacity
  byteCapacity := byteCapacity
  lanes := fun _ => none
  rotation := []
  queued := 0
  queuedBytes := 0
  lastGC := now
  sessions := fun _ => none
  nextSession := 0

variable (tariff : Tariff M) (s : PeerLanes M) (peerID : String) (lane : PeerLane M)

def laneOf : PeerLane M := (s.lanes peerID).getD {}

def setLane : PeerLanes M :=
  { s with lanes := Function.update s.lanes peerID (some lane) }

/-- `admit`: the session of the peer, a new one if it has none. -/
def admitPeer : PeerLanes M × ℕ :=
  match s.sessions peerID with
  | some session => (s, session)
  | none =>
    ({ s with
        sessions := Function.update s.sessions peerID (some (s.nextSession + 1))
        nextSession := s.nextSession + 1 }, s.nextSession + 1)

def sessionLive (mi : MsgInfo M) : Bool :=
  if mi.peerID = "" then true
  else
    match mi.session with
    | none => true
    | some session => s.sessions mi.peerID = some session

def reclaimIdleLanes (now : ℤ) : PeerLanes M :=
  if now - s.lastGC < laneIdleTimeout then s
  else
    { s with
      lastGC := now
      lanes := fun peerID =>
        match s.lanes peerID with
        | some lane => if lane.active = false ∧ laneIdleTimeout ≤ now - lane.lastActive then none else some lane
        | none => none }

def accountPopped (entry : QueuedMsg M) : PeerLanes M :=
  { s with queued := s.queued - 1, queuedBytes := s.queuedBytes - entry.bytes }

/-- `removeFromRotation` at `indexOfPeer`. -/
def removeFromRotation : PeerLanes M :=
  { s with rotation := s.rotation.erase peerID }

def rotateFront : PeerLanes M :=
  match s.rotation with
  | [] => s
  | front :: rest => { s with rotation := rest ++ [front] }

def leaveIfEmpty (peerID : String) : PeerLanes M :=
  if lane.active then s else s.removeFromRotation peerID

/-- `shedOldest` on the lane of a peer, with `popOldest`: the credit saved for the head goes with it. -/
def shedOldest (sender peerID : String) (reason : ShedReason) : Option (PeerLanes M × Note M) :=
  match (s.laneOf peerID).queue with
  | [] => none
  | entry :: queue =>
    let lane := s.laneOf peerID
    let deficit := lane.deficit - laneTurnCost tariff entry.info
    let lane := { lane with
      queue := queue
      bytes := lane.bytes - entry.bytes
      deficit := if deficit < 0 then 0 else deficit }
    some (((s.setLane peerID lane).accountPopped entry).leaveIfEmpty lane entry.info.peerID,
      .shed reason sender peerID entry.info true)

/-- `shedNewest` on the lane of a peer, with `popNewest`: the head and the credit saved for it stay paired. -/
def shedNewest (sender peerID : String) (reason : ShedReason) : Option (PeerLanes M × Note M) :=
  match (s.laneOf peerID).queue.getLast? with
  | none => none
  | some entry =>
    let lane := s.laneOf peerID
    let lane := { lane with
      queue := lane.queue.dropLast
      bytes := lane.bytes - entry.bytes }
    some (((s.setLane peerID lane).accountPopped entry).leaveIfEmpty lane entry.info.peerID,
      .shed reason sender peerID entry.info (!lane.active))

def firstMax (measure : String → ℤ) : List String → Option String
  | [] => none
  | peerID :: rest =>
    some (rest.foldl (fun best peerID => if measure best < measure peerID then peerID else best) peerID)

def longestLane : Option String := firstMax (fun p => (s.laneOf p).queue.length) s.rotation

def heaviestLane : Option String := firstMax (fun p => (s.laneOf p).bytes) s.rotation

def held : ℕ := (s.rotation.map fun p => (s.laneOf p).queue.length).sum

/-- The loop of `enqueue` that sheds until a message of the given size fits, or nothing is left to shed. An iteration
takes one message, so that no more are needed than messages are held. -/
def shedUntilFits (size : ℕ) (sender : String) : ℕ → PeerLanes M → PeerLanes M × Trace M
  | 0, s => (s, [])
  | fuel + 1, s =>
    if s.byteCapacity < s.queuedBytes + size then
      match s.heaviestLane.bind fun p => s.shedNewest sender p .lanesHoldTooMuch with
      | none => (s, [])
      | some (s', note) =>
        let (s'', trace) := shedUntilFits size sender fuel s'
        (s'', (s, note) :: trace)
    else (s, [])

/-- The first choice of `enqueue`: the arriving peer's own lane is full, or all lanes together are. -/
def shedForCount (sender : String) : PeerLanes M × Trace M :=
  let shed :=
    if laneCapacity ≤ (s.laneOf sender).queue.length then s.shedOldest tariff sender sender .laneFull
    else if s.bufferCapacity ≤ s.queued then
      s.longestLane.bind fun p => s.shedNewest sender p .allLanesFull
    else none
  match shed with
  | none => (s, [])
  | some (s', note) => (s', [(s, note)])

/-- The end of `enqueue`: the message goes to the back of its lane, which joins the rotation at its tail if it was
empty. -/
def append (mi : MsgInfo M) (size : ℕ) : PeerLanes M :=
  let lane := s.laneOf mi.peerID
  let lane' := { lane with queue := lane.queue ++ [⟨mi, size⟩], bytes := lane.bytes + size }
  let s' := { s with queued := s.queued + 1, queuedBytes := s.queuedBytes + size }
  if lane.active then s'.setLane mi.peerID lane'
  else
    { s'.setLane mi.peerID { lane' with deficit := 0, turnOpen := false } with
      rotation := s.rotation ++ [mi.peerID] }

def touch (now : ℤ) (peerID : String) : PeerLanes M :=
  (s.reclaimIdleLanes now).setLane peerID { (s.reclaimIdleLanes now).laneOf peerID with lastActive := now }

/-- `enqueue`, and whether the message was queued. -/
def enqueue (now : ℤ) (mi : MsgInfo M) : PeerLanes M × Trace M × Bool :=
  if s.sessionLive mi = false then (s, [], false)
  else
    let s₁ := s.touch now mi.peerID
    let size := laneMessageBytes tariff mi
    let (s₂, shed) := s₁.shedForCount tariff mi.peerID
    let (s₃, more) := shedUntilFits size mi.peerID s₂.held s₂
    (s₃.append mi size, (s, .idle) :: shed ++ more ++ [(s₃, .accepted mi)], true)

def grant : PeerLane M :=
  if lane.turnOpen then lane else { lane with deficit := lane.deficit + laneQuantum, turnOpen := true }

/-- The lane after its head was served. One that runs dry forfeits its credit. -/
def afterServing (entry : QueuedMsg M) (queue : List (QueuedMsg M)) (cost now : ℤ) : PeerLane M :=
  let lane := { lane with
    queue := queue
    bytes := lane.bytes - entry.bytes
    deficit := lane.deficit - cost
    lastActive := now }
  if lane.active then lane else { lane with deficit := 0, turnOpen := false }

/-- One iteration of the loop of `next`: the state, what was done, and the message that is returned. The rotation
names a missing or an empty lane at no time, which the source would not survive. -/
def takeTurn (now : ℤ) (peerID : String) : Go Empty (PeerLanes M × Note M × Option (MsgInfo M)) :=
  match s.lanes peerID with
  | none => Go.crash "nil pointer dereference"
  | some lane =>
    match lane.queue with
    | [] => Go.crash "index out of range"
    | entry :: queue =>
      let granted := !lane.turnOpen
      let lane := grant lane
      let cost := laneTurnCost tariff entry.info
      if lane.deficit < cost then
        .ok ((s.setLane peerID { lane with turnOpen := false }).rotateFront, .passed peerID granted, none)
      else
        let lane := afterServing lane entry queue cost now
        .ok (((s.setLane peerID lane).accountPopped entry).leaveIfEmpty lane peerID,
          .served peerID entry.info granted, some entry.info)

/-- The loop of `next`, for at most so many iterations: it has not ended if there is no result. -/
def nextLoop (tariff : Tariff M) (now : ℤ) :
    ℕ → PeerLanes M → Option (Go Empty (PeerLanes M × Trace M × Option (MsgInfo M)))
  | 0, _ => none
  | fuel + 1, s =>
    match s.rotation with
    | [] => some (.ok (s, [], none))
    | peerID :: _ =>
      match s.takeTurn tariff now peerID with
      | .error e => some (.error e)
      | .ok (s', note, some mi) => some (.ok (s', [(s, note)], some mi))
      | .ok (s', note, none) =>
        (nextLoop tariff now fuel s').map fun result =>
          result.map fun (s'', trace, mi) => (s'', (s, note) :: trace, mi)

def lack : ℕ :=
  match lane.queue with
  | [] => 0
  | entry :: _ => (laneTurnCost tariff entry.info - lane.deficit).toNat

def turnBound : ℕ := (s.rotation.map fun p => lack tariff (s.laneOf p)).sum + 2

def next (now : ℤ) : Option (Go Empty (PeerLanes M × Trace M × Option (MsgInfo M))) :=
  (nextLoop tariff now (turnBound tariff (s.reclaimIdleLanes now)) (s.reclaimIdleLanes now)).map fun result =>
    result.map fun (s', trace, mi) => (s', (s, .idle) :: trace, mi)

def purgePeer : PeerLanes M × Trace M :=
  let lane := s.laneOf peerID
  let s' := { s with sessions := Function.update s.sessions peerID none }
  let trace := [(s, .purged peerID (lane.queue.map QueuedMsg.info))]
  if s.lanes peerID = none then (s', trace)
  else
    let s' :=
      if lane.active then
        { s' with queued := s.queued - lane.queue.length, queuedBytes := s.queuedBytes - lane.bytes
          }.removeFromRotation peerID
      else s'
    ({ s' with lanes := Function.update s.lanes peerID none }, trace)

/-! ### Runs -/

inductive Event (M : Type) where
  | admitPeer (peerID : String)
  | enqueue (now : ℤ) (mi : MsgInfo M)
  | next (now : ℤ)
  | purgePeer (peerID : String)
  | reclaimIdleLanes (now : ℤ)

/-- An operation. A call of `next` that did not end, of which there is none, would leave the lanes as they are. -/
def exec : Event M → PeerLanes M × Trace M
  | .admitPeer peerID => ((s.admitPeer peerID).1, [(s, .admitted peerID)])
  | .enqueue now mi => ((s.enqueue tariff now mi).1, (s.enqueue tariff now mi).2.1)
  | .next now =>
    match s.next tariff now with
    | some (.ok (s', trace, _)) => (s', trace)
    | _ => (s, [])
  | .purgePeer peerID => s.purgePeer peerID
  | .reclaimIdleLanes now => (s.reclaimIdleLanes now, [(s, .idle)])

def execAll (tariff : Tariff M) (s : PeerLanes M) : List (Event M) → PeerLanes M × Trace M
  | [] => (s, [])
  | e :: es =>
    let (s', trace) := s.exec tariff e
    let (s'', rest) := execAll tariff s' es
    (s'', trace ++ rest)

end PeerLanes

end Tenderdash
