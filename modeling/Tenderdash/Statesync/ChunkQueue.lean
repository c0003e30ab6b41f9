import Tenderdash.Lib.Go
import Tenderdash.Lib.Run
import Tenderdash.Lib.Wire

/-!
The chunk queue of `internal/statesync`: chunk IDs wait to be requested, requested chunks are added
as they arrive and their IDs go to the apply channel, and `Next` takes an ID from the channel and
loads its chunk. Reading and writing a chunk's own file succeeds as long as the file exists.

`Add` leaves the status `received` behind, and `Next` reads it when it comes to the ID; in between,
a second request, a refetch or a retry may have changed it.
-/

namespace Tenderdash.Statesync

open Lib Run Function

structure Chunk where
  height : ℕ
  version : ℕ
  id : Bytes
  chunk : Bytes
  sender : String
  deriving DecidableEq, Repr

inductive ChunkStatus where
  | init
  | inProgress
  | discarded
  | received
  | done
  deriving DecidableEq, Repr

/-- `file` is the content of the item's file, if it has one. -/
structure ChunkItem where
  file : Option Bytes := none
  sender : String := ""
  status : ChunkStatus := .init
  deriving DecidableEq, Repr

inductive ChunkError where
  | done
  | queueEmpty
  | chunkNil
  | noChunkItem
  | nilSnapshot
  | notFound (id : Bytes)
  | height (got expected : ℕ)
  | version (got expected : ℕ)
  | remove (id : Bytes)
  | loadData (id : Bytes)
  deriving DecidableEq, Repr

/-- A successful `Add`, or what `Next` returned for an ID without an error. -/
inductive Delivery where
  | added (chunk : Chunk)
  | returned (id : Bytes) (chunk : Option Chunk)
  deriving DecidableEq, Repr

def Delivery.id : Delivery → Bytes
  | .added chunk => chunk.id
  | .returned id _ => id

/-- The queue for a snapshot of some height and version, which is forgotten when the queue is closed.
The log records the deliveries, latest first. -/
structure ChunkQueue where
  snapshot : Option (ℕ × ℕ)
  items : Bytes → Option ChunkItem := fun _ => none
  requestQueue : List Bytes := []
  applyCh : List Bytes := []
  doneCount : ℕ := 0
  log : List Delivery := []

namespace ChunkQueue

variable (q : ChunkQueue)

def set (id : Bytes) (item : ChunkItem) : ChunkQueue := { q with items := Function.update q.items id (some item) }

def enqueue (id : Bytes) : ChunkQueue :=
  let q := { q with requestQueue := q.requestQueue ++ [id] }
  if (q.items id).isSome then q else q.set id {}

def dequeue : ChunkQueue × Go ChunkError Bytes :=
  match q.requestQueue with
  | [] => (q, Go.fail .queueEmpty)
  | id :: rest =>
    let q := { q with requestQueue := rest }
    match q.items id with
    | none => (q, Go.crash "nil pointer dereference")
    | some item => (q.set id { item with status := .inProgress }, .ok id)

/-- A chunk that was not asked for, or is here already, is ignored. -/
def add (chunk : Option Chunk) : ChunkQueue × Go ChunkError Bool :=
  match chunk, q.snapshot with
  | none, _ => (q, Go.fail .chunkNil)
  | some _, none => (q, Go.fail .nilSnapshot)
  | some chunk, some (height, version) =>
    match q.items chunk.id with
    | none => (q, Go.fail (.notFound chunk.id))
    | some item =>
      if item.status ≠ .inProgress ∧ item.status ≠ .discarded then (q, .ok false)
      else if chunk.height ≠ height then (q, Go.fail (.height chunk.height height))
      else if chunk.version ≠ version then (q, Go.fail (.version chunk.version version))
      else
        ({ q.set chunk.id ⟨some chunk.chunk, chunk.sender, .received⟩ with
            applyCh := q.applyCh ++ [chunk.id], log := .added chunk :: q.log }, .ok true)

def close : ChunkQueue := { q with snapshot := none }

/-- The item is discarded even if it has no file to remove. -/
def discard (id : Bytes) : ChunkQueue × Go ChunkError Unit :=
  match q.snapshot, q.items id with
  | some _, some item =>
    (q.set id { item with status := .discarded, file := none }, Go.failIf (item.file = none) (.remove id))
  | _, _ => (q, .ok ())

/-- The items are visited in the given order, the map's own. -/
def discardSender (peerID : String) : ChunkQueue → List Bytes → ChunkQueue × Go ChunkError Unit
  | q, [] => (q, .ok ())
  | q, id :: rest =>
    match q.items id with
    | some item =>
      if item.sender = peerID ∧ item.status = .init then
        match (q.discard id).2 with
        | .ok () => discardSender peerID (q.discard id).1 rest
        | .error e => ((q.discard id).1, .error e)
      else discardSender peerID q rest
    | none => discardSender peerID q rest

def load (snapshot : ℕ × ℕ) (id : Bytes) (item : ChunkItem) : Go ChunkError (Option Chunk) :=
  if item.status ≠ .received then .ok none
  else match item.file with
    | none => Go.fail (.loadData id)
    | some data => .ok (some ⟨snapshot.1, snapshot.2, id, data, item.sender⟩)

/-- Without an ID in the channel it waits (`none`) unless the queue is closed. -/
def next : ChunkQueue × Option (Go ChunkError (Option Chunk)) :=
  match q.applyCh, q.snapshot with
  | [], some _ => (q, none)
  | [], none => (q, some (Go.fail .done))
  | _ :: rest, none => ({ q with applyCh := rest }, some (Go.fail .done))
  | id :: rest, some snapshot =>
    let q := { q with applyCh := rest }
    match q.items id with
    | none => (q, some (Go.fail .noChunkItem))
    | some item =>
      match load snapshot id item with
      | .error e => (q, some (.error e))
      | .ok chunk =>
        ({ q.set id { item with status := .done } with
            doneCount := q.doneCount + 1, log := .returned id chunk :: q.log }, some (.ok chunk))

def retry (id : Bytes) : ChunkQueue :=
  match q.items id with
  | some item =>
    if item.status = .received ∨ item.status = .done then
      { q.set id { item with status := .init } with requestQueue := q.requestQueue ++ [id] }
    else q
  | none => q

/-- The channel is drained, and the items are retried in the map's order. -/
def retryAll (order : List Bytes) : ChunkQueue := order.foldl retry { q with applyCh := [], requestQueue := [] }

inductive Op where
  | enqueue (ids : List Bytes)
  | dequeue
  | add (chunk : Option Chunk)
  | next
  | discard (id : Bytes)
  | discardSender (peerID : String) (order : List Bytes)
  | retry (id : Bytes)
  | retryAll (order : List Bytes)
  | close

def step : Op → ChunkQueue
  | .enqueue ids => ids.foldl enqueue q
  | .dequeue => q.dequeue.1
  | .add chunk => (q.add chunk).1
  | .next => q.next.1
  | .discard id => (q.discard id).1
  | .discardSender peerID order => (discardSender peerID q order).1
  | .retry id => q.retry id
  | .retryAll order => q.retryAll order
  | .close => q.close

/-! ### What was delivered -/

/-- Whatever `Next` returned is a chunk, the latest added one of its ID, which was not returned
before: the latest delivery of the ID is that `Add`. -/
def Delivers : List Delivery → Prop
  | [] => True
  | .added _ :: log => Delivers log
  | .returned id chunk :: log =>
    (∃ c, chunk = some c ∧ log.find? (fun d => d.id = id) = some (.added c)) ∧ Delivers log

structure Sound : Prop where
  delivers : Delivers q.log
  received : ∀ id item snapshot, q.items id = some item → item.status = .received → q.snapshot = some snapshot →
    ∃ c, load snapshot id item = .ok (some c) ∧ q.log.find? (fun d => d.id = id) = some (.added c)

variable {q} {q' q'' : ChunkQueue} {id : Bytes} {item : ChunkItem} {snapshot : ℕ × ℕ} {chunk : Chunk}

structure Kept (q q' : ChunkQueue) : Prop where
  log : q'.log = q.log
  snapshot : ∀ snapshot, q'.snapshot = some snapshot → q.snapshot = some snapshot
  items : ∀ id item, q'.items id = some item → item.status = .received → q.items id = some item
  applyCh : ∀ id ∈ q'.applyCh, id ∈ q.applyCh

lemma Kept.refl (q : ChunkQueue) : Kept q q := ⟨rfl, fun _ h => h, fun _ _ h _ => h, fun _ h => h⟩

lemma Kept.trans (h : Kept q q') (h' : Kept q' q'') : Kept q q'' :=
  ⟨h'.log.trans h.log, fun s hs => h.snapshot s (h'.snapshot s hs),
    fun id item hi hst => h.items id item (h'.items id item hi hst) hst,
    fun id hid => h.applyCh id (h'.applyCh id hid)⟩

lemma Kept.set (h : Kept q q') (hs : item.status ≠ .received) : Kept q (q'.set id item) := by
  refine { h with items := fun id' item' hi' hr => ?_ }
  simp only [ChunkQueue.set, update_apply] at hi'
  split at hi'
  · cases hi'
    exact absurd hr hs
  · exact h.items id' item' hi' hr

lemma Kept.sound (h : Kept q q') (hs : Sound q) : Sound q' := by
  refine ⟨h.log ▸ hs.delivers, fun id item snapshot hi hst hsn => ?_⟩
  rw [h.log]
  exact hs.received id item snapshot (h.items id item hi hst) hst (h.snapshot snapshot hsn)

lemma kept_foldl {f : ChunkQueue → Bytes → ChunkQueue} (hf : ∀ q id, Kept q (f q id)) (ids : List Bytes)
    (h : Kept q q') : Kept q (ids.foldl f q') := by
  induction ids generalizing q' with
  | nil => exact h
  | cons id ids ih => exact ih (h.trans (hf q' id))

lemma kept_enqueue (q : ChunkQueue) (id : Bytes) : Kept q (q.enqueue id) := by
  have h : Kept q { q with requestQueue := q.requestQueue ++ [id] } :=
    ⟨rfl, fun _ h => h, fun _ _ h _ => h, fun _ h => h⟩
  unfold enqueue
  dsimp only
  split
  · exact h
  · exact h.set (by decide)

lemma kept_dequeue (q : ChunkQueue) : Kept q q.dequeue.1 := by
  unfold dequeue
  split
  · exact .refl q
  next id rest _ =>
  have h : Kept q { q with requestQueue := rest } := ⟨rfl, fun _ h => h, fun _ _ h _ => h, fun _ h => h⟩
  dsimp only
  split
  · exact h
  · exact h.set (by simp)

lemma kept_discard (q : ChunkQueue) (id : Bytes) : Kept q (q.discard id).1 := by
  unfold discard
  split
  · exact (Kept.refl q).set (by simp)
  · exact .refl q

lemma kept_discardSender (peerID : String) (order : List Bytes) (q : ChunkQueue) :
    Kept q (discardSender peerID q order).1 := by
  induction order generalizing q with
  | nil => exact .refl q
  | cons id rest ih =>
    unfold discardSender
    split
    · split
      · split
        · exact (kept_discard q id).trans (ih _)
        · exact kept_discard q id
      · exact ih q
    · exact ih q

lemma kept_retry (q : ChunkQueue) (id : Bytes) : Kept q (q.retry id) := by
  unfold retry
  split
  · next item _ =>
    split
    · have h : Kept q (q.set id { item with status := .init }) := (Kept.refl q).set (by simp)
      exact { h with }
    · exact .refl q
  · exact .refl q

lemma Sound.add (hs : Sound q) (chunk : Option Chunk) : Sound (q.add chunk).1 := by
  unfold ChunkQueue.add
  split
  · exact hs
  · exact hs
  next chunk height version hsn =>
  split
  · exact hs
  split_ifs with hst hh hv
  · exact hs
  · exact hs
  · exact hs
  refine ⟨hs.delivers, fun id item snapshot hi hr hsp => ?_⟩
  simp only [set, update_apply] at hi
  split at hi
  · next heq =>
    cases hi
    cases hsn.symm.trans hsp
    refine ⟨chunk, ?_, by simp [Delivery.id, heq]⟩
    obtain ⟨_, _, _, _, _⟩ := chunk
    simp_all [load]
  · next hne =>
    rw [List.find?_cons_of_neg (by simp [Delivery.id, Ne.symm hne])]
    exact hs.received id item snapshot hi hr hsp

/-- The condition: the item of the ID that `Next` takes from the channel still has the status that
`Add` gave it. -/
def Fresh (q : ChunkQueue) : Op → Prop
  | .next => ∀ id item, q.applyCh.head? = some id → q.items id = some item → q.snapshot.isSome → item.status = .received
  | _ => True

lemma next_cases (q : ChunkQueue) :
    Kept q q.next.1 ∨ ∃ id item snapshot chunk, q.applyCh.head? = some id ∧ q.items id = some item ∧
      q.snapshot = some snapshot ∧ load snapshot id item = .ok chunk ∧
      q.next.1.log = .returned id chunk :: q.log ∧ q.next.1.items id = some { item with status := .done } ∧
      Kept q { q.next.1 with log := q.log } := by
  have hr {id rest} (hch : q.applyCh = id :: rest) : Kept q { q with applyCh := rest } :=
    ⟨rfl, fun _ h => h, fun _ _ h _ => h, fun _ h => hch ▸ List.mem_cons_of_mem id h⟩
  unfold next
  split
  · exact .inl (.refl q)
  · exact .inl (.refl q)
  next hch _ => exact .inl (hr hch)
  next id rest snapshot hch hs =>
  dsimp only
  split
  · exact .inl (hr hch)
  next item hi =>
  split
  · exact .inl (hr hch)
  next chunk hl =>
  refine .inr ⟨id, item, snapshot, chunk, by simp [hch], hi, hs, hl, rfl, by simp [set], ?_⟩
  have h : Kept q ({ q with applyCh := rest }.set id { item with status := .done }) := (hr hch).set (by simp)
  exact { h with log := rfl }

lemma Sound.next (hs : Sound q) (hf : Fresh q .next) : Sound q.next.1 := by
  rcases next_cases q with hk | ⟨id, item, snapshot, chunk, hh, hi, hsn, hlo, hlg, hd, hk⟩
  · exact hk.sound hs
  have hst := hf id item hh hi (by simp [hsn])
  obtain ⟨c, hc, hl⟩ := hs.received id item snapshot hi hst hsn
  cases hc.symm.trans hlo
  refine ⟨hlg ▸ ⟨⟨c, rfl, hl⟩, hs.delivers⟩, fun id' item' snapshot' hi' hs' hsn' => ?_⟩
  have ho := hk.items id' item' hi' hs'
  have hne : id ≠ id' := by
    rintro rfl
    cases hd.symm.trans hi'
    cases hs'
  rw [hlg, List.find?_cons_of_neg (by simp [Delivery.id, hne])]
  exact hs.received id' item' snapshot' ho hs' (hk.snapshot snapshot' hsn')

lemma step_cases (q : ChunkQueue) (op : Op) : (∃ chunk, op = .add chunk) ∨ op = .next ∨ Kept q (q.step op) := by
  cases op with
  | add chunk => exact .inl ⟨chunk, rfl⟩
  | next => exact .inr (.inl rfl)
  | enqueue ids => exact .inr (.inr (kept_foldl kept_enqueue ids (.refl q)))
  | dequeue => exact .inr (.inr (kept_dequeue q))
  | discard id => exact .inr (.inr (kept_discard q id))
  | discardSender peerID order => exact .inr (.inr (kept_discardSender peerID order q))
  | retry id => exact .inr (.inr (kept_retry q id))
  | retryAll order =>
    have hd : Kept q { q with applyCh := [], requestQueue := [] } := ⟨rfl, fun _ h => h, fun _ _ h _ => h, nofun⟩
    exact .inr (.inr (kept_foldl kept_retry order hd))
  | close => exact .inr (.inr ⟨rfl, nofun, fun _ _ h _ => h, fun _ h => h⟩)

lemma Sound.step (hs : Sound q) (op : Op) (hf : Fresh q op) : Sound (q.step op) := by
  rcases step_cases q op with ⟨chunk, rfl⟩ | rfl | hk
  · exact hs.add chunk
  · exact hs.next hf
  · exact hk.sound hs

lemma fresh_of_delivers (op : Op) (h : Delivers (q.step op).log) : Fresh q op := by
  cases op with
  | next =>
    intro id item hh hi ho
    obtain ⟨snapshot, hs⟩ := Option.isSome_iff_exists.mp ho
    obtain ⟨rest, hch⟩ := List.head?_eq_some_iff.mp hh
    by_contra hst
    have hl : q.next.1.log = .returned id none :: q.log := by simp [next, hch, hs, hi, load, hst]
    rw [step, hl] at h
    obtain ⟨⟨c, hc, -⟩, -⟩ := h
    cases hc
  | _ => trivial

/-- **The queue delivers what was added** over a sequence of operations exactly if, whenever `Next` takes an ID from the
channel of an open queue, the item still has the status that `Add` gave it. -/
theorem delivers_iff_fresh (snapshot : ℕ × ℕ) (ops : List Op) :
    (∀ done, done <+: ops → Delivers (run step { snapshot := some snapshot } done).log) ↔
      Admitted step Fresh { snapshot := some snapshot } ops :=
  admitted_iff (P := Sound) (fun _ hs => hs.delivers) (fun _ op hs => hs.step op)
    (fun _ op _ => fresh_of_delivers op) ⟨trivial, nofun⟩

/-- The request of a chunk that has just arrived times out: the chunk is queued and requested again before `Next` comes
to it, and `Next` returns no chunk and no error. -/
theorem requested_again_lost :
    let q := run step { snapshot := some (5, 1) }
      [.enqueue [[7]], .dequeue, .add (some ⟨5, 1, [7], [1, 2], "peer"⟩), .enqueue [[7]], .dequeue, .next]
    q.log = [.returned [7] none, .added ⟨5, 1, [7], [1, 2], "peer"⟩] ∧ ¬ Delivers q.log := by
  refine ⟨by decide, ?_⟩
  rintro ⟨⟨c, hc, -⟩, -⟩
  cases hc

/-! ### Discarding

`DiscardSender` looks at the chunks that wait to be requested, while the chunks of a peer that wait to be
applied have the status `received`; and a chunk that has not arrived has no file that `Discard` could remove. -/

def Silent (id : Bytes) (q : ChunkQueue) : Prop :=
  ∀ item, q.items id = some item → item.status = .received → id ∉ q.applyCh

def Refetches (q : ChunkQueue) (chunk : Chunk) : Prop :=
  let queued := (q.discard chunk.id).1.enqueue chunk.id
  let reached := run step queued (.replicate (queued.requestQueue.idxOf chunk.id) .dequeue)
  let added := reached.dequeue.1.add (some chunk)
  reached.dequeue.2 = .ok chunk.id ∧ added.2 = .ok true ∧
    (run step added.1 (.replicate (added.1.applyCh.idxOf chunk.id) .next)).next.2 = some (.ok (some chunk))

structure DiscardsWell (q : ChunkQueue) (snapshot : ℕ × ℕ) (order : List Bytes) : Prop where
  /-- Discarding returns no error, whatever the state of the chunk. -/
  discards : ∀ id, (q.discard id).2 = .ok ()
  /-- What the sender supplied and `Next` had not returned is not returned until it is added again. -/
  rejects : ∀ peerID id item, q.items id = some item → item.sender = peerID → item.status ≠ .done →
    ∀ ops, (∀ chunk, Op.add (some chunk) ∈ ops → chunk.id ≠ id) →
      ∀ chunk, (run step (discardSender peerID q order).1 ops).next.2 = some (.ok (some chunk)) → chunk.id ≠ id
  refetches : ∀ id data sender, q.Refetches ⟨snapshot.1, snapshot.2, id, data, sender⟩

lemma Kept.silent (h : Kept q q') (hs : Silent id q) : Silent id q' :=
  fun item hi hr hm => hs item (h.items id item hi hr) hr (h.applyCh id hm)

section

variable (hs : Silent id q)

include hs

lemma Silent.add (hne : chunk.id ≠ id) : Silent id (q.add (some chunk)).1 := by
  unfold ChunkQueue.add
  split
  · exact hs
  · exact hs
  next heq _ =>
  cases heq
  split
  · exact hs
  split_ifs
  · exact hs
  · exact hs
  · exact hs
  intro item hi hr hm
  simp only [set, update_of_ne hne.symm] at hi
  simp only [List.mem_append, List.mem_singleton, hne.symm, or_false] at hm
  exact hs item hi hr hm

lemma Silent.step (op : Op) (hop : ∀ chunk, op = .add (some chunk) → chunk.id ≠ id) :
    Silent id (q.step op) := by
  rcases step_cases q op with ⟨_ | chunk, rfl⟩ | rfl | hk
  · exact hs
  · exact hs.add (hop chunk rfl)
  · rcases next_cases q with hk | ⟨_, _, _, _, _, _, _, _, _, _, hk⟩
    · exact hk.silent hs
    · exact (hk.silent hs)
  · exact hk.silent hs

lemma silent_run (ops : List Op) (ho : ∀ chunk, Op.add (some chunk) ∈ ops → chunk.id ≠ id) :
    Silent id (run step q ops) := by
  induction ops generalizing q with
  | nil => exact hs
  | cons op ops ih =>
    exact ih (hs.step op fun chunk h => ho chunk (h ▸ List.mem_cons_self))
      fun chunk h => ho chunk (List.mem_cons_of_mem _ h)

lemma Silent.next_ne (h : q.next.2 = some (.ok (some chunk))) : chunk.id ≠ id := by
  rintro rfl
  unfold next at h
  split at h
  · cases h
  · cases h
  · cases h
  next id rest snapshot hch _ =>
  dsimp only at h
  split at h
  · cases h
  next item hi =>
  split at h
  · cases h
  next loaded hl =>
  cases h
  unfold load at hl
  split_ifs at hl with hst
  · cases hl
  split at hl
  · cases hl
  cases hl
  exact hs item hi (not_not.mp hst) (hch ▸ List.mem_cons_self)

end

lemma discardSender_received (peerID : String) (order : List Bytes) (hi : q.items id = some item)
    (hst : item.status = .received) : let q' := (discardSender peerID q order).1
    q'.items id = some item ∧ q'.applyCh = q.applyCh ∧ q'.snapshot = q.snapshot := by
  induction order generalizing q with
  | nil => exact ⟨hi, rfl, rfl⟩
  | cons id' rest ih =>
    have hd {item'} (hi' : q.items id' = some item') (hin : item'.status = .init) :
        (q.discard id').1.items id = some item ∧ (q.discard id').1.applyCh = q.applyCh ∧
          (q.discard id').1.snapshot = q.snapshot := by
      have hne : id ≠ id' := by
        rintro rfl
        cases hi.symm.trans hi'
        exact absurd (hin.symm.trans hst) (by decide)
      unfold discard
      split
      · exact ⟨by simp [set, update_of_ne hne, hi], rfl, rfl⟩
      · exact ⟨hi, rfl, rfl⟩
    unfold discardSender
    split
    · next item' hi' =>
      split
      · next hin =>
        obtain ⟨hk, hch, hs⟩ := hd hi' hin.2
        split
        · obtain ⟨hk', hc', hs'⟩ := ih hk
          exact ⟨hk', hc'.trans hch, hs'.trans hs⟩
        · exact ⟨hk, hch, hs⟩
      · exact ih hi
    · exact ih hi

lemma run_next_received {data : Bytes} (item : ChunkItem) (hs : q.snapshot = some snapshot)
    (hi : q.items id = some item) (hst : item.status = .received) (hf : item.file = some data) (hm : id ∈ q.applyCh) :
    (run step q (.replicate (q.applyCh.idxOf id) .next)).next.2 =
      some (.ok (some ⟨snapshot.1, snapshot.2, id, data, item.sender⟩)) := by
  let Waits (q : ChunkQueue) : Prop := q.snapshot = some snapshot ∧ q.items id = some item
  have hp (q : ChunkQueue) (id' rest) (h : Waits q) (hch : q.applyCh = id' :: rest) (hne : id' ≠ id) :
      Waits (q.step .next) ∧ (q.step .next).applyCh = rest := by
    unfold step next
    rw [hch, h.1]
    dsimp only
    split
    · exact ⟨⟨rfl, h.2⟩, rfl⟩
    split
    · exact ⟨⟨rfl, h.2⟩, rfl⟩
    · exact ⟨⟨rfl, by simp [set, update_of_ne hne.symm, h.2]⟩, rfl⟩
  obtain ⟨⟨hs, hi⟩, rest, hch⟩ := run_to_head (P := Waits) applyCh hp ⟨hs, hi⟩ hm
  simp [next, hch, hs, hi, load, hst, hf]

lemma run_dequeue (hi : (q.items id).isSome) (hm : id ∈ q.requestQueue) :
    let reached := run step q (.replicate (q.requestQueue.idxOf id) .dequeue)
    reached.dequeue.2 = .ok id ∧ reached.dequeue.1.snapshot = q.snapshot ∧
      ∃ item, reached.dequeue.1.items id = some item ∧ item.status = .inProgress := by
  let Waits (q' : ChunkQueue) : Prop := q'.snapshot = q.snapshot ∧ (q'.items id).isSome
  have hp (q : ChunkQueue) (id' rest) (h : Waits q) (hrq : q.requestQueue = id' :: rest) (hne : id' ≠ id) :
      Waits (q.step .dequeue) ∧ (q.step .dequeue).requestQueue = rest := by
    unfold step dequeue
    rw [hrq]
    dsimp only
    split
    · exact ⟨h, rfl⟩
    · exact ⟨⟨h.1, by simpa [set, update_of_ne hne.symm] using h.2⟩, rfl⟩
  obtain ⟨⟨hs, hi⟩, rest, hrq⟩ := run_to_head (P := Waits) requestQueue hp ⟨rfl, hi⟩ hm
  obtain ⟨item, hi⟩ := Option.isSome_iff_exists.mp hi
  simp [dequeue, hrq, hi, hs, set]

lemma refetched (ho : q.snapshot = some snapshot) (id data : Bytes) (sender : String) :
    q.Refetches ⟨snapshot.1, snapshot.2, id, data, sender⟩ := by
  unfold Refetches
  intro queued reached added
  have hq : queued.snapshot = some snapshot ∧ (queued.items id).isSome ∧ id ∈ queued.requestQueue := by
    have hd : (q.discard id).1.snapshot = some snapshot := by
      unfold discard
      split <;> exact ho
    simp only [queued, enqueue]
    split
    · next hso => exact ⟨hd, hso, by simp⟩
    · exact ⟨hd, by simp [set], by simp [set]⟩
  obtain ⟨hr, hs, item, hi, hst⟩ := run_dequeue hq.2.1 hq.2.2
  rw [hq.1] at hs
  have ha : added = ({ reached.dequeue.1.set id ⟨some data, sender, .received⟩ with
      applyCh := reached.dequeue.1.applyCh ++ [id],
      log := .added ⟨snapshot.1, snapshot.2, id, data, sender⟩ :: reached.dequeue.1.log }, .ok true) := by
    simp [added, add, hs, reached, hi, hst]
  rw [ha]
  exact ⟨hr, rfl, run_next_received ⟨some data, sender, .received⟩ hs (by simp [set]) rfl rfl (by simp)⟩

/-- **Discarding does what it is for** in an open queue exactly if every chunk of the queue has its file and none
waits to be applied. -/
theorem discardsWell_iff {snapshot : ℕ × ℕ} (hopen : q.snapshot = some snapshot) (order : List Bytes) :
    DiscardsWell q snapshot order ↔ (∀ id item, q.items id = some item → item.file.isSome) ∧ ∀ id, Silent id q := by
  constructor
  · intro h
    have hf : ∀ id item, q.items id = some item → item.file.isSome := by
      intro id item hi
      have hd := h.discards id
      simp only [discard, hopen, hi, Go.failIf] at hd
      split_ifs at hd with hfi
      · cases hd
      · exact Option.isSome_iff_ne_none.mpr hfi
    refine ⟨hf, fun id item hi hs hm => ?_⟩
    obtain ⟨data, hfi⟩ := Option.isSome_iff_exists.mp (hf id item hi)
    obtain ⟨hi', hch, hsn⟩ := discardSender_received item.sender order hi hs
    have hn := run_next_received item (hsn.trans hopen) hi' hs hfi (hch ▸ hm)
    refine h.rejects item.sender id item hi rfl (by simp [hs]) _ (fun chunk ha => ?_) _ hn rfl
    cases List.eq_of_mem_replicate ha
  · rintro ⟨hf, hsi⟩
    refine ⟨fun id => ?_, fun peerID id item _ _ _ ops ho chunk => ?_, refetched hopen⟩
    · unfold discard
      split
      · next item _ hi => exact if_neg (Option.isSome_iff_ne_none.mp (hf id item hi))
      · rfl
    · have hk := (kept_discardSender peerID order q).silent (hsi id)
      exact (silent_run hk ops ho).next_ne

/-- Once every chunk was returned, discarding does what it is for. -/
theorem returned_discardsWell :
    let q := run step { snapshot := some (5, 1) }
      [.enqueue [[7]], .dequeue, .add (some ⟨5, 1, [7], [1, 2], "peer"⟩), .next]
    q.applyCh = [] ∧ DiscardsWell q (5, 1) [[7]] := by
  refine ⟨rfl, (discardsWell_iff rfl [[7]]).mpr ⟨fun id item hi => ?_, fun id item _ _ hm => nomatch hm⟩⟩
  simp only [run_cons, run_nil, step, List.foldl, enqueue, dequeue, add, next, set, load] at hi
  by_cases hid : id = [7]
  · subst hid
    cases hi
    rfl
  · simp [Function.update_of_ne hid] at hi

/-- A chunk that was requested and has not arrived cannot be discarded, and the chunk of a rejected sender that waits to
be applied is returned. -/
theorem requested_not_discarded :
    let requested := run step { snapshot := some (5, 1) } [.enqueue [[7]], .dequeue]
    let rejected := run step requested [.add (some ⟨5, 1, [7], [1, 2], "peer"⟩), .discardSender "peer" [[7]]]
    (requested.discard [7]).2 = Go.fail (.remove [7]) ∧
      rejected.next.2 = some (.ok (some ⟨5, 1, [7], [1, 2], "peer"⟩)) ∧ ¬ DiscardsWell requested (5, 1) [[7]] := by
  refine ⟨rfl, rfl, fun h => ?_⟩
  cases h.discards [7]

/-! ### Waiting for a chunk -/

/-- The queue with the channels of `WaitFor`, which are numbered. An `Add` leaves the lock to send the ID to the apply
channel and comes back to serve the waiters: `sending` are the IDs of the `Add`s in between. `served` records the
channels that were closed, with the ID they were sent before that. -/
structure Waited where
  queue : ChunkQueue
  made : ℕ := 0
  waitChs : List (Bytes × ℕ) := []
  sending : List Bytes := []
  served : List (ℕ × Option Bytes) := []

namespace Waited

open List

inductive Turn where
  | op (op : Op)
  | waitFor (id : Bytes)
  /-- The last part of an `Add`. -/
  | signal (id : Bytes)
  /-- An `Add` that finds the queue closed. -/
  | abandon (id : Bytes)

def step (s : Waited) : Turn → Waited
  | .op op =>
    let after := { s with queue := s.queue.step op }
    match op with
    | .add chunk =>
      match chunk, (s.queue.add chunk).2 with
      | some chunk, .ok true => { after with sending := chunk.id :: s.sending }
      | _, _ => after
    | .close =>
      if s.queue.snapshot = none then s
      else { after with waitChs := [], served := s.waitChs.map (fun w => (w.2, none)) ++ s.served }
    | _ => after
  | .waitFor id =>
    if s.queue.snapshot = none then { s with made := s.made + 1, served := (s.made, none) :: s.served }
    else if s.queue.items id = none then { s with made := s.made + 1, served := (s.made, some id) :: s.served }
    else { s with made := s.made + 1, waitChs := (id, s.made) :: s.waitChs }
  | .signal id =>
    if id ∈ s.sending then
      { s with
        sending := s.sending.erase id
        waitChs := s.waitChs.filter (·.1 ≠ id)
        served := (s.waitChs.filter (·.1 = id)).map (fun w => (w.2, some id)) ++ s.served }
    else s
  | .abandon id => if s.queue.snapshot = none then { s with sending := s.sending.erase id } else s

def Arrived (s : Waited) (id : Bytes) : Prop :=
  ∃ item, s.queue.items id = some item ∧ (item.status = .received ∨ item.status = .done)

def Once (s : Waited) : Prop := s.waitChs.map Prod.snd ++ s.served.map Prod.fst ~ range s.made

lemma Once.step {s : Waited} (h : Once s) (t : Turn) : Once (s.step t) := by
  have hm {l l' : List ℕ} (hl : l ++ l' ~ range s.made) : l ++ s.made :: l' ~ range (s.made + 1) := by
    rw [range_succ]
    exact (perm_middle.trans (hl.cons _)).trans (perm_append_singleton _ _).symm
  cases t with
  | op op =>
    cases op with
    | add chunk =>
      simp only [Waited.step]
      split <;> exact h
    | close =>
      simp only [Waited.step]
      split_ifs
      · exact h
      · simpa [Once, comp_def] using h
    | _ => exact h
  | waitFor id =>
    simp only [Waited.step]
    split_ifs
    · exact hm h
    · exact hm h
    · exact perm_middle.symm.trans (hm h)
  | signal id =>
    simp only [Waited.step]
    split_ifs
    · have hp := (filter_append_perm (·.1 = id) s.waitChs).map Prod.snd
      refine Perm.trans ?_ h
      simp only [map_append, map_map, comp_def, ← append_assoc] at hp ⊢
      refine Perm.append_right _ (perm_append_comm.trans (Perm.trans ?_ hp))
      simp
    · exact h
  | abandon id =>
    simp only [Waited.step]
    split_ifs <;> exact h

/-- **Waiters.** In every interleaving each channel waits or was closed once; `Close` leaves none waiting, and later ones
are closed at once; an `Add` serves all that wait for its chunk. But a waiter for a chunk that has already arrived is
served at once exactly in the cases where there is none: it is registered like any other. -/
theorem waiters_served (snapshot : ℕ × ℕ) (turns : List Turn) (id : Bytes) :
    let s := run step { queue := { snapshot := some snapshot } } turns
    s.Once ∧ (s.queue.snapshot.isSome → (s.step (.op .close)).waitChs = []) ∧
      (s.queue.snapshot = none → (s.step (.waitFor id)).waitChs = s.waitChs) ∧
      (id ∈ s.sending → ∀ w, (id, w) ∈ s.waitChs → (w, some id) ∈ (s.step (.signal id)).served) ∧
      ((s.queue.snapshot.isSome ∧ s.Arrived id → (s.made, some id) ∈ (s.step (.waitFor id)).served) ↔
        ¬ (s.queue.snapshot.isSome ∧ s.Arrived id)) := by
  intro s
  have ho : Once s := run_invariant (P := Once) (fun _ t h => h.step t) turns (Perm.refl _)
  refine ⟨ho, fun h => ?_, fun h => by simp [step, h], fun hi w hw => ?_, fun h ha => ?_, fun h ha => absurd ha h⟩
  · simp only [step, if_neg (Option.isSome_iff_ne_none.mp h)]
  · simp only [step, if_pos hi, mem_append, mem_map, mem_filter, decide_eq_true_eq]
    exact .inl ⟨(id, w), ⟨hw, rfl⟩, rfl⟩
  · have hm := h ha
    obtain ⟨hs, item, hi, -⟩ := ha
    simp only [step, if_neg (Option.isSome_iff_ne_none.mp hs), hi] at hm
    have := ho.mem_iff.mp (mem_append_right _ (mem_map_of_mem hm))
    simp at this

/-- The chunk arrives before `WaitFor` is called: nothing is left that would serve the waiter. -/
theorem late_waiter_waits :
    let s := run step { queue := { snapshot := some (5, 1) } } [.op (.enqueue [[7]]), .op .dequeue,
      .op (.add (some ⟨5, 1, [7], [1, 2], "peer"⟩)), .signal [7], .waitFor [7]]
    s.queue.items [7] = some ⟨some [1, 2], "peer", .received⟩ ∧ s.sending = [] ∧ s.waitChs = [([7], 0)] ∧ s.served = [] := by
  decide

end Waited

end ChunkQueue

end Tenderdash.Statesync
