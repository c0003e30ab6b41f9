import Tenderdash.Lib.Run

/-!
The block queue of `internal/statesync`: heights are handed to fetchers from the top down, the blocks
they bring are held until the verifier, a single thread, has come to their height, and the verifier
says of each block whether it counts.

The queue talks to its users over channels that carry one value each. Two fields stand for the far ends
of these channels, `handed` for the heights that were sent to fetchers and `verifying` for the block
that was sent to the verifier: a value is there from the send until its receiver comes back with it.

The calls of fetchers and verifier in any order are the runs of `step`; `Disciplined` says what a
caller promises. `SameEnd` is the frame of the calls that have nothing to do with the end of the run.
-/

namespace Tenderdash.Statesync

/-- What the queue and the verify loop read of a light block. `lastBlockID` is the hash of the header
below. -/
structure LightBlock (η : Type*) where
  height : ℤ
  time : ℤ
  lastBlockID : η
  deriving DecidableEq, Repr

structure LightBlockResponse (η π : Type*) where
  block : LightBlock η
  peer : π
  connID : ℕ
  deriving DecidableEq, Repr

inductive QueueError (ε : Type*) where
  | terminal (err : ε)
  | maxRetriesExceeded (maxRetries target reached : ℤ)
  deriving DecidableEq, Repr

/-! ### The heap of failed heights -/

namespace MaxIntHeap

/-- `Less` of the type `maxIntHeap`. -/
def Less (i j : ℤ) : Prop := i < j

instance : DecidableRel Less := fun i j => inferInstanceAs (Decidable (i < j))

/-- `heap.Push`. The heap is kept in the order in which `heap.Pop` gives its elements back: none is
`Less` than one before it. -/
def push (h : ℤ) (heap : List ℤ) : List ℤ := heap.orderedInsert (fun i j => ¬ Less j i) h

lemma count_push (a h : ℤ) (heap : List ℤ) : (push h heap).count a = heap.count a + if h = a then 1 else 0 := by
  rw [push, (List.perm_orderedInsert _ h heap).count_eq, List.count_cons]
  simp

lemma pairwise_push {heap : List ℤ} (hh : heap.Pairwise (· ≤ ·)) (h : ℤ) : (push h heap).Pairwise (· ≤ ·) := by
  have hle : (fun i j : ℤ => ¬ Less j i) = (· ≤ ·) := by
    funext i j
    simp [Less]
  simp only [push, hle]
  exact hh.orderedInsert h heap

end MaxIntHeap

/-! ### The queue -/

structure BlockQueue (η π ι ε : Type*) where
  fetchHeight : ℤ
  verifyHeight : ℤ
  maxFetchAhead : ℤ
  initialHeight : ℤ
  stopHeight : ℤ
  stopTime : ℤ
  terminal : Option (LightBlock η)
  failed : List ℤ
  retries : ℤ
  maxRetries : ℤ
  terminalErr : Option ε
  pending : ℤ → Option (LightBlockResponse η π)
  /-- A verifier waits on the channel. -/
  verifyCh : Bool
  waiters : List ι
  doneCh : Bool
  handed : List (ι × ℤ)
  verifying : Option (LightBlockResponse η π)

namespace BlockQueue

variable {η π ι ε : Type*}

/-- A bound below one would allocate nothing. -/
def newBlockQueue (startHeight stopHeight initialHeight stopTime maxRetries maxFetchAhead : ℤ) :
    BlockQueue η π ι ε where
  fetchHeight := startHeight
  verifyHeight := startHeight
  maxFetchAhead := max maxFetchAhead 1
  initialHeight := initialHeight
  stopHeight := stopHeight
  stopTime := stopTime
  terminal := none
  failed := []
  retries := 0
  maxRetries := maxRetries
  terminalErr := none
  pending := fun _ => none
  verifyCh := false
  waiters := []
  doneCh := false
  handed := []
  verifying := none

variable (q : BlockQueue η π ι ε) (height : ℤ) (b : LightBlock η)

/-- The test of `add` by which a block ends the run. -/
def Ends : Prop :=
  b.height ≤ q.stopHeight ∧ b.time < q.stopTime ∨ b.height = q.initialHeight

instance (q : BlockQueue η π ι ε) (b : LightBlock η) : Decidable (q.Ends b) :=
  inferInstanceAs (Decidable (_ ∨ _))

def BelowTerminal : Prop :=
  ∃ t ∈ q.terminal, height < t.height

instance (q : BlockQueue η π ι ε) (height : ℤ) : Decidable (q.BelowTerminal height) :=
  match ht : q.terminal with
  | none => isFalse (by simp [BelowTerminal, ht])
  | some t => decidable_of_iff (height < t.height) (by simp [BelowTerminal, ht])

def deliver (l : LightBlockResponse η π) : BlockQueue η π ι ε :=
  if l.block.height = q.verifyHeight ∧ q.verifyCh then
    { q with verifyCh := false, verifying := some l }
  else
    { q with pending := Function.update q.pending l.block.height (some l) }

/-- The block is marked as the last one when it comes in, before it is verified. -/
def mark : BlockQueue η π ι ε :=
  if q.Ends b then { q with terminal := some b } else q

def add (l : LightBlockResponse η π) : BlockQueue η π ι ε :=
  if q.doneCh then q
  else if q.BelowTerminal l.block.height then q
  else (q.deliver l).mark l.block

/-- The next height a fetcher may take. A failed one comes first. -/
def allocate : Option (ℤ × BlockQueue η π ι ε) :=
  match q.failed with
  | h :: heap => some (h, { q with failed := heap })
  | [] =>
    if q.terminal.isSome ∨ q.fetchHeight < q.initialHeight then none
    else if q.verifyHeight - q.fetchHeight ≥ q.maxFetchAhead then none
    else some (q.fetchHeight, { q with fetchHeight := q.fetchHeight - 1 })

def hand (w : ι) (height : ℤ) : BlockQueue η π ι ε :=
  { q with handed := (w, height) :: q.handed }

def nextHeight (w : ι) : BlockQueue η π ι ε :=
  match q.allocate with
  | some (height, q) => q.hand w height
  | none => { q with waiters := q.waiters ++ [w] }

/-- The loop of `_resumeFetchers` over the waiters. -/
def resume (q : BlockQueue η π ι ε) : List ι → BlockQueue η π ι ε
  | [] => q
  | w :: ws =>
    match q.allocate with
    | none => q
    | some (height, q) => resume ({ q with waiters := ws }.hand w height) ws

def resumeFetchers : BlockQueue η π ι ε := q.resume q.waiters

def verifyNext : BlockQueue η π ι ε :=
  if q.doneCh then q
  else
    match q.pending q.verifyHeight with
    | some l => { q with verifying := some l, pending := Function.update q.pending q.verifyHeight none }
    | none => { q with verifyCh := true }

/-- `_closeChannels` -/
def closeChannels : BlockQueue η π ι ε := { q with doneCh := true }

/-- `_requeue` -/
def requeueHeight : BlockQueue η π ι ε :=
  if q.BelowTerminal height then q
  else
    match q.waiters with
    | w :: ws => { q with waiters := ws }.hand w height
    | [] => { q with failed := MaxIntHeap.push height q.failed }

def retry : BlockQueue η π ι ε :=
  if q.doneCh then q
  else if q.BelowTerminal height then q
  else
    let q := { q with retries := q.retries + 1 }
    if q.retries ≥ q.maxRetries then q.closeChannels else q.requeueHeight height

def requeue : BlockQueue η π ι ε :=
  if q.doneCh then q else q.requeueHeight height

/-- One turn of the loop of `discardPeer`. -/
def discard [DecidableEq π] (peer : π) (q : BlockQueue η π ι ε) (height : ℤ) : BlockQueue η π ι ε :=
  match q.pending height with
  | none => q
  | some resp =>
    if resp.peer = peer then
      { q with pending := Function.update q.pending height none }.requeueHeight height
    else q

/-- `order` is the order in which the map of pending blocks is walked, which the language leaves open. -/
def discardPeer [DecidableEq π] (q : BlockQueue η π ι ε) (order : List ℤ) (peer : π) : BlockQueue η π ι ε :=
  if q.doneCh then q else order.foldl (discard peer) q

def success : BlockQueue η π ι ε :=
  let q := if ∃ t ∈ q.terminal, q.verifyHeight = t.height then q.closeChannels else q
  { q with verifyHeight := q.verifyHeight - 1 }.resumeFetchers

def fail (err : ε) : BlockQueue η π ι ε :=
  if q.doneCh then q
  else { q with terminalErr := q.terminalErr <|> some err }.closeChannels

def error : Option (QueueError ε) :=
  match q.terminalErr with
  | some err => some (.terminal err)
  | none =>
    if q.retries ≥ q.maxRetries then
      some (.maxRetriesExceeded q.maxRetries q.stopHeight q.verifyHeight)
    else none

def close : BlockQueue η π ι ε := q.closeChannels

/-! ### Runs -/

/-- The calls that fetchers and the verifier make. `rejected` and `refused` are the verifier's `retry`
and `requeue` of the block it has. -/
inductive Op (η π ι ε : Type*) where
  | nextHeight (w : ι)
  | add (w : ι) (l : LightBlockResponse η π)
  | retry (w : ι) (height : ℤ)
  | requeue (w : ι) (height : ℤ)
  | discardPeer (order : List ℤ) (peer : π)
  | verifyNext
  | success
  | rejected
  | refused
  | fail (err : ε)
  | close

def giveBack [DecidableEq ι] (q : BlockQueue η π ι ε) (w : ι) (height : ℤ) : BlockQueue η π ι ε :=
  { q with handed := q.handed.erase (w, height) }

def release : BlockQueue η π ι ε := { q with verifying := none }

def underVerification : Option ℤ := q.verifying.map (·.block.height)

/-- A fetcher answers for a height it was handed and brings the block of that height; there is one
verifier, which asks for a block when it has none and judges a block when it has one. -/
def Disciplined : Op η π ι ε → Prop
  | .add w l => (w, l.block.height) ∈ q.handed
  | .retry w height | .requeue w height => (w, height) ∈ q.handed
  | .verifyNext => q.verifying = none ∧ q.verifyCh = false
  | .success | .rejected | .refused => q.verifying.isSome
  | _ => True

instance [DecidableEq ι] [DecidableEq η] [DecidableEq π] (q : BlockQueue η π ι ε) (op : Op η π ι ε) :
    Decidable (q.Disciplined op) :=
  match op with
  | .add .. | .retry .. | .requeue .. => inferInstanceAs (Decidable (_ ∈ _))
  | .verifyNext => inferInstanceAs (Decidable (_ ∧ _))
  | .success | .rejected | .refused => inferInstanceAs (Decidable (_ = true))
  | .nextHeight _ | .discardPeer .. | .fail _ | .close => inferInstanceAs (Decidable True)

variable [DecidableEq ι] [DecidableEq π]

def step (q : BlockQueue η π ι ε) : Op η π ι ε → BlockQueue η π ι ε
  | .nextHeight w => q.nextHeight w
  | .add w l => (q.giveBack w l.block.height).add l
  | .retry w height => (q.giveBack w height).retry height
  | .requeue w height => (q.giveBack w height).requeue height
  | .discardPeer order peer => q.discardPeer order peer
  | .verifyNext => q.verifyNext
  | .success => q.release.success
  | .rejected => q.underVerification.elim q q.release.retry
  | .refused => q.underVerification.elim q q.release.requeue
  | .fail err => q.fail err
  | .close => q.close

/-! ### What the calls do to the end of the run -/

omit [DecidableEq ι] [DecidableEq π] in
lemma allocate_cases {q q' : BlockQueue η π ι ε} {height : ℤ} (h : q.allocate = some (height, q')) :
    (∃ heap, q.failed = height :: heap ∧ q' = { q with failed := heap }) ∨
      q.failed = [] ∧ q.terminal = none ∧ q.initialHeight ≤ q.fetchHeight ∧ height = q.fetchHeight ∧
        q.verifyHeight - q.fetchHeight < q.maxFetchAhead ∧
        q' = { q with fetchHeight := q.fetchHeight - 1 } := by
  unfold allocate at h
  cases hh : q.failed with
  | cons a heap =>
    simp only [hh, Option.some.injEq, Prod.mk.injEq] at h
    obtain ⟨rfl, rfl⟩ := h
    exact .inl ⟨heap, rfl, rfl⟩
  | nil =>
    simp only [hh] at h
    split at h
    · simp at h
    rename_i ho
    split at h
    · simp at h
    rename_i hr
    obtain ⟨rfl, rfl⟩ := h
    simp only [not_or, Option.not_isSome_iff_eq_none, not_lt] at ho
    exact .inr ⟨rfl, ho.1, ho.2, rfl, not_le.mp hr, rfl⟩

structure SameEnd (q q' : BlockQueue η π ι ε) : Prop where
  doneCh : q'.doneCh = q.doneCh
  terminal : q'.terminal = q.terminal
  terminalErr : q'.terminalErr = q.terminalErr
  retries : q'.retries = q.retries
  maxRetries : q'.maxRetries = q.maxRetries
  stopHeight : q'.stopHeight = q.stopHeight
  stopTime : q'.stopTime = q.stopTime
  initialHeight : q'.initialHeight = q.initialHeight
  verifyHeight : q'.verifyHeight = q.verifyHeight

section SameEnd

omit [DecidableEq ι] [DecidableEq π]

section

variable (q : BlockQueue η π ι ε) (l : LightBlockResponse η π)

lemma SameEnd.rest {q : BlockQueue η π ι ε} {fetchHeight failed pending verifyCh waiters handed verifying} :
    SameEnd q { q with fetchHeight, failed, pending, verifyCh, waiters, handed, verifying } :=
  ⟨rfl, rfl, rfl, rfl, rfl, rfl, rfl, rfl, rfl⟩

lemma SameEnd.refl : SameEnd q q := .rest

lemma SameEnd.trans {q q' q'' : BlockQueue η π ι ε} (h : SameEnd q q') (h' : SameEnd q' q'') : SameEnd q q'' :=
  ⟨h'.doneCh.trans h.doneCh, h'.terminal.trans h.terminal, h'.terminalErr.trans h.terminalErr,
    h'.retries.trans h.retries, h'.maxRetries.trans h.maxRetries, h'.stopHeight.trans h.stopHeight,
    h'.stopTime.trans h.stopTime, h'.initialHeight.trans h.initialHeight,
    h'.verifyHeight.trans h.verifyHeight⟩

lemma sameEnd_allocate {q q' : BlockQueue η π ι ε} {height : ℤ} (h : q.allocate = some (height, q')) :
    SameEnd q q' := by
  rcases allocate_cases h with ⟨heap, -, rfl⟩ | ⟨-, -, -, -, -, rfl⟩ <;> exact .rest

lemma sameEnd_nextHeight (w : ι) : SameEnd q (q.nextHeight w) := by
  unfold nextHeight
  split
  · rename_i height q' ha
    exact (sameEnd_allocate ha).trans .rest
  · exact .rest

lemma sameEnd_resume (ws : List ι) : SameEnd q (q.resume ws) := by
  induction ws generalizing q with
  | nil => exact SameEnd.refl q
  | cons w ws ih =>
    unfold resume
    split
    · exact SameEnd.refl q
    rename_i height q' ha
    have hs : SameEnd q' ({ q' with waiters := ws }.hand w height) := .rest
    exact ((sameEnd_allocate ha).trans hs).trans (ih _)

lemma sameEnd_requeueHeight (height : ℤ) : SameEnd q (q.requeueHeight height) := by
  unfold requeueHeight
  split
  · exact SameEnd.refl q
  · split <;> exact .rest

lemma sameEnd_requeue (height : ℤ) : SameEnd q (q.requeue height) := by
  unfold requeue
  split
  · exact SameEnd.refl q
  · exact sameEnd_requeueHeight q height

lemma sameEnd_discard [DecidableEq π] (peer : π) (height : ℤ) : SameEnd q (q.discard peer height) := by
  unfold discard
  split
  · exact SameEnd.refl q
  split
  · have ht : SameEnd q { q with pending := Function.update q.pending height none } :=
      .rest
    exact ht.trans (sameEnd_requeueHeight _ height)
  · exact SameEnd.refl q

lemma sameEnd_discardPeer [DecidableEq π] (order : List ℤ) (peer : π) : SameEnd q (q.discardPeer order peer) := by
  unfold discardPeer
  split
  · exact SameEnd.refl q
  clear * -
  induction order generalizing q with
  | nil => exact SameEnd.refl q
  | cons height order ih => exact (sameEnd_discard q peer height).trans (ih _)

lemma sameEnd_verifyNext : SameEnd q q.verifyNext := by
  unfold verifyNext
  split
  · exact SameEnd.refl q
  · split <;> exact .rest

lemma sameEnd_deliver : SameEnd q (q.deliver l) := by
  unfold deliver
  split <;> exact .rest

lemma add_cases : SameEnd q (q.add l) ∨ q.Ends l.block ∧ SameEnd { q with terminal := some l.block } (q.add l) := by
  unfold add
  split
  · exact .inl (SameEnd.refl q)
  split
  · exact .inl (SameEnd.refl q)
  have hd := sameEnd_deliver q l
  unfold mark
  split
  · rename_i he
    refine .inr ⟨?_, ?_⟩
    · rwa [Ends, hd.stopHeight, hd.stopTime, hd.initialHeight] at he
    exact { hd with terminal := rfl }
  · exact .inl hd

lemma retry_cases (height : ℤ) :
    SameEnd q (q.retry height) ∨ SameEnd { q with retries := q.retries + 1 } (q.retry height) ∨
      q.maxRetries ≤ q.retries + 1 ∧ SameEnd { q with retries := q.retries + 1, doneCh := true } (q.retry height) := by
  unfold retry
  split
  · exact .inl (SameEnd.refl q)
  split
  · exact .inl (SameEnd.refl q)
  dsimp only
  split
  · rename_i hs
    exact .inr (.inr ⟨hs, SameEnd.refl _⟩)
  · exact .inr (.inl (sameEnd_requeueHeight _ height))

lemma success_sameEnd :
    SameEnd { q with
      verifyHeight := q.verifyHeight - 1
      doneCh := q.doneCh || decide (∃ t ∈ q.terminal, q.verifyHeight = t.height) } q.success := by
  refine SameEnd.trans ?_ (sameEnd_resume ..)
  by_cases hl : ∃ t ∈ q.terminal, q.verifyHeight = t.height
  · simp only [if_pos hl, decide_eq_true hl, Bool.or_true]
    exact .rest
  simp only [if_neg hl, decide_eq_false hl, Bool.or_false]
  exact .rest

end

end SameEnd

lemma doneCh_step {q : BlockQueue η π ι ε} (hd : q.doneCh = true) (op : Op η π ι ε) : (q.step op).doneCh = true := by
  have hr : ∀ (q : BlockQueue η π ι ε) height, q.doneCh = true → (q.retry height).doneCh = true := by
    intro q height hd
    simp [retry, hd]
  cases op with
  | nextHeight w => rw [← hd]; exact (sameEnd_nextHeight q w).doneCh
  | add w l => simp [step, add, giveBack, hd]
  | retry w height => exact hr _ _ hd
  | requeue w height => rw [← hd]; exact (sameEnd_requeue _ height).doneCh
  | discardPeer order peer => rw [← hd]; exact (sameEnd_discardPeer q order peer).doneCh
  | verifyNext => rw [← hd]; exact (sameEnd_verifyNext q).doneCh
  | success =>
    refine (success_sameEnd q.release).doneCh.trans ?_
    simp [release, hd]
  | rejected =>
    unfold step
    cases q.underVerification with
    | none => exact hd
    | some height => exact hr _ _ hd
  | refused =>
    unfold step
    cases q.underVerification with
    | none => exact hd
    | some height => exact (sameEnd_requeue q.release height).doneCh.trans hd
  | fail err => simp [step, fail, hd]
  | close => rfl

end BlockQueue

end Tenderdash.Statesync
