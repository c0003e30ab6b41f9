import Tenderdash.Blocksync.Window

/-!
The requests outstanding at a peer, and the count of them that the peer store keeps.

A reservation counts one up and a result one down. The count goes with the peer's record: a peer that is removed and
added again starts at zero while requests made before are still outstanding, and their results then count down what
was asked for since.
-/

namespace Tenderdash.Blocksync

open Lib.Run List Option PeerStore

namespace PeerStore

lemma lookup_update (peers : PeerStore) (peerID : NodeID) (f : PeerData → PeerData) (r : NodeID) :
    (peers.update peerID f).lookup r = (peers.lookup r).map fun peer => if r = peerID then f peer else peer := by
  unfold update
  induction peers with
  | nil => rfl
  | cons entry rest ih =>
    obtain ⟨id, peer⟩ := entry
    by_cases hid : id = peerID
    · by_cases hr : r = id
      · simp [hid, hr]
      · have hb : (r == id) = false := by simpa using hr
        simp only [map_cons, if_pos hid, lookup_cons, hb]
        exact ih
    · by_cases hr : r = id
      · simp [hid, hr]
      · have hb : (r == id) = false := by simpa using hr
        simp only [map_cons, if_neg hid, lookup_cons, hb]
        exact ih

lemma lookup_delete (peers : PeerStore) (peerID r : NodeID) :
    (peers.delete peerID).lookup r = if r = peerID then none else peers.lookup r := by
  unfold delete
  rw [Lib.lookup_filter_key peers (fun id => id != peerID)]
  by_cases hr : r = peerID <;> simp [hr]

end PeerStore

def Producer.jobs (peerID : NodeID) : Producer → ℕ
  | .sending job => if job.peerID = peerID then 1 else 0
  | _ => 0

namespace Synchronizer

variable {s t : Synchronizer} {event : Event} {r : NodeID} (peerID : NodeID)

def jobsOf (s : Synchronizer) (peerID : NodeID) : ℕ :=
  s.inFlight.countP (fun job => job.peerID = peerID) + s.producer.jobs peerID

def account (s : Synchronizer) (peerID : NodeID) : Option ℤ × ℕ :=
  ((s.peerStore.lookup peerID).map (·.numPending), s.jobsOf peerID)

inductive Books (event : Event) (peerID : NodeID) : Option ℤ × ℕ → Option ℤ × ℕ → Prop
  | same {a : Option ℤ × ℕ} : Books event peerID a a
  | reserved {n : ℤ} {k : ℕ} (h : n < maxPendingRequestsPerPeer) :
    Books event peerID (some n, k) (some (max 0 (n + 1)), k + 1)
  | answered {p : Option ℤ} {k : ℕ} : Books event peerID (p, k + 1) (p.map fun n => max 0 (n + -1), k)
  | added {base height : ℤ} {k : ℕ} (h : event = .addPeer peerID base height) : Books event peerID (none, k) (some 0, k)
  | deleted {p : Option ℤ} {k : ℕ} : Books event peerID (p, k) (none, k)

lemma Books.of_eq (hpe : t.peerStore = s.peerStore) (hf : t.inFlight = s.inFlight)
    (hp : t.producer.jobs r = s.producer.jobs r) : Books event r (s.account r) (t.account r) := by
  rw [account, account, jobsOf, jobsOf, hpe, hf, hp]
  exact .same

lemma peerStore_consumeFailed (s : Synchronizer) (job : Job) :
    (s.consumeFailed job).peerStore = s.peerStore.update job.peerID fun peer =>
      { peer.addPending (-1) with numFailures := peer.numFailures + 1 } := rfl

lemma peerStore_consumeMissing (s : Synchronizer) (job : Job) :
    (s.consumeMissing job).peerStore = s.peerStore.update job.peerID fun peer =>
      { peer.addPending (-1) with missingThrough := max peer.missingThrough job.height } := rfl

lemma peerStore_consumeReceived (s : Synchronizer) (job : Job) (size : ℕ) :
    (s.consumeReceived job size).peerStore = s.peerStore.update job.peerID fun peer =>
      (peer.addPending (-1)).resetFailures := rfl

lemma Books.of_result {job : Job} {f : PeerData → PeerData} (hj : job ∈ s.inFlight)
    (hf : ∀ peer, (f peer).numPending = max 0 (peer.numPending + -1))
    (hpe : t.peerStore = s.peerStore.update job.peerID f) (hfl : t.inFlight = s.inFlight.erase job)
    (hp : t.producer = s.producer) : Books event r (s.account r) (t.account r) := by
  rw [account, account, jobsOf, jobsOf, hpe, hfl, hp, lookup_update, countP_erase, Option.map_map]
  by_cases hr : r = job.peerID
  · have hpo : 0 < s.inFlight.countP (fun job => job.peerID = r) := countP_pos_iff.mpr ⟨job, hj, by simp [hr]⟩
    have hc : s.inFlight.countP (fun job => job.peerID = r) + s.producer.jobs r =
        s.inFlight.countP (fun job => job.peerID = r) - 1 + s.producer.jobs r + 1 := by omega
    rw [hc, if_pos ⟨hj, by simp [hr]⟩]
    have hm : ((fun peer : PeerData => peer.numPending) ∘ fun peer => if r = job.peerID then f peer else peer) =
        (fun n => max 0 (n + -1)) ∘ (·.numPending) := funext fun peer => by simp [hr, hf]
    rw [hm, ← Option.map_map]
    exact .answered
  · rw [if_neg (by simp [Ne.symm hr])]
    simp only [if_neg hr]
    exact .same

lemma Books.of_delete (hp : t.peerStore = s.peerStore.delete peerID)
    (hj : t.jobsOf r = s.jobsOf r) : Books event r (s.account r) (t.account r) := by
  rw [account, account, hj, hp, lookup_delete]
  split
  · exact .deleted
  · exact .same

lemma books_reservePeer {height : ℤ} (hp : s.producer = .waiting height)
    (hc : s.peerStore.canReserve peerID height = true) :
    Books event r (s.account r) (account { s with
      peerStore := s.peerStore.update peerID (·.addPending 1), producer := .sending ⟨height, peerID⟩ } r) := by
  simp only [account, jobsOf, hp, Producer.jobs, lookup_update]
  by_cases hr : r = peerID
  · subst hr
    unfold canReserve at hc
    split at hc
    · cases hc
    next peer hl =>
    simp only [Bool.and_eq_true, decide_eq_true_eq] at hc
    rw [hl]
    simpa [PeerData.addPending] using Books.reserved hc.1
  · rw [if_neg (Ne.symm hr)]
    simp only [if_neg hr]
    simpa using Books.same

lemma books_addPeer (base height : ℤ) :
    Books (.addPeer peerID base height) r (s.account r)
      (account { s with peerStore := s.peerStore.upsert peerID base height } r) := by
  unfold account upsert
  by_cases hr : r = peerID
  · subst hr
    rw [Lib.lookup_upsert_self]
    cases s.peerStore.lookup r with
    | none => exact .added rfl
    | some peer => exact .same
  · rw [Lib.lookup_upsert_of_ne _ _ hr]
    exact .same

lemma step_books (s : Synchronizer) (event : Event) (r : NodeID) : Books event r (s.account r) ((s.step event).account r) := by
  have ha := step_acts s event
  generalize s.step event = t at ha
  cases ha with
  | nothing | consumed | advanced | requeuedOwn | requeued => exact .same
  | backlog hp | agreed hp | declined hp | nextHeight hp => exact .of_eq rfl rfl (by rw [hp]; rfl)
  | reserved hp hc => exact books_reservePeer _ hp hc
  | sent hp =>
    simp only [account, jobsOf, hp, Producer.jobs, countP_append, countP_singleton, decide_eq_true_eq, add_zero]
    exact .same
  | failed hj => exact .of_result (of_canReceive hj).2 (fun _ => rfl) (peerStore_consumeFailed s _) rfl rfl
  | missing hj => exact .of_result (of_canReceive hj).2 (fun _ => rfl) (peerStore_consumeMissing s _) rfl rfl
  | received hj =>
    exact .of_result (of_canReceive hj).2 (fun _ => rfl) (peerStore_consumeReceived s ..) rfl (addBlock_frame ..).2.2.1
  | droppedOwn | peerDropped => exact .of_delete _ rfl rfl
  | peerAdded => exact books_addPeer ..

/-! ### The limit -/

def AddsAnswered (s : Synchronizer) : Event → Prop
  | .addPeer peerID _ _ => s.peerStore.lookup peerID = none → s.jobsOf peerID = 0
  | _ => True

instance (s : Synchronizer) (event : Event) : Decidable (s.AddsAnswered event) := by
  cases event <;> unfold AddsAnswered <;> infer_instance

def Limited (s : Synchronizer) : Prop :=
  ∀ r, (s.jobsOf r : ℤ) ≤ maxPendingRequestsPerPeer ∧ ∀ n, (s.account r).1 = some n → n = s.jobsOf r

lemma Limited.step (h : Limited s) (ha : s.AddsAnswered event) : Limited (s.step event) := by
  intro r
  have hr := h r
  have hb := step_books s event r
  have hj : ∀ u : Synchronizer, u.jobsOf r = (u.account r).2 := fun _ => rfl
  have hz : ∀ base height, event = .addPeer r base height → (s.account r).1 = none → (s.account r).2 = 0 := by
    rintro base height rfl hno
    exact ha (by simpa [account] using hno)
  simp only [hj] at hr ⊢
  generalize s.account r = a at hr hb hz ⊢
  generalize (s.step event).account r = b at hb ⊢
  cases hb with
  | same => exact hr
  | reserved hlt =>
    have := hr.2 _ rfl
    refine ⟨?_, fun n hn => ?_⟩
    · push_cast
      omega
    · cases hn
      omega
  | answered =>
    obtain ⟨hle, hc⟩ := hr
    refine ⟨by omega, fun n hn => ?_⟩
    obtain ⟨m, hm, rfl⟩ := map_eq_some_iff.mp hn
    have := hc m hm
    omega
  | added he =>
    have := hz _ _ he rfl
    exact ⟨hr.1, fun n hn => by cases hn; exact_mod_cast this.symm⟩
  | deleted => exact ⟨hr.1, fun n hn => by cases hn⟩

/-- **The limit on the requests to a peer.** In every run in which a peer is added, for the first time or again, only
when no request made to it before is outstanding, there are never more than `maxPendingRequestsPerPeer` requests
outstanding to one peer. -/
theorem requests_limited (startHeight : ℤ) (events : List Event)
    (hadds : Admitted Synchronizer.step AddsAnswered (new startHeight) events) (peerID : NodeID) :
    ((run startHeight events).jobsOf peerID : ℤ) ≤ maxPendingRequestsPerPeer := by
  have hne : Limited (new startHeight) := fun r =>
    ⟨by simp [jobsOf, new, Producer.jobs, maxPendingRequestsPerPeer], fun n hn => by cases hn⟩
  exact (hadds.invariant (fun _ _ h => h.step) hne peerID).1

def askTwenty : List Event :=
  (List.replicate 20 [.backlog, .shouldJobBeGenerated, .nextHeight, .reservePeer "peer", .send]).flatten

/-- Up to the limit. -/
theorem twenty_requests_limited :
    (run 1 (.addPeer "peer" 1 40 :: askTwenty)).jobsOf "peer" = 20 ∧
      ((run 1 (.addPeer "peer" 1 40 :: askTwenty)).jobsOf "peer" : ℤ) ≤ maxPendingRequestsPerPeer :=
  ⟨by decide +kernel, requests_limited 1 _ (by decide +kernel) "peer"⟩

/-- The peer is removed and added again, and is asked for twenty more. -/
theorem readded_peer_overloaded :
    (run 1 (.addPeer "peer" 1 40 :: askTwenty ++ .dropPeer "peer" :: .addPeer "peer" 1 40 :: askTwenty)).jobsOf
      "peer" = 40 := by
  decide +kernel

end Synchronizer

end Tenderdash.Blocksync
