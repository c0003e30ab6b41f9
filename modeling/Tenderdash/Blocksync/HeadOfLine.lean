import Tenderdash.Blocksync.Requests

/-!
Whether the height to apply can always be asked for.

The producer takes one height and waits in `getPeer` until a peer serves it. Nothing interrupts that wait but a peer,
so that a height no peer serves any more stands in front of every height queued behind it (`stuck_run`). Where each
height stays in the range of some connected peer, the producer works off what stands in front (`Ready.requested`).
-/

namespace Tenderdash.Blocksync

open Lib.Run List Option PeerStore Producer

/-! ### The peer store -/

namespace PeerStore

def Covers (peers : PeerStore) (height : ℤ) : Prop :=
  ∃ entry ∈ peers, peers.lookup entry.1 = some entry.2 ∧ entry.2.heightBetweenPeerHeightRange height = true

instance (peers : PeerStore) (height : ℤ) : Decidable (peers.Covers height) := by
  unfold Covers
  infer_instance

variable {peers : PeerStore} {height : ℤ} {peerID : NodeID}

lemma covers_iff :
    peers.Covers height ↔
      ∃ peerID peer, peers.lookup peerID = some peer ∧ peer.heightBetweenPeerHeightRange height = true := by
  constructor
  · rintro ⟨entry, -, hl, hra⟩
    exact ⟨entry.1, entry.2, hl, hra⟩
  rintro ⟨peerID, peer, hl, hra⟩
  exact ⟨(peerID, peer), Lib.mem_of_lookup hl, hl, hra⟩

lemma covers_of_canReserve (h : peers.canReserve peerID height = true) : peers.Covers height := by
  unfold canReserve at h
  split at h
  · cases h
  next peer hl =>
  rw [Bool.and_eq_true] at h
  exact covers_iff.mpr ⟨peerID, peer, hl, h.2⟩

variable {f : PeerData → PeerData}

lemma Covers.update (h : peers.Covers height) (peerID : NodeID)
    (hf : ∀ peer, (f peer).heightBetweenPeerHeightRange height = peer.heightBetweenPeerHeightRange height) :
    (peers.update peerID f).Covers height := by
  obtain ⟨r, peer, hl, hra⟩ := covers_iff.mp h
  refine covers_iff.mpr ⟨r, if r = peerID then f peer else peer, by rw [lookup_update, hl]; rfl, ?_⟩
  split
  · rw [hf]
    exact hra
  · exact hra

lemma Covers.of_update (h : (peers.update peerID f).Covers height)
    (hf : ∀ peer, (f peer).heightBetweenPeerHeightRange height = true →
      peer.heightBetweenPeerHeightRange height = true) : peers.Covers height := by
  obtain ⟨r, peer, hl, hra⟩ := covers_iff.mp h
  rw [lookup_update] at hl
  obtain ⟨old, ho, rfl⟩ := map_eq_some_iff.mp hl
  refine covers_iff.mpr ⟨r, old, ho, ?_⟩
  split at hra
  · exact hf old hra
  · exact hra

lemma Covers.of_delete (h : (peers.delete peerID).Covers height) : peers.Covers height := by
  obtain ⟨r, peer, hl, hra⟩ := covers_iff.mp h
  rw [lookup_delete] at hl
  split at hl
  · cases hl
  · exact covers_iff.mpr ⟨r, peer, hl, hra⟩

lemma le_maxHeight {peer : PeerData} (h : peers.lookup peerID = some peer) : peer.height ≤ peers.maxHeight := by
  have hm := Lib.mem_of_lookup h
  have hf : ∀ (entries : PeerStore) (highest : ℤ),
      highest ≤ entries.foldl (fun highest entry => max highest entry.2.height) highest ∧
        ∀ entry ∈ entries, entry.2.height ≤ entries.foldl (fun highest entry => max highest entry.2.height) highest := by
    intro entries
    induction entries with
    | nil => exact fun highest => ⟨le_rfl, by simp⟩
    | cons e rest ih =>
      intro highest
      obtain ⟨hle, ha⟩ := ih (max highest e.2.height)
      refine ⟨(le_max_left ..).trans hle, fun entry he => ?_⟩
      rcases mem_cons.mp he with rfl | he
      · exact (le_max_right ..).trans hle
      · exact ha entry he
  exact (hf peers 0).2 _ hm

end PeerStore

namespace Synchronizer

variable {s t u : Synchronizer} {largest : ℕ}

/-! ### Requests and their accounts -/

structure Queued (s : Synchronizer) : Prop where
  sorted : s.jobGen.pushedBack.Pairwise (· ≤ ·)
  reached : s.height ≤ s.jobGen.height
  applying : ∀ resp, s.consumer = .applying resp → s.height < s.jobGen.height

structure Tidy (s : Synchronizer) : Prop extends Queued s where
  pending : ∀ peerID peer, s.peerStore.lookup peerID = some peer →
    peer.numPending ≤ maxPendingRequestsPerPeer ∧ peer.numPending ≤ s.jobsOf peerID

lemma Tidy.new (startHeight : ℤ) : Tidy (new startHeight) where
  sorted := by simp [Synchronizer.new]
  reached := le_rfl
  applying _ h := by cases h
  pending _ _ h := by cases h

lemma sorted_pushBack {gen : JobGenerator} (h : gen.pushedBack.Pairwise (· ≤ ·)) (heights : List ℤ) :
    (gen.pushBack heights).pushedBack.Pairwise (· ≤ ·) := by
  unfold JobGenerator.pushBack
  split
  · exact h
  · exact pairwise_insertionSort ..

lemma Queued.pushBack (h : Queued s) (heights : List ℤ) (hg : t.jobGen = s.jobGen.pushBack heights)
    (hh : t.height = s.height) (ha : ∀ resp, t.consumer = .applying resp → s.consumer = .applying resp) : Queued t := by
  have hs := JobGenerator.height_pushBack s.jobGen heights
  refine ⟨hg ▸ sorted_pushBack h.sorted _, ?_, fun resp hc => ?_⟩
  · rw [hg, hs, hh]
    exact h.reached
  · rw [hg, hs, hh]
    exact h.applying resp (ha resp hc)

lemma Queued.nextHeight (h : Queued s) (hh : t.height = s.height) (hg : t.jobGen = s.jobGen.nextHeight.2)
    (hco : t.consumer = s.consumer) : Queued t := by
  have hre := h.reached
  have hs := h.sorted
  rw [JobGenerator.nextHeight] at hg
  cases hq : s.jobGen.pushedBack with
  | nil =>
    rw [hq] at hg
    have ha : t.jobGen.height = s.jobGen.height + 1 := by rw [hg]
    exact ⟨by rw [hg]; exact .nil, by omega, fun _ _ => by omega⟩
  | cons w rest =>
    rw [hq] at hg hs
    refine ⟨by rw [hg]; exact hs.of_cons, by rw [hg, hh]; exact hre, fun resp hc => ?_⟩
    rw [hg, hh]
    exact h.applying resp (hco ▸ hc)

lemma Queued.step (h : Queued s) (hs : Sound largest s) (event : Event) : Queued (s.step event) := by
  have ha := step_acts s event
  generalize s.step event = t at ha
  cases ha with
  | nothing => exact h
  | backlog | agreed | declined | reserved | sent | peerAdded | peerDropped => exact { h with }
  | nextHeight => exact h.nextHeight rfl rfl rfl
  | failed =>
    refine h.pushBack [_] rfl rfl fun resp hc => ?_
    unfold consumeFailed at hc
    dsimp only at hc
    split_ifs at hc
  | missing => exact h.pushBack [_] rfl rfl fun _ hc => hc
  | @received job size =>
    obtain ⟨hg, hh, -⟩ := addBlock_frame s job.height ⟨job.peerID, size⟩
    exact ⟨hg ▸ h.sorted, hg ▸ hh ▸ h.reached, nofun⟩
  | consumed _ _ hhe =>
    refine ⟨h.sorted, h.reached, fun resp hc => ?_⟩
    exact (hs.held s.height (mem_map.mpr ⟨_, Lib.mem_of_lookup (hhe resp hc), rfl⟩)).2
  | advanced hc => exact ⟨h.sorted, Int.add_one_le_of_lt (h.applying _ hc), nofun⟩
  | droppedOwn => exact ⟨h.sorted, h.reached, nofun⟩
  | requeuedOwn => exact h.pushBack _ rfl rfl nofun
  | requeued => exact h.pushBack _ rfl rfl fun _ hc => hc

lemma Tidy.pending_iff : (∀ peerID peer, s.peerStore.lookup peerID = some peer →
    peer.numPending ≤ maxPendingRequestsPerPeer ∧ peer.numPending ≤ s.jobsOf peerID) ↔
      ∀ peerID n, (s.account peerID).1 = some n → n ≤ maxPendingRequestsPerPeer ∧ n ≤ (s.account peerID).2 := by
  simp [account]

theorem Tidy.step (h : Tidy s) (hs : Sound largest s) (event : Event) : Tidy (s.step event) := by
  refine ⟨h.toQueued.step hs event, pending_iff.mpr fun r => ?_⟩
  have hr := pending_iff.mp h.pending r
  have hb := step_books s event r
  have hma : maxPendingRequestsPerPeer = 20 := rfl
  generalize s.account r = a at hr hb
  generalize (s.step event).account r = b at hb ⊢
  cases hb with
  | same => exact hr
  | reserved hlt =>
    rintro n ⟨⟩
    have := hr _ rfl
    omega
  | answered =>
    intro n hn
    obtain ⟨m, hm, rfl⟩ := map_eq_some_iff.mp hn
    have := hr m hm
    omega
  | added =>
    rintro n ⟨⟩
    exact ⟨by decide, by simp⟩
  | deleted => rintro n ⟨⟩

def Good (s : Synchronizer) : Prop := Tidy s ∧ ∃ largest, Sound largest s

lemma Good.step (h : Good s) (event : Event) : Good (s.step event) := by
  obtain ⟨ht, largest, hs⟩ := h
  have hs' : Sound (max largest (s.acceptedSize event)) s :=
    { hs with sizes := fun entry he => (hs.sizes entry he).trans (le_max_left ..) }
  exact ⟨ht.step hs event, _, hs'.step event (le_max_right ..)⟩

/-! ### The deadlock -/

def Reach (s t : Synchronizer) : Prop :=
  ∃ events : List Event, (∀ event ∈ events, ∀ peerID base height, event ≠ .addPeer peerID base height) ∧
    Lib.Run.run step s events = t

lemma Reach.refl (s : Synchronizer) : Reach s s := ⟨[], by simp, rfl⟩

lemma Good.after (h : Good s) (events : List Event)
    (he : ∀ event ∈ events, ∀ peerID base height, event ≠ .addPeer peerID base height)
    (ht : Lib.Run.run Synchronizer.step s events = t) : Reach s t ∧ Good t :=
  ⟨⟨events, he, ht⟩, ht ▸ run_invariant (fun _ event hg => hg.step event) events h⟩

lemma Reach.trans (h : Reach s t) (h' : Reach t u) : Reach s u := by
  obtain ⟨events, ha, rfl⟩ := h
  obtain ⟨events', ha', rfl⟩ := h'
  refine ⟨events ++ events', fun e he => ?_, run_append _ s events events'⟩
  rcases mem_append.mp he with he | he
  · exact ha e he
  · exact ha' e he

def Requested (s : Synchronizer) (height : ℤ) : Prop := ∃ job ∈ s.inFlight, job.height = height

def Obtainable (s : Synchronizer) (height : ℤ) : Prop := ∃ t, Reach s t ∧ t.Requested height

lemma Obtainable.of_reach {height : ℤ} (hre : Reach s t) (h : Obtainable t height) : Obtainable s height := by
  obtain ⟨u, hr', hu⟩ := h
  exact ⟨u, hre.trans hr', hu⟩

def Held (s : Synchronizer) : Prop := s.height ∈ s.heldHeights ∨ ∃ resp, s.consumer = .applying resp

/-- The height to apply is neither held nor in flight, a connected peer with spare capacity serves it, and it is
never asked for unless a new peer appears or a peer advertises another range. -/
structure HeadOfLineDeadlock (s : Synchronizer) : Prop where
  notHeld : ¬ s.Held
  notRequested : ¬ s.Requested s.height
  servable : ∃ peerID, s.peerStore.canReserve peerID s.height = true
  never : ∀ t, Reach s t → ¬ t.Requested s.height

structure Stuck (s : Synchronizer) (height : ℤ) : Prop where
  waits : ∃ w, s.producer = .waiting w ∧ ¬ s.peerStore.Covers w
  notRequested : ¬ s.Requested height

lemma Stuck.of_shrink {height : ℤ} (h : Stuck s height) (hp : t.producer = s.producer)
    (hpe : ∀ w, t.peerStore.Covers w → s.peerStore.Covers w) (hj : ∀ job ∈ t.inFlight, job ∈ s.inFlight) :
    Stuck t height := by
  obtain ⟨w, hw, hu⟩ := h.waits
  refine ⟨⟨w, hp.trans hw, fun hc => hu (hpe w hc)⟩, ?_⟩
  rintro ⟨job, hjo, hh⟩
  exact h.notRequested ⟨job, hj job hjo, hh⟩

lemma Stuck.step {height : ℤ} (h : Stuck s height) {event : Event}
    (hev : ∀ peerID base height, event ≠ .addPeer peerID base height) : Stuck (s.step event) height := by
  obtain ⟨w, hw, hu⟩ := h.waits
  have he : ∀ job : Job, ∀ j ∈ s.inFlight.erase job, j ∈ s.inFlight := fun job j => mem_of_mem_erase
  have ha := step_acts s event
  generalize s.step event = t at ha
  cases ha with
  | nothing => exact h
  -- the producer waits and does nothing else
  | backlog hp | agreed hp | declined hp | nextHeight hp | sent hp => cases hw.symm.trans hp
  | reserved hp hca =>
    cases hw.symm.trans hp
    exact absurd (covers_of_canReserve hca) hu
  | failed =>
    refine h.of_shrink rfl (fun w hc => ?_) (he _)
    rw [peerStore_consumeFailed] at hc
    exact hc.of_update fun _ hra => hra
  | missing =>
    refine h.of_shrink rfl (fun w hc => ?_) (he _)
    rw [peerStore_consumeMissing] at hc
    refine hc.of_update fun peer hra => ?_
    simp only [PeerData.heightBetweenPeerHeightRange, Bool.and_eq_true, decide_eq_true_eq] at hra ⊢
    obtain ⟨hb, hm⟩ := hra
    exact ⟨hb, lt_of_le_of_lt (le_max_left ..) hm⟩
  | received =>
    refine h.of_shrink (addBlock_frame ..).2.2.1 (fun w hc => ?_) (he _)
    rw [peerStore_consumeReceived] at hc
    exact hc.of_update fun _ hra => hra
  | consumed | advanced | requeuedOwn | requeued => exact h.of_shrink rfl (fun _ hc => hc) fun _ hj => hj
  | droppedOwn | peerDropped => exact h.of_shrink rfl (fun _ hc => hc.of_delete) fun _ hj => hj
  | peerAdded => exact absurd rfl (hev _ _ _)

theorem stuck_run {height : ℤ} (h : Stuck s height) (hre : Reach s t) : Stuck t height := by
  obtain ⟨events, ha, rfl⟩ := hre
  induction events generalizing s with
  | nil => exact h
  | cons event events ih => exact ih (h.step (ha event mem_cons_self)) fun e he => ha e (mem_cons_of_mem _ he)

/-! ### Working off what stands in front -/

structure Ready (s : Synchronizer) (h : ℤ) : Prop where
  good : Good s
  height : s.height = h
  notHeld : h ∉ s.heldHeights
  consumer : s.consumer = .receiving
  target : s.peerStore.Covers h
  covered : ∀ w ∈ s.jobGen.pushedBack, w < h → s.peerStore.Covers w

variable {h w : ℤ}

lemma lookup_of_notHeld (hh : s.height ∉ s.heldHeights) : s.pendingToApply.lookup s.height = none := by
  by_contra hs
  obtain ⟨resp, hre⟩ := ne_none_iff_exists'.mp hs
  exact hh (mem_map.mpr ⟨_, Lib.mem_of_lookup hre, rfl⟩)

section

variable (hr : Ready s h)

include hr

lemma Ready.answer {job : Job} (hj : job ∈ s.inFlight) (ho : job.height ≠ h) :
    ∃ t, Reach s t ∧ Ready t h ∧ t.producer = s.producer ∧ t.jobGen = s.jobGen ∧
      t.peerStore = s.peerStore.update job.peerID fun peer => (peer.addPending (-1)).resetFailures := by
  have hca : s.canReceive job = true := by simp [canReceive, hr.consumer, hj]
  obtain ⟨hg, hsa, hp, -⟩ := addBlock_frame s job.height ⟨job.peerID, 0⟩
  have hh : (s.consumeReceived job 0).height = h := hsa.trans hr.height
  have hhe : h ∉ (s.consumeReceived job 0).heldHeights := by
    rintro hin
    rcases mem_heldHeights_addBlock.mp hin with hin | ⟨heq, -⟩
    · exact hr.notHeld hin
    · exact ho heq.symm
  have hs : Lib.Run.run step s [.received job 0, .getPendingResponse] =
      { s.consumeReceived job 0 with consumer := .receiving } := by
    have hc : (s.consumeReceived job 0).consumer = .looking := rfl
    simp only [run_cons, run_nil, step, consume, if_pos hca, hc,
      lookup_of_notHeld (hh ▸ hhe : _ ∉ (s.consumeReceived job 0).heldHeights)]
  obtain ⟨hre, hgo⟩ := hr.good.after _ (by simp) hs
  have hco : ∀ w, s.peerStore.Covers w → (s.consumeReceived job 0).peerStore.Covers w := fun w hcv => by
    rw [peerStore_consumeReceived]
    exact hcv.update _ fun _ => rfl
  refine ⟨_, hre, ⟨hgo, hh, hhe, rfl, hco h hr.target, fun w hw hlt => hco w ?_⟩, hp, hg, rfl⟩
  change w ∈ (s.addBlock ..).jobGen.pushedBack at hw
  rw [hg] at hw
  exact hr.covered w hw hlt

lemma Ready.reserve (hp : s.producer = .waiting w) (peerID : NodeID) (hca : s.peerStore.canReserve peerID w = true) :
    ∃ t, Reach s t ∧ Ready t h ∧ t.producer = .idle ∧ t.jobGen = s.jobGen ∧ t.Requested w := by
  have hs : Lib.Run.run step s [.reservePeer peerID, .send] = { s with
      peerStore := s.peerStore.update peerID (·.addPending 1), producer := .idle,
      inFlight := s.inFlight ++ [⟨w, peerID⟩] } := by simp [step, produce, hp, hca]
  obtain ⟨hre, hg⟩ := hr.good.after _ (by simp) hs
  have hc : ∀ v, s.peerStore.Covers v → (s.peerStore.update peerID (·.addPending 1)).Covers v :=
    fun v hco => hco.update _ fun _ => rfl
  exact ⟨_, hre, ⟨hg, hr.height, hr.notHeld, hr.consumer, hc h hr.target,
    fun v hv hlt => hc v (hr.covered v hv hlt)⟩, rfl, rfl, ⟨w, peerID⟩, by simp, rfl⟩

lemma Ready.serve (hp : s.producer = .waiting w) (hco : s.peerStore.Covers w) :
    s.Requested h ∨ ∃ t, Reach s t ∧ Ready t h ∧ t.producer = .idle ∧ t.jobGen = s.jobGen ∧ t.Requested w := by
  obtain ⟨peerID, peer, hl, hra⟩ := covers_iff.mp hco
  obtain ⟨hma, hc⟩ := hr.good.1.pending peerID peer hl
  by_cases hf : peer.numPending < maxPendingRequestsPerPeer
  · refine .inr (hr.reserve hp peerID ?_)
    simp [canReserve, hl, hf, hra]
  have hm : maxPendingRequestsPerPeer = 20 := rfl
  have hjo : 0 < s.inFlight.countP fun job => job.peerID = peerID := by
    simp only [jobsOf, hp, jobs] at hc
    omega
  obtain ⟨job, hj, hid⟩ := countP_pos_iff.mp hjo
  by_cases ho : job.height = h
  · exact .inl ⟨job, hj, ho⟩
  obtain ⟨t, hrc, hr', hpr, hg, hpe⟩ := hr.answer hj ho
  obtain ⟨u, hre', hr'', hi, hg', hre⟩ := hr'.reserve (hpr.trans hp) peerID (by
    have hi' : peerID = job.peerID := by simpa [eq_comm] using hid
    rw [hpe]
    unfold canReserve
    rw [lookup_update, hl]
    simp only [map_some, if_pos hi']
    have hle : ((peer.addPending (-1)).resetFailures).numPending < maxPendingRequestsPerPeer := by
      show max 0 (peer.numPending + -1) < _
      omega
    simp only [hle, decide_true, Bool.true_and]
    exact hra)
  exact .inr ⟨u, hrc.trans hre', hr'', hi, hg'.trans hg, hre⟩

lemma Ready.take (hp : s.producer = .generating) :
    ∃ t, Reach s t ∧ Ready t h ∧ t.producer = .waiting s.jobGen.nextHeight.1 ∧ t.jobGen = s.jobGen.nextHeight.2 ∧
      t.peerStore = s.peerStore := by
  have hs : Lib.Run.run step s [.nextHeight] =
      { s with producer := .waiting s.jobGen.nextHeight.1, jobGen := s.jobGen.nextHeight.2 } := by
    simp [step, produce, hp]
  obtain ⟨hre, hg⟩ := hr.good.after _ (by simp) hs
  refine ⟨_, hre, { hr with good := hg, covered := fun v hv hlt => hr.covered v ?_ hlt }, rfl, rfl, rfl⟩
  change v ∈ s.jobGen.nextHeight.2.pushedBack at hv
  unfold JobGenerator.nextHeight at hv
  split at hv
  · next queued rest hq =>
    rw [hq]
    exact mem_cons_of_mem _ hv
  · exact hv

lemma Ready.generates (hw : s.jobGen.pushedBack ≠ [] ∨ s.jobGen.height = h) :
    s.jobGen.shouldJobBeGenerated s.peerStore s.height s.pendingBytes = true := by
  unfold JobGenerator.shouldJobBeGenerated
  by_cases hq : s.jobGen.pushedBack = []
  · have hf := hw.resolve_left (not_not.mpr hq)
    obtain ⟨largest, hs⟩ := hr.good.2
    -- nothing above the height was asked for, so nothing is held
    have hn : s.pendingToApply = [] := by
      refine eq_nil_iff_forall_not_mem.mpr fun entry he => ?_
      have hhe := hs.held entry.1 (mem_map_of_mem he)
      have := hr.height
      omega
    have hb : s.pendingBytes = 0 := by simp [pendingBytes, hn]
    obtain ⟨peerID, peer, hl, hra⟩ := covers_iff.mp hr.target
    have hmh := le_maxHeight hl
    simp [PeerData.heightBetweenPeerHeightRange] at hra
    have hh := hr.height
    rw [if_neg (by simpa using hq), hb, if_neg]
    · simpa using (by omega : s.jobGen.height ≤ s.peerStore.maxHeight)
    rw [not_or]
    exact ⟨by decide, by simp [maxOutstandingHeights]; omega⟩
  · rw [if_pos hq]

lemma Ready.producer (event : Event) (p : Producer) (he : ∀ peerID base height, event ≠ .addPeer peerID base height)
    (hs : s.step event = { s with producer := p }) :
    Reach s { s with producer := p } ∧ Ready { s with producer := p } h := by
  obtain ⟨hre, hg⟩ := hr.good.after [event] (by simpa using he) hs
  exact ⟨hre, hg, hr.height, hr.notHeld, hr.consumer, hr.target, hr.covered⟩

lemma Ready.start (hp : s.producer = .idle) (hw : s.jobGen.pushedBack ≠ [] ∨ s.jobGen.height = h) :
    ∃ t, Reach s t ∧ Ready t h ∧ t.producer = .generating ∧ t.jobGen = s.jobGen ∧ t.peerStore = s.peerStore := by
  obtain ⟨hre, hr'⟩ := hr.producer .backlog (.checking s.height s.pendingBytes) (by simp) (by simp [step, produce, hp])
  have hy := hr.generates hw
  obtain ⟨hre', hr''⟩ := hr'.producer .shouldJobBeGenerated .generating (by simp) (by simp [step, produce, hy])
  exact ⟨_, hre.trans hre', hr'', rfl, rfl, rfl⟩

lemma Ready.next (hw : h ∈ s.jobGen.pushedBack ∨ s.jobGen.height = h) :
    s.jobGen.nextHeight.1 = h ∨ ∃ first rest, s.jobGen.pushedBack = first :: rest ∧
      s.jobGen.nextHeight = (first, ⟨s.jobGen.height, rest⟩) ∧ s.peerStore.Covers first ∧
      (h ∈ rest ∨ s.jobGen.height = h) := by
  unfold JobGenerator.nextHeight
  cases hq : s.jobGen.pushedBack with
  | nil => exact .inl (hw.resolve_left (by simp [hq]))
  | cons first rest =>
    by_cases hf : first = h
    · exact .inl hf
    rw [hq, mem_cons, or_iff_right (Ne.symm hf)] at hw
    refine .inr ⟨first, rest, rfl, rfl, hr.covered first (by simp [hq]) ?_, hw⟩
    rcases hw with hin | hfr
    · have hso := hr.good.1.sorted
      rw [hq] at hso
      have := (pairwise_cons.mp hso).1 h hin
      omega
    · obtain ⟨largest, hs⟩ := hr.good.2
      have := hs.asked first (mem_outstanding.mpr (.inl (by simp [hq])))
      omega

theorem Ready.fromGenerating (hp : s.producer = .generating)
    (hwo : h ∈ s.jobGen.pushedBack ∨ s.jobGen.height = h) : s.Obtainable h := by
  induction hl : s.jobGen.pushedBack.length using Nat.strong_induction_on generalizing s with
  | _ n ih =>
    obtain ⟨t, hre₁, hr₁, hw, hgen, hpe⟩ := hr.take hp
    rcases hr.next hwo with hf | ⟨first, rest, hq, hn, hc, hw'⟩
    · rw [hf] at hw
      rcases hr₁.serve hw hr₁.target with hre | ⟨u, hre₂, -, -, -, hre⟩
      · exact ⟨t, hre₁, hre⟩
      · exact .of_reach hre₁ ⟨u, hre₂, hre⟩
    · rw [hn] at hw hgen
      rcases hr₁.serve hw (hpe ▸ hc) with hre | ⟨u, hre₂, hr₂, hi, hg₂, -⟩
      · exact ⟨t, hre₁, hre⟩
      have hge : u.jobGen = ⟨s.jobGen.height, rest⟩ := hg₂.trans hgen
      obtain ⟨v, hre₃, hr₃, hg, hg₃, -⟩ := hr₂.start hi (hge ▸ hw'.imp_left ne_nil_of_mem)
      have hgn : v.jobGen = ⟨s.jobGen.height, rest⟩ := hg₃.trans hge
      refine .of_reach ((hre₁.trans hre₂).trans hre₃) ?_
      exact ih rest.length (by simp [← hl, hq]) hr₃ hg (hgn ▸ hw') (by rw [hgn])

lemma Ready.requested (hp : s.producer = .idle)
    (hw : h ∈ s.jobGen.pushedBack ∨ s.jobGen.height = h) : s.Obtainable h := by
  obtain ⟨t, hre, hr', hg, hge, -⟩ := hr.start hp (hw.imp_left ne_nil_of_mem)
  exact .of_reach hre (hr'.fromGenerating hg (hge ▸ hw))

/-! ### Runs without a deadlock -/

def Consumer.drops : Consumer → Bool
  | .removing _ | .requeueing _ => true
  | _ => false

def wanted (s : Synchronizer) : List ℤ :=
  s.jobGen.pushedBack ++ (match s.producer with
    | .waiting height => [height]
    | _ => []) ++ s.removals.flatten

omit hr in
lemma mem_wanted : h ∈ s.wanted ↔ h ∈ s.jobGen.pushedBack ∨ s.producer = .waiting h ∨ ∃ l ∈ s.removals, h ∈ l := by
  unfold wanted
  cases s.producer <;> simp [eq_comm]

def Keeps (s : Synchronizer) (event : Event) : Prop :=
  (∀ height ∈ (s.step event).wanted, (s.step event).peerStore.Covers height) ∧
    Consumer.drops (s.step event).consumer = false

instance (s : Synchronizer) (event : Event) : Decidable (Keeps s event) := by
  unfold Keeps
  infer_instance

structure Served (s : Synchronizer) : Prop where
  good : Good s
  wanted : ∀ height ∈ s.wanted, s.peerStore.Covers height
  keeps : Consumer.drops s.consumer = false

omit hr in
lemma Served.new (startHeight : ℤ) : Served (new startHeight) where
  good := ⟨.new startHeight, 0, .new 0 startHeight⟩
  wanted := by simp [Synchronizer.wanted, Synchronizer.new]
  keeps := rfl

lemma Ready.requested_of_wanted (hwa : ∀ v ∈ s.wanted, s.peerStore.Covers v)
    (hw : h ∈ s.jobGen.pushedBack ∨ s.jobGen.height = h ∨ h ∈ s.producer.heights) : s.Obtainable h := by
  cases hp : s.producer with
  | idle =>
    rw [hp] at hw
    exact hr.requested hp (by simpa [heights] using hw)
  | checking applyHeight pendingBytes =>
    rw [hp] at hw
    have hw' : h ∈ s.jobGen.pushedBack ∨ s.jobGen.height = h := by simpa [heights] using hw
    by_cases hy : s.jobGen.shouldJobBeGenerated s.peerStore applyHeight pendingBytes = true
    · obtain ⟨hrc, hr₁⟩ := hr.producer .shouldJobBeGenerated .generating (by simp) (by simp [step, produce, hp, hy])
      exact .of_reach hrc (hr₁.fromGenerating rfl hw')
    obtain ⟨hrc, hr₁⟩ := hr.producer .shouldJobBeGenerated .idle (by simp) (by simp [step, produce, hp, hy])
    exact .of_reach hrc (hr₁.requested rfl hw')
  | generating =>
    rw [hp] at hw
    exact hr.fromGenerating hp (by simpa [heights] using hw)
  | waiting height =>
    rcases hr.serve hp (hwa height (mem_wanted.mpr (.inr (.inl hp)))) with
      hre | ⟨t, hre₁, hr₁, hi, hge, hre⟩
    · exact ⟨s, .refl s, hre⟩
    by_cases hh : height = h
    · exact ⟨t, hre₁, hh ▸ hre⟩
    have hw' : h ∈ t.jobGen.pushedBack ∨ t.jobGen.height = h := by
      rw [hge]
      simpa [hp, heights, Ne.symm hh] using hw
    exact .of_reach hre₁ (hr₁.requested hi hw')
  | sending job =>
    have hs : Lib.Run.run step s [.send] = { s with inFlight := s.inFlight ++ [job], producer := .idle } := by
      simp [step, produce, hp]
    obtain ⟨hrc, hg⟩ := hr.good.after _ (by simp) hs
    by_cases hh : job.height = h
    · exact ⟨_, hrc, job, by simp, hh⟩
    have hr₁ : Ready { s with inFlight := s.inFlight ++ [job], producer := .idle } h :=
      { hr with good := hg }
    have hw' : h ∈ s.jobGen.pushedBack ∨ s.jobGen.height = h := by simpa [hp, heights, Ne.symm hh] using hw
    exact .of_reach hrc (hr₁.requested rfl hw')

end

theorem Served.not_deadlock (hs : Served s) : ¬ HeadOfLineDeadlock s := by
  intro hd
  obtain ⟨hti, largest, hso⟩ := hs.good
  obtain ⟨hnh, hna⟩ := not_or.mp hd.notHeld
  obtain ⟨peerID, hca⟩ := hd.servable
  have ht := covers_of_canReserve hca
  have hn : ∀ {t}, Reach s t → ¬ t.Obtainable s.height := fun hre ⟨u, hre', hu⟩ =>
    hd.never u (hre.trans hre') hu
  -- the consumer is ready, or finds nothing to apply and is ready then
  have hcn : ∃ t, Reach s t ∧ Ready t s.height ∧ t.jobGen = s.jobGen ∧ t.producer = s.producer ∧
      t.peerStore = s.peerStore ∧ t.removals = s.removals := by
    have hco : ∀ w ∈ s.jobGen.pushedBack, w < s.height → s.peerStore.Covers w :=
      fun w hw _ => hs.wanted w (mem_wanted.mpr (.inl hw))
    have hk := hs.keeps
    cases hc : s.consumer with
    | receiving =>
      exact ⟨s, .refl s, ⟨hs.good, rfl, hnh, hc, ht, hco⟩, rfl, rfl, rfl, rfl⟩
    | looking =>
      have hst : Lib.Run.run step s [.getPendingResponse] = { s with consumer := .receiving } := by
        simp [step, consume, hc, lookup_of_notHeld hnh]
      obtain ⟨hre, hg⟩ := hs.good.after _ (by simp) hst
      exact ⟨_, hre, ⟨hg, rfl, hnh, rfl, ht, hco⟩, rfl, rfl, rfl, rfl⟩
    | applying resp => exact absurd ⟨resp, hc⟩ hna
    | removing peerID =>
      rw [hc] at hk
      cases hk
    | requeueing heights =>
      rw [hc] at hk
      cases hk
  obtain ⟨t, hre, hr, hge, hpr, hpe, hrm⟩ := hcn
  have hwe : t.wanted = s.wanted := by simp only [Synchronizer.wanted, hge, hpr, hrm]
  have hwa : ∀ v ∈ t.wanted, t.peerStore.Covers v := by
    rw [hwe, hpe]
    exact hs.wanted
  -- where the height to apply is
  have hpl : (s.height ∈ t.jobGen.pushedBack ∨ t.jobGen.height = s.height ∨ s.height ∈ t.producer.heights) ∨
      ∃ heights ∈ t.removals, s.height ∈ heights := by
    rw [hge, hpr, hrm]
    have hrc := hti.reached
    by_cases hfr : s.jobGen.height = s.height
    · exact .inl (.inr (.inl hfr))
    rcases hso.owned s.height le_rfl (by omega) with hh | hou
    · exact absurd hh hnh
    rcases mem_outstanding.mp hou with hq | hp | hf | hrem | ho
    · exact .inl (.inl hq)
    · exact .inl (.inr (.inr hp))
    · exact absurd hf hd.notRequested
    · exact .inr hrem
    have hk := hs.keeps
    cases hc : s.consumer with
    | requeueing heights =>
      rw [hc] at hk
      cases hk
    | _ =>
      rw [hc] at ho
      cases ho
  rcases hpl with hpl | ⟨heights, hm, hin⟩
  · exact hn hre (hr.requested_of_wanted hwa hpl)
  -- the removal queues the height first
  have hst : Lib.Run.run step t [.requeue heights] =
      { t.pushBack heights with removals := t.removals.erase heights } := by simp [step, peerUpdate, hm]
  obtain ⟨hre', hg⟩ := hr.good.after _ (by simp) hst
  have hqu : ∀ v ∈ (t.jobGen.pushBack heights).pushedBack, t.peerStore.Covers v := by
    intro v hv
    refine hwa v (mem_wanted.mpr ?_)
    rcases (JobGenerator.mem_pushBack ..).mp hv with hv | hv
    · exact .inl hv
    · exact .inr (.inr ⟨heights, hm, hv⟩)
  have hr' : Ready { t.pushBack heights with removals := t.removals.erase heights } s.height :=
    { hr with good := hg, covered := fun w hw _ => hqu w hw }
  refine hn (hre.trans hre') (hr'.requested_of_wanted (fun v hv => ?_) ?_)
  · simp only [mem_wanted] at hv
    rcases hv with hv | hv | ⟨l, hl, hv⟩
    · exact hqu v hv
    · exact hwa v (mem_wanted.mpr (.inr (.inl hv)))
    · exact hwa v (mem_wanted.mpr (.inr (.inr ⟨l, mem_of_mem_erase hl, hv⟩)))
  · exact .inl ((JobGenerator.mem_pushBack ..).mpr (.inr hin))

/-- In a run in which, after every step, every height that the producer waits for or that is queued for a retry is in
the range of a connected peer, and in which the consumer drops no peer, there is no head-of-line deadlock. -/
theorem no_headOfLineDeadlock (startHeight : ℤ) (events : List Event)
    (hkeeps : Admitted step Keeps (new startHeight) events) : ¬ HeadOfLineDeadlock (run startHeight events) := by
  refine Served.not_deadlock ?_
  exact hkeeps.invariant (fun s event hs hk => ⟨hs.good.step event, hk.1, hk.2⟩) (Served.new startHeight)

def keptServer : List Event :=
  [.addPeer "near" 1 1, .addPeer "far" 1 2, .backlog, .shouldJobBeGenerated, .nextHeight, .reservePeer "near", .send,
    .backlog, .shouldJobBeGenerated, .nextHeight, .failed ⟨1, "near"⟩]

theorem keptServer_no_deadlock : ¬ HeadOfLineDeadlock (run 1 keptServer) :=
  no_headOfLineDeadlock 1 keptServer (by decide +kernel)

def lostServer : List Event :=
  [.addPeer "near" 1 1, .addPeer "far" 2 2, .backlog, .shouldJobBeGenerated, .nextHeight, .reservePeer "near", .send,
    .backlog, .shouldJobBeGenerated, .nextHeight, .dropPeer "far", .failed ⟨1, "near"⟩]

/-- Then the first request fails. The producer waits for a height that no peer serves, and the height to apply, which
a peer with spare capacity serves, is queued behind it. -/
theorem lostServer_deadlock :
    HeadOfLineDeadlock (run 1 lostServer) ∧ (run 1 lostServer).producer = .waiting 2 ∧
      (run 1 lostServer).jobGen.pushedBack = [1] := by
  have hs : Stuck (run 1 lostServer) 1 := ⟨⟨2, by decide +kernel, by decide +kernel⟩, by
    have hn : ∀ job ∈ (run 1 lostServer).inFlight, job.height ≠ 1 := by decide +kernel
    rintro ⟨job, hj, hh⟩
    exact hn job hj hh⟩
  have hh : (run 1 lostServer).height = 1 := by decide +kernel
  refine ⟨⟨?_, ?_, ⟨"near", by decide +kernel⟩, fun t hrc => ?_⟩, by decide +kernel, by decide +kernel⟩
  · rintro (hhe | ⟨resp, hre⟩)
    · revert hhe
      decide +kernel
    · have hc : (run 1 lostServer).consumer = .receiving := by decide +kernel
      rw [hc] at hre
      cases hre
  · rw [hh]
    exact hs.notRequested
  · rw [hh]
    exact (stuck_run hs hrc).notRequested

end Synchronizer

end Tenderdash.Blocksync
