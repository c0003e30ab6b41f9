import Tenderdash.Blocksync.Synchronizer

/-!
What block synchronization holds and what it owes, in every state of every run (`Sound.run`). Retries bypass the
window, but every retried height was inside it when it was first asked for, and the window only moves up.
-/

namespace Tenderdash.Blocksync

open Lib.Run List Producer

lemma exists_mem_erase_or {α : Type*} [DecidableEq α] {l : List α} {a : α} (ha : a ∈ l) (p : α → Prop) :
    (∃ b ∈ l.erase a, p b) ∨ p a ↔ ∃ b ∈ l, p b := by
  constructor
  · rintro (⟨b, hb, hp⟩ | hp)
    · exact ⟨b, mem_of_mem_erase hb, hp⟩
    · exact ⟨a, ha, hp⟩
  rintro ⟨b, hb, hp⟩
  by_cases heq : b = a
  · exact .inr (heq ▸ hp)
  · exact .inl ⟨b, (mem_erase_of_ne heq).mpr hb, hp⟩

/-! ### The queue of retries -/

lemma mem_foldl_queue (heights queue : List ℤ) (h : ℤ) :
    h ∈ heights.foldl (fun queued height => if height ∈ queued then queued else queued ++ [height]) queue
      ↔ h ∈ queue ∨ h ∈ heights := by
  induction heights generalizing queue with
  | nil => simp
  | cons height rest ih =>
    rw [foldl_cons, ih]
    by_cases hm : height ∈ queue
    · rw [if_pos hm]
      aesop
    rw [if_neg hm]
    simp [or_assoc]

namespace JobGenerator

@[simp] lemma mem_pushBack (gen : JobGenerator) (heights : List ℤ) (h : ℤ) :
    h ∈ (gen.pushBack heights).pushedBack ↔ h ∈ gen.pushedBack ∨ h ∈ heights := by
  unfold pushBack
  split_ifs with hn
  · simp [hn]
  · rw [mem_insertionSort, mem_foldl_queue]

@[simp] lemma height_pushBack (gen : JobGenerator) (heights : List ℤ) : (gen.pushBack heights).height = gen.height := by
  unfold pushBack
  split_ifs <;> rfl

variable {gen : JobGenerator}

lemma pushBack_ne_nil (heights : List ℤ) (h : gen.pushedBack ≠ []) : (gen.pushBack heights).pushedBack ≠ [] := by
  obtain ⟨height, hm⟩ := exists_mem_of_ne_nil _ h
  exact ne_nil_of_mem ((mem_pushBack gen heights height).mpr (.inl hm))

lemma of_shouldJobBeGenerated {peers : PeerStore} {applyHeight : ℤ}
    {pendingBytes : ℕ} (h : gen.shouldJobBeGenerated peers applyHeight pendingBytes = true) :
    gen.pushedBack ≠ [] ∨ gen.height < applyHeight + maxOutstandingHeights := by
  unfold shouldJobBeGenerated at h
  split_ifs at h with hq hl
  · exact .inl hq
  exact .inr (by omega)

end JobGenerator

/-! ### Who owns a height -/

def Producer.heights : Producer → List ℤ
  | .waiting height => [height]
  | .sending job => [job.height]
  | _ => []

def Consumer.heights : Consumer → List ℤ
  | .requeueing heights => heights
  | _ => []

/-! ### What an event does -/

namespace Synchronizer

inductive Acts (s : Synchronizer) : Event → Synchronizer → Prop
  | nothing {event : Event} : Acts s event s
  | backlog (hp : s.producer = .idle) : Acts s .backlog { s with producer := .checking s.height s.pendingBytes }
  | agreed {applyHeight : ℤ} {bytes : ℕ} (hp : s.producer = .checking applyHeight bytes)
      (h : s.jobGen.shouldJobBeGenerated s.peerStore applyHeight bytes = true) :
      Acts s .shouldJobBeGenerated { s with producer := .generating }
  | declined {applyHeight : ℤ} {bytes : ℕ} (hp : s.producer = .checking applyHeight bytes) :
      Acts s .shouldJobBeGenerated { s with producer := .idle }
  | nextHeight (hp : s.producer = .generating) : Acts s .nextHeight
      { s with producer := .waiting s.jobGen.nextHeight.1, jobGen := s.jobGen.nextHeight.2 }
  | reserved {peerID : NodeID} {height : ℤ} (hp : s.producer = .waiting height)
      (hca : s.peerStore.canReserve peerID height = true) : Acts s (.reservePeer peerID)
      { s with peerStore := s.peerStore.update peerID (·.addPending 1), producer := .sending ⟨height, peerID⟩ }
  | sent {job : Job} (hp : s.producer = .sending job) :
      Acts s .send { s with inFlight := s.inFlight ++ [job], producer := .idle }
  | failed {job : Job} (hj : s.canReceive job = true) : Acts s (.failed job) (s.consumeFailed job)
  | missing {job : Job} (hj : s.canReceive job = true) : Acts s (.missing job) (s.consumeMissing job)
  | received {job : Job} {size : ℕ} (hj : s.canReceive job = true) :
      Acts s (.received job size) (s.consumeReceived job size)
  /-- The consumer goes on, to apply a response that is held or to something else. -/
  | consumed {event : Event} {consumer : Consumer} (hf : s.consumer.heights = []) (hto : consumer.heights = [])
      (hh : ∀ resp, consumer = .applying resp → s.pendingToApply.lookup s.height = some resp) :
      Acts s event { s with consumer := consumer }
  | advanced {resp : BlockResponse} (hc : s.consumer = .applying resp) :
      Acts s .advance { s.advance with consumer := .looking }
  | droppedOwn {peerID : NodeID} (hc : s.consumer = .removing peerID) :
      Acts s .dropOwn { (s.dropPeer peerID).2 with consumer := .requeueing (s.dropPeer peerID).1 }
  | requeuedOwn {heights : List ℤ} (hc : s.consumer = .requeueing heights) :
      Acts s .requeueOwn { s.pushBack heights with consumer := .receiving }
  | peerAdded {peerID : NodeID} {base height : ℤ} :
      Acts s (.addPeer peerID base height) { s with peerStore := s.peerStore.upsert peerID base height }
  | peerDropped {peerID : NodeID} : Acts s (.dropPeer peerID)
      { (s.dropPeer peerID).2 with removals := s.removals ++ [(s.dropPeer peerID).1] }
  | requeued {heights : List ℤ} (hm : heights ∈ s.removals) :
      Acts s (.requeue heights) { s.pushBack heights with removals := s.removals.erase heights }

lemma step_acts (s : Synchronizer) (event : Event) : Acts s event (s.step event) := by
  cases event with
  | backlog | nextHeight | send =>
    simp only [step, produce]
    split
    · next hp => first | exact .backlog hp | exact .nextHeight hp | exact .sent hp
    · exact .nothing
  | shouldJobBeGenerated =>
    simp only [step, produce]
    split
    · next hp =>
      split
      · next hsh => exact .agreed hp hsh
      · exact .declined hp
    · exact .nothing
  | reservePeer peerID =>
    simp only [step, produce]
    split
    · next hp =>
      split
      · next hca => exact .reserved hp hca
      · exact .nothing
    · exact .nothing
  | failed | missing | received =>
    simp only [step, consume]
    split
    · next hj => first | exact .failed hj | exact .missing hj | exact .received hj
    · exact .nothing
  | getPendingResponse =>
    simp only [step, consume]
    split
    · next hc =>
      split
      · next hl => exact .consumed (by rw [hc]; rfl) rfl fun _ heq => by cases heq; exact hl
      · exact .consumed (by rw [hc]; rfl) rfl nofun
    · exact .nothing
  | applyFailed | applyCancelled =>
    simp only [step, consume]
    split
    · next hc => exact .consumed (by rw [hc]; rfl) rfl nofun
    · exact .nothing
  | advance | dropOwn | requeueOwn =>
    simp only [step, consume]
    split
    · next hc => first | exact .advanced hc | exact .droppedOwn hc | exact .requeuedOwn hc
    · exact .nothing
  | addPeer => exact .peerAdded
  | dropPeer => exact .peerDropped
  | requeue =>
    simp only [step, peerUpdate]
    split
    · next hm => exact .requeued hm
    · exact .nothing

/-! ### The invariant -/

variable (s : Synchronizer) {h : ℤ}

def outstanding : List ℤ :=
  s.jobGen.pushedBack ++ s.producer.heights ++ s.inFlight.map (·.height) ++ s.removals.flatten ++ s.consumer.heights

lemma mem_outstanding {s : Synchronizer} :
    h ∈ s.outstanding ↔ h ∈ s.jobGen.pushedBack ∨ h ∈ s.producer.heights ∨
      (∃ job ∈ s.inFlight, job.height = h) ∨ (∃ heights ∈ s.removals, h ∈ heights) ∨
      h ∈ s.consumer.heights := by simp [outstanding]

def heldHeights : List ℤ := s.pendingToApply.map (·.1)

def acceptedSize : Event → ℕ
  | .received job size =>
    if s.canReceive job ∧ s.height ≤ job.height ∧ job.height ∉ s.heldHeights then size else 0
  | _ => 0

def largestAccepted (s : Synchronizer) : List Event → ℕ
  | [] => 0
  | event :: events => max (s.acceptedSize event) (largestAccepted (s.step event) events)

def Admits : Producer → Prop
  | .checking applyHeight _ => applyHeight ≤ s.height
  | .generating => s.jobGen.pushedBack ≠ [] ∨ s.jobGen.height < s.height + maxOutstandingHeights
  | _ => True

structure Sound (largest : ℕ) (s : Synchronizer) : Prop where
  window : s.jobGen.height ≤ s.height + maxOutstandingHeights
  held : ∀ h ∈ s.heldHeights, s.height ≤ h ∧ h < s.jobGen.height
  distinct : s.heldHeights.Nodup
  asked : ∀ h ∈ s.outstanding, h < s.jobGen.height
  admits : s.Admits s.producer
  owned : ∀ h, s.height ≤ h → h < s.jobGen.height → h ∈ s.heldHeights ∨ h ∈ s.outstanding
  sizes : ∀ entry ∈ s.pendingToApply, entry.2.size ≤ largest

lemma Sound.new (largest : ℕ) (startHeight : ℤ) : Sound largest (new startHeight) where
  window := by simp [Synchronizer.new, maxOutstandingHeights]
  held := by simp [Synchronizer.new, heldHeights]
  distinct := by simp [Synchronizer.new, heldHeights]
  asked := by simp [Synchronizer.new, outstanding, heights, Consumer.heights]
  admits := trivial
  owned := by
    intro h hl hh
    simp only [Synchronizer.new] at hl hh
    omega
  sizes := by simp [Synchronizer.new]

variable {largest : ℕ} {s : Synchronizer}

variable {s' : Synchronizer} {job : Job}

section

variable (hs : Sound largest s) {resp : BlockResponse}

include hs

lemma Sound.of_same (hhe : s'.height = s.height)
    (hp : s'.pendingToApply = s.pendingToApply) (hg : s'.jobGen.height = s.jobGen.height)
    (ho : ∀ h, h ∈ s'.outstanding ↔ h ∈ s.outstanding) (ha : s'.Admits s'.producer) : Sound largest s' where
  window := by rw [hhe, hg]; exact hs.window
  held := by
    unfold heldHeights
    rw [hhe, hg, hp]
    exact hs.held
  distinct := by
    unfold heldHeights
    rw [hp]
    exact hs.distinct
  asked := fun h hh => hg ▸ hs.asked h ((ho h).mp hh)
  admits := ha
  owned := by
    unfold heldHeights
    intro h
    rw [hhe, hg, hp, ho h]
    exact hs.owned h
  sizes := by rw [hp]; exact hs.sizes

omit hs in
lemma Admits.mono (h : s.Admits s.producer) (hpr : s'.producer = s.producer)
    (hh : s.height ≤ s'.height) (hg : s'.jobGen.height = s.jobGen.height)
    (hq : s.jobGen.pushedBack ≠ [] → s'.jobGen.pushedBack ≠ []) : s'.Admits s'.producer := by
  rw [hpr]
  cases hp : s.producer with
  | checking applyHeight bytes =>
    rw [hp] at h
    exact le_trans (show applyHeight ≤ s.height from h) hh
  | generating =>
    rw [hp] at h
    rcases (show _ ∨ _ from h) with hne | hlt
    · exact .inl (hq hne)
    · exact .inr (by rw [hg]; omega)
  | idle => trivial
  | waiting _ => trivial
  | sending _ => trivial

/-! ### The producer -/

lemma Sound.producer {p p' : Producer} (hp : s.producer = p) (hh : p'.heights = p.heights)
    (ha : s.Admits p') : Sound largest { s with producer := p' } := by
  refine hs.of_same rfl rfl rfl (fun h => ?_) ha
  simp [mem_outstanding, hp, hh]

lemma Sound.nextHeight (hp : s.producer = .generating) :
    Sound largest { s with producer := .waiting s.jobGen.nextHeight.1, jobGen := s.jobGen.nextHeight.2 } := by
  have ha : s.jobGen.pushedBack ≠ [] ∨ s.jobGen.height < s.height + maxOutstandingHeights := by
    have h := hs.admits
    rwa [hp] at h
  unfold JobGenerator.nextHeight
  cases hq : s.jobGen.pushedBack with
  | cons height rest =>
    refine hs.of_same rfl rfl rfl (fun h => ?_) trivial
    simp only [mem_outstanding, hq, hp, heights]
    grind
  | nil =>
    have hlt := ha.resolve_left (by simp [hq])
    refine ⟨?_, ?_, hs.distinct, ?_, trivial, ?_, hs.sizes⟩
    · show s.jobGen.height + 1 ≤ s.height + maxOutstandingHeights
      omega
    · intro h hh
      have := hs.held h hh
      exact ⟨this.1, by show h < s.jobGen.height + 1; omega⟩
    · intro h hh
      show h < s.jobGen.height + 1
      have hc : h = s.jobGen.height ∨ h ∈ s.outstanding := by
        rw [mem_outstanding] at hh ⊢
        simp only [heights] at hh
        grind
      rcases hc with rfl | hh
      · omega
      have := hs.asked h hh
      omega
    · intro h hl hhi
      have hh' : h < s.jobGen.height + 1 := hhi
      rcases eq_or_ne h s.jobGen.height with rfl | hne
      · right
        rw [mem_outstanding]
        exact .inr (.inl (by simp [heights]))
      rcases hs.owned h hl (by omega) with hhe | ho
      · exact .inl hhe
      right
      rw [mem_outstanding] at ho ⊢
      simp only [heights, hq, hp] at ho ⊢
      grind

/-! ### The consumer and the p2p goroutines -/

/-- What a step leaves in place when it drops responses, applies a block or queues retries: the height
to apply only moves up, no response is added but one that was asked for, and every height of the
window that loses its response is outstanding. -/
lemma Sound.of_moves (hhg : s.height ≤ s'.height) (hg : s'.jobGen.height = s.jobGen.height)
    (hp : s'.producer = s.producer) (hq : s.jobGen.pushedBack ≠ [] → s'.jobGen.pushedBack ≠ [])
    (hhe : ∀ h ∈ s'.heldHeights, s'.height ≤ h ∧ (h ∈ s.heldHeights ∨ h ∈ s.outstanding))
    (hd : s'.heldHeights.Nodup) (ho : ∀ h ∈ s'.outstanding, h ∈ s.heldHeights ∨ h ∈ s.outstanding)
    (how : ∀ h, s'.height ≤ h → h ∈ s.heldHeights ∨ h ∈ s.outstanding → h ∈ s'.heldHeights ∨ h ∈ s'.outstanding)
    (hsi : ∀ entry ∈ s'.pendingToApply, entry.2.size ≤ largest) : Sound largest s' where
  window := by
    have := hs.window
    omega
  held := fun h hh => by
    obtain ⟨hl, hhe | ho⟩ := hhe h hh
    · exact ⟨hl, hg ▸ (hs.held h hhe).2⟩
    · exact ⟨hl, hg ▸ hs.asked h ho⟩
  distinct := hd
  asked := fun h hh => by
    rcases ho h hh with hhe | ho
    · exact hg ▸ (hs.held h hhe).2
    · exact hg ▸ hs.asked h ho
  admits := Admits.mono hs.admits hp hhg hg hq
  owned := fun h hl hhi => how h hl (hs.owned h (by omega) (hg ▸ hhi))
  sizes := hsi

omit hs in
lemma of_canReceive (h : s.canReceive job = true) : s.consumer = .receiving ∧ job ∈ s.inFlight := by
  simpa [canReceive] using h

lemma Sound.retried (hj : s.canReceive job = true) (hh : s'.height = s.height)
    (hpe : s'.pendingToApply = s.pendingToApply) (hg : s'.jobGen = s.jobGen.pushBack [job.height])
    (hp : s'.producer = s.producer) (hf : s'.inFlight = s.inFlight.erase job)
    (hr : s'.removals = s.removals) (hha : s'.consumer.heights = []) : Sound largest s' := by
  obtain ⟨hc, hm⟩ := of_canReceive hj
  have ho : ∀ h, h ∈ s'.outstanding ↔ h ∈ s.outstanding := by
    intro h
    rw [mem_outstanding, mem_outstanding, ← exists_mem_erase_or hm fun other => other.height = h, hg, hp, hf, hr, hha, hc]
    simp only [JobGenerator.mem_pushBack, mem_singleton, Consumer.heights]
    grind
  refine hs.of_same hh hpe (by rw [hg, JobGenerator.height_pushBack]) ho ?_
  refine Admits.mono hs.admits hp hh.ge (by rw [hg, JobGenerator.height_pushBack]) ?_
  rw [hg]
  exact JobGenerator.pushBack_ne_nil _

omit hs in
lemma addBlock_cases (s : Synchronizer) (height : ℤ) (resp : BlockResponse) :
    (s.addBlock height resp = s ∧ (height < s.height ∨ height ∈ s.heldHeights)) ∨
      (s.addBlock height resp = { s with pendingToApply := s.pendingToApply ++ [(height, resp)] } ∧
        s.height ≤ height ∧ height ∉ s.heldHeights) := by
  unfold addBlock
  split_ifs with hl hh
  · exact .inl ⟨rfl, .inl hl⟩
  · obtain ⟨other, ho⟩ := Option.isSome_iff_exists.mp hh
    exact .inl ⟨rfl, .inr (mem_map.mpr ⟨_, Lib.mem_of_lookup ho, rfl⟩)⟩
  refine .inr ⟨rfl, not_lt.mp hl, fun hm => hh ?_⟩
  obtain ⟨entry, he, rfl⟩ := mem_map.mp hm
  exact lookup_isSome_iff.mpr ⟨_, he, beq_self_eq_true _⟩

omit hs in
lemma addBlock_frame (s : Synchronizer) (height : ℤ) (resp : BlockResponse) :
    (s.addBlock height resp).jobGen = s.jobGen ∧ (s.addBlock height resp).height = s.height ∧
      (s.addBlock height resp).producer = s.producer ∧ (s.addBlock height resp).removals = s.removals := by
  unfold addBlock
  split_ifs <;> exact ⟨rfl, rfl, rfl, rfl⟩

omit hs in
lemma mem_heldHeights_addBlock {height h : ℤ} :
    h ∈ (s.addBlock height resp).heldHeights ↔ h ∈ s.heldHeights ∨ h = height ∧ s.height ≤ height := by
  rcases addBlock_cases s height resp with ⟨heq, hw⟩ | ⟨heq, hge, -⟩
  · rw [heq]
    refine ⟨.inl, ?_⟩
    rintro (hh | ⟨rfl, hge⟩)
    · exact hh
    · exact hw.resolve_left (not_lt.mpr hge)
  · simp [heq, heldHeights, hge]

omit hs in
lemma outstanding_consumeReceived (hj : s.canReceive job = true) (size : ℕ) (h : ℤ) :
    (h ∈ (s.consumeReceived job size).outstanding → h ∈ s.outstanding) ∧
      (h ≠ job.height → h ∈ s.outstanding → h ∈ (s.consumeReceived job size).outstanding) := by
  obtain ⟨hc, hm⟩ := of_canReceive hj
  obtain ⟨hg, -, hp, hr⟩ := addBlock_frame s job.height ⟨job.peerID, size⟩
  simp only [mem_outstanding, consumeReceived, hg, hp, hr, hc, Consumer.heights]
  refine ⟨.imp_right (.imp_right (.imp_left ?_)), fun hne => .imp_right (.imp_right (.imp_left ?_))⟩
  · rintro ⟨other, ho, heq⟩
    exact ⟨other, mem_of_mem_erase ho, heq⟩
  · rintro ⟨other, ho, heq⟩
    refine ⟨other, (mem_erase_of_ne ?_).mpr ho, heq⟩
    rintro rfl
    exact hne heq.symm

lemma Sound.consumeReceived (hjo : s.canReceive job = true) {size : ℕ}
    (hsi : s.acceptedSize (.received job size) ≤ largest) : Sound largest (s.consumeReceived job size) := by
  have hou := outstanding_consumeReceived hjo size
  obtain ⟨hg, hhe, hp, -⟩ := addBlock_frame s job.height ⟨job.peerID, size⟩
  have hbl := addBlock_cases s job.height ⟨job.peerID, size⟩
  refine hs.of_moves hhe.ge (congrArg _ hg) hp (by simp [Synchronizer.consumeReceived, hg])
    (fun h hh => ?_) ?_ (fun h hh => .inr ((hou h).1 hh)) (fun h hge ho => ?_) ?_
  · rcases mem_heldHeights_addBlock.mp hh with hhl | ⟨rfl, hge⟩
    · exact ⟨hhe ▸ (hs.held h hhl).1, .inl hhl⟩
    · exact ⟨hhe ▸ hge, .inr (mem_outstanding.mpr (.inr (.inr (.inl ⟨job, (of_canReceive hjo).2, rfl⟩))))⟩
  · show (s.addBlock ..).heldHeights.Nodup
    rcases hbl with ⟨heq, -⟩ | ⟨heq, -, hf⟩ <;> rw [heq]
    · exact hs.distinct
    · rw [heldHeights, map_append]
      refine nodup_append.mpr ⟨hs.distinct, by simp, fun a ha b hb => ?_⟩
      exact mem_singleton.mp hb ▸ ne_of_mem_of_not_mem ha hf
  · by_cases hj : h = job.height
    · exact .inl (mem_heldHeights_addBlock.mpr (.inr ⟨hj, hj ▸ hhe ▸ hge⟩))
    · exact ho.imp (fun hhl => mem_heldHeights_addBlock.mpr (.inl hhl)) ((hou h).2 hj)
  · intro entry he
    change entry ∈ (s.addBlock ..).pendingToApply at he
    rcases hbl with ⟨heq, -⟩ | ⟨heq, hl, hf⟩
    · exact hs.sizes entry (heq ▸ he)
    · rw [heq] at he
      rcases mem_append.mp he with hol | hn
      · exact hs.sizes entry hol
      · rw [mem_singleton.mp hn]
        simpa only [acceptedSize, if_pos (And.intro hjo (And.intro hl hf))] using hsi

lemma Sound.dropPeer (peerID : NodeID) (hhe : s'.height = s.height)
    (hp : s'.pendingToApply = (s.dropPeer peerID).2.pendingToApply) (hg : s'.jobGen = s.jobGen)
    (hpr : s'.producer = s.producer)
    (ho : ∀ h, h ∈ s'.outstanding ↔ h ∈ s.outstanding ∨ h ∈ (s.dropPeer peerID).1) : Sound largest s' := by
  have hsu : s'.pendingToApply.Sublist s.pendingToApply := by
    rw [hp]
    exact filter_sublist
  have hd : ∀ h ∈ (s.dropPeer peerID).1, h ∈ s.heldHeights := by
    intro h hh
    obtain ⟨entry, he, rfl⟩ := mem_map.mp hh
    exact mem_map_of_mem (mem_filter.mp he).1
  refine hs.of_moves hhe.ge (by rw [hg]) hpr (by rw [hg]; exact id) (fun h hh => ?_)
    (hs.distinct.sublist (hsu.map _)) (fun h hh => ?_) (fun h hge how => ?_)
    (fun entry he => hs.sizes entry (hsu.subset he))
  · have hhl := (hsu.map (·.1)).subset hh
    exact ⟨hhe ▸ (hs.held h hhl).1, .inl hhl⟩
  · rcases (ho h).mp hh with ho | hdr
    · exact .inr ho
    · exact .inl (hd h hdr)
  rcases how with hhl | hm
  · obtain ⟨entry, he, rfl⟩ := mem_map.mp hhl
    by_cases hpe : entry.2.peerID = peerID
    · refine .inr ((ho _).mpr (.inr (mem_map_of_mem ?_)))
      exact mem_filter.mpr ⟨he, by simp [hpe]⟩
    refine .inl (mem_map_of_mem ?_)
    rw [hp]
    exact mem_filter.mpr ⟨he, by simp [hpe]⟩
  · exact .inr ((ho h).mpr (.inl hm))

lemma Sound.advance (hc : s.consumer = .applying resp) : Sound largest { s.advance with consumer := .looking } := by
  have hsu : s.advance.pendingToApply.Sublist s.pendingToApply := filter_sublist
  have hou : ∀ h, h ∈ ({ s.advance with consumer := .looking } : Synchronizer).outstanding ↔ h ∈ s.outstanding := by
    intro h
    simp [mem_outstanding, hc, Consumer.heights, Synchronizer.advance]
  refine hs.of_moves ?_ rfl rfl id (fun h hh => ?_)
    (hs.distinct.sublist (hsu.map _)) (fun h hh => .inr ((hou h).mp hh)) (fun h hge ho => ?_)
    (fun entry he => hs.sizes entry (hsu.subset he))
  · show s.height ≤ s.height + 1
    omega
  · obtain ⟨entry, he, rfl⟩ := mem_map.mp hh
    obtain ⟨hm, hne⟩ := mem_filter.mp he
    have hhe : entry.1 ∈ s.heldHeights := mem_map_of_mem hm
    refine ⟨?_, .inl hhe⟩
    have hn' : entry.1 ≠ s.height := by simpa using hne
    have hge := (hs.held _ hhe).1
    show s.height + 1 ≤ entry.1
    omega
  · have hg' : s.height + 1 ≤ h := hge
    refine ho.imp (fun hhe => ?_) (hou h).mpr
    obtain ⟨entry, he, rfl⟩ := mem_map.mp hhe
    refine mem_map_of_mem (mem_filter.mpr ⟨he, ?_⟩)
    have hne : entry.1 ≠ s.height := by omega
    simpa using hne

lemma Sound.requeued (heights : List ℤ) (hh : s'.height = s.height)
    (hpe : s'.pendingToApply = s.pendingToApply) (hge : s'.jobGen = s.jobGen.pushBack heights)
    (hp : s'.producer = s.producer) (ho : ∀ h, h ∈ s'.outstanding ↔ h ∈ s.outstanding) : Sound largest s' := by
  have hg : s'.jobGen.height = s.jobGen.height := by rw [hge, JobGenerator.height_pushBack]
  refine hs.of_same hh hpe hg ho (Admits.mono hs.admits hp hh.ge hg ?_)
  rw [hge]
  exact JobGenerator.pushBack_ne_nil heights

theorem Sound.step (event : Event) (hsi : s.acceptedSize event ≤ largest) : Sound largest (s.step event) := by
  have ha := step_acts s event
  generalize s.step event = s' at ha
  cases ha with
  | nothing => exact hs
  | backlog hp => exact hs.producer hp rfl (le_refl s.height)
  | agreed hp hsh =>
    have hle := hs.admits
    rw [hp] at hle
    refine hs.producer hp rfl ((JobGenerator.of_shouldJobBeGenerated hsh).imp_right fun h => ?_)
    exact lt_of_lt_of_le h (add_le_add_left hle _)
  | declined hp => exact hs.producer hp rfl trivial
  | nextHeight hp => exact hs.nextHeight hp
  | reserved hp hca =>
    refine hs.of_same rfl rfl rfl (fun h => ?_) trivial
    simp [mem_outstanding, hp, heights]
  | sent hp =>
    refine hs.of_same rfl rfl rfl (fun h => ?_) trivial
    simp [mem_outstanding, hp, heights]
    aesop
  | failed hj =>
    refine hs.retried hj rfl rfl rfl rfl rfl rfl ?_
    unfold consumeFailed
    dsimp only
    split_ifs <;> rfl
  | missing hj =>
    refine hs.retried hj rfl rfl rfl rfl rfl rfl ?_
    show s.consumer.heights = []
    rw [(of_canReceive hj).1]
    rfl
  | received hj => exact hs.consumeReceived hj hsi
  | consumed hf hto hh =>
    refine hs.of_same rfl rfl rfl (fun h => ?_) (Admits.mono hs.admits rfl (le_refl _) rfl id)
    simp [mem_outstanding, hf, hto]
  | advanced hc => exact hs.advance hc
  | droppedOwn hc =>
    refine hs.dropPeer _ rfl rfl rfl rfl fun h => ?_
    simp only [mem_outstanding, hc, Consumer.heights]
    grind [Synchronizer.dropPeer]
  | requeuedOwn hc =>
    refine hs.requeued _ rfl rfl rfl rfl fun h => ?_
    simp only [mem_outstanding, hc, Consumer.heights, pushBack, JobGenerator.mem_pushBack]
    grind
  | peerAdded => exact hs.of_same rfl rfl rfl (fun _ => Iff.rfl) (Admits.mono hs.admits rfl (le_refl _) rfl id)
  | peerDropped =>
    refine hs.dropPeer _ rfl rfl rfl rfl fun h => ?_
    simp only [mem_outstanding]
    grind [Synchronizer.dropPeer]
  | requeued hm =>
    refine hs.requeued _ rfl rfl rfl rfl fun h => ?_
    simp only [mem_outstanding, ← exists_mem_erase_or hm fun other => h ∈ other, pushBack, JobGenerator.mem_pushBack]
    grind

theorem Sound.run {events : List Event}
    (hsi : s.largestAccepted events ≤ largest) : Sound largest (Lib.Run.run Synchronizer.step s events) := by
  induction events generalizing s with
  | nil => exact hs
  | cons event events ih =>
    obtain ⟨ho, hr⟩ := max_le_iff.mp hsi
    exact ih (hs.step event ho) hr

/-! ### The two results -/

lemma Sound.length_pendingToApply : s.pendingToApply.length ≤ maxOutstandingHeights.toNat := by
  have hsu : s.heldHeights.toFinset ⊆ Finset.Ico s.height (s.height + maxOutstandingHeights) := by
    intro h hh
    have hhe := hs.held h (mem_toFinset.mp hh)
    have hw := hs.window
    exact Finset.mem_Ico.mpr ⟨hhe.1, by omega⟩
  calc s.pendingToApply.length = s.heldHeights.toFinset.card := by
        rw [toFinset_card_of_nodup hs.distinct, heldHeights, length_map]
    _ ≤ (Finset.Ico s.height (s.height + maxOutstandingHeights)).card := Finset.card_le_card hsu
    _ = maxOutstandingHeights.toNat := by rw [Int.card_Ico, add_sub_cancel_left]

end

/-- **The memory window.** In every state of every run the responses held lie in the window above the
height to apply, the next height to ask for is not beyond it, and the size held is bounded by the
byte budget and the largest block accepted. -/
theorem run_window (startHeight : ℤ) (events : List Event) :
    let s := run startHeight events
    (∀ entry ∈ s.pendingToApply, s.height ≤ entry.1 ∧ entry.1 < s.height + maxOutstandingHeights) ∧
      s.jobGen.height ≤ s.height + maxOutstandingHeights ∧
      s.pendingBytes ≤ maxPendingApplyBytes +
        maxOutstandingHeights.toNat * (new startHeight).largestAccepted events := by
  intro s
  have hs : Sound ((new startHeight).largestAccepted events) s := (Sound.new _ startHeight).run (le_refl _)
  refine ⟨fun entry he => ?_, hs.window, ?_⟩
  · have hh := hs.held entry.1 (mem_map_of_mem he)
    have hw := hs.window
    exact ⟨hh.1, by omega⟩
  have hsu : s.pendingBytes ≤
      s.pendingToApply.length * (new startHeight).largestAccepted events := by
    have h := sum_le_card_nsmul (s.pendingToApply.map fun entry => entry.2.size)
      ((new startHeight).largestAccepted events) (by
        intro size hsi
        obtain ⟨entry, he, rfl⟩ := mem_map.mp hsi
        exact hs.sizes entry he)
    simpa [pendingBytes] using h
  calc s.pendingBytes ≤ s.pendingToApply.length * (new startHeight).largestAccepted events := hsu
    _ ≤ maxOutstandingHeights.toNat * (new startHeight).largestAccepted events :=
      Nat.mul_le_mul_right _ hs.length_pendingToApply
    _ ≤ _ := Nat.le_add_left ..

def InRemoval (s : Synchronizer) (h : ℤ) : Prop :=
  (∃ heights ∈ s.removals, h ∈ heights) ∨ h ∈ s.consumer.heights

lemma InRemoval.requeued (hin : s.InRemoval h) :
    ∃ event, (event = .requeueOwn ∨ ∃ heights ∈ s.removals, event = .requeue heights) ∧
      h ∈ (s.step event).jobGen.pushedBack := by
  rcases hin with ⟨heights, hm, hh⟩ | hh
  · refine ⟨.requeue heights, .inr ⟨heights, hm, rfl⟩, ?_⟩
    simp [step, peerUpdate, hm, pushBack, hh]
  refine ⟨.requeueOwn, .inl rfl, ?_⟩
  cases hc : s.consumer with
  | requeueing heights =>
    rw [hc] at hh
    have hh' : h ∈ heights := hh
    simp [step, consume, hc, pushBack, hh']
  | _ =>
    rw [hc] at hh
    cases hh

/-- **No height is lost.** In every state of every run a height from the one to apply up to the next to
ask for is held, queued, with the producer, in flight, or in the hands of a removal of a peer whose
next step queues it. -/
theorem run_owned (startHeight : ℤ) (events : List Event) (h : ℤ) :
    let s := run startHeight events
    s.height ≤ h → h < s.jobGen.height →
      h ∈ s.heldHeights ∨ h ∈ s.jobGen.pushedBack ∨ h ∈ s.producer.heights ∨
        (∃ job ∈ s.inFlight, job.height = h) ∨
        (s.InRemoval h ∧
          ∃ event, (event = .requeueOwn ∨ ∃ heights ∈ s.removals, event = .requeue heights) ∧
            h ∈ (s.step event).jobGen.pushedBack) := by
  intro s hl hhi
  have hs : Sound ((new startHeight).largestAccepted events) s := (Sound.new _ startHeight).run (le_refl _)
  rcases hs.owned h hl hhi with hhe | ho
  · exact .inl hhe
  rcases mem_outstanding.mp ho with hh | hh | hh | hh | hh
  · exact .inr (.inl hh)
  · exact .inr (.inr (.inl hh))
  · exact .inr (.inr (.inr (.inl hh)))
  · exact .inr (.inr (.inr (.inr ⟨.inl hh, InRemoval.requeued (.inl hh)⟩)))
  · exact .inr (.inr (.inr (.inr ⟨.inr hh, InRemoval.requeued (.inr hh)⟩)))

def removedMidway : List Event :=
  [.addPeer "peer" 1 10, .backlog, .shouldJobBeGenerated, .nextHeight, .reservePeer "peer", .send,
    .received ⟨1, "peer"⟩ 500, .dropPeer "peer"]

/-- Between the two halves of a removal the height is with none of the other four owners. -/
theorem dropped_height_in_no_queue :
    let s := run 1 removedMidway
    s.height ≤ 1 ∧ 1 < s.jobGen.height ∧ 1 ∉ s.heldHeights ∧ 1 ∉ s.jobGen.pushedBack ∧
      1 ∉ s.producer.heights ∧ ∀ job ∈ s.inFlight, job.height ≠ 1 := by
  decide +kernel

theorem dropped_height_owned :
    let s := run 1 removedMidway
    s.InRemoval 1 ∧
      ∃ event, (event = .requeueOwn ∨ ∃ heights ∈ s.removals, event = .requeue heights) ∧
        1 ∈ (s.step event).jobGen.pushedBack := by
  have hg : let s := run 1 removedMidway
      1 ∉ s.heldHeights ∧ 1 ∉ s.jobGen.pushedBack ∧ 1 ∉ s.producer.heights ∧
        ¬ ∃ job ∈ s.inFlight, job.height = 1 := by decide +kernel
  rcases run_owned 1 removedMidway 1 (by decide +kernel) (by decide +kernel) with h | h | h | h | h
  · exact absurd h hg.1
  · exact absurd h hg.2.1
  · exact absurd h hg.2.2.1
  · exact absurd h hg.2.2.2
  · exact h

end Synchronizer

end Tenderdash.Blocksync
