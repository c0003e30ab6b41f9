import Tenderdash.Consensus.PeerLanes

/-!
What holds of the lanes after any sequence of operations.

* `Valid` — the rotation names the lanes that hold messages, the totals count them, and no lane has saved what its
  head costs;
* `Changed` — most operations change one lane, which joins or leaves the rotation accordingly;
* `Move` — the single steps an operation is made of; each keeps `Valid` (`Valid.move`).
-/

namespace Tenderdash

open Lib List Function PeerLane

namespace PeerLanes

variable {M : Type} {tariff : Tariff M}

/-! ### The invariant -/

structure Booked (tariff : Tariff M) (peerID : String) (lane : PeerLane M) : Prop where
  sender : ∀ entry ∈ lane.queue, entry.info.peerID = peerID
  bytes : lane.bytes = (lane.queue.map fun entry => (entry.bytes : ℤ)).sum
  capacity : lane.queue.length ≤ laneCapacity
  credit : 0 ≤ lane.deficit
  saved : ∀ entry rest, lane.queue = entry :: rest → lane.deficit < laneTurnCost tariff entry.info

structure Valid (tariff : Tariff M) (s : PeerLanes M) : Prop where
  lane : ∀ p, Booked tariff p (s.laneOf p)
  nodup : s.rotation.Nodup
  named : ∀ p, p ∈ s.rotation ↔ (s.laneOf p).queue ≠ []
  queued : s.queued = (s.rotation.map fun p => ((s.laneOf p).queue.length : ℤ)).sum
  queuedBytes : s.queuedBytes = (s.rotation.map fun p => (s.laneOf p).bytes).sum
  buffer_pos : 0 < s.bufferCapacity
  byte_pos : 0 < s.byteCapacity
  queued_le : s.queued ≤ s.bufferCapacity
  fits : s.queuedBytes ≤ s.byteCapacity ∨ s.queued = 1
  /-- Only the lane at the front has an open turn. -/
  front : ∀ p ∈ s.rotation, (s.laneOf p).turnOpen = true → s.rotation.head? = some p

lemma booked_empty (p : String) (lane : PeerLane M) (hq : lane.queue = []) (hb : lane.bytes = 0)
    (hcr : 0 ≤ lane.deficit) : Booked tariff p lane where
  sender := by simp [hq]
  bytes := by simp [hq, hb]
  capacity := by simp [hq]
  credit := hcr
  saved := by simp [hq]

lemma valid_new {bufferCapacity byteCapacity : ℤ} (hb : 0 < bufferCapacity) (hby : 0 < byteCapacity)
    (now : ℤ) : Valid tariff (new bufferCapacity byteCapacity now : PeerLanes M) where
  lane p := booked_empty p _ rfl rfl le_rfl
  nodup := nodup_nil
  named p := by simp [new, laneOf]
  queued := rfl
  queuedBytes := rfl
  buffer_pos := hb
  byte_pos := hby
  queued_le := hb.le
  fits := .inl hby.le
  front p hp := by cases hp

/-! ### Sums over the rotation -/

variable {rot : List String} {p q : String} {entry : QueuedMsg M} {f g : String → ℤ}

lemma sum_map_congr_off (ho : ∀ q, q ≠ p → g q = f q) (hp : p ∉ rot) : (rot.map g).sum = (rot.map f).sum := by
  congr 1
  refine map_congr_left fun q hq => ho q ?_
  rintro rfl
  exact hp hq

lemma sum_map_change (ho : ∀ q, q ≠ p → g q = f q)
    (hn : rot.Nodup) (hp : p ∈ rot) : (rot.map g).sum = (rot.map f).sum + (g p - f p) := by
  have hgo : p ∉ rot.erase p := fun hm => (hn.mem_erase_iff.mp hm).1 rfl
  have hg := sum_map_erase g hp
  have hf := sum_map_erase f hp
  have hs := sum_map_congr_off ho hgo
  omega

/-! ### Changing one lane -/

/-- The operation changes one lane, which leaves the rotation when it runs empty and joins it at the tail when it was
empty. -/
structure Changed (s s' : PeerLanes M) (p : String) (lane : PeerLane M) : Prop where
  lane_eq : s'.laneOf p = lane
  others : ∀ q, q ≠ p → s'.laneOf q = s.laneOf q
  rotation : s'.rotation =
    if lane.queue = [] then s.rotation.erase p
    else if (s.laneOf p).queue = [] then s.rotation ++ [p] else s.rotation
  queued : s'.queued = s.queued + (lane.queue.length - (s.laneOf p).queue.length)
  queuedBytes : s'.queuedBytes = s.queuedBytes + (lane.bytes - (s.laneOf p).bytes)
  bufferCapacity : s'.bufferCapacity = s.bufferCapacity
  byteCapacity : s'.byteCapacity = s.byteCapacity

variable {s s' : PeerLanes M} {p : String} {lane : PeerLane M} {rest : List String}

section

variable (hc : Changed s s' p lane)

include hc

lemma Changed.sum (h : Valid tariff s) {f : PeerLane M → ℤ}
    (hf : f lane = 0 ∨ lane.queue ≠ []) (hf₀ : (s.laneOf p).queue = [] → f (s.laneOf p) = 0) :
    (s'.rotation.map fun q => f (s'.laneOf q)).sum =
      (s.rotation.map fun q => f (s.laneOf q)).sum + (f lane - f (s.laneOf p)) := by
  have ho : ∀ q, q ≠ p → f (s'.laneOf q) = f (s.laneOf q) := fun q hq => by rw [hc.others q hq]
  have hm := h.named p
  rw [hc.rotation]
  by_cases he : lane.queue = []
  · rw [if_pos he]
    have hz : f lane = 0 := hf.resolve_right (not_not.mpr he)
    have hg : p ∉ s.rotation.erase p := fun hin => (h.nodup.mem_erase_iff.mp hin).1 rfl
    rw [sum_map_congr_off ho hg, hz]
    by_cases hp : p ∈ s.rotation
    · have := sum_map_erase (fun q => f (s.laneOf q)) hp
      omega
    rw [erase_of_not_mem hp, hf₀ (not_not.mp fun hne => hp (hm.mpr hne))]
    omega
  · rw [if_neg he]
    by_cases hw : (s.laneOf p).queue = []
    · rw [if_pos hw, map_append, sum_append, sum_map_congr_off ho fun hp => (hm.mp hp) hw, hf₀ hw]
      simp [hc.lane_eq]
    · rw [if_neg hw, sum_map_change ho h.nodup (hm.mpr hw), hc.lane_eq]

lemma Changed.mem_rotation (h : Valid tariff s) (q : String) : q ∈ s'.rotation ↔ (s'.laneOf q).queue ≠ [] := by
  rw [hc.rotation]
  by_cases hq : q = p
  · subst hq
    rw [hc.lane_eq]
    split_ifs with he hw
    · simp [he, h.nodup.mem_erase_iff]
    · simp [he]
    · simpa [he] using (h.named q).mpr hw
  · rw [hc.others q hq, ← h.named q]
    split_ifs
    · rw [h.nodup.mem_erase_iff]
      exact and_iff_right hq
    · simp [hq]
    · rfl

lemma Changed.nodup_rotation (h : Valid tariff s) : s'.rotation.Nodup := by
  rw [hc.rotation]
  split_ifs with _ hw
  · exact h.nodup.erase _
  · have hp : p ∉ s.rotation := fun hin => ((h.named p).mp hin) hw
    exact nodup_append.mpr ⟨h.nodup, nodup_singleton p, by
      rintro a ha b hb rfl
      exact hp (mem_singleton.mp hb ▸ ha)⟩
  · exact h.nodup

lemma Changed.head? (hq : q ≠ p) (hh : s.rotation.head? = some q) : s'.rotation.head? = some q := by
  obtain ⟨rest, hr⟩ := head?_eq_some_iff.mp hh
  rw [hc.rotation, hr]
  split_ifs
  · rw [erase_cons_tail (by simpa using hq)]
    rfl
  · rfl
  · rfl

omit hc in
lemma sum_eq_zero_of_lengths {len bytes : String → ℤ} (hl : ∀ q ∈ rot, 1 ≤ len q)
    (hs : (rot.map len).sum ≤ 0) : (rot.map bytes).sum = 0 := by
  cases rot with
  | nil => rfl
  | cons q rest =>
    have hre : 0 ≤ (rest.map len).sum := by
      refine sum_nonneg fun n hn => ?_
      obtain ⟨r, hr, rfl⟩ := mem_map.mp hn
      have := hl r (by simp [hr])
      omega
    have hf := hl q (by simp)
    rw [map_cons, sum_cons] at hs
    omega

theorem Valid.change (h : Valid tariff s) (hl : Booked tariff p lane)
    (ho : lane.queue ≠ [] → lane.turnOpen = true → s'.rotation.head? = some p) (hqu : s'.queued ≤ s'.bufferCapacity)
    (hf : s'.queuedBytes ≤ s'.byteCapacity ∨ s'.queued ≤ 1) : Valid tariff s' := by
  have hco : s'.queued = (s'.rotation.map fun q => ((s'.laneOf q).queue.length : ℤ)).sum := by
    rw [hc.queued, h.queued]
    refine (hc.sum h (f := fun lane => (lane.queue.length : ℤ)) ?_ (by simp +contextual)).symm
    by_cases he : lane.queue = []
    · exact .inl (by simp [he])
    · exact .inr he
  have hw : s'.queuedBytes = (s'.rotation.map fun q => (s'.laneOf q).bytes).sum := by
    rw [hc.queuedBytes, h.queuedBytes]
    refine (hc.sum h (f := fun lane => lane.bytes) ?_ fun he => ?_).symm
    · by_cases he : lane.queue = []
      · exact .inl (by rw [hl.bytes, he]; rfl)
      · exact .inr he
    rw [(h.lane p).bytes, he]
    rfl
  refine ⟨fun q => ?_, hc.nodup_rotation h, hc.mem_rotation h, hco, hw, hc.bufferCapacity ▸ h.buffer_pos,
    hc.byteCapacity ▸ h.byte_pos, hqu, ?_, fun q hq ht => ?_⟩
  · by_cases hq : q = p
    · rw [hq, hc.lane_eq]
      exact hl
    · rw [hc.others q hq]
      exact h.lane q
  · by_cases hon : s'.queued = 1
    · exact .inr hon
    rcases hf with hf | hfe
    · exact .inl hf
    have hp : ∀ q ∈ s'.rotation, (1 : ℤ) ≤ (s'.laneOf q).queue.length := fun q hq => by
      have := length_pos_iff.mpr ((hc.mem_rotation h q).mp hq)
      omega
    have hz : s'.queuedBytes = 0 := by
      rw [hw]
      exact sum_eq_zero_of_lengths hp (by omega)
    have := h.byte_pos
    rw [hz, hc.byteCapacity]
    exact .inl this.le
  · by_cases hqp : q = p
    · subst hqp
      have hne := (hc.mem_rotation h q).mp hq
      rw [hc.lane_eq] at hne ht
      exact ho hne ht
    · rw [hc.others q hqp] at ht
      have hin : q ∈ s.rotation := by
        rw [h.named q, ← hc.others q hqp]
        exact (hc.mem_rotation h q).mp hq
      exact hc.head? hqp (h.front q hin ht)

lemma Valid.shrink (h : Valid tariff s) (hl : Booked tariff p lane)
    (ho : lane.queue ≠ [] → lane.turnOpen = true → s'.rotation.head? = some p)
    (hln : lane.queue.length ≤ (s.laneOf p).queue.length) (hb : lane.bytes ≤ (s.laneOf p).bytes) : Valid tariff s' := by
  have hq := hc.queued
  have hqb := hc.queuedBytes
  have hle := h.queued_le
  refine h.change hc hl ho (by rw [hc.bufferCapacity]; omega) ?_
  rw [hc.byteCapacity]
  rcases h.fits with hf | hon
  · exact .inl (by omega)
  · exact .inr (by omega)

end

/-! ### What each operation does to its lane -/

@[simp] lemma laneOf_setLane_self (s : PeerLanes M) (p : String) (lane : PeerLane M) :
    (s.setLane p lane).laneOf p = lane := by simp [laneOf, setLane]

lemma laneOf_setLane_of_ne (s : PeerLanes M) (lane : PeerLane M) (hq : q ≠ p) :
    (s.setLane p lane).laneOf q = s.laneOf q := by simp [laneOf, setLane, update_of_ne hq]

def SameSessions (s s' : PeerLanes M) : Prop := s'.sessions = s.sessions ∧ s'.nextSession = s.nextSession

lemma leaveIfEmpty_eq (s : PeerLanes M) (lane : PeerLane M) (p : String) :
    s.leaveIfEmpty lane p = { s with rotation := if lane.queue = [] then s.rotation.erase p else s.rotation } := by
  by_cases he : lane.queue = [] <;> simp [leaveIfEmpty, active, he, removeFromRotation]

lemma sameSessions_pop (s : PeerLanes M) (p : String) (lane : PeerLane M) (entry : QueuedMsg M) :
    SameSessions s (((s.setLane p lane).accountPopped entry).leaveIfEmpty lane p) := by
  rw [leaveIfEmpty_eq]
  exact ⟨rfl, rfl⟩

lemma changed_pop (entry : QueuedMsg M) (hl : (s.laneOf p).queue.length = lane.queue.length + 1)
    (hb : lane.bytes = (s.laneOf p).bytes - entry.bytes) :
    Changed s (((s.setLane p lane).accountPopped entry).leaveIfEmpty lane p) p lane := by
  have hw : (s.laneOf p).queue ≠ [] := length_pos_iff.mp (by omega)
  rw [leaveIfEmpty_eq]
  refine ⟨laneOf_setLane_self s p lane, fun q => laneOf_setLane_of_ne s lane, ?_, ?_, ?_, rfl, rfl⟩
  · rw [if_neg hw]
    rfl
  · show s.queued - 1 = _
    omega
  · show s.queuedBytes - entry.bytes = _
    omega

lemma changed_append (s : PeerLanes M) (mi : MsgInfo M) (size : ℕ) :
    Changed s (s.append mi size) mi.peerID { s.laneOf mi.peerID with
      queue := (s.laneOf mi.peerID).queue ++ [⟨mi, size⟩]
      bytes := (s.laneOf mi.peerID).bytes + size
      deficit := if (s.laneOf mi.peerID).queue = [] then 0 else (s.laneOf mi.peerID).deficit
      turnOpen := if (s.laneOf mi.peerID).queue = [] then false else (s.laneOf mi.peerID).turnOpen } := by
  unfold append
  by_cases he : (s.laneOf mi.peerID).queue = []
  · rw [if_neg (by simp [active, he])]
    exact ⟨(laneOf_setLane_self ..).trans (by simp [he]), fun q => laneOf_setLane_of_ne _ _,
      by simp [he], by simp [setLane], by simp [setLane], rfl, rfl⟩
  · rw [if_pos (by simp [active, he])]
    exact ⟨(laneOf_setLane_self ..).trans (by simp [he]), fun q => laneOf_setLane_of_ne _ _,
      by simp [he, setLane], by simp [setLane], by simp [setLane], rfl, rfl⟩

lemma changed_purgePeer (h : Valid tariff s) (p : String) : Changed s (s.purgePeer p).1 p {} := by
  have hl : (s.purgePeer p).1.lanes = update s.lanes p none := by
    unfold purgePeer
    by_cases hn : s.lanes p = none
    · simp only [hn, if_true]
      rw [← hn, update_eq_self]
    · simp only [hn, if_false]
  have hs : (s.purgePeer p).1.laneOf p = {} := by simp [laneOf, hl]
  have ho : ∀ q, q ≠ p → (s.purgePeer p).1.laneOf q = s.laneOf q := fun q hq => by
    simp [laneOf, hl, update_of_ne hq]
  by_cases he : (s.laneOf p).queue = []
  · -- an empty lane is neither in the rotation nor in the totals
    have hb : (s.laneOf p).bytes = 0 := by
      rw [(h.lane p).bytes, he]
      rfl
    have hou : p ∉ s.rotation := fun hin => (h.named p).mp hin he
    refine ⟨hs, ho, ?_, ?_, ?_, ?_, ?_⟩
    · rw [if_pos rfl, erase_of_not_mem hou]
      by_cases hn : s.lanes p = none <;> simp [purgePeer, hn, active, he]
    all_goals by_cases hn : s.lanes p = none <;> simp [purgePeer, hn, active, he, hb]
  · have hso : s.lanes p ≠ none := fun hn => he (by simp [laneOf, hn])
    refine ⟨hs, ho, ?_, ?_, ?_, ?_, ?_⟩
    all_goals simp [purgePeer, hso, active, he, removeFromRotation, sub_eq_add_neg]

/-! ### The turn of a lane -/

@[simp] lemma grant_queue (lane : PeerLane M) : (grant lane).queue = lane.queue := by
  unfold grant
  split <;> rfl

@[simp] lemma grant_bytes (lane : PeerLane M) : (grant lane).bytes = lane.bytes := by
  unfold grant
  split <;> rfl

lemma grant_deficit (lane : PeerLane M) : (grant lane).deficit = lane.deficit + if lane.turnOpen then 0 else 1 := by
  unfold grant
  split <;> simp

lemma afterServing_grant {queue : List (QueuedMsg M)} {cost now : ℤ}
    (hcl : lane.turnOpen = false) (hco : lane.deficit + 1 = cost) :
    afterServing (grant lane) entry queue cost now = ⟨queue, lane.bytes - entry.bytes, 0, queue ≠ [], now⟩ := by
  unfold afterServing grant
  rw [hcl]
  by_cases he : queue = []
  · simp [active, he]
  have hq : laneQuantum = 1 := rfl
  simp [active, he]
  omega

lemma takeTurn_spec (h : Valid tariff s) (hr : s.rotation = p :: rest) (now : ℤ) :
    ∃ entry queue, (s.laneOf p).queue = entry :: queue ∧
      (((grant (s.laneOf p)).deficit < laneTurnCost tariff entry.info ∧
          s.takeTurn tariff now p = .ok ((s.setLane p { grant (s.laneOf p) with turnOpen := false }).rotateFront,
            .passed p (!(s.laneOf p).turnOpen), none)) ∨
        ((s.laneOf p).turnOpen = false ∧ (s.laneOf p).deficit + 1 = laneTurnCost tariff entry.info ∧
          ∃ s', s.takeTurn tariff now p = .ok (s', .served p entry.info true, some entry.info) ∧
            SameSessions s s' ∧
            Changed s s' p ⟨queue, (s.laneOf p).bytes - entry.bytes, 0, queue ≠ [], now⟩)) := by
  have hne : (s.laneOf p).queue ≠ [] := (h.named p).mp (by simp [hr])
  obtain ⟨entry, queue, hq⟩ := exists_cons_of_ne_nil hne
  have hla : s.lanes p = some (s.laneOf p) := by
    cases hs : s.lanes p with
    | none => exact absurd (by simp [laneOf, hs]) hne
    | some lane => simp [laneOf, hs]
  have hsa := (h.lane p).saved entry queue hq
  have hg := grant_deficit (s.laneOf p)
  refine ⟨entry, queue, hq, ?_⟩
  by_cases hl : (grant (s.laneOf p)).deficit < laneTurnCost tariff entry.info
  · refine .inl ⟨hl, ?_⟩
    unfold takeTurn
    rw [hla]
    dsimp only
    rw [hq]
    dsimp only
    rw [if_pos hl]
  · have hcl : (s.laneOf p).turnOpen = false := by
      by_contra ho
      rw [Bool.not_eq_false] at ho
      rw [ho] at hg
      simp at hg
      omega
    rw [hcl] at hg
    have hco : (s.laneOf p).deficit + 1 = laneTurnCost tariff entry.info := by omega
    set lane : PeerLane M := ⟨queue, (s.laneOf p).bytes - entry.bytes, 0, queue ≠ [], now⟩ with hd
    have ha : afterServing (grant (s.laneOf p)) entry queue (laneTurnCost tariff entry.info) now = lane :=
      afterServing_grant hcl hco
    refine .inr ⟨hcl, hco, _, ?_, sameSessions_pop .., changed_pop entry (by simp [hq, hd]) rfl⟩
    unfold takeTurn
    rw [hla]
    dsimp only
    rw [hq]
    dsimp only
    rw [if_neg hl, ha, hcl]
    rfl

/-! ### The steps of the operations -/

structure Idle (s s' : PeerLanes M) : Prop where
  queue : ∀ q, (s'.laneOf q).queue = (s.laneOf q).queue
  bytes : ∀ q, (s'.laneOf q).bytes = (s.laneOf q).bytes
  credit : ∀ q, (s.laneOf q).queue ≠ [] →
    (s'.laneOf q).deficit = (s.laneOf q).deficit ∧ (s'.laneOf q).turnOpen = (s.laneOf q).turnOpen
  forfeit : ∀ q, (s'.laneOf q).deficit = (s.laneOf q).deficit ∨ (s'.laneOf q).deficit = 0
  rotation : s'.rotation = s.rotation
  queued : s'.queued = s.queued
  queuedBytes : s'.queuedBytes = s.queuedBytes
  bufferCapacity : s'.bufferCapacity = s.bufferCapacity
  byteCapacity : s'.byteCapacity = s.byteCapacity

def Largest (s : PeerLanes M) (p : String) : ShedReason → Prop
  | .laneFull => False
  | .allLanesFull => ∀ q, (s.laneOf q).queue.length ≤ (s.laneOf p).queue.length
  | .lanesHoldTooMuch => ∀ q, (s.laneOf q).bytes ≤ (s.laneOf p).bytes

inductive Move (tariff : Tariff M) (s : PeerLanes M) : Note M → PeerLanes M → Prop
  | idle {t : PeerLanes M} (hi : Idle s t) (hs : SameSessions s t) : Move tariff s .idle t
  | admitted (p : String) : Move tariff s (.admitted p) (s.admitPeer p).1
  | accepted {t : PeerLanes M} (mi : MsgInfo M) (size : ℕ) (lane : PeerLane M) (hli : s.sessionLive mi = true)
      (hch : Changed s t mi.peerID lane)
      (hq : lane.queue = (s.laneOf mi.peerID).queue ++ [⟨mi, size⟩])
      (hb : lane.bytes = (s.laneOf mi.peerID).bytes + size)
      (hj : (s.laneOf mi.peerID).queue = [] → lane.deficit = 0 ∧ lane.turnOpen = false)
      (hst : (s.laneOf mi.peerID).queue ≠ [] →
        lane.deficit = (s.laneOf mi.peerID).deficit ∧ lane.turnOpen = (s.laneOf mi.peerID).turnOpen)
      (hco : s.queued < s.bufferCapacity) (hca : (s.laneOf mi.peerID).queue.length < laneCapacity)
      (hf : s.queuedBytes + size ≤ s.byteCapacity ∨ s.queued = 0) (hs : SameSessions s t) :
      Move tariff s (.accepted mi) t
  | shedOldest {t : PeerLanes M} (p : String) (entry : QueuedMsg M) (lane : PeerLane M)
      (hq : (s.laneOf p).queue = entry :: lane.queue) (hb : lane.bytes = (s.laneOf p).bytes - entry.bytes)
      (hd : lane.deficit = 0) (ht : lane.turnOpen = (s.laneOf p).turnOpen)
      (hch : Changed s t p lane) (hs : SameSessions s t) :
      Move tariff s (.shed .laneFull p p entry.info true) t
  | shedNewest {t : PeerLanes M} (reason : ShedReason) (sender p : String) (entry : QueuedMsg M) (lane : PeerLane M)
      (hq : (s.laneOf p).queue = lane.queue ++ [entry]) (hb : lane.bytes = (s.laneOf p).bytes - entry.bytes)
      (hd : lane.deficit = (s.laneOf p).deficit) (ht : lane.turnOpen = (s.laneOf p).turnOpen)
      (hl : Largest s p reason) (hch : Changed s t p lane) (hs : SameSessions s t) :
      Move tariff s (.shed reason sender p entry.info (decide (lane.queue = []))) t
  | passed (p : String) (rest : List String) (entry : QueuedMsg M) (queue : List (QueuedMsg M))
      (hr : s.rotation = p :: rest) (hq : (s.laneOf p).queue = entry :: queue)
      (hla : (grant (s.laneOf p)).deficit < laneTurnCost tariff entry.info) :
      Move tariff s (.passed p (!(s.laneOf p).turnOpen))
        (s.setLane p { grant (s.laneOf p) with turnOpen := false }).rotateFront
  | served {t : PeerLanes M} (p : String) (rest : List String) (entry : QueuedMsg M) (lane : PeerLane M)
      (hr : s.rotation = p :: rest) (hq : (s.laneOf p).queue = entry :: lane.queue)
      (hb : lane.bytes = (s.laneOf p).bytes - entry.bytes) (hcl : (s.laneOf p).turnOpen = false)
      (hcs : (s.laneOf p).deficit + 1 = laneTurnCost tariff entry.info)
      (hd : lane.deficit = 0) (ht : lane.turnOpen = decide (lane.queue ≠ []))
      (hch : Changed s t p lane) (hs : SameSessions s t) :
      Move tariff s (.served p entry.info true) t
  | purged {t : PeerLanes M} (p : String) (hch : Changed s t p {})
      (hs : t.sessions = Function.update s.sessions p none ∧ t.nextSession = s.nextSession) :
      Move tariff s (.purged p ((s.laneOf p).queue.map QueuedMsg.info)) t

/-! ### Every step keeps the lanes in order -/

lemma Valid.idle (h : Valid tariff s) (hi : Idle s s') : Valid tariff s' where
  lane q := by
    have hb := h.lane q
    refine ⟨?_, ?_, ?_, ?_, ?_⟩
    · rw [hi.queue q]
      exact hb.sender
    · rw [hi.queue q, hi.bytes q]
      exact hb.bytes
    · rw [hi.queue q]
      exact hb.capacity
    · rcases hi.forfeit q with hs | hz
      · rw [hs]
        exact hb.credit
      · exact hz.ge
    intro entry rest hqu
    rw [hi.queue q] at hqu
    rw [(hi.credit q (by simp [hqu])).1]
    exact hb.saved entry rest hqu
  nodup := hi.rotation ▸ h.nodup
  named q := by rw [hi.rotation, hi.queue q, h.named q]
  queued := by
    rw [hi.queued, hi.rotation, h.queued]
    simp only [hi.queue]
  queuedBytes := by
    rw [hi.queuedBytes, hi.rotation, h.queuedBytes]
    simp only [hi.bytes]
  buffer_pos := hi.bufferCapacity ▸ h.buffer_pos
  byte_pos := hi.byteCapacity ▸ h.byte_pos
  queued_le := by rw [hi.queued, hi.bufferCapacity]; exact h.queued_le
  fits := by rw [hi.queued, hi.queuedBytes, hi.byteCapacity]; exact h.fits
  front q hq ht := by
    rw [hi.rotation] at hq ⊢
    rw [(hi.credit q ((h.named q).mp hq)).2] at ht
    exact h.front q hq ht

lemma Valid.rotateFront (h : Valid tariff s) (hcl : ∀ q ∈ s.rotation, (s.laneOf q).turnOpen = false) :
    Valid tariff s.rotateFront := by
  cases hr : s.rotation with
  | nil =>
    have hs : s.rotateFront = s := by simp [PeerLanes.rotateFront, hr]
    rw [hs]
    exact h
  | cons p rest =>
    have hs' : s.rotateFront = { s with rotation := rest ++ [p] } := by simp [PeerLanes.rotateFront, hr]
    have hp : (rest ++ [p]).Perm s.rotation := by
      rw [hr]
      exact perm_append_singleton p rest
    rw [hs']
    refine ⟨h.lane, hp.nodup_iff.mpr h.nodup, fun q => hp.mem_iff.trans (h.named q), ?_, ?_, h.buffer_pos,
      h.byte_pos, h.queued_le, h.fits, fun q hq ht => ?_⟩
    · exact h.queued.trans ((hp.map _).sum_eq).symm
    · exact h.queuedBytes.trans ((hp.map _).sum_eq).symm
    have ho : (s.laneOf q).turnOpen = true := ht
    rw [hcl q (hp.mem_iff.mp hq)] at ho
    cases ho

lemma booked_tail (hb : Booked tariff p (s.laneOf p)) (hq : (s.laneOf p).queue = entry :: lane.queue)
    (hby : lane.bytes = (s.laneOf p).bytes - entry.bytes) (hd : lane.deficit = 0) : Booked tariff p lane where
  sender e he := hb.sender e (by simp [hq, he])
  bytes := by
    rw [hby, hb.bytes, hq]
    simp
  capacity := by
    have := hb.capacity
    rw [hq, length_cons] at this
    omega
  credit := hd.ge
  saved e rest _ := by
    have := laneTurnCost_pos tariff e.info
    omega

lemma bytes_nonneg (h : Valid tariff s) : 0 ≤ (s.laneOf q).bytes := by
  rw [(h.lane q).bytes]
  refine sum_nonneg fun n hn => ?_
  obtain ⟨e, -, rfl⟩ := mem_map.mp hn
  omega

lemma Changed.front_of_active (hc : Changed s s' p lane) (h : Valid tariff s) (hw : (s.laneOf p).queue ≠ [])
    (ht : lane.turnOpen = (s.laneOf p).turnOpen) (hne : lane.queue ≠ []) (ho : lane.turnOpen = true) :
    s'.rotation.head? = some p := by
  rw [hc.rotation, if_neg hne, if_neg hw]
  exact h.front p ((h.named p).mpr hw) (ht ▸ ho)

lemma Valid.closed_of_front (h : Valid tariff s) (hr : s.rotation = p :: rest)
    (hq : q ∈ s.rotation) (hne : p ≠ q) : (s.laneOf q).turnOpen = false := by
  by_contra ho
  have hh := h.front q hq (by simpa using ho)
  rw [hr] at hh
  exact hne (Option.some.inj hh)

theorem Valid.move {note : Note M} (h : Valid tariff s) (hm : Move tariff s note s') : Valid tariff s' := by
  cases hm with
  | idle hi _ => exact h.idle hi
  | admitted p =>
    refine h.idle ?_
    unfold admitPeer
    split <;> exact ⟨fun _ => rfl, fun _ => rfl, fun _ _ => ⟨rfl, rfl⟩, fun _ => .inl rfl, rfl, rfl, rfl, rfl, rfl⟩
  | accepted mi size lane _ hc hqu hby hj hs hcn hca hf _ =>
    have hb := h.lane mi.peerID
    have hle : lane.queue.length = (s.laneOf mi.peerID).queue.length + 1 := by simp [hqu]
    have hqd := hc.queued
    have hqb := hc.queuedBytes
    have hl : Booked tariff mi.peerID lane := by
      refine ⟨fun e he => ?_, ?_, by omega, ?_, fun e rest hco => ?_⟩
      · rw [hqu] at he
        rcases mem_append.mp he with he | he
        · exact hb.sender e he
        · rw [mem_singleton.mp he]
      · rw [hby, hqu, hb.bytes]
        simp
      · by_cases hem : (s.laneOf mi.peerID).queue = []
        · exact (hj hem).1.ge
        · rw [(hs hem).1]
          exact hb.credit
      by_cases hem : (s.laneOf mi.peerID).queue = []
      · have := laneTurnCost_pos tariff e.info
        rw [(hj hem).1]
        omega
      obtain ⟨head, tail, hh⟩ := exists_cons_of_ne_nil hem
      rw [hqu, hh, cons_append] at hco
      rw [(hs hem).1, ← (cons.inj hco).1]
      exact hb.saved head tail hh
    refine h.change hc hl (fun hne ho => ?_) (by rw [hc.bufferCapacity]; omega) ?_
    · by_cases hem : (s.laneOf mi.peerID).queue = []
      · rw [(hj hem).2] at ho
        cases ho
      · exact hc.front_of_active h hem (hs hem).2 hne ho
    rw [hc.byteCapacity]
    rcases hf with hf | hn
    · exact .inl (by omega)
    · exact .inr (by omega)
  | shedOldest p entry lane hqu hby hd ht hc _ =>
    have hw : (s.laneOf p).queue ≠ [] := by simp [hqu]
    refine h.shrink hc (booked_tail (h.lane p) hqu hby hd) ?_ (by simp [hqu]) (by omega)
    exact hc.front_of_active h hw ht
  | shedNewest reason sender p entry lane hqu hby hd ht _ hc _ =>
    have hb := h.lane p
    have hw : (s.laneOf p).queue ≠ [] := by simp [hqu]
    have hl : Booked tariff p lane := by
      refine ⟨fun e he => hb.sender e (by simp [hqu, he]), ?_, ?_, hd ▸ hb.credit, fun e rest hco => ?_⟩
      · rw [hby, hb.bytes, hqu]
        simp
      · have := hb.capacity
        rw [hqu, length_append] at this
        omega
      rw [hd]
      exact hb.saved e (rest ++ [entry]) (by rw [hqu, hco]; rfl)
    exact h.shrink hc hl (hc.front_of_active h hw ht) (by simp [hqu]) (by omega)
  | passed p rest entry queue hr hqu hla =>
    have hb := h.lane p
    have hg := grant_deficit (s.laneOf p)
    have hcr := hb.credit
    have hw : (s.laneOf p).queue ≠ [] := by simp [hqu]
    have hc : Changed s (s.setLane p { grant (s.laneOf p) with turnOpen := false }) p
        { grant (s.laneOf p) with turnOpen := false } := by
      refine ⟨laneOf_setLane_self .., fun q => laneOf_setLane_of_ne _ _, ?_, ?_, ?_, rfl, rfl⟩
      · simp [hw, setLane]
      · simp [setLane]
      · simp [setLane]
    have hl : Booked tariff p { grant (s.laneOf p) with turnOpen := false } := by
      refine ⟨?_, ?_, ?_, ?_, ?_⟩
      · simpa using hb.sender
      · simpa using hb.bytes
      · simpa using hb.capacity
      · show 0 ≤ (grant (s.laneOf p)).deficit
        rw [hg]
        split <;> omega
      intro e rest hco
      have hc' : (s.laneOf p).queue = e :: rest := grant_queue (s.laneOf p) ▸ hco
      rw [hqu] at hc'
      rw [← (cons.inj hc').1]
      exact hla
    refine (h.shrink hc hl (by simp) (by simp) (by simp)).rotateFront fun q hq => ?_
    by_cases hqp : q = p
    · rw [hqp, laneOf_setLane_self]
    -- the lane at the front is the only one whose turn was open
    rw [laneOf_setLane_of_ne _ _ hqp]
    exact h.closed_of_front hr hq (symm hqp)
  | served p rest entry lane hr hqu hby _ _ hd _ hc _ =>
    have hw : (s.laneOf p).queue ≠ [] := by simp [hqu]
    refine h.shrink hc (booked_tail (h.lane p) hqu hby hd) ?_ (by simp [hqu]) (by omega)
    intro hne _
    rw [hc.rotation, if_neg hne, if_neg hw, hr]
    rfl
  | purged p hc _ =>
    exact h.shrink hc (booked_empty p _ rfl rfl le_rfl) (by simp) (by simp) (bytes_nonneg h)

end PeerLanes

end Tenderdash
