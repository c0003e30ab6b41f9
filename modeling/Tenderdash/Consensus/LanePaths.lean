import Tenderdash.Consensus.LaneInvariant

/-!
Every operation on the lanes is a path of single steps, and so is every sequence of operations (`execAll_path`). What
the steps keep therefore holds after any of them (`lanes_valid`).
-/

namespace Tenderdash

open Lib List

namespace PeerLanes

variable {M : Type} {tariff : Tariff M} {s t u : PeerLanes M} {p : String} {lane : PeerLane M}
  {trace trace' : Trace M}

/-! ### Operations as paths of steps -/

inductive Path (tariff : Tariff M) : PeerLanes M → Trace M → PeerLanes M → Prop
  | nil (s : PeerLanes M) : Path tariff s [] s
  | cons {s t u : PeerLanes M} {note : Note M} {trace : Trace M} (hm : Move tariff s note t)
      (hp : Path tariff t trace u) : Path tariff s ((s, note) :: trace) u


lemma Path.single {note : Note M} (hm : Move tariff s note t) : Path tariff s [(s, note)] t := .cons hm (.nil t)

lemma Path.append (h : Path tariff s trace t) (h' : Path tariff t trace' u) : Path tariff s (trace ++ trace') u := by
  induction h with
  | nil _ => exact h'
  | cons hm _ ih => exact .cons hm (ih h')

theorem Valid.path (h : Valid tariff s) (hp : Path tariff s trace t) : Valid tariff t := by
  induction hp with
  | nil _ => exact h
  | cons hm _ ih => exact ih (h.move hm)

section

variable (h : Valid tariff s) {mi : Option (MsgInfo M)} {fuel : ℕ} {now : ℤ}

include h

lemma queued_nonneg : 0 ≤ s.queued := by
  rw [h.queued]
  refine sum_nonneg fun n hn => ?_
  obtain ⟨q, -, rfl⟩ := mem_map.mp hn
  omega

lemma held_eq_queued : (s.held : ℤ) = s.queued := by
  rw [h.queued, held, Nat.cast_list_sum, map_map]
  rfl

omit h in
lemma laneOf_reclaimIdleLanes (s : PeerLanes M) (now : ℤ) (q : String) :
    (s.reclaimIdleLanes now).laneOf q = s.laneOf q ∨
      (s.reclaimIdleLanes now).laneOf q = {} ∧ (s.laneOf q).queue = [] := by
  unfold reclaimIdleLanes
  split
  · exact .inl rfl
  cases hl : s.lanes q with
  | none => exact .inl (by simp [laneOf, hl])
  | some lane =>
    by_cases hi : lane.active = false ∧ laneIdleTimeout ≤ now - lane.lastActive
    · refine .inr ⟨by simp only [laneOf, hl, if_pos hi]; rfl, ?_⟩
      simpa [laneOf, hl, PeerLane.active] using hi.1
    · exact .inl (by simp only [laneOf, hl, if_neg hi])

lemma idle_reclaimIdleLanes (now : ℤ) : Idle s (s.reclaimIdleLanes now) := by
  have hc := laneOf_reclaimIdleLanes s now
  have hr : (s.reclaimIdleLanes now).rotation = s.rotation ∧ (s.reclaimIdleLanes now).queued = s.queued ∧
      (s.reclaimIdleLanes now).queuedBytes = s.queuedBytes ∧
      (s.reclaimIdleLanes now).bufferCapacity = s.bufferCapacity ∧
      (s.reclaimIdleLanes now).byteCapacity = s.byteCapacity := by
    unfold reclaimIdleLanes
    split <;> exact ⟨rfl, rfl, rfl, rfl, rfl⟩
  obtain ⟨hro, hq, hby, hb, hbe⟩ := hr
  refine ⟨fun q => ?_, fun q => ?_, fun q hne => ?_, fun q => ?_, hro, hq, hby, hb, hbe⟩
  all_goals rcases hc q with hs | ⟨hg, he⟩
  · rw [hs]
  · rw [hg, he]
  · rw [hs]
  · rw [hg, (h.lane q).bytes, he]
    rfl
  · rw [hs]
    exact ⟨rfl, rfl⟩
  · exact absurd he hne
  · exact .inl (by rw [hs])
  · exact .inr (by rw [hg])

omit h in
lemma sameSessions_reclaimIdleLanes (s : PeerLanes M) (now : ℤ) : SameSessions s (s.reclaimIdleLanes now) := by
  unfold reclaimIdleLanes
  split <;> exact ⟨rfl, rfl⟩

lemma idle_touch (now : ℤ) (p : String) : Idle s (s.touch now p) := by
  have hr := idle_reclaimIdleLanes h now
  have hl : ∀ q, ((s.touch now p).laneOf q).queue = ((s.reclaimIdleLanes now).laneOf q).queue ∧
      ((s.touch now p).laneOf q).bytes = ((s.reclaimIdleLanes now).laneOf q).bytes ∧
      ((s.touch now p).laneOf q).deficit = ((s.reclaimIdleLanes now).laneOf q).deficit ∧
      ((s.touch now p).laneOf q).turnOpen = ((s.reclaimIdleLanes now).laneOf q).turnOpen := by
    intro q
    unfold touch
    by_cases hq : q = p
    · rw [hq, laneOf_setLane_self]
      exact ⟨rfl, rfl, rfl, rfl⟩
    rw [laneOf_setLane_of_ne _ _ hq]
    exact ⟨rfl, rfl, rfl, rfl⟩
  refine ⟨fun q => (hl q).1.trans (hr.queue q), fun q => (hl q).2.1.trans (hr.bytes q), fun q hne => ?_,
    fun q => ?_, hr.rotation, hr.queued, hr.queuedBytes, hr.bufferCapacity, hr.byteCapacity⟩
  · rw [(hl q).2.2.1, (hl q).2.2.2]
    exact hr.credit q hne
  rw [(hl q).2.2.1]
  exact hr.forfeit q

/-! ### Making room -/

omit h in
lemma foldl_max_spec (measure : String → ℤ) (best : String) (rest : List String) :
    (rest.foldl (fun best q => if measure best < measure q then q else best) best) ∈ best :: rest ∧
      ∀ q ∈ best :: rest,
        measure q ≤ measure (rest.foldl (fun best q => if measure best < measure q then q else best) best) := by
  induction rest generalizing best with
  | nil => simp
  | cons r rest ih =>
    simp only [foldl_cons, mem_cons, forall_eq_or_imp] at ih ⊢
    obtain ⟨hm, hb, hma⟩ := ih (if measure best < measure r then r else best)
    refine ⟨?_, le_trans ?_ hb, le_trans ?_ hb, hma⟩
    · rcases hm with heq | hm
      · rw [heq]
        split_ifs <;> simp
      · exact .inr (.inr hm)
    · split_ifs <;> omega
    · split_ifs <;> omega

omit h in
lemma firstMax_spec (measure : String → ℤ) {rot : List String} (hne : rot ≠ []) :
    ∃ p, firstMax measure rot = some p ∧ p ∈ rot ∧ ∀ q ∈ rot, measure q ≤ measure p := by
  obtain ⟨r, rest, rfl⟩ := exists_cons_of_ne_nil hne
  obtain ⟨hme, hm⟩ := foldl_max_spec measure r rest
  exact ⟨_, rfl, hme, hm⟩

lemma rotation_ne_nil (hq : 0 < s.queued) : s.rotation ≠ [] := by
  intro hn
  rw [h.queued, hn] at hq
  simp at hq

lemma rotation_eq_nil (hqu : s.queued ≤ 0) : s.rotation = [] := by
  have ho : ∀ q ∈ s.rotation, (1 : ℤ) ≤ (s.laneOf q).queue.length := fun q hq => by
    have := length_pos_iff.mpr ((h.named q).mp hq)
    omega
  have hs : (s.rotation.map fun _ => (1 : ℤ)).sum = 0 := sum_eq_zero_of_lengths ho (by rw [← h.queued]; exact hqu)
  simpa using hs

lemma longestLane_spec (hqu : 0 < s.queued) :
    ∃ p, s.longestLane = some p ∧ (s.laneOf p).queue ≠ [] ∧ Largest s p .allLanesFull := by
  obtain ⟨p, hp, hme, hm⟩ := firstMax_spec (fun p => ((s.laneOf p).queue.length : ℤ)) (rotation_ne_nil h hqu)
  refine ⟨p, hp, (h.named p).mp hme, fun q => ?_⟩
  by_cases hq : q ∈ s.rotation
  · exact_mod_cast hm q hq
  rw [not_not.mp (mt (h.named q).mpr hq)]
  simp

lemma heaviestLane_spec (hqu : 0 < s.queued) :
    ∃ p, s.heaviestLane = some p ∧ (s.laneOf p).queue ≠ [] ∧ Largest s p .lanesHoldTooMuch := by
  obtain ⟨p, hp, hme, hm⟩ := firstMax_spec (fun p => (s.laneOf p).bytes) (rotation_ne_nil h hqu)
  refine ⟨p, hp, (h.named p).mp hme, fun q => ?_⟩
  by_cases hq : q ∈ s.rotation
  · exact hm q hq
  rw [(h.lane q).bytes, not_not.mp (mt (h.named q).mpr hq)]
  exact bytes_nonneg h

structure Room (s t : PeerLanes M) : Prop where
  length : ∀ q, (t.laneOf q).queue.length ≤ (s.laneOf q).queue.length
  queued : t.queued ≤ s.queued
  sessions : SameSessions s t
  bufferCapacity : t.bufferCapacity = s.bufferCapacity
  byteCapacity : t.byteCapacity = s.byteCapacity

omit h in
lemma Room.refl (s : PeerLanes M) : Room s s := ⟨fun _ => le_rfl, le_rfl, ⟨rfl, rfl⟩, rfl, rfl⟩

omit h in
lemma Room.trans (h : Room s t) (h' : Room t u) : Room s u :=
  ⟨fun q => (h'.length q).trans (h.length q), h'.queued.trans h.queued,
    ⟨h'.sessions.1.trans h.sessions.1, h'.sessions.2.trans h.sessions.2⟩,
    h'.bufferCapacity.trans h.bufferCapacity, h'.byteCapacity.trans h.byteCapacity⟩

omit h in
lemma room_pop (lane : PeerLane M) (entry : QueuedMsg M) (hl : (s.laneOf p).queue.length = lane.queue.length + 1)
    (hb : lane.bytes = (s.laneOf p).bytes - entry.bytes) :
    ∃ t, ((s.setLane p lane).accountPopped entry).leaveIfEmpty lane p = t ∧ Changed s t p lane ∧ Room s t ∧
      t.queued = s.queued - 1 := by
  have hc := changed_pop entry hl hb
  have hqu := hc.queued
  refine ⟨_, rfl, hc, ⟨fun q => ?_, by omega, sameSessions_pop s p lane entry, hc.bufferCapacity, hc.byteCapacity⟩,
    by omega⟩
  by_cases hq : q = p
  · rw [hq, hc.lane_eq]
    omega
  · rw [hc.others q hq]

lemma shedOldest_spec (hne : (s.laneOf p).queue ≠ []) :
    ∃ note t, s.shedOldest tariff p p .laneFull = some (t, note) ∧ Move tariff s note t ∧ Room s t ∧
      t.queued = s.queued - 1 ∧ (t.laneOf p).queue.length + 1 = (s.laneOf p).queue.length := by
  obtain ⟨entry, queue, hq⟩ := exists_cons_of_ne_nil hne
  have hs := (h.lane p).saved entry queue hq
  set lane : PeerLane M := { s.laneOf p with
    queue := queue
    bytes := (s.laneOf p).bytes - entry.bytes
    deficit := 0 } with hl
  obtain ⟨t, ht, hc, hr, ho⟩ := room_pop (s := s) (p := p) lane entry (by simp [hq, hl]) rfl
  refine ⟨_, t, ?_, .shedOldest p entry lane hq rfl rfl rfl hc hr.sessions, hr, ho, ?_⟩
  · unfold shedOldest
    rw [hq]
    dsimp only
    rw [if_pos (by omega), (h.lane p).sender entry (by simp [hq]), ht]
  rw [hc.lane_eq, hq]
  rfl

lemma shedNewest_spec {reason : ShedReason} (sender : String) (hne : (s.laneOf p).queue ≠ [])
    (hl : Largest s p reason) :
    ∃ note t, s.shedNewest sender p reason = some (t, note) ∧ Move tariff s note t ∧ Room s t ∧
      t.queued = s.queued - 1 := by
  obtain ⟨queue, entry, hq⟩ : ∃ queue entry, (s.laneOf p).queue = queue ++ [entry] :=
    ⟨_, _, (dropLast_append_getLast hne).symm⟩
  set lane : PeerLane M := { s.laneOf p with
    queue := queue
    bytes := (s.laneOf p).bytes - entry.bytes } with hla
  obtain ⟨t, ht, hc, hr, ho⟩ := room_pop (s := s) (p := p) lane entry (by simp [hq, hla]) rfl
  refine ⟨_, t, ?_, .shedNewest reason sender p entry lane hq rfl rfl rfl hl hc hr.sessions, hr, ho⟩
  have hls : (s.laneOf p).queue.getLast? = some entry := by simp [hq]
  have hd : (s.laneOf p).queue.dropLast = queue := by simp [hq]
  unfold shedNewest
  rw [hls]
  dsimp only
  rw [hd, (h.lane p).sender entry (by simp [hq]), ht]
  simp [PeerLane.active, hla]

lemma shedForCount_spec (sender : String) :
    ∃ t trace, s.shedForCount tariff sender = (t, trace) ∧ Path tariff s trace t ∧ Room s t ∧
      t.queued < s.bufferCapacity ∧ (t.laneOf sender).queue.length < laneCapacity := by
  have hle := h.queued_le
  have hpo := h.buffer_pos
  have hca := (h.lane sender).capacity
  unfold shedForCount
  by_cases hf : laneCapacity ≤ (s.laneOf sender).queue.length
  · have hne : (s.laneOf sender).queue ≠ [] := by
      intro hn
      simp [hn] at hf
    obtain ⟨note, t, hs, hm, hr, ho, hln⟩ := shedOldest_spec h hne
    rw [if_pos hf, hs]
    exact ⟨t, _, rfl, .single hm, hr, by omega, by omega⟩
  · rw [if_neg hf]
    by_cases hc : s.bufferCapacity ≤ s.queued
    · obtain ⟨p, hp, hne, hl⟩ := longestLane_spec h (by omega)
      obtain ⟨note, t, hs, hm, hr, ho⟩ := shedNewest_spec h sender hne hl
      have hln := hr.length sender
      rw [if_pos hc, hp, Option.bind_some, hs]
      exact ⟨t, _, rfl, .single hm, hr, by omega, by omega⟩
    · rw [if_neg hc]
      exact ⟨s, _, rfl, .nil s, .refl s, by omega, by omega⟩

lemma shedUntilFits_spec (size : ℕ) (sender : String) (hfu : s.queued ≤ fuel) :
    ∃ t trace, shedUntilFits size sender fuel s = (t, trace) ∧ Path tariff s trace t ∧ Room s t ∧
      (t.queuedBytes + size ≤ s.byteCapacity ∨ t.queued = 0) := by
  have hno := queued_nonneg h
  induction fuel generalizing s with
  | zero => exact ⟨s, _, rfl, .nil s, .refl s, .inr (by omega)⟩
  | succ fuel ih =>
    rw [shedUntilFits]
    by_cases ho : s.byteCapacity < s.queuedBytes + size
    · rw [if_pos ho]
      by_cases hq : 0 < s.queued
      · obtain ⟨p, hp, hne, hl⟩ := heaviestLane_spec h hq
        obtain ⟨note, t, hs, hm, hr, hon⟩ := shedNewest_spec h sender hne hl
        obtain ⟨u, trace, hre, hpa, hr', hf⟩ := ih (h.move hm) (by omega) (queued_nonneg (h.move hm))
        rw [hp, Option.bind_some, hs]
        dsimp only
        rw [hre]
        rw [hr.byteCapacity] at hf
        exact ⟨u, _, rfl, .cons hm hpa, hr.trans hr', hf⟩
      · have hni : s.rotation = [] := rotation_eq_nil h (by omega)
        have hn : s.heaviestLane = none := by rw [heaviestLane, hni]; rfl
        rw [hn]
        exact ⟨s, _, rfl, .nil s, .refl s, .inr (by omega)⟩
    · rw [if_neg ho]
      exact ⟨s, _, rfl, .nil s, .refl s, .inl (by omega)⟩

/-! ### The operations -/

omit h in
lemma sessionLive_congr {mi : MsgInfo M} (h : t.sessions = s.sessions) : t.sessionLive mi = s.sessionLive mi := by
  unfold sessionLive
  rw [h]

theorem enqueue_path (now : ℤ) (mi : MsgInfo M) :
    Path tariff s (s.enqueue tariff now mi).2.1 (s.enqueue tariff now mi).1 := by
  unfold enqueue
  by_cases hl : s.sessionLive mi = false
  · rw [if_pos hl]
    exact .nil s
  rw [if_neg hl]
  have hs : SameSessions s (s.touch now mi.peerID) := sameSessions_reclaimIdleLanes s now
  have ht : Move tariff s .idle (s.touch now mi.peerID) := .idle (idle_touch h now mi.peerID) hs
  have h₁ := h.move ht
  obtain ⟨s₂, shed, hc, hp₂, hr₂, hlt, hle⟩ := shedForCount_spec h₁ mi.peerID
  have h₂ := h₁.path hp₂
  obtain ⟨s₃, more, hfi, hp₃, hr₃, hf⟩ :=
    shedUntilFits_spec h₂ (laneMessageBytes tariff mi) mi.peerID (held_eq_queued h₂).ge
  dsimp only
  rw [hc]
  rw [hfi]
  have hl₃ : s₃.sessionLive mi = true := by
    have hsa : s₃.sessions = s.sessions := hr₃.sessions.1.trans (hr₂.sessions.1.trans hs.1)
    rw [sessionLive_congr hsa]
    simpa using hl
  have ha : Move tariff s₃ (.accepted mi) (s₃.append mi (laneMessageBytes tariff mi)) := by
    have hq := hr₃.queued
    have hle₃ := hr₃.length mi.peerID
    refine .accepted mi _ _ hl₃ (changed_append s₃ mi _) rfl rfl (fun he => ?_) (fun hne => ?_) ?_ (by omega) ?_ ?_
    · simp [he]
    · simp [hne]
    · rw [hr₃.bufferCapacity, hr₂.bufferCapacity]
      omega
    · rw [hr₃.byteCapacity]
      exact hf
    unfold append
    dsimp only
    split <;> exact ⟨rfl, rfl⟩
  exact ((Path.cons ht hp₂).append hp₃).append (.single ha)

def returned (trace : Trace M) : List (MsgInfo M) :=
  trace.filterMap fun step => match step.2 with
    | .served _ mi _ => some mi
    | _ => none

lemma takeTurn_move {rest : List String} (hr : s.rotation = p :: rest) (now : ℤ) :
    ∃ t note mi, s.takeTurn tariff now p = .ok (t, note, mi) ∧ Move tariff s note t ∧ returned [(s, note)] = mi.toList := by
  obtain ⟨entry, queue, hq, ⟨hl, ht⟩ | ⟨hcl, hco, t, ht, hs, hc⟩⟩ := takeTurn_spec h hr now
  · exact ⟨_, _, _, ht, .passed p rest entry queue hr hq hl, rfl⟩
  · exact ⟨_, _, _, ht, .served p rest entry _ hr hq rfl hcl hco rfl rfl hc hs, rfl⟩

lemma nextLoop_path
    (hl : nextLoop tariff now fuel s = some (.ok (t, trace, mi))) :
    Path tariff s trace t ∧ returned trace = mi.toList := by
  induction fuel generalizing s trace with
  | zero => cases hl
  | succ fuel ih =>
    rw [nextLoop] at hl
    cases hro : s.rotation with
    | nil =>
      rw [hro] at hl
      cases hl
      exact ⟨.nil _, rfl⟩
    | cons p rest =>
      obtain ⟨u, note, served, ht, hm, hr⟩ := takeTurn_move h hro now
      rw [hro] at hl
      dsimp only at hl
      rw [ht] at hl
      cases served with
      | some m =>
        cases hl
        exact ⟨.single hm, hr⟩
      | none =>
        obtain ⟨result, hrt, hre⟩ := Option.map_eq_some_iff.mp hl
        cases result with
        | error e => cases hre
        | ok r =>
          obtain ⟨u', trace', mi'⟩ := r
          cases hre
          obtain ⟨hp, hmi⟩ := ih (h.move hm) hrt
          refine ⟨.cons hm hp, ?_⟩
          rw [← singleton_append, returned, filterMap_append, ← returned, ← returned, hr, hmi]
          rfl

lemma next_path
    (hn : s.next tariff now = some (.ok (t, trace, mi))) : Path tariff s trace t ∧ returned trace = mi.toList := by
  have hi : Move tariff s .idle (s.reclaimIdleLanes now) :=
    .idle (idle_reclaimIdleLanes h now) (sameSessions_reclaimIdleLanes s now)
  obtain ⟨result, hl, hr⟩ := Option.map_eq_some_iff.mp hn
  cases result with
  | error e => cases hr
  | ok r =>
    cases hr
    obtain ⟨hp, hmi⟩ := nextLoop_path (h.move hi) hl
    exact ⟨.cons hi hp, hmi⟩

end

lemma sessions_purgePeer (s : PeerLanes M) (p : String) :
    (s.purgePeer p).1.sessions = Function.update s.sessions p none ∧ (s.purgePeer p).1.nextSession = s.nextSession := by
  unfold purgePeer
  by_cases hn : s.lanes p = none
  · simp [hn]
  · by_cases ha : (s.laneOf p).active <;> simp [hn, ha, removeFromRotation]

theorem exec_path (h : Valid tariff s) (e : Event M) : Path tariff s (s.exec tariff e).2 (s.exec tariff e).1 := by
  cases e with
  | admitPeer p => exact .single (.admitted p)
  | enqueue now mi => exact enqueue_path h now mi
  | next now =>
    unfold exec
    dsimp only
    split
    · next hn => exact (next_path h hn).1
    · exact .nil s
  | purgePeer p =>
    have ht : (s.purgePeer p).2 = [(s, .purged p ((s.laneOf p).queue.map QueuedMsg.info))] := by
      unfold purgePeer
      by_cases hno : s.lanes p = none <;> simp [hno]
    show Path tariff s (s.purgePeer p).2 (s.purgePeer p).1
    rw [ht]
    exact .single (.purged p (changed_purgePeer h p) (sessions_purgePeer s p))
  | reclaimIdleLanes now =>
    exact .single (.idle (idle_reclaimIdleLanes h now) (sameSessions_reclaimIdleLanes s now))

theorem execAll_path (h : Valid tariff s) (es : List (Event M)) :
    Path tariff s (s.execAll tariff es).2 (s.execAll tariff es).1 := by
  induction es generalizing s with
  | nil => exact .nil s
  | cons e es ih =>
    have hs := exec_path h e
    exact hs.append (ih (h.path hs))

/-- After any sequence of operations the lanes are in order. -/
theorem lanes_valid (tariff : Tariff M) (bufferCapacity byteCapacity start : ℤ) (hbuffer : 0 < bufferCapacity)
    (hbyte : 0 < byteCapacity) (es : List (Event M)) :
    Valid tariff ((new bufferCapacity byteCapacity start).execAll tariff es).1 :=
  (valid_new hbuffer hbyte start).path (execAll_path (valid_new hbuffer hbyte start) es)

def sampleEvents : List (Event Message) :=
  [.admitPeer "a", .enqueue 0 ⟨"a", some 1, .other 100⟩, .enqueue 1 ⟨"a", some 1, .commit 200 (some 2)⟩,
    .enqueue 2 ⟨"b", none, .other 100⟩, .next 3]

theorem sampleEvents_valid :
    (((new 2 65536 0).execAll Message.tariff sampleEvents).1.rotation = ["b"] ∧
      ((new 2 65536 0).execAll Message.tariff sampleEvents).1.queued = 1) ∧
      Valid Message.tariff ((new 2 65536 0).execAll Message.tariff sampleEvents).1 :=
  ⟨by decide +kernel, lanes_valid Message.tariff 2 65536 0 (by decide) (by decide) sampleEvents⟩

end PeerLanes

end Tenderdash
