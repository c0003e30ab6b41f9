import Tenderdash.Consensus.LanePaths

/-!
What becomes of the messages that the lanes accept.

* `Move.effect` — what a step does to the messages of a lane;
* `count_path` — an accepted message is still queued, or has left once;
* `sublist_path` — since the last purge of a peer, its messages are served in the order in which they were accepted;
* `Sessions` — a queued message that carries a session carries the live one of its peer, and a session that has ended
  does not come back.
-/

namespace Tenderdash

open Lib List Function

namespace PeerLanes

variable {M : Type} {tariff : Tariff M} {s t u : PeerLanes M} {p : String} {trace : Trace M} {note : Note M}
  {mi : MsgInfo M} {accepted served : List (MsgInfo M)} {n : ℕ} {lane : PeerLane M} {q : String}

def infos (s : PeerLanes M) (p : String) : List (MsgInfo M) := (s.laneOf p).queue.map QueuedMsg.info

/-! ### What a step does to the messages of a lane -/

def Effect (p : String) (before after : List (MsgInfo M)) : Note M → Prop
  | .accepted mi => if mi.peerID = p then after = before ++ [mi] else after = before
  | .shed _ _ lane mi _ => if lane = p then before = mi :: after ∨ before = after ++ [mi] else after = before
  | .served lane mi _ => if lane = p then before = mi :: after else after = before
  | .purged lane dropped => if lane = p then before = dropped ∧ after = [] else after = before
  | .idle | .admitted _ | .passed _ _ => after = before

lemma Changed.infos_eq (hc : Changed s t p lane) : infos t p = lane.queue.map QueuedMsg.info := by
  rw [infos, hc.lane_eq]

lemma Changed.infos_of_ne (hc : Changed s t p lane) (hq : p ≠ q) : infos t q = infos s q := by
  rw [infos, hc.others q (symm hq), infos]

lemma infos_admitPeer (s : PeerLanes M) (p q : String) : infos (s.admitPeer p).1 q = infos s q := by
  unfold admitPeer
  split <;> rfl

lemma laneOf_passed (s : PeerLanes M) (p q : String) (lane : PeerLane M) :
    ((s.setLane p lane).rotateFront).laneOf q = (s.setLane p lane).laneOf q := by
  unfold rotateFront
  split <;> rfl

theorem Move.effect (hm : Move tariff s note t) (q : String) : Effect q (infos s q) (infos t q) note := by
  cases hm with
  | idle hi _ =>
    show infos t q = infos s q
    rw [infos, hi.queue q, infos]
  | admitted p => exact infos_admitPeer s p q
  | accepted mi size lane _ hc hqu =>
    dsimp only [Effect]
    split_ifs with hp
    · subst hp
      rw [hc.infos_eq, hqu, map_append]
      rfl
    · exact hc.infos_of_ne hp
  | shedOldest p entry lane hqu _ _ _ hc =>
    dsimp only [Effect]
    split_ifs with hp
    · subst hp
      left
      rw [hc.infos_eq, infos, hqu]
      rfl
    · exact hc.infos_of_ne hp
  | shedNewest reason sender p entry lane hqu _ _ _ _ hc =>
    dsimp only [Effect]
    split_ifs with hp
    · subst hp
      right
      rw [hc.infos_eq, infos, hqu, map_append]
      rfl
    · exact hc.infos_of_ne hp
  | passed p rest entry queue =>
    show infos _ q = infos s q
    rw [infos, laneOf_passed, infos]
    by_cases hq : q = p
    · rw [hq, laneOf_setLane_self, grant_queue]
    · rw [laneOf_setLane_of_ne _ _ hq]
  | served p rest entry lane _ hqu _ _ _ _ _ hc =>
    dsimp only [Effect]
    split_ifs with hp
    · subst hp
      rw [hc.infos_eq, infos, hqu]
      rfl
    · exact hc.infos_of_ne hp
  | purged p hc =>
    dsimp only [Effect]
    split_ifs with hp
    · subst hp
      exact ⟨rfl, hc.infos_eq⟩
    · exact hc.infos_of_ne hp

lemma peerID_of_mem (h : Valid tariff s) (hmi : mi ∈ infos s p) : mi.peerID = p := by
  obtain ⟨entry, he, rfl⟩ := mem_map.mp hmi
  exact (h.lane p).sender entry he

/-! ### Conservation -/

def Note.entered : Note M → List (MsgInfo M)
  | .accepted mi => [mi]
  | _ => []

def Note.left : Note M → List (MsgInfo M)
  | .shed _ _ _ mi _ => [mi]
  | .served _ mi _ => [mi]
  | .purged _ dropped => dropped
  | _ => []

def entered (trace : Trace M) : List (MsgInfo M) := trace.flatMap fun step => Note.entered step.2

def left (trace : Trace M) : List (MsgInfo M) := trace.flatMap fun step => Note.left step.2

lemma count_taken [DecidableEq M] (h : Valid tariff s) {lane : String} {mi mi' : MsgInfo M}
    (hm : mi' ∈ infos s lane)
    (he : if lane = mi.peerID then infos s mi.peerID = mi' :: infos t mi.peerID ∨
        infos s mi.peerID = infos t mi.peerID ++ [mi']
      else infos t mi.peerID = infos s mi.peerID) :
    [mi'].count mi + (infos t mi.peerID).count mi = (infos s mi.peerID).count mi := by
  split_ifs at he with hl
  · rcases he with heq | heq
    · simp only [heq, count_cons, count_nil]
      omega
    · rw [heq, count_append]
      omega
  · have hne : mi' ≠ mi := by
      rintro rfl
      exact hl (peerID_of_mem h hm).symm
    rw [he, count_eq_zero.mpr (by simpa using symm hne)]
    omega

lemma Move.count [DecidableEq M] (h : Valid tariff s) (hm : Move tariff s note t) (mi : MsgInfo M) :
    (Note.left note).count mi + (infos t mi.peerID).count mi =
      (infos s mi.peerID).count mi + (Note.entered note).count mi := by
  have he := hm.effect mi.peerID
  cases hm with
  | idle | admitted | passed =>
    rw [show infos _ mi.peerID = infos s mi.peerID from he]
    simp [Note.left, Note.entered]
  | accepted mi' size lane _ hc hq =>
    dsimp only [Effect] at he
    split_ifs at he with hp
    · rw [he, count_append]
      simp [Note.left, Note.entered]
    have hne : mi' ≠ mi := by
      rintro rfl
      exact hp rfl
    rw [he]
    simp [Note.left, Note.entered, hne]
  | shedOldest p entry lane hq =>
    exact count_taken h (by simp [infos, hq]) he
  | shedNewest reason sender p entry lane hq =>
    exact count_taken h (by simp [infos, hq]) he
  | served p rest entry lane _ hq =>
    have hme : entry.info ∈ infos s p := by simp [infos, hq]
    refine count_taken h hme ?_
    dsimp only [Effect] at he
    split_ifs at he ⊢ with hp
    · exact .inl he
    · exact he
  | purged p hc =>
    dsimp only [Effect] at he
    split_ifs at he with hp
    · rw [he.1, he.2]
      simp [Note.left, Note.entered]
    have hn : (infos s p).count mi = 0 := count_eq_zero.mpr fun hme => hp (peerID_of_mem h hme).symm
    rw [he]
    show (infos s p).count mi + _ = _ + [].count mi
    rw [hn, count_nil]
    omega

theorem count_path [DecidableEq M] (h : Valid tariff s) (hp : Path tariff s trace t) (mi : MsgInfo M) :
    (left trace).count mi + (infos t mi.peerID).count mi = (infos s mi.peerID).count mi + (entered trace).count mi := by
  induction hp with
  | nil s => simp [left, entered]
  | cons hm _ ih =>
    have hs := hm.count h mi
    have hr := ih (h.move hm)
    simp only [left, entered, flatMap_cons, count_append] at hr ⊢
    omega

/-! ### Order -/

def Note.accept (p : String) (acc : List (MsgInfo M)) : Note M → List (MsgInfo M)
  | .accepted mi => if mi.peerID = p then acc ++ [mi] else acc
  | .purged lane _ => if lane = p then [] else acc
  | _ => acc

def Note.serve (p : String) (acc : List (MsgInfo M)) : Note M → List (MsgInfo M)
  | .served lane mi _ => if lane = p then acc ++ [mi] else acc
  | .purged lane _ => if lane = p then [] else acc
  | _ => acc

def acceptedSince (p : String) (trace : Trace M) : List (MsgInfo M) :=
  trace.foldl (fun acc step => Note.accept p acc step.2) []

def servedSince (p : String) (trace : Trace M) : List (MsgInfo M) :=
  trace.foldl (fun acc step => Note.serve p acc step.2) []

lemma Move.sublist (hm : Move tariff s note t)
    (h : (served ++ infos s p).Sublist accepted) :
    (Note.serve p served note ++ infos t p).Sublist (Note.accept p accepted note) := by
  have he := hm.effect p
  cases note with
  | idle | admitted | passed =>
    rw [show infos t p = infos s p from he]
    exact h
  | accepted mi =>
    dsimp only [Effect, Note.serve, Note.accept] at he ⊢
    split_ifs at he ⊢
    · rw [he, ← append_assoc]
      exact h.append (List.Sublist.refl _)
    rw [he]
    exact h
  | shed reason sender lane mi head =>
    dsimp only [Effect, Note.serve, Note.accept] at he ⊢
    split_ifs at he
    · have hs : (infos t p).Sublist (infos s p) := by
        rcases he with heq | heq <;> rw [heq]
        · exact sublist_cons_self ..
        · exact sublist_append_left ..
      exact ((List.Sublist.refl _).append hs).trans h
    · rw [he]
      exact h
  | served lane mi granted =>
    dsimp only [Effect, Note.serve, Note.accept] at he ⊢
    split_ifs at he ⊢
    · rw [he] at h
      simpa using h
    rw [he]
    exact h
  | purged lane dropped =>
    dsimp only [Effect, Note.serve, Note.accept] at he ⊢
    split_ifs at he ⊢
    · rw [he.2]
      exact List.Sublist.refl _
    rw [he]
    exact h

theorem sublist_path (hp : Path tariff s trace t)
    (h : (served ++ infos s p).Sublist accepted) :
    (trace.foldl (fun acc step => Note.serve p acc step.2) served ++ infos t p).Sublist
      (trace.foldl (fun acc step => Note.accept p acc step.2) accepted) := by
  induction hp generalizing accepted served with
  | nil s => exact h
  | cons hm _ ih => exact ih (hm.sublist h)

/-! ### Sessions -/

structure Sessions (s : PeerLanes M) : Prop where
  numbered : ∀ p n, s.sessions p = some n → n ≤ s.nextSession
  live : ∀ p, p ≠ "" → ∀ mi ∈ infos s p, ∀ n, mi.session = some n → s.sessions p = some n

def Ended (s : PeerLanes M) (p : String) (n : ℕ) : Prop := n ≤ s.nextSession ∧ s.sessions p ≠ some n

lemma sessionLive_eq_true (hl : s.sessionLive mi = true) (hp : mi.peerID ≠ "")
    (hs : mi.session = some n) : s.sessions mi.peerID = some n := by
  unfold sessionLive at hl
  rw [if_neg hp, hs] at hl
  simpa using hl

lemma Effect.mem {before after : List (MsgInfo M)} (h : Effect p before after note)
    (hmi : mi ∈ after) : mi ∈ before ∨ mi.peerID = p ∧ note = .accepted mi := by
  cases note with
  | accepted mi' =>
    dsimp only [Effect] at h
    split_ifs at h with hp
    · rw [h, mem_append, mem_singleton] at hmi
      rcases hmi with hmi | rfl
      · exact .inl hmi
      · exact .inr ⟨hp, rfl⟩
    · exact .inl (h ▸ hmi)
  | shed =>
    dsimp only [Effect] at h
    split_ifs at h
    · rcases h with rfl | rfl <;> simp [hmi]
    · exact .inl (h ▸ hmi)
  | served =>
    dsimp only [Effect] at h
    split_ifs at h <;> simp_all
  | purged =>
    dsimp only [Effect] at h
    split_ifs at h <;> simp_all
  | _ => exact .inl ((show after = before from h) ▸ hmi)

lemma sameSessions_rotateFront (s : PeerLanes M) (p : String) (lane : PeerLane M) :
    SameSessions s (s.setLane p lane).rotateFront := by
  unfold rotateFront
  split <;> exact ⟨rfl, rfl⟩

lemma SameSessions.sessions (hss : SameSessions s t) (h : Sessions s)
    (hs : ∀ q, q ≠ "" → ∀ mi ∈ infos t q, mi ∈ infos s q ∨ ∀ n, mi.session = some n → s.sessions q = some n) :
    Sessions t := by
  refine ⟨fun q n hn => ?_, fun q hq mi hmi n hn => ?_⟩
  · rw [hss.1] at hn
    rw [hss.2]
    exact h.numbered q n hn
  rw [hss.1]
  rcases hs q hq mi hmi with ho | hne
  · exact h.live q hq mi ho n hn
  · exact hne n hn

lemma admitPeer_sessions (s : PeerLanes M) (p q : String) (n : ℕ) (hn : (s.admitPeer p).1.sessions q = some n) :
    s.sessions q = some n ∨ q = p ∧ n = s.nextSession + 1 ∧ s.sessions p = none := by
  unfold admitPeer at hn
  split at hn
  · exact .inl hn
  next hno =>
  by_cases hq : q = p
  · subst hq
    refine .inr ⟨rfl, ?_, hno⟩
    simpa [eq_comm] using hn
  · exact .inl (by simpa [update_of_ne hq] using hn)

lemma nextSession_admitPeer (s : PeerLanes M) (p : String) :
    s.nextSession ≤ (s.admitPeer p).1.nextSession ∧
      (s.sessions p = none → (s.admitPeer p).1.nextSession = s.nextSession + 1) := by
  unfold admitPeer
  split
  · next hs => exact ⟨le_rfl, fun hn => by rw [hs] at hn; cases hn⟩
  · exact ⟨Nat.le_succ _, fun _ => rfl⟩

lemma sessions_admitPeer_of_some (h : s.sessions q = some n) (p : String) : (s.admitPeer p).1.sessions q = some n := by
  unfold admitPeer
  split
  · exact h
  next hn =>
  have hq : q ≠ p := by
    rintro rfl
    rw [h] at hn
    cases hn
  simpa [update_of_ne hq] using h

theorem Sessions.move (h : Sessions s) (hm : Move tariff s note t) : Sessions t := by
  have he := hm.effect
  have hl : ∀ mi, mi.peerID ≠ "" → note = .accepted mi → ∀ n, mi.session = some n → s.sessions mi.peerID = some n := by
    rintro mi hpe rfl n hn
    cases hm with
    | accepted _ _ _ hl => exact sessionLive_eq_true hl hpe hn
  have hs : SameSessions s t → Sessions t := by
    refine fun hss => hss.sessions h fun q hq mi hmi => ((he q).mem hmi).imp_right fun hne => ?_
    obtain ⟨rfl, hnt⟩ := hne
    exact hl mi hq hnt
  cases hm with
  | idle _ hss | accepted _ _ _ _ _ _ _ _ _ _ _ _ hss | shedOldest _ _ _ _ _ _ _ _ hss
  | shedNewest _ _ _ _ _ _ _ _ _ _ _ hss | served _ _ _ _ _ _ _ _ _ _ _ _ hss => exact hs hss
  | passed p => exact hs (sameSessions_rotateFront s p _)
  | admitted p =>
    refine ⟨fun q n hn => ?_, fun q hq mi hmi n hn => ?_⟩
    · obtain ⟨hle, hne⟩ := nextSession_admitPeer s p
      rcases admitPeer_sessions s p q n hn with ho | ⟨-, hn, hno⟩
      · exact (h.numbered q n ho).trans hle
      rw [hne hno]
      exact hn.le
    · rw [infos_admitPeer] at hmi
      exact sessions_admitPeer_of_some (h.live q hq mi hmi n hn) p
  | purged p hc hss =>
    refine ⟨fun q n hn => ?_, fun q hq mi hmi n hn => ?_⟩
    · rw [hss.2]
      by_cases hqp : q = p
      · rw [hss.1, hqp, update_self] at hn
        cases hn
      rw [hss.1, update_of_ne hqp] at hn
      exact h.numbered q n hn
    · have := he q
      dsimp only [Effect] at this
      split_ifs at this with hp
      · rw [this.2] at hmi
        cases hmi
      rw [hss.1, update_of_ne (symm hp)]
      rw [this] at hmi
      exact h.live q hq mi hmi n hn

theorem Ended.move (h : Ended s p n) (hm : Move tariff s note t) : Ended t p n := by
  have hs : SameSessions s t → Ended t p n := fun hss => by
    unfold Ended
    rw [hss.1, hss.2]
    exact h
  cases hm with
  | idle _ hss | accepted _ _ _ _ _ _ _ _ _ _ _ _ hss | shedOldest _ _ _ _ _ _ _ _ hss
  | shedNewest _ _ _ _ _ _ _ _ _ _ _ hss | served _ _ _ _ _ _ _ _ _ _ _ _ hss => exact hs hss
  | admitted q =>
    refine ⟨h.1.trans (nextSession_admitPeer s q).1, fun hn => ?_⟩
    rcases admitPeer_sessions s q p n hn with ho | ⟨-, hn, -⟩
    · exact h.2 ho
    have := h.1
    omega
  | passed q => exact hs (sameSessions_rotateFront s q _)
  | purged q hc hss =>
    refine ⟨hss.2 ▸ h.1, fun hn => ?_⟩
    by_cases hqp : p = q
    · rw [hss.1, hqp, update_self] at hn
      cases hn
    rw [hss.1, update_of_ne hqp] at hn
    exact h.2 hn

/-! ### Runs -/

lemma Path.forall_mem {P : PeerLanes M → Prop} {Q : PeerLanes M → Note M → Prop}
    (hs : ∀ {s t note}, P s → Move tariff s note t → P t ∧ Q s note) (hp : Path tariff s trace t) (h : P s) :
    P t ∧ ∀ step ∈ trace, Q step.1 step.2 := by
  induction hp with
  | nil s => exact ⟨h, by simp⟩
  | cons hm _ ih =>
    obtain ⟨hn, hno⟩ := hs h hm
    obtain ⟨he, hr⟩ := ih hn
    refine ⟨he, fun step hme => ?_⟩
    rcases mem_cons.mp hme with rfl | hme
    · exact hno
    · exact hr step hme

lemma Move.largest {reason : ShedReason} {sender lane : String} {head : Bool}
    (hm : Move tariff s (.shed reason sender lane mi head) t) (hne : lane ≠ sender) : Largest s lane reason := by
  cases hm with
  | shedOldest => exact absurd rfl hne
  | shedNewest _ _ _ _ _ _ _ _ _ hl => exact hl

lemma ended_path (h : Valid tariff s) (hs : Sessions s) (he : Ended s p n) (hpe : p ≠ "")
    (hp : Path tariff s trace t) :
    (∀ mi ∈ infos t p, mi.session ≠ some n) ∧
      ∀ u mi granted, (u, Note.served p mi granted) ∈ trace → mi.session ≠ some n := by
  have ho : ∀ {s : PeerLanes M}, Sessions s → Ended s p n → ∀ mi ∈ infos s p, mi.session ≠ some n :=
    fun hs he mi hmi hn => he.2 (hs.live p hpe mi hmi n hn)
  obtain ⟨⟨-, hs', he'⟩, hse⟩ := hp.forall_mem
    (P := fun s => Valid tariff s ∧ Sessions s ∧ Ended s p n)
    (Q := fun _ note => ∀ mi granted, note = .served p mi granted → mi.session ≠ some n)
    (fun {s t note} hP hm => by
      obtain ⟨h, hs, he⟩ := hP
      refine ⟨⟨h.move hm, hs.move hm, he.move hm⟩, ?_⟩
      rintro mi granted rfl
      refine ho hs he mi ?_
      have hef := hm.effect p
      dsimp only [Effect] at hef
      rw [if_pos rfl] at hef
      simp [hef]) ⟨h, hs, he⟩
  exact ⟨ho hs' he', fun u mi granted hme => hse _ hme mi granted rfl⟩

lemma sessions_new (bufferCapacity byteCapacity now : ℤ) :
    Sessions (new bufferCapacity byteCapacity now : PeerLanes M) where
  numbered p n h := by cases h
  live p _ mi hmi := by cases hmi

/-- What the lanes do with messages, after any sequence of operations: an accepted message has left once (served, shed
or purged with its peer) or is still queued in the lane of its sender; what `next` returned since the last purge of a
peer is a subsequence of what was accepted since then; a peer's message that carries a session is accepted only if the
session is the peer's live one, and after the purge no message of the ended session is queued or returned; and a
message is shed from another lane than its sender's only if that lane uses most of what is short. -/
theorem lanes_history [DecidableEq M] (tariff : Tariff M) (bufferCapacity byteCapacity start : ℤ)
    (hbuffer : 0 < bufferCapacity) (hbyte : 0 < byteCapacity) (es : List (Event M)) (s : PeerLanes M) (trace : Trace M)
    (hrun : (new bufferCapacity byteCapacity start).execAll tariff es = (s, trace)) :
    (∀ mi, (entered trace).count mi = (left trace).count mi + (infos s mi.peerID).count mi) ∧
    (∀ p, ∀ mi ∈ infos s p, mi.peerID = p) ∧
    (∀ p, (servedSince p trace).Sublist (acceptedSince p trace)) ∧
    (∀ now t more mi, s.next tariff now = some (.ok (t, more, mi)) → returned more = mi.toList) ∧
    (∀ now mi n, (s.enqueue tariff now mi).2.2 = true → mi.peerID ≠ "" → mi.session = some n →
      s.sessions mi.peerID = some n) ∧
    (∀ p n, p ≠ "" → s.sessions p = some n → ∀ es' t more,
      (s.purgePeer p).1.execAll tariff es' = (t, more) →
        (∀ mi ∈ infos t p, mi.session ≠ some n) ∧
          ∀ u mi granted, (u, Note.served p mi granted) ∈ more → mi.session ≠ some n) ∧
    (∀ u reason sender lane mi head, (u, Note.shed reason sender lane mi head) ∈ trace → lane ≠ sender →
      Largest u lane reason) := by
  have h₀ : Valid tariff (new bufferCapacity byteCapacity start : PeerLanes M) := valid_new hbuffer hbyte start
  have hp : Path tariff (new bufferCapacity byteCapacity start) trace s := by
    have := execAll_path h₀ es
    rwa [hrun] at this
  have h := h₀.path hp
  obtain ⟨hs, hl⟩ := hp.forall_mem (P := Sessions)
    (Q := fun s note => ∀ reason sender lane mi head, note = .shed reason sender lane mi head → lane ≠ sender →
      Largest s lane reason)
    (fun hs hm => ⟨hs.move hm, by
      rintro reason sender lane mi head rfl hne
      exact hm.largest hne⟩) (sessions_new bufferCapacity byteCapacity start)
  refine ⟨fun mi => ?_, fun p mi => peerID_of_mem h, fun p => ?_, fun now t more mi hnx => ?_,
    fun now mi n ha hpe hss => ?_, fun p n hpe hn es' t more hr' => ?_,
    fun u reason sender lane mi head hme => hl _ hme reason sender lane mi head rfl⟩
  · have hc := count_path h₀ hp mi
    have hno : infos (new bufferCapacity byteCapacity start : PeerLanes M) mi.peerID = [] := rfl
    rw [hno, count_nil] at hc
    omega
  · have hno : ([] ++ infos (new bufferCapacity byteCapacity start : PeerLanes M) p).Sublist [] := List.Sublist.refl _
    exact (sublist_append_left ..).trans (sublist_path hp hno)
  · exact (next_path h hnx).2
  · refine sessionLive_eq_true ?_ hpe hss
    by_contra hd
    unfold enqueue at ha
    rw [if_pos (by simpa using hd)] at ha
    cases ha
  · have hpu := exec_path h (.purgePeer p)
    have he : Ended (s.purgePeer p).1 p n := by
      have hse : (s.purgePeer p).1.sessions p = none ∧ (s.purgePeer p).1.nextSession = s.nextSession := by
        rw [(sessions_purgePeer s p).1, (sessions_purgePeer s p).2]
        exact ⟨update_self .., rfl⟩
      exact ⟨hse.2 ▸ hs.numbered p n hn, by rw [hse.1]; simp⟩
    obtain ⟨hs', -⟩ := hpu.forall_mem (P := Sessions) (Q := fun _ _ => True) (fun hs hm => ⟨hs.move hm, trivial⟩) hs
    have h' := h.path hpu
    have hp' := execAll_path h' es'
    rw [show ((s.exec tariff (.purgePeer p)).1.execAll tariff es') = (t, more) from hr'] at hp'
    exact ended_path h' hs' he hpe hp'

/-- In a run of two peers the session of the first one ends, and its message that arrives late is refused. -/
theorem sampleEvents_history :
    ((new 2 65536 0).execAll Message.tariff sampleEvents).1.sessions "a" = some 1 ∧
      ((((new 2 65536 0).execAll Message.tariff sampleEvents).1.purgePeer "a").1.enqueue Message.tariff 9
        ⟨"a", some 1, .other 100⟩).2.2 = false ∧
      (servedSince "a" ((new 2 65536 0).execAll Message.tariff sampleEvents).2).Sublist
        (acceptedSince "a" ((new 2 65536 0).execAll Message.tariff sampleEvents).2) :=
  ⟨by decide +kernel, by decide +kernel,
    (lanes_history Message.tariff 2 65536 0 (by decide) (by decide) sampleEvents _ _ rfl).2.2.1 "a"⟩

/-- A message without a sender is accepted whatever session it carries. -/
theorem own_message_accepted :
    ((new 2 65536 0).enqueue Message.tariff 0 ⟨"", some 7, .other 100⟩).2.2 = true ∧
      (new 2 65536 0 : PeerLanes Message).sessions "" = none := by
  decide +kernel

end PeerLanes

end Tenderdash
