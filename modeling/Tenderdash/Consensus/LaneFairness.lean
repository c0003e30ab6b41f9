import Tenderdash.Consensus.LaneHistory

/-!
The rotation is fair: what a message at the head of its lane waits for.

* `nextLoop_ends` — the loop of `next` ends, with a message if any lane holds one;
* `Move.waits` — while a message stays at the head, its lane's credit grows by one with every grant;
* `Move.ahead` — between two grants to a lane, another lane is granted at most once: after its turn it stands behind;
* `Move.credit` — a lane serves what it was granted and what it had saved.
-/

namespace Tenderdash

open Lib List

namespace PeerLanes

variable {M : Type} {tariff : Tariff M} {s t u : PeerLanes M} {p : String} {trace : Trace M} {note : Note M}

/-! ### The loop ends -/

def turnsLeft (tariff : Tariff M) (s : PeerLanes M) : ℕ :=
  (s.rotation.map fun q => lack tariff (s.laneOf q)).sum +
    if s.rotation.any fun q => (s.laneOf q).turnOpen then 1 else 0

lemma turnsLeft_lt (tariff : Tariff M) (s : PeerLanes M) : turnsLeft tariff s < turnBound tariff s := by
  unfold turnsLeft turnBound
  split <;> omega

variable {rest : List String} {entry : QueuedMsg M} {fuel : ℕ} {lane : PeerLane M}
  {result : Go Empty (PeerLanes M × Trace M × Option (MsgInfo M))} {now : ℤ}

lemma turnsLeft_passed (h : Valid tariff s) {queue : List (QueuedMsg M)} (hr : s.rotation = p :: rest)
    (hqu : (s.laneOf p).queue = entry :: queue) (hla : (grant (s.laneOf p)).deficit < laneTurnCost tariff entry.info) :
    turnsLeft tariff (s.setLane p { grant (s.laneOf p) with turnOpen := false }).rotateFront < turnsLeft tariff s := by
  set lane : PeerLane M := { grant (s.laneOf p) with turnOpen := false } with hl
  have hg := grant_deficit (s.laneOf p)
  have hn := h.nodup
  rw [hr, nodup_cons] at hn
  -- the other lanes are closed and as they were
  have ho : ∀ q ∈ rest, ((s.setLane p lane).rotateFront).laneOf q = s.laneOf q := by
    intro q hq
    rw [laneOf_passed, laneOf_setLane_of_ne]
    rintro rfl
    exact hn.1 hq
  have hc : ∀ q ∈ rest, (s.laneOf q).turnOpen = false := fun q hq =>
    h.closed_of_front hr (by simp [hr, hq]) fun hpq => hn.1 (hpq ▸ hq)
  have hs : ((s.setLane p lane).rotateFront).laneOf p = lane := by rw [laneOf_passed, laneOf_setLane_self]
  have hr' : ((s.setLane p lane).rotateFront).rotation = rest ++ [p] := by simp [rotateFront, setLane, hr]
  have hno : ((rest ++ [p]).any fun q => (((s.setLane p lane).rotateFront).laneOf q).turnOpen) = false := by
    rw [any_eq_false]
    intro q hq
    rcases mem_append.mp hq with hq | hq
    · rw [ho q hq, hc q hq]
      simp
    rw [mem_singleton.mp hq, hs]
    simp [hl]
  have ha : (s.rotation.any fun q => (s.laneOf q).turnOpen) = (s.laneOf p).turnOpen := by
    have hre : (rest.any fun q => (s.laneOf q).turnOpen) = false := by
      rw [any_eq_false]
      intro q hq
      rw [hc q hq]
      simp
    rw [hr, any_cons, hre, Bool.or_false]
  have hsu : ((rest ++ [p]).map fun q => lack tariff (((s.setLane p lane).rotateFront).laneOf q)).sum =
      (rest.map fun q => lack tariff (s.laneOf q)).sum + lack tariff lane := by
    rw [map_append, sum_append, map_congr_left fun q hq => by rw [ho q hq]]
    simp [hs]
  have hll : lack tariff lane = (laneTurnCost tariff entry.info - (grant (s.laneOf p)).deficit).toNat := by
    have hq : lane.queue = entry :: queue := (grant_queue _).trans hqu
    unfold lack
    rw [hq]
  have hlo : lack tariff (s.laneOf p) = (laneTurnCost tariff entry.info - (s.laneOf p).deficit).toNat := by
    unfold lack
    rw [hqu]
  unfold turnsLeft
  rw [hr', hno, hsu, ha, hr, map_cons, sum_cons, hll, hlo]
  by_cases hop : (s.laneOf p).turnOpen = true
  · rw [hop] at hg ⊢
    simp
    omega
  rw [Bool.not_eq_true] at hop
  rw [hop] at hg ⊢
  simp at hg ⊢
  omega

theorem nextLoop_ends (h : Valid tariff s) (now : ℤ) (hf : turnsLeft tariff s < fuel) :
    ∃ t trace mi, nextLoop tariff now fuel s = some (.ok (t, trace, mi)) ∧ (s.rotation ≠ [] → mi.isSome) := by
  induction fuel generalizing s with
  | zero => omega
  | succ fuel ih =>
    rw [nextLoop]
    cases hr : s.rotation with
    | nil => exact ⟨s, [], none, rfl, (absurd rfl)⟩
    | cons p rest =>
      dsimp only
      obtain ⟨entry, queue, hq, ⟨hl, ht⟩ | ⟨hcl, hco, u, ht, hs, hc⟩⟩ := takeTurn_spec h hr now
      · have hm : Move tariff s _ _ := .passed p rest entry queue hr hq hl
        have hle := turnsLeft_passed h hr hq hl
        obtain ⟨t, trace, mi, hlo, hso⟩ := ih (h.move hm) (by omega)
        rw [ht]
        dsimp only
        rw [hlo]
        refine ⟨t, _, mi, rfl, fun _ => hso ?_⟩
        simp [rotateFront, setLane, hr]
      · rw [ht]
        exact ⟨u, _, _, rfl, fun _ => rfl⟩

lemma nextLoop_succ
    (hl : nextLoop tariff now fuel s = some result) : nextLoop tariff now (fuel + 1) s = some result := by
  induction fuel generalizing s result with
  | zero => cases hl
  | succ fuel ih =>
    rw [nextLoop] at hl ⊢
    cases hro : s.rotation with
    | nil => rwa [hro] at hl
    | cons p rest =>
      rw [hro] at hl
      dsimp only at hl ⊢
      split at hl
      · exact hl
      · exact hl
      obtain ⟨result', hr, rfl⟩ := Option.map_eq_some_iff.mp hl
      exact Option.map_eq_some_iff.mpr ⟨result', ih hr, rfl⟩

lemma nextLoop_mono {fuel' : ℕ}
    (hl : nextLoop tariff now fuel s = some result) (hle : fuel ≤ fuel') :
    nextLoop tariff now fuel' s = some result := by
  induction hle with
  | refl => exact hl
  | step _ ih => exact nextLoop_succ ih

/-! ### Waiting at the head of a lane -/

def Note.Takes (p : String) : Note M → Prop
  | .served lane _ _ => lane = p
  | .shed _ _ lane _ head => lane = p ∧ head = true
  | .purged lane _ => lane = p
  | _ => False

instance (p : String) (note : Note M) : Decidable (Note.Takes p note) := by
  cases note <;> unfold Note.Takes <;> infer_instance

def Note.Drops (p : String) : Note M → Prop
  | .shed _ _ lane _ head => lane = p ∧ head = true
  | .purged lane _ => lane = p
  | _ => False

def Note.grants (p : String) : Note M → ℕ
  | .passed lane granted => if lane = p ∧ granted = true then 1 else 0
  | .served lane _ granted => if lane = p ∧ granted = true then 1 else 0
  | _ => 0

def grants (p : String) (trace : Trace M) : ℕ := (trace.map fun step => Note.grants p step.2).sum

lemma grants_append (p : String) (trace trace' : Trace M) :
    grants p (trace ++ trace') = grants p trace + grants p trace' := by simp [grants]

lemma Move.waits (hm : Move tariff s note t) {rest : List (QueuedMsg M)}
    (hqu : (s.laneOf p).queue = entry :: rest) (hk : ¬ Note.Takes p note) :
    (∃ rest', (t.laneOf p).queue = entry :: rest') ∧
      (t.laneOf p).deficit = (s.laneOf p).deficit + Note.grants p note := by
  have hne : (s.laneOf p).queue ≠ [] := by simp [hqu]
  cases hm with
  | idle hi _ =>
    rw [hi.queue p, (hi.credit p hne).1]
    exact ⟨⟨rest, hqu⟩, by simp [Note.grants]⟩
  | admitted q =>
    have hs : ((s.admitPeer q).1).laneOf p = s.laneOf p := by
      unfold admitPeer
      split <;> rfl
    rw [hs]
    exact ⟨⟨rest, hqu⟩, by simp [Note.grants]⟩
  | accepted mi size lane _ hc ha _ _ hst =>
    by_cases hp : p = mi.peerID
    · subst hp
      rw [hc.lane_eq, ha, hqu, (hst hne).1]
      exact ⟨⟨_, rfl⟩, by simp [Note.grants]⟩
    rw [hc.others p hp]
    exact ⟨⟨rest, hqu⟩, by simp [Note.grants]⟩
  | shedOldest q e lane hq _ _ _ hc =>
    have hp : p ≠ q := fun hp => hk ⟨hp.symm, rfl⟩
    rw [hc.others p hp]
    exact ⟨⟨rest, hqu⟩, by simp [Note.grants]⟩
  | shedNewest reason sender q e lane hq _ hd _ _ hc =>
    by_cases hp : p = q
    · subst hp
      have hl : lane.queue ≠ [] := fun hn => hk ⟨rfl, by simp [hn]⟩
      obtain ⟨e', rest', hr'⟩ := exists_cons_of_ne_nil hl
      rw [hq, hr', cons_append] at hqu
      rw [hc.lane_eq, hd, hr', (cons.inj hqu).1]
      exact ⟨⟨rest', rfl⟩, by simp [Note.grants]⟩
    · rw [hc.others p hp]
      exact ⟨⟨rest, hqu⟩, by simp [Note.grants]⟩
  | passed q rot e queue hr hq hla =>
    rw [laneOf_passed]
    by_cases hp : p = q
    · subst hp
      rw [laneOf_setLane_self]
      refine ⟨⟨rest, (grant_queue _).trans hqu⟩, ?_⟩
      show (grant (s.laneOf p)).deficit = _
      rw [grant_deficit]
      cases (s.laneOf p).turnOpen <;> simp [Note.grants]
    · rw [laneOf_setLane_of_ne _ _ hp]
      exact ⟨⟨rest, hqu⟩, by simp [Note.grants, Ne.symm hp]⟩
  | served q rot e lane hr hq _ _ _ _ _ hc =>
    have hp : p ≠ q := fun hp => hk hp.symm
    rw [hc.others p hp]
    exact ⟨⟨rest, hqu⟩, by simp [Note.grants, Ne.symm hp]⟩
  | purged q hc =>
    have hp : p ≠ q := fun hp => hk hp.symm
    rw [hc.others p hp]
    exact ⟨⟨rest, hqu⟩, by simp [Note.grants]⟩

theorem waits_path (h : Valid tariff s) (hp : Path tariff s trace t) {rest : List (QueuedMsg M)}
    (hq : (s.laneOf p).queue = entry :: rest) (hk : ∀ step ∈ trace, ¬ Note.Takes p step.2) :
    (∃ rest', (t.laneOf p).queue = entry :: rest') ∧
      (s.laneOf p).deficit + grants p trace < laneTurnCost tariff entry.info := by
  induction hp generalizing rest with
  | nil s => exact ⟨⟨rest, hq⟩, by simpa [grants] using (h.lane p).saved entry rest hq⟩
  | cons hm _ ih =>
    obtain ⟨⟨rest', hq'⟩, hd⟩ := hm.waits hq (hk _ mem_cons_self)
    obtain ⟨he, hlt⟩ := ih (h.move hm) hq' fun step hme => hk step (by simp [hme])
    refine ⟨he, ?_⟩
    simp only [grants, map_cons, sum_cons] at hlt ⊢
    omega

/-! ### Turns of another lane -/

/-- Lane `b` has had its turn and is not granted another one before lane `a` is: it is not in the rotation, or stands
at the front with its turn open, or behind `a`. -/
def Behind (s : PeerLanes M) (a b : String) : Prop :=
  (s.laneOf a).turnOpen = false ∧
    (b ∉ s.rotation ∨ (s.rotation.head? = some b ∧ (s.laneOf b).turnOpen = true) ∨ [a, b].Sublist s.rotation)

variable {a b q : String}

lemma Changed.behind (hc : Changed s t q lane) (h : Valid tariff s) (ha : a ∈ s.rotation) (hqa : q ≠ a) (hab : a ≠ b)
    (ht : q = b → lane.queue ≠ [] → (s.laneOf b).queue ≠ [] → lane.turnOpen = (s.laneOf b).turnOpen)
    (hb : Behind s a b) : Behind t a b := by
  obtain ⟨hcl, hca⟩ := hb
  refine ⟨by rw [hc.others a (symm hqa)]; exact hcl, ?_⟩
  by_cases hqb : q = b
  · subst hqb
    by_cases he : lane.queue = []
    · refine .inl fun hin => ?_
      rw [hc.mem_rotation h, hc.lane_eq] at hin
      exact hin he
    by_cases hw : (s.laneOf q).queue = []
    · refine .inr (.inr ?_)
      rw [hc.rotation, if_neg he, if_pos hw]
      exact (singleton_sublist.mpr ha).append (List.Sublist.refl [q])
    rw [hc.rotation, if_neg he, if_neg hw, hc.lane_eq, ht rfl he hw]
    exact hca
  · rcases hca with hou | ⟨hh, ho⟩ | hs
    · refine .inl fun hin => hou ?_
      rw [h.named b, ← hc.others b (symm hqb)]
      exact (hc.mem_rotation h b).mp hin
    · refine .inr (.inl ⟨hc.head? (symm hqb) hh, ?_⟩)
      rw [hc.others b (symm hqb)]
      exact ho
    · refine .inr (.inr ?_)
      rw [hc.rotation]
      split_ifs
      · have her := hs.erase q
        rwa [erase_of_not_mem (by simp [hqa, hqb])] at her
      · exact hs.trans (sublist_append_left ..)
      · exact hs

lemma Changed.behind_self (hc : Changed s t a lane) (hab : a ≠ b) (hw : (s.laneOf a).queue ≠ [])
    (hne : lane.queue ≠ []) (ht : lane.turnOpen = (s.laneOf a).turnOpen) (hb : Behind s a b) : Behind t a b := by
  unfold Behind
  rw [hc.lane_eq, ht, hc.rotation, if_neg hne, if_neg hw, hc.others b (symm hab)]
  exact hb

lemma behind_passed (h : Valid tariff s) (hr : s.rotation = b :: rest) (ha : a ∈ s.rotation)
    (hab : a ≠ b) : Behind (s.setLane b lane).rotateFront a b := by
  have hr' : (s.setLane b lane).rotateFront.rotation = rest ++ [b] := by simp [rotateFront, setLane, hr]
  refine ⟨?_, .inr (.inr ?_)⟩
  · rw [laneOf_passed, laneOf_setLane_of_ne _ _ hab]
    exact h.closed_of_front hr ha (symm hab)
  have hin : a ∈ rest := by
    rw [hr] at ha
    exact (mem_cons.mp ha).resolve_left hab
  rw [hr']
  exact (singleton_sublist.mpr hin).append (List.Sublist.refl [b])

lemma Behind.open_of_front (hb : Behind s a b) (h : Valid tariff s)
    (hr : s.rotation = b :: rest) (hab : a ≠ b) : (s.laneOf b).turnOpen = true := by
  obtain ⟨-, hou | ⟨-, ho⟩ | hs⟩ := hb
  · exact absurd (by simp [hr]) hou
  · exact ho
  have hn := h.nodup
  rw [hr] at hs hn
  have hin : b ∈ rest := by
    cases hs with
    | cons _ hs => exact hs.subset (by simp)
    | cons_cons _ _ => exact absurd rfl hab
  exact absurd hin (nodup_cons.mp hn).1

lemma Behind.passed_other (hb : Behind s a b) (hr : s.rotation = q :: rest) (hqa : q ≠ a)
    (hqb : q ≠ b) : Behind (s.setLane q lane).rotateFront a b := by
  have hr' : (s.setLane q lane).rotateFront.rotation = rest ++ [q] := by simp [rotateFront, setLane, hr]
  obtain ⟨hcl, hc⟩ := hb
  refine ⟨by rw [laneOf_passed, laneOf_setLane_of_ne _ _ (symm hqa)]; exact hcl, ?_⟩
  rw [hr']
  rw [hr] at hc
  rcases hc with ho | ⟨hh, -⟩ | hs
  · refine .inl fun hin => ho ?_
    rcases mem_append.mp hin with hin | hin
    · exact mem_cons_of_mem _ hin
    · exact absurd (mem_singleton.mp hin).symm hqb
  · exact absurd (Option.some.inj hh) hqb
  refine .inr (.inr ?_)
  cases hs with
  | cons _ hs => exact hs.trans (sublist_append_left ..)
  | cons_cons _ _ => exact absurd rfl hqa

/-- One step: a lane that stands behind is not granted anything and stays behind, until the waiting lane is granted;
and a lane that is granted stands behind. -/
lemma Move.behind (h : Valid tariff s) (hm : Move tariff s note t) (ha : (s.laneOf a).queue ≠ [])
    (hk : ¬ Note.Takes a note) (hab : a ≠ b) :
    (Behind s a b → Note.grants b note = 0 ∧ (Behind t a b ∨ Note.grants a note = 1)) ∧
      (Note.grants b note ≠ 0 → Note.grants b note = 1 ∧ Behind t a b) := by
  have hin : a ∈ s.rotation := (h.named a).mpr ha
  cases hm with
  | idle hi _ =>
    refine ⟨fun hb => ⟨rfl, .inl ?_⟩, (absurd rfl)⟩
    refine ⟨by rw [(hi.credit a ha).2]; exact hb.1, ?_⟩
    rw [hi.rotation]
    rcases hb.2 with hou | ⟨hh, ho⟩ | hsu
    · exact .inl hou
    · have hbq := (h.named b).mp (mem_of_head? hh)
      exact .inr (.inl ⟨hh, by rw [(hi.credit b hbq).2]; exact ho⟩)
    · exact .inr (.inr hsu)
  | admitted q =>
    refine ⟨fun hb => ⟨rfl, .inl ?_⟩, (absurd rfl)⟩
    unfold admitPeer
    split <;> exact hb
  | accepted mi size lane _ hc had _ hj hs =>
    refine ⟨fun hb => ⟨rfl, .inl ?_⟩, (absurd rfl)⟩
    by_cases hq : mi.peerID = a
    · subst hq
      exact hc.behind_self hab ha (by simp [had]) (hs ha).2 hb
    refine hc.behind h hin hq hab (fun hqb _ hw => ?_) hb
    rw [← hqb] at hw ⊢
    exact (hs hw).2
  | shedOldest q e lane hq _ _ ht hc =>
    refine ⟨fun hb => ⟨rfl, .inl ?_⟩, (absurd rfl)⟩
    have hqa : q ≠ a := fun hqa => hk ⟨hqa, rfl⟩
    exact hc.behind h hin hqa hab (fun hqb _ _ => hqb ▸ ht) hb
  | shedNewest reason sender q e lane hq _ _ ht _ hc =>
    refine ⟨fun hb => ⟨rfl, .inl ?_⟩, (absurd rfl)⟩
    by_cases hqa : q = a
    · subst hqa
      have hl : lane.queue ≠ [] := fun hni => hk ⟨rfl, by simp [hni]⟩
      exact hc.behind_self hab ha hl ht hb
    · exact hc.behind h hin hqa hab (fun hqb _ _ => hqb ▸ ht) hb
  | passed q rest e queue hr hqu hla =>
    by_cases hqa : q = a
    · subst hqa
      have hn : Note.grants b (Note.passed q (!(s.laneOf q).turnOpen) : Note M) = 0 := by simp [Note.grants, hab]
      refine ⟨fun hb => ⟨hn, .inr ?_⟩, (absurd hn)⟩
      simp [Note.grants, hb.1]
    by_cases hqb : q = b
    · subst hqb
      have haf : Behind (s.setLane q { grant (s.laneOf q) with turnOpen := false }).rotateFront a q :=
        behind_passed h hr hin hab
      refine ⟨fun hb => ⟨?_, .inl haf⟩, fun hne => ⟨?_, haf⟩⟩
      · simp [Note.grants, hb.open_of_front h hr hab]
      cases ht : (s.laneOf q).turnOpen
      · simp [Note.grants]
      · simp [Note.grants, ht] at hne
    · have hn : Note.grants b (Note.passed q (!(s.laneOf q).turnOpen) : Note M) = 0 := by simp [Note.grants, hqb]
      exact ⟨fun hb => ⟨hn, .inl (hb.passed_other hr hqa hqb)⟩, (absurd hn)⟩
  | served q rest e lane hr hqu _ hcl _ _ ht hc =>
    have hqa : q ≠ a := hk
    by_cases hqb : q = b
    · subst hqb
      have haf : Behind t a q := by
        refine ⟨by rw [hc.others a (symm hqa)]; exact h.closed_of_front hr hin hqa, ?_⟩
        by_cases he : lane.queue = []
        · refine .inl fun hme => ?_
          rw [hc.mem_rotation h, hc.lane_eq] at hme
          exact hme he
        refine .inr (.inl ⟨?_, by rw [hc.lane_eq, ht]; simpa using he⟩)
        rw [hc.rotation, if_neg he, if_neg (by simp [hqu]), hr]
        rfl
      refine ⟨fun hb => ?_, fun _ => ⟨by simp [Note.grants], haf⟩⟩
      have ho := hb.open_of_front h hr hab
      rw [hcl] at ho
      cases ho
    · have hn : Note.grants b (Note.served q e.info true) = 0 := by simp [Note.grants, hqb]
      refine ⟨fun hb => ⟨hn, .inl ?_⟩, (absurd hn)⟩
      exact hc.behind h hin hqa hab (fun heq => absurd heq hqb) hb
  | purged q hc =>
    have hqa : q ≠ a := hk
    refine ⟨fun hb => ⟨rfl, .inl ?_⟩, fun hne => absurd rfl hne⟩
    exact hc.behind h hin hqa hab (fun _ hne => absurd rfl hne) hb

open Classical in
noncomputable def ahead (s : PeerLanes M) (a b : String) : ℕ := if Behind s a b then 0 else 1

lemma ahead_le_one (s : PeerLanes M) (a b : String) : ahead s a b ≤ 1 := by
  unfold ahead
  split <;> omega

lemma Move.ahead (h : Valid tariff s) (hm : Move tariff s note t) (ha : (s.laneOf a).queue ≠ [])
    (hk : ¬ Note.Takes a note) (hab : a ≠ b) :
    Note.grants b note + PeerLanes.ahead t a b ≤ PeerLanes.ahead s a b + Note.grants a note := by
  obtain ⟨hs, hg⟩ := hm.behind h ha hk hab
  have ht := ahead_le_one t a b
  by_cases hb : Behind s a b
  · obtain ⟨hn, hbt | hgr⟩ := hs hb
    · have : PeerLanes.ahead t a b = 0 := if_pos hbt
      omega
    · omega
  have ho : PeerLanes.ahead s a b = 1 := if_neg hb
  by_cases hn : Note.grants b note = 0
  · omega
  obtain ⟨heq, hbt⟩ := hg hn
  have : PeerLanes.ahead t a b = 0 := if_pos hbt
  omega

theorem ahead_path (h : Valid tariff s) (hp : Path tariff s trace t) {rest : List (QueuedMsg M)}
    (hq : (s.laneOf a).queue = entry :: rest) (hke : ∀ step ∈ trace, ¬ Note.Takes a step.2) (hab : a ≠ b) :
    grants b trace + ahead t a b ≤ ahead s a b + grants a trace := by
  induction hp generalizing rest with
  | nil s => simp [grants]
  | cons hm _ ih =>
    have hk := hke _ mem_cons_self
    obtain ⟨⟨rest', hq'⟩, -⟩ := hm.waits hq hk
    have hs := hm.ahead h (by simp [hq]) hk hab
    have hr := ih (h.move hm) hq' fun step hme => hke step (by simp [hme])
    simp only [grants, map_cons, sum_cons] at hr ⊢
    omega

/-! ### Credit -/

def credit (s : PeerLanes M) (p : String) : ℤ := if (s.laneOf p).queue = [] then 0 else (s.laneOf p).deficit

def Note.cost (tariff : Tariff M) (p : String) : Note M → ℤ
  | .served lane mi _ => if lane = p then laneTurnCost tariff mi else 0
  | _ => 0

def cost (tariff : Tariff M) (p : String) (trace : Trace M) : ℤ :=
  (trace.map fun step => Note.cost tariff p step.2).sum

lemma Changed.credit_of_ne (hc : Changed s t q lane) (hp : p ≠ q) : credit t p = credit s p := by
  unfold credit
  rw [hc.others p hp]

lemma credit_of_ne_nil (hne : (s.laneOf p).queue ≠ []) : credit s p = (s.laneOf p).deficit := if_neg hne

lemma Changed.credit_le (hc : Changed s t p lane) (hn : 0 ≤ lane.deficit) : credit t p ≤ lane.deficit := by
  unfold credit
  rw [hc.lane_eq]
  split <;> omega

lemma credit_nonneg (h : Valid tariff s) : 0 ≤ credit s p := by
  unfold credit
  split
  · exact le_rfl
  · exact (h.lane p).credit

lemma Move.credit (h : Valid tariff s) (hm : Move tariff s note t) :
    Note.cost tariff p note + PeerLanes.credit t p ≤ PeerLanes.credit s p + Note.grants p note := by
  have hcr := (h.lane p).credit
  cases hm with
  | idle hi _ =>
    have : credit t p = credit s p := by
      unfold credit
      rw [hi.queue p]
      by_cases hne : (s.laneOf p).queue = []
      · rw [if_pos hne, if_pos hne]
      · rw [if_neg hne, if_neg hne, (hi.credit p hne).1]
    simp [Note.cost, Note.grants, this]
  | admitted q =>
    have : credit (s.admitPeer q).1 p = credit s p := by
      unfold admitPeer
      split <;> rfl
    simp [Note.cost, Note.grants, this]
  | accepted mi size lane _ hc ha _ hj hs =>
    simp only [Note.cost, Note.grants]
    by_cases hp : p = mi.peerID
    · subst hp
      unfold credit
      rw [hc.lane_eq, if_neg (by simp [ha])]
      by_cases hne : (s.laneOf mi.peerID).queue = []
      · rw [if_pos hne, (hj hne).1]
        simp
      rw [if_neg hne, (hs hne).1]
      simp
    · rw [hc.credit_of_ne hp]
      simp
  | shedOldest q e lane hq _ hd _ hc =>
    simp only [Note.cost, Note.grants]
    by_cases hp : p = q
    · subst hp
      have hle := hc.credit_le hd.ge
      have ho : credit s p = (s.laneOf p).deficit := credit_of_ne_nil (by simp [hq])
      omega
    · rw [hc.credit_of_ne hp]
      simp
  | shedNewest reason sender q e lane hq _ hd _ _ hc =>
    simp only [Note.cost, Note.grants]
    by_cases hp : p = q
    · subst hp
      have hle := hc.credit_le (hd ▸ hcr)
      have ho : credit s p = (s.laneOf p).deficit := credit_of_ne_nil (by simp [hq])
      omega
    · rw [hc.credit_of_ne hp]
      simp
  | passed q rest e queue hr hqu hl =>
    simp only [Note.cost]
    unfold credit
    rw [laneOf_passed]
    by_cases hp : p = q
    · subst hp
      rw [laneOf_setLane_self]
      rw [grant_queue, if_neg (by simp [hqu]), if_neg (by simp [hqu]), grant_deficit]
      cases (s.laneOf p).turnOpen <;> simp [Note.grants]
    · rw [laneOf_setLane_of_ne _ _ hp]
      simp
  | served q rest e lane hr hqu _ _ hco hd _ hc =>
    by_cases hp : p = q
    · subst hp
      have hle := hc.credit_le hd.ge
      have ho : credit s p = (s.laneOf p).deficit := credit_of_ne_nil (by simp [hqu])
      simp only [Note.cost, Note.grants, if_true, and_self]
      omega
    · rw [hc.credit_of_ne hp]
      simp [Note.cost, Ne.symm hp]
  | purged q hc =>
    simp only [Note.cost, Note.grants]
    by_cases hp : p = q
    · subst hp
      have hle := hc.credit_le le_rfl
      have ho := credit_nonneg (p := p) h
      dsimp only at hle
      omega
    · rw [hc.credit_of_ne hp]
      simp

theorem credit_path (h : Valid tariff s) (hp : Path tariff s trace t) :
    cost tariff p trace + credit t p ≤ credit s p + grants p trace := by
  induction hp with
  | nil s => simp [cost, grants]
  | cons hm _ ih =>
    have hs := hm.credit (p := p) h
    have hr := ih (h.move hm)
    simp only [cost, grants, map_cons, sum_cons] at hr ⊢
    omega

/-! ### Fairness -/

lemma Path.split {pre post : Trace M} (hp : Path tariff s (pre ++ post) t) :
    ∃ u, Path tariff s pre u ∧ Path tariff u post t := by
  induction pre generalizing s with
  | nil => exact ⟨s, .nil s, hp⟩
  | cons step pre ih =>
    cases hp with
    | cons hm hp =>
      obtain ⟨u, hpr, hpo⟩ := ih hp
      exact ⟨u, .cons hm hpr, hpo⟩

lemma exists_first_taken (p : String) (trace : Trace M) :
    (∀ step ∈ trace, ¬ Note.Takes p step.2) ∨
      ∃ pre step post, trace = pre ++ step :: post ∧ Note.Takes p step.2 ∧
        ∀ earlier ∈ pre, ¬ Note.Takes p earlier.2 := by
  cases hf : trace.find? fun step => Note.Takes p step.2 with
  | none => exact .inl (by simpa using hf)
  | some step =>
    obtain ⟨ht, pre, post, rfl, hp⟩ := find?_eq_some_iff_append.mp hf
    exact .inr ⟨pre, step, post, rfl, by simpa using ht, by simpa using hp⟩

theorem served_by_grant (h : Valid tariff s) (hp : Path tariff s trace t)
    {rest : List (QueuedMsg M)} (hqu : (s.laneOf p).queue = entry :: rest)
    (hk : ∀ step ∈ trace, ¬ Note.Drops p step.2) (hg : laneTurnCost tariff entry.info ≤ grants p trace) :
    ∃ pre u post, trace = pre ++ (u, .served p entry.info true) :: post ∧
      (∀ step ∈ pre, ¬ Note.Takes p step.2) ∧
      grants p (pre ++ [(u, .served p entry.info true)]) ≤ laneTurnCost tariff entry.info := by
  have hc := (h.lane p).credit
  rcases exists_first_taken p trace with hn | ⟨pre, ⟨u, note⟩, post, rfl, ht, hpr⟩
  · have := (waits_path h hp hqu hn).2
    omega
  obtain ⟨v, hb, ha⟩ := hp.split
  obtain ⟨⟨rest', hq'⟩, hlt⟩ := waits_path h hb hqu hpr
  have hd := hk (u, note) (by simp)
  cases ha with
  | cons hm _ =>
    cases hm with
    | served q rot e lane hr hq =>
      obtain rfl : q = p := ht
      rw [hq'] at hq
      obtain rfl : entry = e := (cons.inj hq).1
      refine ⟨pre, _, post, rfl, hpr, ?_⟩
      have hl : grants q [(u, Note.served q entry.info true)] = 1 := by simp [grants, Note.grants]
      rw [grants_append, hl]
      omega
    | idle | admitted | accepted | passed => exact absurd ht (by simp [Note.Takes])
    | shedOldest => exact absurd ht hd
    | shedNewest => exact absurd ht hd
    | purged => exact absurd ht hd

/-- The rotation is fair. In every state that can be reached, `next` ends, however many iterations are allowed beyond
enough, and returns a message if a lane holds one. And from then on, for a message at the head of lane `a` that costs
`W`: if it is not shed or purged, it is served at the latest at the lane's `W`-th grant; and while it waits, between
two grants to its lane any other lane is granted at most once, and serves at most what it had saved and `W` more. -/
theorem rotation_fair (tariff : Tariff M) (bufferCapacity byteCapacity start : ℤ) (hbuffer : 0 < bufferCapacity)
    (hbyte : 0 < byteCapacity) (es : List (Event M)) (s : PeerLanes M)
    (hs : s = ((new bufferCapacity byteCapacity start).execAll tariff es).1) :
    (∀ now, ∃ t trace mi, s.next tariff now = some (.ok (t, trace, mi)) ∧
      ((∃ p, (s.laneOf p).queue ≠ []) → mi.isSome) ∧
      ∀ fuel, turnBound tariff (s.reclaimIdleLanes now) ≤ fuel →
        nextLoop tariff now fuel (s.reclaimIdleLanes now) =
          nextLoop tariff now (turnBound tariff (s.reclaimIdleLanes now)) (s.reclaimIdleLanes now)) ∧
    ∀ (a : String) (entry : QueuedMsg M) (rest : List (QueuedMsg M)), (s.laneOf a).queue = entry :: rest →
      ∀ (more : List (Event M)) (t : PeerLanes M) (trace post : Trace M),
        s.execAll tariff more = (t, trace ++ post) →
        ((∀ step ∈ trace, ¬ Note.Drops a step.2) → laneTurnCost tariff entry.info ≤ grants a trace →
          ∃ pre u later, trace = pre ++ (u, .served a entry.info true) :: later ∧
            (∀ step ∈ pre, ¬ Note.Takes a step.2) ∧
            grants a (pre ++ [(u, .served a entry.info true)]) ≤ laneTurnCost tariff entry.info) ∧
        ((∀ step ∈ trace, ¬ Note.Takes a step.2) →
          grants a trace < laneTurnCost tariff entry.info ∧
          ∀ b, b ≠ a →
            (∀ pre mid, trace = pre ++ mid → grants a mid = 0 → grants b mid ≤ 1) ∧
            cost tariff b trace ≤ credit s b + laneTurnCost tariff entry.info) := by
  have h : Valid tariff s := hs ▸ lanes_valid tariff bufferCapacity byteCapacity start hbuffer hbyte es
  refine ⟨fun now => ?_, fun a entry rest hq more t trace post hr => ?_⟩
  · have hi := idle_reclaimIdleLanes h now
    have h' := h.idle hi
    obtain ⟨t, trace, mi, hl, hso⟩ := nextLoop_ends h' now (turnsLeft_lt tariff (s.reclaimIdleLanes now))
    refine ⟨t, _, mi, by rw [next, hl]; rfl, fun ⟨p, hne⟩ => hso ?_, fun fuel hle => ?_⟩
    · rw [hi.rotation]
      exact ne_nil_of_mem ((h.named p).mpr hne)
    rw [hl]
    exact nextLoop_mono hl hle
  · have hp : Path tariff s (trace ++ post) t := by
      have := execAll_path h more
      rwa [hr] at this
    obtain ⟨u, hp, -⟩ := hp.split
    refine ⟨served_by_grant h hp hq, fun hk => ?_⟩
    have hc := (h.lane a).credit
    have hg := (waits_path h hp hq hk).2
    refine ⟨by omega, fun b hba => ⟨fun pre mid hsp hz => ?_, ?_⟩⟩
    · subst hsp
      obtain ⟨v, hpr, hmi⟩ := hp.split
      obtain ⟨⟨rest', hq'⟩, -⟩ := waits_path h hpr hq fun step hm => hk step (by simp [hm])
      have hb := ahead_path (h.path hpr) hmi hq' (fun step hm => hk step (by simp [hm])) (symm hba)
      have := ahead_le_one v a b
      omega
    · have hb := ahead_path h hp hq hk (symm hba)
      have ho := ahead_le_one s a b
      have hse := credit_path (p := b) h hp
      have := credit_nonneg (p := b) (h.path hp)
      omega

def waitingEvents : List (Event Message) :=
  [.enqueue 0 ⟨"a", none, .commit 200 (some 2)⟩, .enqueue 1 ⟨"b", none, .other 100⟩,
    .enqueue 2 ⟨"b", none, .blockPart 900 (some 4)⟩]

theorem waitingEvents_fair :
    (cost Message.tariff "b" (((new 9 65536 0).execAll Message.tariff waitingEvents).1.execAll Message.tariff
        [.next 3, .next 4]).2 = 2 ∧
      (((new 9 65536 0).execAll Message.tariff waitingEvents).1.laneOf "a").queue =
        [⟨⟨"a", none, .commit 200 (some 2)⟩, 2308⟩]) ∧
      cost Message.tariff "b" (((new 9 65536 0).execAll Message.tariff waitingEvents).1.execAll Message.tariff
          [.next 3, .next 4]).2 ≤
        credit ((new 9 65536 0).execAll Message.tariff waitingEvents).1 "b" + 3 := by
  have hq : (((new 9 65536 0).execAll Message.tariff waitingEvents).1.laneOf "a").queue =
      [⟨⟨"a", none, .commit 200 (some 2)⟩, 2308⟩] := by decide +kernel
  refine ⟨⟨by decide +kernel, hq⟩, ?_⟩
  have hf := (rotation_fair Message.tariff 9 65536 0 (by decide) (by decide) waitingEvents _ rfl).2 "a" _ [] hq
    [.next 3, .next 4] _ (((new 9 65536 0).execAll Message.tariff waitingEvents).1.execAll Message.tariff
      [.next 3, .next 4]).2 [] (by rw [append_nil])
  exact ((hf.2 (by decide +kernel)).2 "b" (by decide)).2

end PeerLanes

end Tenderdash
