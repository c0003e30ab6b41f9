import Tenderdash.Consensus.OneVote

/-!
A node and its ticker.

The ticker keeps one request, the last one that was after the one before; a request that is not is dropped, even
if the timer of the earlier one has fired. So a step that ends with a timeout has one only if nothing asked for
the same step before.

* `Asks` — a node in a step that ends with a timeout has asked for that timeout, in every run;
* `OnTime` — a request that is not yet superseded, nor the step it is for left, is armed or on its way to the node.
-/

namespace Tenderdash

open Lib Go Run List Option RoundStep

/-! ### The ticker -/

/-- `timeoutTicker`: the request it took last, whether its timer runs, and the timeouts that have fired and not
reached the node. -/
structure Ticker where
  ti : Option TimeoutInfo
  armed : Bool
  tocks : List TimeoutInfo
  deriving DecidableEq, Repr

def TimeoutInfo.NotAfter (a b : TimeoutInfo) : Prop :=
  a.height < b.height ∨ (a.height = b.height ∧ (a.round < b.round ∨ (a.round = b.round ∧ a.step ≤ b.step)))

instance (a b : TimeoutInfo) : Decidable (a.NotAfter b) := by
  unfold TimeoutInfo.NotAfter
  infer_instance

namespace TimeoutInfo

variable {a b c : TimeoutInfo}

lemma NotAfter.refl (a : TimeoutInfo) : a.NotAfter a := .inr ⟨rfl, .inr ⟨rfl, Nat.le_refl _⟩⟩

lemma NotAfter.trans (h : a.NotAfter b) (h' : b.NotAfter c) : a.NotAfter c := by
  unfold NotAfter at *
  simp only [le_iff] at *
  omega

lemma notAfter_of_not (h : ¬ a.NotAfter b) : b.NotAfter a := by
  unfold NotAfter at *
  simp only [le_iff] at *
  omega

end TimeoutInfo

namespace Ticker

/-- The guard of `timeoutRoutine`. No request was taken if there is none. -/
def ignores (ti : Option TimeoutInfo) (newti : TimeoutInfo) : Prop :=
  match ti with
  | none => newti.height < 0 ∨ (newti.height = 0 ∧ newti.round < 0)
  | some ti => newti.NotAfter ti

instance (ti : Option TimeoutInfo) (newti : TimeoutInfo) : Decidable (ignores ti newti) := by
  unfold ignores
  split <;> infer_instance

variable (t : Ticker) (newti : TimeoutInfo)

/-- A request on `tickChan`. -/
def receive : Ticker :=
  if ignores t.ti newti then t else { t with ti := some newti, armed := true }

def elapse : Ticker :=
  match t.ti with
  | some ti => if t.armed then { t with armed := false, tocks := t.tocks ++ [ti] } else t
  | none => t

def pending : List TimeoutInfo := (if t.armed then t.ti.toList else []) ++ t.tocks

def Past (ti : TimeoutInfo) : Prop := ∃ last, t.ti = some last ∧ ti.NotAfter last

lemma past_receive (hti : t.ti.isSome) : (t.receive newti).Past newti := by
  obtain ⟨last, hl⟩ := isSome_iff_exists.mp hti
  unfold receive
  split
  · next hi =>
    rw [hl] at hi
    exact ⟨last, hl, hi⟩
  · exact ⟨newti, rfl, .refl newti⟩

variable {ti : TimeoutInfo}

lemma Past.receive {t : Ticker} (h : t.Past ti) (newti : TimeoutInfo) : (t.receive newti).Past ti := by
  obtain ⟨last, hl, hle⟩ := h
  unfold Ticker.receive
  split
  · exact ⟨last, hl, hle⟩
  next hn =>
  rw [hl] at hn
  exact ⟨newti, rfl, hle.trans (TimeoutInfo.notAfter_of_not hn)⟩

lemma foldl_receive_cases (requests : List TimeoutInfo) (t : Ticker) :
    requests.foldl receive t = t ∨
      ∃ last ∈ requests, requests.foldl receive t = { t with ti := some last, armed := true } := by
  induction requests generalizing t with
  | nil => exact .inl rfl
  | cons newti rest ih =>
    rw [foldl_cons]
    by_cases hi : ignores t.ti newti
    · rw [show t.receive newti = t from if_pos hi]
      rcases ih t with hs | ⟨last, hl, heq⟩
      · exact .inl hs
      · exact .inr ⟨last, mem_cons_of_mem _ hl, heq⟩
    rw [show t.receive newti = { t with ti := some newti, armed := true } from if_neg hi]
    rcases ih { t with ti := some newti, armed := true } with hs | ⟨last, hl, heq⟩
    · exact .inr ⟨newti, mem_cons_self, hs⟩
    · exact .inr ⟨last, mem_cons_of_mem _ hl, heq⟩

lemma past_foldl_receive {requests : List TimeoutInfo} {t : Ticker} (hti : t.ti.isSome)
    (h : t.Past ti ∨ ti ∈ requests) : (requests.foldl Ticker.receive t).Past ti := by
  induction requests generalizing t with
  | nil => exact h.resolve_right (by simp)
  | cons newti rest ih =>
    have hs : (t.receive newti).ti.isSome := by
      unfold receive
      split
      · exact hti
      · rfl
    rw [foldl_cons]
    refine ih hs ?_
    rcases h with hp | hm
    · exact .inl (hp.receive newti)
    rcases mem_cons.mp hm with rfl | hr
    · exact .inl (past_receive t ti hti)
    · exact .inr hr

lemma mem_pending_elapse {t : Ticker} : ti ∈ t.elapse.pending ↔ ti ∈ t.pending := by
  unfold elapse
  split
  · next last hl =>
    split
    · next ha =>
      simp [pending, hl, ha, or_comm]
    · rfl
  · rfl

end Ticker

/-! ### What a node asks its ticker for -/

namespace View

variable {I : Intake} {v v' : View}

def timed : RoundStep → Bool
  | .newHeight | .propose | .prevoteWait => true
  | _ => false

structure Asks (v : View) : Prop where
  step : timed v.step = true → ⟨v.height, v.round, v.step⟩ ∈ v.ticks
  triggered : v.triggered = true → ⟨v.height, v.round, .precommitWait⟩ ∈ v.ticks
  newHeight : v.step = .newHeight → v.round = 0

lemma Asks.move (h : v.Asks) (hm : Move I v v') : v'.Asks := by
  cases hm with
  | await step hs hc =>
    refine ⟨fun _ => by simp, fun ht => mem_append_left _ (h.triggered ht), ?_⟩
    rintro rfl
    exact absurd hs (by cases v.step <;> decide)
  | prevote | precommitNil | lock | relock => exact ⟨nofun, h.triggered, nofun⟩
  | newRound => exact ⟨nofun, nofun, nofun⟩
  | schedule ti =>
    exact ⟨fun hti => mem_append_left _ (h.step hti), fun ht => mem_append_left _ (h.triggered ht), h.newHeight⟩
  | trigger =>
    exact ⟨fun hti => mem_append_left _ (h.step hti), fun _ => by simp, h.newHeight⟩
  | enterCommit => exact ⟨nofun, h.triggered, nofun⟩
  | apply => exact ⟨fun _ => mem_append_right _ (by exact mem_singleton_self _), nofun, fun _ => rfl⟩
  | _ => exact { h with }

lemma ticks_prefix_of_move (hm : Move I v v') : v.ticks <+: v'.ticks := by
  cases hm with
  | await | schedule | trigger | apply => exact prefix_append ..
  | _ => exact prefix_rfl

end View

/-! ### What a timeout does -/

namespace StateData

variable {W : World} {cfg : Config} {sd sd' : StateData} {height round : ℤ}
  {result : Except ConsensusError Unit}

def postpones (W : World) (cfg : Config) (sd : StateData) : Bool :=
  sd.isProposer W cfg ∧ sd.applyingCommit = false ∧ W.proposerWaits

lemma enterPrevote_step (h : sd.enterPrevote W cfg height round = .ok (sd', result)) :
    (sd.height = height → sd.round = round → sd.step < .prevote → sd'.step = .prevote) ∧
      (sd' = sd ∨ sd'.step = .prevote) := by
  unfold enterPrevote at h
  split at h
  · next hl =>
    cases h
    refine ⟨fun hh hr hs => ?_, .inl rfl⟩
    rcases hl with hne | hlt | ⟨-, hle⟩
    · exact absurd hh hne
    · omega
    · exact absurd hle (Nat.not_le.mpr hs)
  · obtain ⟨⟨sd₁, result₁⟩, -, h⟩ := of_bind h
    cases h
    exact ⟨fun _ _ _ => rfl, .inr rfl⟩

lemma enterPrecommit_step (h : sd.enterPrecommit W cfg height round = .ok sd') (hh : sd.height = height)
    (hr : sd.round = round) (hs : sd.step < .precommit) : sd'.step = .precommit := by
  unfold enterPrecommit at h
  split at h
  · next hl =>
    rcases hl with hne | hlt | ⟨-, hle⟩
    · exact absurd hh hne
    · omega
    · exact absurd hle (Nat.not_le.mpr hs)
  · obtain ⟨sd₁, -, h⟩ := of_bind h
    cases h
    rfl

lemma enterPropose_step (h : sd.enterPropose W cfg height round = .ok (sd', result)) :
    (sd.height = height → sd.round = round → sd.postpones W cfg = false → .propose ≤ sd'.step) ∧
      (sd'.step = sd.step ∨ .propose ≤ sd'.step) := by
  unfold enterPropose at h
  split at h
  · next hl =>
    cases h
    refine ⟨fun hh hr _ => ?_, .inl rfl⟩
    rcases hl with hne | hlt | ⟨-, hle⟩
    · exact absurd hh hne
    · omega
    · exact hle
  · split at h
    · next hw =>
      cases h
      refine ⟨fun _ _ hn => ?_, .inl rfl⟩
      simp only [postpones, decide_eq_false_iff_not] at hn
      exact absurd hw hn
    · obtain ⟨⟨sd₁, result₁⟩, -, h⟩ := of_bind h
      dsimp only at h
      have hle : propose ≤ sd'.step := by
        split at h
        · obtain ⟨⟨sd₂, result₂⟩, hp, h⟩ := of_bind h
          cases h
          rcases (enterPrevote_step hp).2 with rfl | hs
          · exact Nat.le_refl _
          rw [hs]
          decide
        · cases h
          exact Nat.le_refl _
      exact ⟨fun _ _ _ => hle, .inr hle⟩

lemma enterNewRound_step (h : sd.enterNewRound W cfg height round = .ok (sd', result)) (hh : sd.height = height)
    (hr : sd.round = round) (hst : sd.step = .newHeight) : .newRound ≤ sd'.step := by
  unfold enterNewRound at h
  rw [if_neg (by rintro (hne | hlt | ⟨-, hne⟩); exacts [hne hh, absurd hlt (by omega), hne hst])] at h
  obtain ⟨sd₁, hs, h⟩ := of_bind h
  have hle : newRound ≤ sd₁.step := by
    rw [startRound_step hs]
    exact Nat.le_refl _
  split at h
  · cases h
  split at h
  · split at h <;> cases h
    · exact hle
    · exact hle
  split at h
  · cases h
    exact hle
  rcases (enterPropose_step h).2 with hsa | hp
  · rw [hsa]
    exact hle
  · exact Nat.le_trans (by decide) hp

lemma handleTimeout_passes (hak : sd.view.Asks) (hh : ti.height = sd.height) (hr : ti.round = sd.round)
    (hs : sd.step ≤ ti.step) (hpt : ti.step = .newRound → sd.postpones W cfg = false)
    (h : sd.handleTimeout W cfg ti = .ok sd') : sd'.height = sd.height → sd'.round = sd.round → ti.step < sd'.step := by
  intro hh' hr'
  have hl : ¬ (ti.height ≠ sd.height ∨ ti.round < sd.round ∨ (ti.round = sd.round ∧ ti.step < sd.step)) := by
    rintro (hne | hlt | ⟨-, hlt⟩)
    · exact hne hh
    · omega
    · exact absurd hs (Nat.not_le.mpr hlt)
  unfold handleTimeout at h
  rw [if_neg hl] at h
  split at h
  · next hti =>
    obtain ⟨⟨sd₁, _⟩, hn, h⟩ := of_bind h
    cases h
    rw [hti] at hs ⊢
    have hnh : sd.step = .newHeight := by
      revert hs
      cases sd.step <;> decide
    exact enterNewRound_step hn hh.symm (hak.newHeight hnh) hnh
  · next hti =>
    obtain ⟨⟨sd₁, _⟩, hpe, h⟩ := of_bind h
    cases h
    rw [hti]
    exact (enterPropose_step hpe).1 hh.symm hr.symm (hpt hti)
  · next hti =>
    obtain ⟨⟨sd₁, _⟩, hpr, h⟩ := of_bind h
    cases h
    rw [hti] at hs ⊢
    rw [(enterPrevote_step hpr).1 hh.symm hr.symm (Nat.lt_of_le_of_lt hs (by decide))]
    decide
  · next hti =>
    rw [hti] at hs ⊢
    rw [enterPrecommit_step h hh.symm hr.symm (Nat.lt_of_le_of_lt hs (by decide))]
    decide
  · next hti =>
    -- the next round starts
    obtain ⟨sd₁, hp, h⟩ := of_bind h
    obtain ⟨⟨sd₂, _⟩, hn, h⟩ := of_bind h
    cases h
    have ha := enterPrecommit_advance (I := intake W cfg (.timeout ti) False) hr.le (by rintro ⟨⟩) hp
    have hle := (enterNewRound_advance (I := intake W cfg (.timeout ti) False) hn).2 (hh.trans ha.height_eq.symm)
    omega
  · cases h

end StateData

/-! ### A node with its ticker -/

structure Clocked where
  node : StateData
  ticker : Ticker

inductive ClockEvent where
  | elapse
  | event (W : World) (event : Event)

namespace Clocked

open StateData

variable {cfg : Config} {state : ChainState} {lastCommit : Option Commit} {s s' : Clocked} {event : Event}

def ticks (sd : StateData) : List TimeoutInfo := sd.outputs.filterMap Output.tick

/-- The node handles an event, and the ticker takes its requests in their order. A timer that elapses before they
are taken is one that elapses before the event. -/
def handled (cfg : Config) (s : Clocked) (W : World) (event : Event) : Option Clocked :=
  (s.node.handle W cfg event).toOption.map fun node =>
    ⟨node, ((ticks node).drop (ticks s.node).length).foldl Ticker.receive s.ticker⟩

/-- A timeout that the node takes is one that has fired, and it is taken once. -/
def step (cfg : Config) (node : Option Clocked) (e : ClockEvent) : Option Clocked :=
  node.bind fun s =>
    match e with
    | .elapse => some { s with ticker := s.ticker.elapse }
    | .event W (.timeout ti) =>
      if ti ∈ s.ticker.tocks then
        handled cfg { s with ticker := { s.ticker with tocks := s.ticker.tocks.erase ti } } W (.timeout ti)
      else some s
    | .event W event => handled cfg s W event

def start (state : ChainState) (lastCommit : Option Commit) : Option Clocked :=
  (initial state lastCommit).toOption.map fun node => ⟨node, (ticks node).foldl Ticker.receive ⟨none, false, []⟩⟩

/-- The node waits for a timeout: at the start of a height, for a proposal, for prevotes, for precommits, or before
its own proposal, because its clock is behind or there is nothing to propose yet. -/
def Waits (s : Clocked) : Prop :=
  s.node.step = .newHeight ∨ s.node.step = .propose ∨ s.node.step = .prevoteWait ∨
    s.node.triggeredTimeoutPrecommit = true ∨
    (s.node.step < .propose ∧ s.node.scheduled ⟨s.node.height, s.node.round, .newRound⟩ = true)

def Woken (s : Clocked) : Prop :=
  ∃ ti ∈ s.ticker.pending, ti.height = s.node.height ∧ ti.round = s.node.round ∧ s.node.step ≤ ti.step

instance (s : Clocked) : Decidable s.Waits := by
  unfold Waits
  infer_instance

instance (s : Clocked) : Decidable s.Woken := by
  unfold Woken
  infer_instance

def prompt (cfg : Config) (s : Clocked) : ClockEvent → Bool
  | .event W (.timeout ti) => ti.step ≠ .newRound ∨ s.node.postpones W cfg = false
  | _ => true

/-- No proposal is postponed after its timeout, and the node is not in the commit step with the timeout of the
precommits triggered. -/
def Prompt (cfg : Config) (node : Option Clocked) (e : ClockEvent) : Prop :=
  (∀ s ∈ node, prompt cfg s e = true) ∧
    ∀ s ∈ step cfg node e, s.node.triggeredTimeoutPrecommit = true → s.node.step ≠ .applyCommit

instance (cfg : Config) (node : Option Clocked) (e : ClockEvent) : Decidable (Prompt cfg node e) := by
  unfold Prompt
  infer_instance

/-- The ticker keeps up with the node: what it took last is not before anything the node asked for, and it has not
reached the node as long as the step it is for is not left. -/
structure OnTime (s : Clocked) : Prop where
  sane : s.node.view.Sane
  asks : s.node.view.Asks
  taken : s.ticker.ti.isSome
  past : ∀ ti ∈ s.node.view.ticks, s.ticker.Past ti
  asked : ∀ ti, s.ticker.ti = some ti → ti ∈ s.node.view.ticks
  fired : ∀ ti ∈ s.ticker.tocks, ti ∈ s.node.view.ticks
  pending : ∀ ti, s.ticker.ti = some ti → ti.height = s.node.height → ti.round = s.node.round →
    s.node.step ≤ ti.step → ti ∈ s.ticker.pending

lemma handle_timed {W : World} {sd sd' : StateData} (hs : sd.view.Sane) (ha : sd.view.Asks)
    (h : sd.handle W cfg event = .ok sd') :
    sd'.view.Sane ∧ sd'.view.Asks ∧ sd.view.ticks <+: sd'.view.ticks ∧ sd.view.Later sd'.view := by
  refine (handle_moves hs h).invariant
    (P := fun v => v.Sane ∧ v.Asks ∧ sd.view.ticks <+: v.ticks ∧ sd.view.Later v) (fun v v' hv hm => ?_)
    ⟨hs, ha, prefix_rfl, .refl _⟩
  obtain ⟨hs', ha', ht, hl⟩ := hv
  exact ⟨hs'.move hm, ha'.move hm, ht.trans (View.ticks_prefix_of_move hm), hl.trans (hs'.later hm)⟩

lemma OnTime.current (h : s.OnTime) {node : StateData} (hl : s.node.view.Later node.view)
    (hti : s.ticker.ti = some ti) (hh : ti.height = node.height) (hr : ti.round = node.round)
    (hs : node.step ≤ ti.step) : ti.height = s.node.height ∧ ti.round = s.node.round ∧ s.node.step ≤ ti.step := by
  have hle := h.sane.ticks_le ti (h.asked ti hti)
  unfold View.Later at hl
  simp only [le_iff] at hl hs ⊢
  simp only [view] at hle hl
  omega

lemma OnTime.handled {W : World} (h : s.OnTime) {tocks : List TimeoutInfo}
    (hto : ∀ ti ∈ tocks, ti ∈ s.ticker.tocks)
    (hu : ∀ node, s.node.handle W cfg event = .ok node → ∀ ti, s.ticker.ti = some ti →
      ti.height = node.height → ti.round = node.round → node.step ≤ ti.step → ti ∈ s.ticker.pending →
        ti ∈ { s.ticker with tocks := tocks }.pending)
    (hs' : Clocked.handled cfg { s with ticker := { s.ticker with tocks := tocks } } W event = some s') :
    s'.OnTime := by
  obtain ⟨node, hn, rfl⟩ := map_eq_some_iff.mp hs'
  have hh := toOption_eq_some.mp hn
  obtain ⟨hs, ha, ⟨requests, ht⟩, hl⟩ := handle_timed h.sane h.asks hh
  have hr : (ticks node).drop (ticks s.node).length = requests := by
    change node.view.ticks.drop s.node.view.ticks.length = requests
    rw [← ht, drop_left]
  rw [hr]
  have hm : ∀ ti, ti ∈ node.view.ticks ↔ ti ∈ s.node.view.ticks ∨ ti ∈ requests := by
    intro ti
    rw [← ht, mem_append]
  have hp : ∀ ti ∈ node.view.ticks, (requests.foldl Ticker.receive { s.ticker with tocks := tocks }).Past ti := by
    intro ti hti
    exact Ticker.past_foldl_receive (t := { s.ticker with tocks := tocks }) h.taken
      (((hm ti).mp hti).imp_left (h.past ti))
  have hf : ∀ ti ∈ tocks, ti ∈ node.view.ticks := fun ti hti => (hm ti).mpr (.inl (h.fired ti (hto ti hti)))
  rcases Ticker.foldl_receive_cases requests { s.ticker with tocks := tocks } with hsa | ⟨last, hla, heq⟩
  · rw [hsa] at hp ⊢
    refine ⟨hs, ha, h.taken, hp, fun ti hti => (hm ti).mpr (.inl (h.asked ti hti)), hf, fun ti hti hhe hro hst => ?_⟩
    -- the request is of the current round, so the node was in that round before
    obtain ⟨hh₀, hr₀, hs₀⟩ := h.current hl hti hhe hro hst
    exact hu node hh ti hti hhe hro hst (h.pending ti hti hh₀ hr₀ hs₀)
  · rw [heq] at hp ⊢
    refine ⟨hs, ha, rfl, hp, ?_, hf, ?_⟩
    · rintro ti ⟨⟩
      exact (hm _).mpr (.inr hla)
    rintro ti ⟨⟩ - - -
    simp [Ticker.pending]

lemma OnTime.timeout {W : World} (h : s.OnTime) (hti : ti ∈ s.ticker.tocks)
    (hpr : prompt cfg s (.event W (.timeout ti)) = true)
    (hs' : Clocked.handled cfg { s with ticker := { s.ticker with tocks := s.ticker.tocks.erase ti } } W
      (.timeout ti) = some s') : s'.OnTime := by
  refine h.handled (fun ti' => mem_of_mem_erase) (fun node hn last hla hh hr hst hp => ?_) hs'
  by_cases hsa : last = ti
  · -- it was handled, and the node is not past it
    subst hsa
    have hs : s.node.scheduled last = true := by
      obtain ⟨o, ho, ht⟩ := mem_filterMap.mp (h.fired last hti)
      refine any_eq_true.mpr ⟨o, ho, ?_⟩
      cases o <;> simp_all [Output.tick]
    simp only [handle, hs, if_true] at hn
    have hha : s.node.handle W cfg (.timeout last) = .ok node := by
      simp only [handle, hs, if_true]
      exact hn
    obtain ⟨-, -, -, hl⟩ := handle_timed h.sane h.asks hha
    obtain ⟨hh₀, hr₀, hs₀⟩ := h.current hl hla hh hr hst
    simp only [prompt, decide_eq_true_eq] at hpr
    have hpa := handleTimeout_passes h.asks hh₀ hr₀ hs₀
      (fun hne => hpr.resolve_left (not_not.mpr hne)) hn (hh.symm.trans hh₀)
      (hr.symm.trans hr₀)
    exact absurd hst (Nat.not_le.mpr hpa)
  · unfold Ticker.pending at hp ⊢
    rcases mem_append.mp hp with ha | hf
    · exact mem_append_left _ ha
    · exact mem_append_right _ ((mem_erase_of_ne hsa).mpr hf)

lemma OnTime.step {e : ClockEvent} (h : s.OnTime) (hpr : prompt cfg s e = true)
    (hs' : Clocked.step cfg (some s) e = some s') : s'.OnTime := by
  cases e with
  | elapse =>
    obtain rfl := some.inj hs'
    have hti : s.ticker.elapse.ti = s.ticker.ti := by
      unfold Ticker.elapse
      split
      · split <;> rfl
      · rfl
    refine ⟨h.sane, h.asks, hti ▸ h.taken, fun ti hm => ?_, fun ti hl => h.asked ti (hti ▸ hl), fun ti hm => ?_,
      fun ti hl hhe hr hs => ?_⟩
    · obtain ⟨last, hl, hle⟩ := h.past ti hm
      exact ⟨last, hti ▸ hl, hle⟩
    · have hp : ti ∈ s.ticker.pending := Ticker.mem_pending_elapse.mp (mem_append_right _ hm)
      rcases mem_append.mp hp with ha | hf
      · split at ha
        · exact h.asked ti (by simpa using ha)
        · cases ha
      · exact h.fired ti hf
    · exact Ticker.mem_pending_elapse.mpr (h.pending ti (hti ▸ hl) hhe hr hs)
  | event W event =>
    have ho : Clocked.handled cfg s W event = some s' → s'.OnTime := fun hh =>
      h.handled (fun _ hti => hti) (fun _ _ _ _ _ _ _ hp => hp) hh
    cases event with
    | timeout ti =>
      simp only [Clocked.step, bind_some] at hs'
      split at hs'
      · next hti => exact h.timeout hti hpr hs'
      obtain rfl := some.inj hs'
      exact h
    | _ => exact ho hs'

lemma onTime_start (hs : Starts state) (h : start state lastCommit = some s) : s.OnTime := by
  obtain ⟨node, hn, rfl⟩ := map_eq_some_iff.mp h
  have hi := toOption_eq_some.mp hn
  have hsa := (ordered_initial hs hi).toSane
  have hp := hs.one_le_nextHeight
  -- the only request is that of the first round
  have ht : node.view.ticks = [⟨node.height, 0, .newHeight⟩] ∧ node.height = state.nextHeight ∧ node.round = 0 ∧
      node.step = .newHeight ∧ node.triggeredTimeoutPrecommit = false := by
    obtain ⟨_, -, hi⟩ := of_bind hi
    obtain ⟨votes, -, hi⟩ := of_bind hi
    cases hi
    exact ⟨rfl, rfl, rfl, rfl, rfl⟩
  obtain ⟨ht, hh, hr, hst, htr⟩ := ht
  have htc : (ticks node).foldl Ticker.receive ⟨none, false, []⟩ = ⟨some ⟨node.height, 0, .newHeight⟩, true, []⟩ := by
    rw [show ticks node = _ from ht]
    refine if_neg ?_
    dsimp only [Ticker.ignores]
    omega
  rw [htc]
  have ha : node.view.Asks := by
    refine ⟨fun _ => ?_, fun hte => ?_, fun _ => hr⟩
    · rw [ht]
      simp [view, hr, hst]
    rw [show node.view.triggered = false from htr] at hte
    cases hte
  refine ⟨hsa, ha, rfl, fun ti hti => ?_, ?_, fun _ hti => (by cases hti), ?_⟩
  · rw [ht] at hti
    exact ⟨_, rfl, mem_singleton.mp hti ▸ .refl _⟩
  · rintro ti ⟨⟩
    rw [ht]
    exact mem_singleton_self _
  rintro ti ⟨⟩ - - -
  simp [Ticker.pending]

lemma OnTime.woken (h : s.OnTime) (hco : s.node.triggeredTimeoutPrecommit = true → s.node.step ≠ .applyCommit)
    (hw : s.Waits) : s.Woken := by
  -- it has asked for a timeout of its round that is not before its step
  obtain ⟨step, ha, hs⟩ : ∃ step, ⟨s.node.height, s.node.round, step⟩ ∈ s.node.view.ticks ∧ s.node.step ≤ step := by
    have ht : View.timed s.node.step = true →
        ∃ step, ⟨s.node.height, s.node.round, step⟩ ∈ s.node.view.ticks ∧ s.node.step ≤ step :=
      fun ht => ⟨s.node.step, h.asks.step ht, Nat.le_refl _⟩
    rcases hw with hs | hs | hs | htr | ⟨hs, hsc⟩
    · exact ht (by rw [hs]; rfl)
    · exact ht (by rw [hs]; rfl)
    · exact ht (by rw [hs]; rfl)
    · refine ⟨.precommitWait, h.asks.triggered htr, ?_⟩
      have hne := hco htr
      revert hne
      cases s.node.step <;> decide
    refine ⟨.newRound, ?_, ?_⟩
    · obtain ⟨o, ho, hti⟩ := any_eq_true.mp hsc
      refine mem_filterMap.mpr ⟨o, ho, ?_⟩
      cases o <;> simp_all [Output.tick]
    revert hs
    cases s.node.step <;> decide
  obtain ⟨last, hl, hle⟩ := h.past _ ha
  -- the one taken last is not before it, and not ahead of the node
  have htc := h.sane.ticks_le last (h.asked last hl)
  have hc : last.height = s.node.height ∧ last.round = s.node.round ∧ s.node.step ≤ last.step := by
    unfold TimeoutInfo.NotAfter at hle
    simp only [le_iff] at hle hs ⊢
    simp only [view] at htc
    omega
  exact ⟨last, h.pending last hl hc.1 hc.2.1 hc.2.2, hc⟩

/-- **No step waits without a timer.** In a run in which no proposal is postponed after the timeout before it, and
in which the node does not come into the commit step with the timeout of the precommits triggered, a node that waits
is woken. -/
theorem timer_armed (cfg : Config) (state : ChainState) (lastCommit : Option Commit) (hstarts : Starts state)
    (events : List ClockEvent) (hrun : Admitted (step cfg) (Prompt cfg) (start state lastCommit) events) (s : Clocked)
    (hs : run (step cfg) (start state lastCommit) events = some s) (hwaits : s.Waits) : s.Woken := by
  have ha : ∀ s ∈ run (step cfg) (start state lastCommit) events,
      s.OnTime ∧ (s.node.triggeredTimeoutPrecommit = true → s.node.step ≠ .applyCommit) := by
    refine hrun.invariant (P := fun node : Option Clocked => ∀ s ∈ node,
      s.OnTime ∧ (s.node.triggeredTimeoutPrecommit = true → s.node.step ≠ .applyCommit))
      (fun node e hn hp s' hs' => ?_) fun s₀ hs₀ => ?_
    · obtain ⟨s₀, rfl, -⟩ := bind_eq_some_iff.mp hs'
      exact ⟨(hn s₀ rfl).1.step (hp.1 s₀ rfl) hs', hp.2 s' hs'⟩
    have ho := onTime_start hstarts hs₀
    refine ⟨ho, ?_⟩
    obtain ⟨node, hn, rfl⟩ := map_eq_some_iff.mp hs₀
    have hi := toOption_eq_some.mp hn
    obtain ⟨_, -, hi⟩ := of_bind hi
    obtain ⟨votes, -, hi⟩ := of_bind hi
    cases hi
    nofun
  obtain ⟨ho, hc⟩ := ha s hs
  exact ho.woken hc hwaits

/-! ### A proposal that is never made -/

def waitingConfig : Config :=
  { lockConfig with
    proTxHash := (sampleValidator 1).proTxHash
    waitForTxs := true
    createEmptyBlocksInterval := true }

def secondState : ChainState := ⟨"chain", 1, 1, sampleValidators 4, 100, 0⟩

def firstCommit : Commit := ⟨1, 0, lockID, (sampleValidators 1).quorumHash, [], []⟩

def proposing (waits : Bool) : World :=
  { lockWorld with
    createProposalBlock := fun _ _ _ => .ok (lockBlock, .newFromHeader 1 (fitHash [0, 9]), .empty)
    proposerWaits := waits }

def emptyBlock (waits : Bool) : List ClockEvent :=
  [.elapse, .event lockWorld (.timeout ⟨2, 0, .newHeight⟩), .elapse,
    .event (proposing waits) (.timeout ⟨2, 0, .newRound⟩)]

/-- With the clock in time the proposer goes on to its propose step, and waits for a timeout there. -/
theorem emptyBlock_woken : ∃ s, run (step waitingConfig) (start secondState (some firstCommit)) (emptyBlock false) =
    some s ∧ s.node.step = .propose ∧ s.Woken := by
  have hst : (run (step waitingConfig) (start secondState (some firstCommit)) (emptyBlock false)).map
      (·.node.step) = some .propose := by decide +kernel
  obtain ⟨s, hs, hp⟩ := map_eq_some_iff.mp hst
  exact ⟨s, hs, hp, timer_armed waitingConfig secondState (some firstCommit) ⟨by decide, by decide⟩
    (emptyBlock false) (by decide +kernel) s hs (.inr (.inl hp))⟩

/-- With the clock behind the proposer asks for the timeout of the same step once more. The ticker drops the
request, and nothing is left to wake the node. -/
theorem postponed_without_timer :
    ∃ s, run (step waitingConfig) (start secondState (some firstCommit)) (emptyBlock true) = some s ∧
      s.node.postpones (proposing true) waitingConfig = true ∧ s.node.step = .newRound ∧
      ticks s.node = [⟨2, 0, .newHeight⟩, ⟨2, 0, .newRound⟩, ⟨2, 0, .newRound⟩] ∧ s.Waits ∧
      s.ticker.pending = [] ∧ ¬ s.Woken := by
  have hso : (run (step waitingConfig) (start secondState (some firstCommit)) (emptyBlock true)).isSome := by
    decide +kernel
  have ha : ∀ s ∈ run (step waitingConfig) (start secondState (some firstCommit)) (emptyBlock true),
      s.node.postpones (proposing true) waitingConfig = true ∧ s.node.step = .newRound ∧
      ticks s.node = [⟨2, 0, .newHeight⟩, ⟨2, 0, .newRound⟩, ⟨2, 0, .newRound⟩] ∧ s.Waits ∧
      s.ticker.pending = [] ∧ ¬ s.Woken := by decide +kernel
  obtain ⟨s, hs⟩ := isSome_iff_exists.mp hso
  exact ⟨s, hs, ha s hs⟩

/-- A node that waits for precommits and then sees a majority for a block it does not have: the timeout is too late
for the commit step. -/
theorem commit_step_ignores_timeout :
    (run (step lockConfig) (start lockState none)
      (.elapse :: [Event.timeout ⟨1, 0, .newHeight⟩, voteEvent .precommit 0 1 .nil,
        voteEvent .precommit 0 2 lockID, voteEvent .precommit 0 3 lockID,
        voteEvent .precommit 0 0 lockID].map (.event lockWorld))).map
      (fun s => (s.node.step, s.node.triggeredTimeoutPrecommit, decide s.Woken)) = some (.applyCommit, true, false) := by
  decide +kernel

end Clocked

end Tenderdash
