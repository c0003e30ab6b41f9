import Mathlib
import Tenderdash.Lib.Run

/-!
The pace of catch-up gossip to one peer, in `internal/consensus/gossiper.go`: passes of sends, each followed by a quiet
time. What the peer reports, the clock and what becomes of a send are answers of the environment.
-/

namespace Tenderdash.Catchup

open Lib.Run List

/-- In nanoseconds. -/
def catchupResendInterval : ℤ := 500000000

/-- An attempt to send, or a pass that a height change interrupts. Either may stop the pass. -/
structure Entry where
  pass : ℕ
  height : ℤ
  now : ℤ
  returned : ℤ
  sends : Bool
  stops : Bool

def Entry.due (e : Entry) : ℤ := e.returned + catchupResendInterval

/-- The fields of `msgGossiper` for catch-up, with the zero time as `none`; the time; what was done, the latest first;
and of the latest pass its number, the parts that were missing when it was opened and the sends it has made. -/
structure MsgGossiper where
  catchupHeight : ℤ := 0
  catchupRemaining : ℤ := 0
  catchupRetryAt : Option ℤ := none
  catchupRetrySticky : Bool := false
  clock : ℤ
  log : List Entry := []
  pass : ℕ := 0
  missing : ℕ := 0
  made : ℕ := 0

/-- A call: the parts that the peer reports, if it reports any, the times before and after the send, and whether the
part was sent. A panic leaves it unsent. -/
structure Tick where
  height : ℤ
  parts : Option (List Bool)
  now : ℤ
  returned : ℤ
  sent : Bool

namespace MsgGossiper

variable (g : MsgGossiper)

def settleCatchupPass (sticky : Bool) : MsgGossiper :=
  { g with
    catchupRemaining := 0
    catchupRetryAt := some (g.clock + catchupResendInterval)
    catchupRetrySticky := sticky }

/-- No deadline is in the future. -/
def Elapsed : Prop := ∀ r ∈ g.catchupRetryAt, r ≤ g.clock

def early : Bool := g.catchupRetryAt.any (g.clock < ·)

/-- The first part of `beginCatchupAttempt`, for another height. -/
def changeHeight (height : ℤ) : MsgGossiper :=
  if 0 < g.catchupRemaining then
    { g.settleCatchupPass true with
      catchupHeight := height
      log := ⟨g.pass, g.catchupHeight, g.clock, g.clock, false, true⟩ :: g.log }
  else if g.catchupRetrySticky ∧ g.early then { g with catchupHeight := height, catchupRemaining := 0 }
  else { g with
    catchupHeight := height
    catchupRemaining := 0
    catchupRetryAt := none
    catchupRetrySticky := false }

/-- The draw of `beginCatchupAttempt`, which opens a pass if none is open. -/
def draw (missing : ℕ) : MsgGossiper :=
  if g.catchupRemaining ≤ 0 then
    { g with catchupRemaining := missing - 1, pass := g.pass + 1, missing := missing, made := 1 }
  else { g with catchupRemaining := min g.catchupRemaining missing - 1, made := g.made + 1 }

/-- The send, and the deferred function after it. -/
def send (t : Tick) : MsgGossiper :=
  let sent := { g with
    clock := t.returned
    log := ⟨g.pass, g.catchupHeight, g.clock, t.returned, true, !t.sent⟩ :: g.log }
  if t.sent ∧ 0 < g.catchupRemaining then sent else sent.settleCatchupPass (!t.sent)

/-- A call, if neither the clock nor the height of the peer goes back. -/
def gossipBlockPartsForCatchup (t : Tick) : MsgGossiper :=
  if g.clock ≤ t.now ∧ t.now ≤ t.returned ∧ g.catchupHeight ≤ t.height then
    let g := { g with clock := t.now }
    match t.parts with
    | none => g
    | some parts =>
      let g := if t.height = g.catchupHeight then g else g.changeHeight t.height
      if g.catchupRemaining ≤ 0 ∧ g.early then g
      else
        let missing := parts.length - parts.count true
        if missing = 0 then if g.catchupRemaining ≤ 0 then g else g.settleCatchupPass false
        else (g.draw missing).send t
  else g

/-- What is asked of a send that comes after another entry: it waits after one that has stopped a pass, and after a send
of another pass at its height. -/
def Spaced (later earlier : Entry) : Prop :=
  later.sends → earlier.stops ∨ (earlier.sends ∧ earlier.height = later.height ∧ earlier.pass ≠ later.pass) →
    earlier.due ≤ later.now

/-- The entry is over, or the gossiper waits until it is. -/
def Over (e : Entry) : Prop := e.due ≤ g.clock ∨ ∃ r ∈ g.catchupRetryAt, e.due ≤ r

structure Sound : Prop where
  opened : 0 < g.catchupRemaining → g.Elapsed
  past : ∀ e ∈ g.log, e.returned ≤ g.clock
  stops : ∀ e ∈ g.log, e.stops → e.due ≤ g.clock ∨ g.catchupRetrySticky ∧ g.Over e
  sends : ∀ e ∈ g.log, e.sends → e.height ≤ g.catchupHeight ∧
    (e.height = g.catchupHeight → g.catchupRemaining ≤ 0 ∨ e.pass ≠ g.pass → g.Over e)
  left : g.made + g.catchupRemaining.toNat ≤ g.missing
  spaced : g.log.Pairwise Spaced

variable {g}

lemma Over.past {e : Entry} (ho : g.Over e) (hr : g.Elapsed) : e.due ≤ g.clock := by
  rcases ho with hd | ⟨r, hm, hd⟩
  · exact hd
  · exact hd.trans (hr r hm)

lemma over_settle {e : Entry} {sticky : Bool} (he : e.returned ≤ g.clock) : (g.settleCatchupPass sticky).Over e :=
  .inr ⟨_, rfl, by unfold Entry.due; omega⟩

lemma elapsed (he : ¬ g.early) : g.Elapsed := by
  intro r hr
  rw [early, hr] at he
  simpa using he

namespace Sound

variable (h : g.Sound)

include h

lemma made_le : g.made ≤ g.missing := (Nat.le_add_right ..).trans h.left

lemma stops_past (hr : g.Elapsed) {e : Entry} (he : e ∈ g.log) (hs : e.stops) : e.due ≤ g.clock :=
  (h.stops e he hs).elim id fun hd => hd.2.past hr

lemma advance {now : ℤ} (hn : g.clock ≤ now) : Sound { g with clock := now } := by
  have ho : ∀ e, g.Over e → Over { g with clock := now } e := fun e he => he.imp_left fun he => he.trans hn
  exact { h with
    opened := fun hp r hr => (h.opened hp r hr).trans hn
    past := fun e he => (h.past e he).trans hn
    stops := fun e he hs => (h.stops e he hs).imp (fun hd => hd.trans hn) fun hd => ⟨hd.1, ho e hd.2⟩
    sends := fun e he hs => ⟨(h.sends e he hs).1, fun hh hp => ho e ((h.sends e he hs).2 hh hp)⟩ }

lemma settle (hr : g.Elapsed) (sticky : Bool) : (g.settleCatchupPass sticky).Sound :=
  { h with
    opened := fun hp => absurd hp (lt_irrefl 0)
    stops := fun _ he hs => .inl (h.stops_past hr he hs)
    sends := fun e he hs => ⟨(h.sends e he hs).1, fun _ _ => over_settle (h.past e he)⟩
    left := h.made_le }

lemma changeHeight {height : ℤ} (hlt : g.catchupHeight < height) : Sound (g.changeHeight height) := by
  -- nothing was sent at the new height
  have hse : ∀ Q : Entry → Prop, ∀ e ∈ g.log, e.sends → e.height ≤ height ∧ (e.height = height → Q e) := by
    intro Q e he hs
    have hl := (h.sends e he hs).1.trans_lt hlt
    exact ⟨hl.le, fun hh => absurd hh hl.ne⟩
  unfold MsgGossiper.changeHeight
  split_ifs with hp hst
  · have hset := h.settle (h.opened hp) true
    exact ⟨hset.opened, forall_mem_cons.mpr ⟨le_rfl, h.past⟩,
      forall_mem_cons.mpr ⟨fun _ => .inr ⟨rfl, .inr ⟨_, rfl, le_rfl⟩⟩, hset.stops⟩,
      forall_mem_cons.mpr ⟨fun hs => (by cases hs), hse _⟩,
      h.made_le, pairwise_cons.mpr ⟨fun _ _ hs => (by cases hs), h.spaced⟩⟩
  · exact { h with
      opened := fun hp => absurd hp (lt_irrefl 0)
      sends := hse _
      left := h.made_le }
  · refine { h with
      opened := fun hp => absurd hp (lt_irrefl 0)
      stops := fun e he hs => .inl ?_
      sends := hse _
      left := h.made_le }
    -- a deadline that must survive has passed
    rcases h.stops e he hs with hd | ⟨hy, ho⟩
    · exact hd
    · exact ho.past (elapsed fun he => hst ⟨hy, he⟩)

lemma draw (hr : g.Elapsed) {missing : ℕ} (hm : missing ≠ 0) :
    ((g.draw missing).made + (g.draw missing).catchupRemaining.toNat ≤ (g.draw missing).missing) ∧
      ∀ e ∈ g.log, e.sends → e.height = g.catchupHeight → e.pass ≠ (g.draw missing).pass → e.due ≤ g.clock := by
  unfold MsgGossiper.draw
  split_ifs with ho
  · exact ⟨by dsimp only; omega, fun e he hs hh _ => ((h.sends e he hs).2 hh (.inl ho)).past hr⟩
  · have := h.left
    exact ⟨by dsimp only; omega, fun e he hs hh hp => ((h.sends e he hs).2 hh (.inr hp)).past hr⟩

lemma send (hr : g.Elapsed) {t : Tick} (ht : g.clock ≤ t.returned) {missing : ℕ} (hm : missing ≠ 0) :
    Sound ((g.draw missing).send t) := by
  obtain ⟨hle, hov⟩ := h.draw hr hm
  have hst : ∀ e ∈ g.log, e.stops → e.due ≤ t.returned := fun e he hs => (h.stops_past hr he hs).trans ht
  -- the draw changes neither what was done nor the deadline
  obtain ⟨hlog, hcl, hhe, hre⟩ : (g.draw missing).log = g.log ∧ (g.draw missing).clock = g.clock ∧
      (g.draw missing).catchupHeight = g.catchupHeight ∧ (g.draw missing).catchupRetryAt = g.catchupRetryAt := by
    unfold MsgGossiper.draw
    split_ifs <;> exact ⟨rfl, rfl, rfl, rfl⟩
  generalize g.draw missing = d at *
  have hpast : ∀ e ∈ d.log, e.returned ≤ t.returned := fun e he => (h.past e (hlog ▸ he)).trans ht
  have hsp : Pairwise Spaced (⟨d.pass, d.catchupHeight, d.clock, t.returned, true, !t.sent⟩ :: d.log) := by
    rw [hlog, hcl, hhe]
    refine pairwise_cons.mpr ⟨fun e he _ hc => ?_, h.spaced⟩
    rcases hc with hs | ⟨hs, hh, hp⟩
    · exact h.stops_past hr he hs
    · exact hov e he hs hh hp
  unfold MsgGossiper.send
  split_ifs with hc
  · refine ⟨fun _ r hm => (hr r (hre ▸ hm)).trans ht, forall_mem_cons.mpr ⟨le_rfl, hpast⟩,
      forall_mem_cons.mpr ⟨?_, fun e he hs => .inl (hst e (hlog ▸ he) hs)⟩,
      forall_mem_cons.mpr ⟨fun _ => ⟨le_rfl, fun _ hor => ?_⟩, fun e he hs => ?_⟩, hle, hsp⟩
    · simp [hc.1]
    · simp [hc.2.not_ge] at hor
    · refine ⟨hhe ▸ (h.sends e (hlog ▸ he) hs).1, fun hh hor => .inl ?_⟩
      exact (hov e (hlog ▸ he) hs (hh.trans hhe) (hor.resolve_left hc.2.not_ge)).trans ht
  · exact ⟨fun hp => absurd hp (lt_irrefl 0), forall_mem_cons.mpr ⟨le_rfl, hpast⟩,
      forall_mem_cons.mpr ⟨fun hs => .inr ⟨hs, over_settle le_rfl⟩, fun e he hs => .inl (hst e (hlog ▸ he) hs)⟩,
      forall_mem_cons.mpr ⟨fun _ => ⟨le_rfl, fun _ _ => over_settle le_rfl⟩, fun e he hs =>
        ⟨hhe ▸ (h.sends e (hlog ▸ he) hs).1, fun _ _ => over_settle (hpast e he)⟩⟩,
      (Nat.le_add_right ..).trans hle, hsp⟩

lemma step (t : Tick) : Sound (g.gossipBlockPartsForCatchup t) := by
  unfold gossipBlockPartsForCatchup
  split_ifs with hc
  · have hn := h.advance hc.1
    dsimp only
    split
    · exact hn
    generalize hg : (if t.height = g.catchupHeight then _ else _) = s
    have hs : s.Sound ∧ s.clock = t.now := by
      rw [← hg]
      split_ifs with hh
      · exact ⟨hn, rfl⟩
      · refine ⟨hn.changeHeight (lt_of_le_of_ne hc.2.2 (Ne.symm hh)), ?_⟩
        unfold MsgGossiper.changeHeight
        split_ifs <;> rfl
    obtain ⟨hs, hcl⟩ := hs
    split_ifs with hw hm ho
    · exact hs
    · exact hs
    · exact hs.settle (hs.opened (not_le.mp ho)) false
    · refine hs.send ?_ (hcl ▸ hc.2.1) hm
      by_cases ho : s.catchupRemaining ≤ 0
      · exact elapsed fun he => hw ⟨ho, he⟩
      · exact hs.opened (not_le.mp ho)
  · exact h

end Sound

/-- **Catch-up gossip is paced.** In every run a pass is open only when no deadline is ahead, no pass makes more sends
than parts were missing when it was opened, and no send comes within the interval after a pass that failed or was
interrupted, or after a send of another pass at its height. -/
theorem catchup_paced (clock : ℤ) (ticks : List Tick) :
    let g := run gossipBlockPartsForCatchup { clock := clock } ticks
    (0 < g.catchupRemaining → g.Elapsed) ∧ g.made ≤ g.missing ∧ g.log.Pairwise Spaced := by
  have h0 : Sound { clock := clock } := ⟨fun h => absurd h (lt_irrefl 0), by simp, by simp, by simp, le_rfl, .nil⟩
  have h := run_invariant (P := Sound) (fun g t h => h.step t) ticks h0
  exact ⟨h.opened, h.made_le, h.spaced⟩

end MsgGossiper

end Tenderdash.Catchup
