import Mathlib
import Tenderdash.Lib.Run

/-!
The calls of `WaitScan` in `internal/eventlog`, which wait until the newest item of the log has another cursor. The
steps are the critical sections of the lock and the receive of a call that waits. A prune leaves the newest item alone.

A call that has seen no new item captures the channel it waits on under the lock again. An `Add` in between has closed
the channel before it.
-/

namespace Tenderdash.WaitScan

open Lib.Run Option

variable {κ α : Type*} [DecidableEq κ] [DecidableEq α]

/-- A call for a cursor that has seen nothing new, and one that waits on a channel. -/
inductive Call (α : Type*) where
  | looked (c : α)
  | waits (c : α) (ch : ℕ)

/-- Of the channels, which are numbered, those before `ready` are closed. -/
structure Log (κ α : Type*) where
  newest : Option α := none
  ready : ℕ := 0
  calls : κ → Option (Call α) := fun _ => none

inductive Event (κ α : Type*) where
  | add (c : α)
  | waitScan (k : κ) (c : α)
  | capture (k : κ)
  | wake (k : κ)
  | cancel (k : κ)

namespace Log

variable (s : Log κ α)

def put (k : κ) (call : Option (Call α)) : Log κ α := { s with calls := Function.update s.calls k call }

/-- The test of the loop of `WaitScan`. A call that finds a new item returns. -/
def look (k : κ) (c : α) : Log κ α := s.put k (if s.newest.all (· = c) then some (.looked c) else none)

def step : Event κ α → Log κ α
  | .add c => { s with newest := some c, ready := s.ready + 1 }
  | .waitScan k c => if (s.calls k).isNone then s.look k c else s
  | .capture k =>
    match s.calls k with
    | some (.looked c) => s.put k (some (.waits c s.ready))
    | _ => s
  | .wake k =>
    match s.calls k with
    | some (.waits c ch) => if ch < s.ready then s.look k c else s
    | _ => s
  | .cancel k =>
    match s.calls k with
    | some (.waits ..) => s.put k none
    | _ => s

/-- A call that waits although there is a new item can be woken up, and returns. -/
def Served : Prop := ∀ k c ch, s.calls k = some (.waits c ch) → s.newest.all (· = c) = false →
  (s.step (.wake k)).calls k = none

/-- The condition: nothing was added since the call has looked. -/
def Careful : Event κ α → Prop
  | .capture k => ∀ c, s.calls k = some (.looked c) → s.newest.all (· = c)
  | _ => True

def Kept : Prop := ∀ k c ch, s.calls k = some (.waits c ch) → ch < s.ready ∨ ch = s.ready ∧ s.newest.all (· = c)

variable {s}

lemma Kept.served (h : s.Kept) : s.Served := by
  intro k c ch hk hn
  rcases h k c ch hk with hlt | ⟨-, ha⟩
  · simp [step, hk, hlt, look, put, hn]
  · simp [hn] at ha

lemma Kept.put (h : s.Kept) {k : κ} {call : Option (Call α)} (hc : ∀ c ch, call ≠ some (.waits c ch)) :
    (s.put k call).Kept := by
  intro j c ch hj
  by_cases hjk : j = k
  · subst hjk
    simp [Log.put, hc] at hj
  · exact h j c ch (by simpa [Log.put, hjk] using hj)

lemma Kept.look (h : s.Kept) (k : κ) (c : α) : (s.look k c).Kept := h.put fun c ch => by split_ifs <;> simp

lemma Kept.step (h : s.Kept) (e : Event κ α) (hca : s.Careful e) : (s.step e).Kept := by
  cases e with
  | add c => exact fun k d ch hk => .inl (by have := h k d ch hk; simp [Log.step]; omega)
  | waitScan k c =>
    dsimp only [Log.step]
    split_ifs
    · exact h.look k c
    · exact h
  | capture k =>
    dsimp only [Log.step]
    split
    next c hk =>
      intro j d ch hj
      by_cases hjk : j = k
      · subst hjk
        simp only [Log.put, Function.update_self, some.injEq, Call.waits.injEq] at hj
        exact .inr ⟨hj.2.symm, hj.1 ▸ hca c hk⟩
      · exact h j d ch (by simpa [Log.put, hjk] using hj)
    · exact h
  | wake k =>
    dsimp only [Log.step]
    split
    · split_ifs
      · exact h.look _ _
      · exact h
    · exact h
  | cancel k =>
    dsimp only [Log.step]
    split
    · exact h.put fun _ _ h => (by cases h)
    · exact h

end Log

/-- **No waiter is lost** in any state of a run exactly if no `Add` comes between the look of a call and its capture of
the channel. -/
theorem waiters_served_iff (es : List (Event κ α)) :
    (∀ done, done <+: es → (run Log.step {} done).Served) ↔ Admitted Log.step Log.Careful {} es := by
  refine admitted_iff (P := Log.Kept) (fun s h => h.served) (fun s e h hca => h.step e hca) (fun s e h hs => ?_)
    (fun _ _ _ h => (by cases h))
  cases e with
  | capture k =>
    intro c hk
    by_contra hn
    have := hs k c s.ready (by simp [Log.step, hk, Log.put]) (by simpa [Log.step, hk, Log.put] using hn)
    simp [Log.step, hk, Log.put] at this
  | _ => trivial

/-- The call looks, a new item is added, and the call waits for the next one. -/
theorem waiter_lost :
    ¬ (run Log.step ({} : Log ℕ ℕ) [.add 1, .waitScan 0 1, .add 2, .capture 0]).Served := by
  intro h
  cases h 0 1 2 rfl rfl

end Tenderdash.WaitScan
