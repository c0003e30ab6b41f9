import Mathlib.Tactic

/-!
Runs of a state machine whose step is a function of the state and an event. A run is the list of
its events; the state it ends in is a left fold. Safety statements are proved by one rule: what
holds at the start and is kept by every admitted step holds at the end of every admitted run, and
since every initial part of an admitted run is admitted, in every state the run passes through.
-/

namespace Lib.Run

variable {σ ε : Type*} (step : σ → ε → σ)

def run (s : σ) (es : List ε) : σ := es.foldl step s

@[simp] lemma run_nil (s : σ) : run step s [] = s := rfl

@[simp] lemma run_cons (s : σ) (e : ε) (es : List ε) : run step s (e :: es) = run step (step s e) es := rfl

lemma run_append (s : σ) (es fs : List ε) : run step s (es ++ fs) = run step (run step s es) fs := List.foldl_append

/-- Every step of the run is admitted by `ok` in the state it is taken in. -/
def Admitted (ok : σ → ε → Prop) : σ → List ε → Prop
  | _, [] => True
  | s, e :: es => ok s e ∧ Admitted ok (step s e) es

variable {step}

variable {ok : σ → ε → Prop} {s : σ} {es : List ε} {P : σ → Prop} {ok' : σ → ε → Prop} {e : ε}

@[simp] lemma admitted_nil : Admitted step ok s [] := trivial

@[simp] lemma admitted_cons : Admitted step ok s (e :: es) ↔ ok s e ∧ Admitted step ok (step s e) es := Iff.rfl

lemma admitted_append {fs : List ε} :
    Admitted step ok s (es ++ fs) ↔ Admitted step ok s es ∧ Admitted step ok (run step s es) fs := by
  induction es generalizing s with
  | nil => simp
  | cons e es ih => simp [ih, and_assoc]

instance decidableAdmitted {ok : σ → ε → Prop} [∀ s e, Decidable (ok s e)] :
    ∀ (s : σ) (es : List ε), Decidable (Admitted step ok s es)
  | _, [] => isTrue trivial
  | s, e :: es => @instDecidableAnd _ _ _ (decidableAdmitted (step s e) es)

lemma admitted_of_mem (hok : ∀ s, ∀ e ∈ es, ok s e) : Admitted step ok s es := by
  induction es generalizing s with
  | nil => trivial
  | cons e es ih => exact ⟨hok s e List.mem_cons_self, ih fun s e he => hok s e (List.mem_cons_of_mem _ he)⟩

lemma Admitted.imp (hok : ∀ s, ∀ e ∈ es, ok s e → ok' s e) (hr : Admitted step ok s es) : Admitted step ok' s es := by
  induction es generalizing s with
  | nil => trivial
  | cons e es ih =>
    exact ⟨hok s e List.mem_cons_self hr.1, ih (fun s e he => hok s e (List.mem_cons_of_mem _ he)) hr.2⟩

lemma Admitted.and (hr : Admitted step ok s es)
    (hr' : Admitted step ok' s es) : Admitted step (fun s e => ok s e ∧ ok' s e) s es := by
  induction es generalizing s with
  | nil => trivial
  | cons e es ih => exact ⟨⟨hr.1, hr'.1⟩, ih hr.2 hr'.2⟩

/-- **The invariant rule.** What one admitted step preserves, an admitted run preserves. -/
theorem Admitted.invariant (hs : ∀ s e, P s → ok s e → P (step s e)) (hr : Admitted step ok s es) (h : P s) :
    P (run step s es) := by
  induction es generalizing s with
  | nil => exact h
  | cons e es ih => exact ih hr.2 (hs s e h hr.1)

theorem run_invariant (hs : ∀ s e, P s → P (step s e)) (es : List ε) (h : P s) : P (run step s es) := by
  induction es generalizing s with
  | nil => exact h
  | cons e es ih => exact ih (hs s e h)

/-- What relates the two ends of every admitted step from a state with the invariant `P`, and is
reflexive and transitive, relates the two ends of an admitted run. -/
theorem Admitted.relation {R : σ → σ → Prop} (hre : ∀ s, R s s) (ht : ∀ {a b c}, R a b → R b c → R a c)
    (hP : ∀ s e, P s → ok s e → P (step s e)) (hR : ∀ s e, P s → ok s e → R s (step s e))
    (hr : Admitted step ok s es) (h : P s) : R s (run step s es) := by
  induction es generalizing s with
  | nil => exact hre s
  | cons e es ih => exact ht (hR s e h hr.1) (ih hr.2 (hP s e h hr.1))

/-- **The exact condition.** If an admitted step keeps `P`, and from a state with `P` only an admitted
step leads to a state with the weaker `Q`, then the runs all of whose states have `Q` are the admitted
ones. -/
theorem admitted_iff {Q : σ → Prop} (hPQ : ∀ s, P s → Q s)
    (hk : ∀ s e, P s → ok s e → P (step s e)) (hn : ∀ s e, P s → Q (step s e) → ok s e) (h : P s) :
    (∀ fs, fs <+: es → Q (run step s fs)) ↔ Admitted step ok s es := by
  constructor
  · intro ha
    induction es generalizing s with
    | nil => trivial
    | cons e es ih =>
      have hok : ok s e := hn s e h (ha [e] ⟨es, rfl⟩)
      refine ⟨hok, ih (hk s e h hok) fun fs hfs => ?_⟩
      exact ha (e :: fs) (List.cons_prefix_cons.mpr ⟨rfl, hfs⟩)
  · rintro hr fs ⟨gs, rfl⟩
    exact hPQ _ ((admitted_append.mp hr).1.invariant hk h)

theorem run_to_head {α : Type*} [BEq α] [LawfulBEq α] {a : α} (queue : σ → List α)
    (hp : ∀ s b rest, P s → queue s = b :: rest → b ≠ a → P (step s e) ∧ queue (step s e) = rest) (h : P s)
    (hm : a ∈ queue s) : let reached := run step s (.replicate ((queue s).idxOf a) e)
    P reached ∧ ∃ rest, queue reached = a :: rest := by
  induction hq : queue s generalizing s with
  | nil => simp [hq] at hm
  | cons b rest ih =>
    by_cases hb : b = a
    · subst hb
      simpa [hq] using h
    obtain ⟨hs, hr⟩ := hp s b rest h hq hb
    rw [List.idxOf_cons_ne _ hb, List.replicate_succ, run_cons]
    exact ih hs (hr ▸ (List.mem_cons.mp (hq ▸ hm)).resolve_left (Ne.symm hb)) hr

end Lib.Run
