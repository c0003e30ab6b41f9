import Mathlib.Tactic
import Mathlib.Order.Basic

/-!
A high-water mark that guards a log. Entries pair a key from an order with a value; the mark is the
key and the value of the last entry admitted. As long as every new entry is either strictly above
the mark or a repetition of it, the log never pairs one key with two values.
-/

namespace Lib

variable {K V : Type*} [Preorder K]

def Consistent (log : List (K × V)) : Prop :=
  ∀ a ∈ log, ∀ b ∈ log, a.1 = b.1 → a.2 = b.2

instance [DecidableEq K] [DecidableEq V] (log : List (K × V)) : Decidable (Consistent log) := by
  unfold Consistent; infer_instance

/-- The mark `(k, v)` guards the log: every entry lies below it or repeats it, and the log is
consistent. -/
structure Guards (k : K) (v : V) (log : List (K × V)) : Prop where
  covers : ∀ a ∈ log, a.1 < k ∨ a = (k, v)
  consistent : Consistent log

namespace Guards

variable {k k' : K} {v v' : V} {log : List (K × V)}

lemma nil : Guards k v ([] : List (K × V)) := ⟨by simp, by simp [Consistent]⟩

lemma raise (h : Guards k v log) (hk : k < k') : Guards k' v' log := by
  refine ⟨fun a ha => .inl ?_, h.consistent⟩
  rcases h.covers a ha with hlt | rfl
  · exact hlt.trans hk
  · exact hk

lemma again (h : Guards k v log) : Guards k v ((k, v) :: log) := by
  have key : ∀ a ∈ log, a.1 = k → a.2 = v := by
    intro a ha hak
    rcases h.covers a ha with hlt | rfl
    · exact absurd hak hlt.ne
    · rfl
  refine ⟨?_, ?_⟩
  · intro a ha
    rcases List.mem_cons.mp ha with rfl | ha
    · exact .inr rfl
    · exact h.covers a ha
  intro a ha b hb hab
  rcases List.mem_cons.mp ha with rfl | ha <;> rcases List.mem_cons.mp hb with rfl | hb
  · rfl
  · exact (key b hb hab.symm).symm
  · exact key a ha hab
  · exact h.consistent a ha b hb hab

lemma advance (h : Guards k v log) (hk : k < k') : Guards k' v' ((k', v') :: log) :=
  (h.raise hk).again

end Guards

end Lib
