import Mathlib.Tactic

/-!
Functions that may fail in one of two ways: with an error value their caller can inspect, or with a
panic that no caller handles. Errors carry a type of their own, a panic carries its message.
-/

namespace Lib

/-- Why a call did not return a value. -/
inductive Fault (ε : Type) where
  | err (e : ε)
  | panicked (msg : String)
  deriving DecidableEq, Repr

abbrev Go (ε α : Type) := Except (Fault ε) α

namespace Go

variable {ε α β : Type} {b : β}

def fail (e : ε) : Go ε α := .error (.err e)

def crash (msg : String) : Go ε α := .error (.panicked msg)

def failIf (c : Prop) [Decidable c] (e : ε) : Go ε Unit := if c then fail e else .ok ()

def isOk : Go ε α → Bool
  | .ok _ => true
  | .error _ => false

def mapErr {ε' : Type} (f : ε → ε') : Go ε α → Go ε' α
  | .ok a => .ok a
  | .error (.err e) => .error (.err (f e))
  | .error (.panicked m) => .error (.panicked m)

/-- The outcome as a caller sees it that goes on after an error: a panic is all that stops it. -/
def settle : Go ε α → Except String (Except ε α)
  | .ok a => .ok (.ok a)
  | .error (.err e) => .ok (.error e)
  | .error (.panicked msg) => .error msg

lemma bind_eq_ok {x : Except ε α} {f : α → Except ε β} : (x >>= f) = .ok b ↔ ∃ a, x = .ok a ∧ f a = .ok b := by
  cases x with
  | ok a => simp [bind, Except.bind]
  | error e => simp [bind, Except.bind]

alias ⟨of_bind, _⟩ := bind_eq_ok

lemma map_eq_ok {x : Except ε α} {f : α → β} : x.map f = .ok b ↔ ∃ a, x = .ok a ∧ f a = b := by
  cases x <;> simp [Except.map]

lemma bind_congr_ok {x : Except ε α} {f g : α → Except ε β} (h : ∀ a, x = .ok a → f a = g a) : x >>= f = x >>= g := by
  cases x with
  | error e => rfl
  | ok a => exact h a rfl

@[simp] lemma failIf_eq_ok {c : Prop} [Decidable c] {e : ε} {u : Unit} : failIf c e = .ok u ↔ ¬c := by
  unfold failIf fail
  split <;> simp_all

variable {x : Go ε α} {f : α → Go ε β} {xs : List α} {a : α} {ys : List β} {ε' : Type}

@[simp] lemma settle_eq_ok_ok : settle x = .ok (.ok a) ↔ x = .ok a := by
  rcases x with (e | m) | b <;> simp [settle]

@[simp] lemma isOk_iff : x.isOk = true ↔ ∃ a, x = .ok a := by
  cases x <;> simp [isOk]

lemma toOption_eq_some {ε : Type} {x : Except ε α} : x.toOption = some a ↔ x = .ok a := by
  cases x <;> simp [Except.toOption]

@[simp] lemma mapErr_eq_ok {f : ε → ε'} : mapErr f x = .ok a ↔ x = .ok a := by
  rcases x with (e | m) | b <;> simp [mapErr]

def Returns (x : Go ε α) : Prop := ∀ msg, x ≠ .error (.panicked msg)

@[simp] lemma returns_ok (a : α) : Returns (.ok a : Go ε α) := by
  intro msg h
  cases h

@[simp] lemma returns_fail (e : ε) : Returns (fail e : Go ε α) := by
  intro msg h
  cases h

@[simp] lemma returns_failIf (c : Prop) [Decidable c] (e : ε) : Returns (failIf c e) := by
  unfold failIf
  split
  · exact returns_fail e
  · exact returns_ok ()

@[simp] lemma returns_mapErr {f : ε → ε'} : Returns (mapErr f x) ↔ Returns x := by
  rcases x with (e | m) | a <;> simp [mapErr, Returns]

lemma returns_bind (hx : Returns x) (hf : ∀ a, x = .ok a → Returns (f a)) : Returns (x >>= f) := by
  rcases x with (e | m) | a
  · intro msg h
    cases h
  · exact absurd rfl (hx m)
  · exact hf a rfl

lemma returns_check {c : Prop} [Decidable c] {e : ε} {f : Unit → Go ε β}
    (hf : ∀ a, failIf c e = .ok a → Returns (f a)) : Returns (failIf c e >>= f) :=
  returns_bind (returns_failIf c e) hf

lemma ensures_bind {Q : β → Prop} (hx : Returns x)
    (hf : ∀ a, x = .ok a → Returns (f a) ∧ ∀ b, f a = .ok b → Q b) :
    Returns (x >>= f) ∧ ∀ b, (x >>= f) = .ok b → Q b := by
  refine ⟨returns_bind hx fun a ha => (hf a ha).1, fun b hb => ?_⟩
  obtain ⟨a, ha, hb⟩ := of_bind hb
  exact (hf a ha).2 b hb

lemma returns_mapM (h : ∀ a, Returns (f a)) (xs : List α) : Returns (xs.mapM f) := by
  induction xs with
  | nil => exact returns_ok []
  | cons x xs ih =>
    rw [List.mapM_cons]
    exact returns_bind (h x) fun _ _ => returns_bind ih fun _ _ => returns_ok _

lemma mapM_eq_ok : xs.mapM f = .ok ys ↔ List.Forall₂ (fun x y => f x = .ok y) xs ys := by
  induction xs generalizing ys with
  | nil => cases ys <;> simp [pure, Except.pure]
  | cons x xs ih =>
    rw [List.mapM_cons, bind_eq_ok, List.forall₂_cons_left_iff]
    constructor
    · rintro ⟨y, hy, h⟩
      obtain ⟨zs, hzs, h⟩ := of_bind h
      cases h
      exact ⟨y, zs, hy, ih.mp hzs, rfl⟩
    rintro ⟨y, zs, hy, hzs, rfl⟩
    exact ⟨y, hy, bind_eq_ok.mpr ⟨zs, ih.mpr hzs, rfl⟩⟩

lemma ok_of_mapM (h : xs.mapM f = .ok ys) : ∀ x ∈ xs, ∃ y, f x = .ok y := by
  have hf := mapM_eq_ok.mp h
  clear h
  induction hf with
  | nil => simp
  | cons hx _ ih => exact List.forall_mem_cons.mpr ⟨⟨_, hx⟩, ih⟩

lemma forM_eq_ok {f : α → Go ε Unit} : xs.forM f = .ok () ↔ ∀ x ∈ xs, f x = .ok () := by
  induction xs with
  | nil => simp [pure, Except.pure]
  | cons x xs ih =>
    rw [List.forall_mem_cons, ← ih]
    constructor
    · intro h
      obtain ⟨_, hx, hxs⟩ := of_bind h
      exact ⟨hx, hxs⟩
    rintro ⟨hx, hxs⟩
    exact bind_eq_ok.mpr ⟨(), hx, hxs⟩

end Go

end Lib
