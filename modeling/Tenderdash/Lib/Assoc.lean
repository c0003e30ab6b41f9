import Mathlib.Tactic

/-!
Finite maps as lists of key-value pairs. A value is changed in its place, and a new key goes to the
end of the list, so that keys stay distinct (`nodup_upsert`).
-/

namespace Lib

open List

variable {α β : Type*} [BEq α] [LawfulBEq α]

def upsert {α β : Type*} [BEq α] (k : α) (f : Option β → β) : List (α × β) → List (α × β)
  | [] => [(k, f none)]
  | (k', b) :: rest => if k == k' then (k', f (some b)) :: rest else (k', b) :: upsert k f rest

lemma lookup_upsert_self (k : α) (f : Option β → β) (l : List (α × β)) :
    (upsert k f l).lookup k = some (f (l.lookup k)) := by
  induction l with
  | nil => simp [upsert]
  | cons entry rest ih =>
    obtain ⟨k', b⟩ := entry
    rw [upsert]
    by_cases hk : k = k'
    · subst hk
      simp
    have hb : (k == k') = false := by simpa using hk
    simp [hb, lookup_cons, ih]

variable {k : α} {l : List (α × β)} {entry : α × β} {f : Option β → β}

lemma lookup_upsert_of_ne {k₁ : α} (f : Option β → β) (l : List (α × β)) (hne : k₁ ≠ k) :
    (upsert k f l).lookup k₁ = l.lookup k₁ := by
  have hb : (k₁ == k) = false := by simpa using hne
  induction l with
  | nil => simp [upsert, lookup_cons, hb]
  | cons entry rest ih =>
    obtain ⟨k', b⟩ := entry
    rw [upsert]
    split
    · next hk =>
      obtain rfl : k = k' := by simpa using hk
      simp [lookup_cons, hb]
    · simp [lookup_cons, ih]

lemma mem_upsert (h : entry ∈ upsert k f l) : (entry.1 = k ∧ ∃ old, entry.2 = f old) ∨ entry ∈ l := by
  induction l with
  | nil =>
    rw [upsert, mem_singleton] at h
    exact .inl (by rw [h]; exact ⟨rfl, none, rfl⟩)
  | cons e rest ih =>
    obtain ⟨k', b⟩ := e
    rw [upsert] at h
    split at h
    · next hk =>
      rcases mem_cons.mp h with rfl | h
      · exact .inl ⟨(eq_of_beq hk).symm, some b, rfl⟩
      · exact .inr (mem_cons_of_mem _ h)
    rcases mem_cons.mp h with rfl | h
    · exact .inr mem_cons_self
    · exact (ih h).imp_right (mem_cons_of_mem _)

lemma nodup_upsert (h : (l.map (·.1)).Nodup) : ((upsert k f l).map (·.1)).Nodup := by
  induction l with
  | nil => simp [upsert]
  | cons entry rest ih =>
    obtain ⟨k', b⟩ := entry
    obtain ⟨hn, hr⟩ := nodup_cons.mp h
    rw [upsert]
    split
    · exact h
    next hk =>
    refine nodup_cons.mpr ⟨fun hm => ?_, ih hr⟩
    obtain ⟨entry, he, rfl⟩ := mem_map.mp hm
    rcases mem_upsert he with ⟨heq, -⟩ | he
    · exact hk (by simp [heq])
    · exact hn (mem_map.mpr ⟨entry, he, rfl⟩)

lemma mem_of_lookup {a : α} {b : β} (h : l.lookup a = some b) : (a, b) ∈ l := by
  obtain ⟨_, _, rfl, -⟩ := lookup_eq_some_iff.mp h
  simp

lemma lookup_of_mem (h : (l.map (·.1)).Nodup) (hm : entry ∈ l) : l.lookup entry.1 = some entry.2 := by
  obtain ⟨b, hb⟩ := Option.isSome_iff_exists.mp (lookup_isSome_iff.mpr ⟨entry, hm, beq_self_eq_true _⟩)
  rw [hb, inj_on_of_nodup_map h hm (mem_of_lookup hb) rfl]

lemma lookup_filter_key (l : List (α × β)) (p : α → Bool) (k : α) :
    (l.filter fun e => p e.1).lookup k = if p k then l.lookup k else none := by
  induction l with
  | nil => simp
  | cons entry rest ih =>
    obtain ⟨k', b⟩ := entry
    by_cases hk : k = k'
    · subst hk
      by_cases hp : p k = true
      · simp [hp]
      · simpa [hp] using ih
    have hb : (k == k') = false := by simpa using hk
    by_cases hp : p k' = true
    · simpa [hp, lookup_cons, hb] using ih
    · simpa [hp, lookup_cons, hb] using ih

end Lib
