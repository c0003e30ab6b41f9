import Mathlib.Tactic
import Mathlib.Data.List.Sort

/-!
Tables of a key-value database: lists of entries in the order of their keys, which is the order in
which a range of keys is iterated.

A range is deleted in batches of bounded size, each of which starts where the one before ended. Whenever
the deletion stops, it has deleted the lowest keys of the range (`erase_batches`): what is left is the
table without some of its first entries, and after the last batch nothing of the range is left.
-/

namespace Lib

open List Option

abbrev Table (K V : Type*) := List (K × V)

namespace Table

variable {K V : Type*} [LinearOrder K]

def Sorted (t : Table K V) : Prop := t.Pairwise fun a b => a.1 < b.1

def get (t : Table K V) (k : K) : Option V := (t.find? fun e => e.1 = k).map (·.2)

def set (t : Table K V) (k : K) (v : V) : Table K V :=
  (t.filter fun e => e.1 ≠ k).orderedInsert (fun a b => a.1 ≤ b.1) (k, v)

def erase (t : Table K V) (ks : List K) : Table K V := t.filter fun e => e.1 ∉ ks

def first (t : Table K V) (n : ℕ) (start stop : K) : Table K V :=
  (t.filter fun e => start ≤ e.1 ∧ e.1 < stop).take n

/-- The batches in which a range is deleted. A full batch is followed by another one, from its last key
on. -/
def batches (n : ℕ) : ℕ → Table K V → K → K → List (Table K V)
  | 0, _, _, _ => []
  | fuel + 1, t, start, stop =>
    let batch := t.first n start stop
    batch :: match batch.getLast? with
      | some e =>
        if batch.length = n then batches n fuel (t.erase (batch.map (·.1))) e.1 stop else []
      | none => []

/-! ### Reading and writing -/

variable {t : Table K V} {k : K} {start : K} {k' : K}

omit [LinearOrder K] in
lemma find?_perm [DecidableEq K] {t' : Table K V} (hp : t.Perm t') (hn : (t.map (·.1)).Nodup)
    (k : K) : (t.find? fun e => e.1 = k) = t'.find? fun e => e.1 = k := by
  induction hp with
  | nil => rfl
  | cons e _ ih =>
    rw [map_cons, nodup_cons] at hn
    simp only [find?_cons, ih hn.2]
  | swap a b l =>
    simp only [map_cons, nodup_cons, mem_cons, not_or] at hn
    simp only [find?_cons]
    by_cases ha : a.1 = k <;> by_cases hb : b.1 = k <;> simp [ha, hb]
    exact absurd (hb.trans ha.symm) hn.1.1
  | trans h _ ih ih' => rw [ih hn, ih' ((h.map _).nodup_iff.mp hn)]

lemma Sorted.nodup (h : t.Sorted) : (t.map (·.1)).Nodup :=
  pairwise_map.mpr (h.imp ne_of_lt)

lemma set_perm (t : Table K V) (k : K) (v : V) : (t.set k v).Perm ((k, v) :: t.filter fun e => e.1 ≠ k) :=
  perm_orderedInsert ..

lemma mem_set {v : V} {e : K × V} (h : e ∈ t.set k v) : e = (k, v) ∨ e ∈ t :=
  (mem_cons.mp ((set_perm t k v).mem_iff.mp h)).imp_right mem_of_mem_filter

lemma nodup_cons_filter (h : (t.map (·.1)).Nodup) (k : K) (v : V) :
    (((k, v) :: t.filter fun e => e.1 ≠ k).map (·.1)).Nodup := by
  refine nodup_cons.mpr ⟨fun hm => ?_, h.sublist (filter_sublist.map _)⟩
  obtain ⟨e, he, hek⟩ := mem_map.mp hm
  simp [hek] at he

lemma find?_filter_ne (t : Table K V) (h : k' ≠ k) :
    ((t.filter fun e => e.1 ≠ k).find? fun e => e.1 = k') = t.find? fun e => e.1 = k' := by
  induction t with
  | nil => rfl
  | cons e rest ih =>
    by_cases hk : e.1 = k
    · have hne : ¬e.1 = k' := fun heq => h (heq.symm.trans hk)
      simp only [ne_eq, hk, not_true_eq_false, decide_false, Bool.false_eq_true, not_false_eq_true,
        filter_cons_of_neg] at ih ⊢
      rw [ih, find?_cons_of_neg (by simpa using hne)]
    simp only [filter_cons, ne_eq, hk, not_false_eq_true, decide_true, if_true, find?_cons]
    rw [← ih]

lemma get_set_self (h : t.Sorted) (k : K) (v : V) : (t.set k v).get k = some v := by
  unfold get
  rw [find?_perm (set_perm t k v) (((set_perm t k v).map _).nodup_iff.mpr (nodup_cons_filter h.nodup k v))]
  simp

lemma get_set_of_ne (h : t.Sorted) (v : V) (hne : k' ≠ k) : (t.set k v).get k' = t.get k' := by
  unfold get
  rw [find?_perm (set_perm t k v) (((set_perm t k v).map _).nodup_iff.mpr (nodup_cons_filter h.nodup k v)),
    find?_cons_of_neg (by simpa using hne.symm), find?_filter_ne t hne]

lemma Sorted.set (h : t.Sorted) (k : K) (v : V) : (t.set k v).Sorted := by
  have hle : (t.set k v).Pairwise fun a b => a.1 ≤ b.1 := by
    exact List.Pairwise.orderedInsert _ _ (((h.sublist filter_sublist)).imp le_of_lt)
  have hne : (t.set k v).Pairwise fun a b => a.1 ≠ b.1 :=
    pairwise_map.mp (((set_perm t k v).map _).nodup_iff.mpr (nodup_cons_filter h.nodup k v))
  exact (hle.and hne).imp fun hab => lt_of_le_of_ne hab.1 hab.2

lemma set_append (h : ∀ e ∈ t, e.1 < k) (v : V) : t.set k v = t ++ [(k, v)] := by
  have ha : (t.filter fun e => e.1 ≠ k) = t := filter_eq_self.mpr fun e he => by simpa using (h e he).ne
  unfold set
  rw [ha]
  clear ha
  induction t with
  | nil => rfl
  | cons e rest ih =>
    have hlt := h e mem_cons_self
    rw [orderedInsert_cons, if_neg (by simpa using hlt), ih fun e' he' => h e' (mem_cons_of_mem _ he')]
    rfl

section

variable (h : t.Sorted)

include h

lemma get_eq_some_iff {v : V} : t.get k = some v ↔ (k, v) ∈ t := by
  unfold get
  induction t with
  | nil => simp
  | cons e rest ih =>
    obtain ⟨hlt, hr⟩ := pairwise_cons.mp h
    by_cases hk : e.1 = k
    · have ho : (k, v) ∉ rest := fun hm => (hlt _ hm).ne hk
      obtain ⟨k', v'⟩ := e
      subst hk
      simp [ho, eq_comm]
    have hne : (k, v) ≠ e := fun heq => hk (heq ▸ rfl)
    simpa [hk, hne] using ih hr

lemma get_eq_none (ho : ∀ v, (k, v) ∉ t) : t.get k = none :=
  eq_none_iff_forall_ne_some.mpr fun v hv => ho v ((get_eq_some_iff h).mp hv)

/-! ### Deleting a range -/

lemma Sorted.take_lt_drop (m : ℕ) : ∀ a ∈ t.take m, ∀ b ∈ t.drop m, a.1 < b.1 := by
  rw [← take_append_drop m t] at h
  exact (pairwise_append.mp h).2.2

lemma erase_take (m : ℕ) : t.erase ((t.take m).map (·.1)) = t.drop m := by
  have hs : t.erase ((t.take m).map (·.1)) = (t.take m ++ t.drop m).filter fun e => e.1 ∉ (t.take m).map (·.1) := by
    rw [take_append_drop]
    rfl
  rw [hs, filter_append]
  have hn : ((t.take m).filter fun e => e.1 ∉ (t.take m).map (·.1)) = [] :=
    filter_eq_nil_iff.mpr fun e he => by simpa only [decide_not, Bool.not_eq_true', Bool.not_eq_false',
      decide_eq_true_eq, decide_eq_false_iff_not, not_not] using mem_map_of_mem he
  have ha : ((t.drop m).filter fun e => e.1 ∉ (t.take m).map (·.1)) = t.drop m := by
    refine filter_eq_self.mpr fun e he => decide_eq_true fun hm => ?_
    obtain ⟨e', he', heq⟩ := mem_map.mp hm
    exact (h.take_lt_drop m e' he' e he).ne heq
  rw [hn, ha, nil_append]

lemma first_eq_take (hst : ∀ e ∈ t, start ≤ e.1) (n : ℕ) (stop : K) :
    ∃ m, t.first n start stop = t.take m ∧ (∀ e ∈ t.take m, e.1 < stop) ∧
      ((t.first n start stop).length ≠ n → ∀ e ∈ t.drop m, stop ≤ e.1) := by
  induction t generalizing n with
  | nil => exact ⟨0, by simp [first], by simp, by simp⟩
  | cons e rest ih =>
    obtain ⟨hlt, hr⟩ := pairwise_cons.mp h
    have hge := hst e mem_cons_self
    cases n with
    | zero => exact ⟨0, by simp [first], by simp, fun hne => absurd (by simp [first]) hne⟩
    | succ n =>
      by_cases hs : e.1 < stop
      · obtain ⟨m, hf, hb, hsh⟩ := ih hr (fun e' he' => hst e' (mem_cons_of_mem _ he')) n
        have hc : first (e :: rest) (n + 1) start stop = e :: first rest n start stop := by simp [first, hge, hs]
        refine ⟨m + 1, by rw [hc, hf, take_succ_cons], ?_, fun hne => ?_⟩
        · rw [take_succ_cons, forall_mem_cons]
          exact ⟨hs, hb⟩
        rw [hc, length_cons] at hne
        exact hsh fun heq => hne (congrArg (· + 1) heq)
      · -- the range ends before the first entry
        have ha : ∀ e' ∈ e :: rest, stop ≤ e'.1 := by
          rw [forall_mem_cons]
          exact ⟨not_lt.mp hs, fun e' he' => (not_lt.mp hs).trans (hlt e' he').le⟩
        have hn : ((e :: rest).filter fun e => start ≤ e.1 ∧ e.1 < stop) = [] :=
          filter_eq_nil_iff.mpr fun e' he' hm =>
            absurd (of_decide_eq_true hm).2 (not_lt.mpr (ha e' he'))
        exact ⟨0, by rw [first, hn, take_nil, take_zero], by simp, fun _ => ha⟩

end

/-- **Deletion in batches.** Any number of batches are the first entries of the table, all of the range;
the table has lost them, and after the last batch the range is empty. -/
theorem erase_batches {n fuel : ℕ} (hn : 0 < n) (h : t.Sorted)
    (hst : ∀ e ∈ t, start ≤ e.1) (hfe : t.length < fuel) (stop : K) (done : ℕ) :
    ∃ m, ((batches n fuel t start stop).take done).flatten = t.take m ∧
      ((batches n fuel t start stop).take done).foldl (fun t b => t.erase (b.map (·.1))) t =
        t.drop m ∧ (∀ e ∈ t.take m, e.1 < stop) ∧
      ((batches n fuel t start stop).length ≤ done → ∀ e ∈ t.drop m, stop ≤ e.1) := by
  induction fuel generalizing t start done with
  | zero => omega
  | succ fuel ih =>
    cases done with
    | zero => exact ⟨0, rfl, rfl, by simp, by simp [batches]⟩
    | succ done =>
      obtain ⟨m, hf, hb, hs⟩ := first_eq_take h hst n stop
      have he : t.erase ((t.first n start stop).map (·.1)) = t.drop m := by rw [hf, erase_take h]
      unfold batches
      dsimp only
      cases hl : (t.first n start stop).getLast? with
      | none =>
        -- the range is empty
        have hni : t.first n start stop = [] := getLast?_eq_none_iff.mp hl
        refine ⟨m, by simpa using hf, by simpa using he, hb, fun _ => hs ?_⟩
        rw [hni, length_nil]
        omega
      | some e =>
        dsimp only
        by_cases hfu : (t.first n start stop).length = n
        · have hm : e ∈ t.take m := hf ▸ mem_of_getLast? hl
          have hln : (t.drop m).length < fuel := by
            rw [hf, length_take] at hfu
            rw [length_drop]
            omega
          obtain ⟨m', hfl, hr, hb', hd⟩ := ih (h.sublist (drop_sublist m t))
            (fun e' he' => (h.take_lt_drop m e hm e' he').le) hln done
          rw [if_pos hfu, he]
          refine ⟨m + m', ?_, ?_, fun e' he' => ?_, fun hle => ?_⟩
          · rw [take_succ_cons, flatten_cons, hfl, hf, take_add]
          · rw [take_succ_cons, foldl_cons, he, hr, drop_drop]
          · rw [take_add] at he'
            rcases mem_append.mp he' with he' | he'
            · exact hb e' he'
            · exact hb' e' he'
          rw [← drop_drop]
          exact hd (by simpa using hle)
        · rw [if_neg hfu]
          exact ⟨m, by simpa using hf, by simpa using he, hb, fun _ => hs hfu⟩

end Table

end Lib
