import Mathlib.Tactic

/-!
Weighted tallies of the filled slots of a list. Every slot has a weight and holds at most one value;
the tally for a predicate adds up the weights of the slots whose value satisfies it.

Main results: filling a free slot adds its weight (`tally_set`), the tally depends only on which
slots count (`tally_congr`), it is monotone in the predicate (`tally_mono`), and with equal weights
it counts the slots (`tally_eq_length`). A sheet that keeps its marks and its sum beside the slots
stays in step with them when a slot is filled, replaced or overlaid (`Tallied`).
-/

namespace Lib

open List Option

variable {α : Type*}

/-! ### Slots -/

def slot (ss : List (Option α)) (i : ℕ) : Option α := (ss[i]?).join

@[simp] lemma slot_replicate_none (n i : ℕ) : slot (List.replicate n (none : Option α)) i = none := by
  simp only [slot, getElem?_replicate]
  split <;> rfl

variable {ss : List (Option α)} {i : ℕ} {a : α} (p : α → Bool) {ts : List (Option α)} {β : Type*} {k : ℕ} {w : ℤ}

lemma slot_eq_some : slot ss i = some a ↔ ss[i]? = some (some a) := by simp [slot, join_eq_some_iff]

lemma lt_length_of_slot (h : slot ss i = some a) : i < ss.length := by
  obtain ⟨hlt, -⟩ := List.getElem?_eq_some_iff.mp (slot_eq_some.mp h)
  exact hlt

lemma getElem?_of_slot_eq_none (hi : i < ss.length) (h : slot ss i = none) : ss[i]? = some none := by
  simpa [slot, hi] using h

lemma slot_set_self (hi : i < ss.length) (a : α) : slot (ss.set i (some a)) i = some a := by simp [slot, hi]

lemma slot_set_of_ne {j : ℕ} (h : i ≠ j) (a : α) : slot (ss.set i (some a)) j = slot ss j := by simp [slot, h]

lemma slot_set_cases {b : α} (h : slot (ss.set k (some b)) i = some a) : (i = k ∧ a = b) ∨ slot ss i = some a := by
  by_cases hk : k = i
  · subst hk
    have hlt : k < ss.length := by simpa using lt_length_of_slot h
    rw [slot_set_self hlt] at h
    exact .inl ⟨rfl, (some.inj h).symm⟩
  · exact .inr ((slot_set_of_ne hk b).symm.trans h)

lemma slot_set_of_free {b : α} (hf : slot ss k = none) (h : slot ss i = some a) :
    slot (ss.set k (some b)) i = some a := by
  have hk : k ≠ i := by
    rintro rfl
    simp [hf] at h
  rw [slot_set_of_ne hk, h]

lemma mem_filterMap_iff_slot : a ∈ ss.filterMap id ↔ ∃ i, slot ss i = some a := by
  rw [mem_filterMap]
  constructor
  · rintro ⟨s, hs, rfl⟩
    obtain ⟨i, hi⟩ := mem_iff_getElem?.mp hs
    exact ⟨i, slot_eq_some.mpr hi⟩
  rintro ⟨i, hi⟩
  exact ⟨some a, mem_iff_getElem?.mpr ⟨i, slot_eq_some.mp hi⟩, rfl⟩

lemma card_filled (ss : List (Option α)) :
    ((Finset.range ss.length).filter fun i => (slot ss i).isSome).card = (ss.filterMap id).length := by
  induction ss with
  | nil => rfl
  | cons s ss ih =>
    rw [Finset.card_filter] at ih ⊢
    rw [length_cons, Finset.sum_range_succ']
    have hs : ∀ i, slot (s :: ss) (i + 1) = slot ss i := fun i => rfl
    have hz : slot (s :: ss) 0 = s := rfl
    simp only [hs, hz, ih]
    cases s <;> simp

lemma map_filterMap_sublist {f : α → β} {labels : List β}
    (h : ∀ (i : ℕ) (a : α), slot ss i = some a → labels[i]? = some (f a)) :
    ((ss.filterMap id).map f).Sublist labels := by
  induction ss generalizing labels with
  | nil => simp
  | cons s ss ih =>
    have ht : ((ss.filterMap id).map f).Sublist labels.tail := by
      refine ih fun i a ha => ?_
      have := h (i + 1) a (by simpa [slot] using ha)
      simpa [getElem?_tail] using this
    cases s with
    | none => exact ht.trans (tail_sublist labels)
    | some a =>
      have hh := h 0 a rfl
      cases labels with
      | nil => simp at hh
      | cons l labels =>
        simp only [getElem?_cons_zero, some.injEq] at hh
        subst hh
        simpa using ht.cons_cons (f a)

def overlay (ss ts : List (Option α)) : List (Option α) :=
  List.zipWith (fun s t => t.or s) ss ts

lemma slot_overlay (hl : ss.length = ts.length) (i : ℕ) : slot (overlay ss ts) i = (slot ts i).or (slot ss i) := by
  unfold slot overlay
  rw [getElem?_zipWith]
  by_cases hi : i < ss.length
  · have hi' : i < ts.length := by omega
    simp [hi, hi']
  have hi' : ¬ i < ts.length := by omega
  simp [hi, hi']

/-! ### Tallies -/

/-- Total weight of the slots that hold a value satisfying `p`. -/
def tally (p : α → Bool) : List ℤ → List (Option α) → ℤ
  | w :: ws, s :: ss => (if s.any p then w else 0) + tally p ws ss
  | _, _ => 0

abbrev tallyAll (ws : List ℤ) (ss : List (Option α)) : ℤ := tally (fun _ => true) ws ss

@[simp] lemma tally_nil (ws : List ℤ) : tally p ws [] = 0 := by
  cases ws <;> rfl

@[simp] lemma tally_replicate_none (ws : List ℤ) (n : ℕ) : tally p ws (List.replicate n none) = 0 := by
  induction n generalizing ws with
  | zero => simp
  | succ n ih => cases ws <;> simp [tally, replicate_succ, ih]

lemma tally_set {ws : List ℤ} (a : α) (hw : ws[i]? = some w) (hi : i < ss.length)
    (hs : slot ss i = none) : tally p ws (ss.set i (some a)) = tally p ws ss + if p a then w else 0 := by
  replace hs := getElem?_of_slot_eq_none hi hs
  clear hi
  induction ss generalizing ws i with
  | nil => simp at hs
  | cons s ss ih =>
    cases ws with
    | nil => simp at hw
    | cons w' ws =>
      cases i with
      | zero =>
        simp only [getElem?_cons_zero, some.injEq] at hw hs
        subst hw hs
        simp [tally, add_comm]
      | succ i =>
        simp only [getElem?_cons_succ] at hw hs
        simp [tally, ih hw hs, add_assoc]

lemma tally_congr {p : α → Bool} {q : β → Bool} (ws : List ℤ) {ts : List (Option β)}
    (h : ss.map (·.any p) = ts.map (·.any q)) : tally p ws ss = tally q ws ts := by
  induction ss generalizing ws ts with
  | nil =>
    cases ts with
    | nil => simp
    | cons t ts => simp at h
  | cons s ss ih =>
    cases ts with
    | nil => simp at h
    | cons t ts =>
      simp only [map_cons, cons.injEq] at h
      cases ws with
      | nil => rfl
      | cons w ws => simp [tally, h.1, ih ws h.2]

lemma tally_eq_length {c : ℤ} {ws : List ℤ} (hws : ∀ w ∈ ws, w = c) (hl : ss.length = ws.length) :
    tally p ws ss = c * ((ss.filterMap id).filter p).length := by
  induction ss generalizing ws with
  | nil => simp
  | cons s ss ih =>
    cases ws with
    | nil => simp at hl
    | cons w ws =>
      have hw : w = c := hws w mem_cons_self
      have ht := ih (fun v hv => hws v (mem_cons_of_mem _ hv)) (by simpa using hl)
      subst hw
      rw [tally, ht]
      cases s with
      | none => simp
      | some a =>
        by_cases ha : p a
        · simp [ha]
          ring
        · simp [ha]

/-! ### Sheets -/

structure Tallied (ws : List ℤ) (marks : List Bool) (ss : List (Option α)) (sum : ℤ) : Prop where
  length_eq : ss.length = ws.length
  marks_eq : marks = ss.map Option.isSome
  sum_eq : sum = tallyAll ws ss

namespace Tallied

variable {ws : List ℤ} {marks : List Bool} {ss : List (Option α)} {sum : ℤ}

lemma empty (ws : List ℤ) :
    Tallied ws (List.replicate ws.length false) (List.replicate ws.length (none : Option α)) 0 where
  length_eq := by simp
  marks_eq := by simp
  sum_eq := by simp

lemma fill (h : Tallied ws marks ss sum) {i : ℕ} (a : α) (hw : ws[i]? = some w)
    (hs : slot ss i = none) : Tallied ws (marks.set i true) (ss.set i (some a)) (sum + w) where
  length_eq := by simpa using h.length_eq
  marks_eq := by simp [h.marks_eq, map_set]
  sum_eq := by
    obtain ⟨hi, -⟩ := List.getElem?_eq_some_iff.mp hw
    rw [tallyAll, tally_set _ a hw (by rw [h.length_eq]; exact hi) hs, h.sum_eq]
    simp

lemma congr (h : Tallied ws marks ss sum)
    (hts : ts.map isSome = ss.map isSome) : Tallied ws marks ts sum where
  length_eq := by
    have hl := congrArg length hts
    simp only [length_map] at hl
    rw [hl, h.length_eq]
  marks_eq := by rw [h.marks_eq, hts]
  sum_eq := by
    rw [h.sum_eq]
    refine (tally_congr ws ?_).symm
    have ha : (fun s : Option α => s.any fun _ => true) = isSome := by
      funext s
      cases s <;> rfl
    rw [ha, hts]

lemma marks_set {i : ℕ} {a : α} (h : Tallied ws marks ss sum) (hs : slot ss i = some a) : marks.set i true = marks := by
  have hm : marks[i]? = some true := by
    rw [h.marks_eq, List.getElem?_map, slot_eq_some.mp hs]
    rfl
  obtain ⟨hlt, heq⟩ := List.getElem?_eq_some_iff.mp hm
  conv_lhs => rw [← heq]
  exact set_getElem_self hlt

lemma replace (h : Tallied ws marks ss sum) {i : ℕ} {a : α} (b : α) (hs : slot ss i = some a) :
    Tallied ws (marks.set i true) (ss.set i (some b)) sum := by
  rw [h.marks_set hs]
  refine h.congr ?_
  have hi : (ss.map isSome)[i]? = some true := by
    rw [List.getElem?_map, slot_eq_some.mp hs]
    rfl
  obtain ⟨hlt, heq⟩ := List.getElem?_eq_some_iff.mp hi
  rw [map_set, isSome_some]
  conv_lhs => rw [← heq]
  exact set_getElem_self hlt

lemma overlay (h : Tallied ws marks ss sum) (hle : ts.length = ws.length)
    (hts : ∀ i a, slot ts i = some a → ∃ b, slot ss i = some b) : Tallied ws marks (Lib.overlay ss ts) sum := by
  refine h.congr (ext_getElem? fun i => ?_)
  have hl : ss.length = ts.length := by rw [hle, h.length_eq]
  by_cases hi : i < ss.length
  · have hs := slot_overlay hl i
    have hlo : i < (Lib.overlay ss ts).length := by simp [Lib.overlay, ← hl, hi]
    simp only [slot, hi, hlo, getElem?_eq_getElem, join_some] at hs
    simp only [getElem?_map, hi, hlo, getElem?_eq_getElem, map_some, hs, some.injEq]
    have hi' : i < ts.length := hl ▸ hi
    cases htv : ts[i] with
    | none => simp [hi', htv]
    | some a =>
      obtain ⟨b, hb⟩ := hts i a (by simp [slot, hi', htv])
      simp only [slot, hi, getElem?_eq_getElem, join_some] at hb
      simp [hi', htv, hb]
  · have hlo : ¬ i < (Lib.overlay ss ts).length := by simp [Lib.overlay, ← hl, hi]
    simp [hi, hlo]

end Tallied

end Lib
