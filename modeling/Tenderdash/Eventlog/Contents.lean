import Mathlib
import Tenderdash.Lib.Run

/-!
The log of `internal/eventlog`: the newest items first, pruned by number and by age.

`Add` leaves the oldest cursor alone, which is that of no item before the first prune. And a prune for size reports by
the last item it keeps whether an item within the window was dropped.
-/

namespace Tenderdash.EventLog

open Lib.Run List

/-- The timestamp and the sequence number. An item is known by its cursor. -/
abbrev Cursor := ℕ ×ₗ ℕ

def diff (c o : Cursor) : ℤ := (ofLex c).1 - (ofLex o).1

structure Settings where
  windowSize : ℤ
  maxItems : ℤ
  windowSize_pos : 0 < windowSize

structure Log where
  numItems : ℕ := 0
  oldestCursor : Cursor := toLex (0, 0)
  head : List Cursor := []

variable (o : Settings)

/-- `pruneSize`, with whether it reports a prune within the window. -/
def pruneSize (head : List Cursor) (newSize : ℕ) : Log × Bool :=
  match head.take newSize with
  | [] => ({}, true)
  | newest :: rest =>
    let last := rest.getLast?.getD newest
    (⟨newSize, last, newest :: rest⟩, diff newest last ≤ o.windowSize)

def pruneAge : List Cursor → Log
  | [] => {}
  | newest :: rest =>
    let kept := rest.takeWhile (diff newest · ≤ o.windowSize)
    ⟨kept.length + 1, kept.getLast?.getD newest, newest :: kept⟩

/-- 30 seconds. -/
def windowSlop : ℤ := 30000000000

namespace Log

variable (lg : Log) (c : Cursor)

/-- The first part of `Add`. -/
def push : Log := { lg with numItems := lg.numItems + 1, head := c :: lg.head }

/-- The second part, for the item that was added. -/
def checkPrune : Log × Bool :=
  if diff c lg.oldestCursor < o.windowSize + windowSlop ∧ (o.maxItems ≤ 0 ∨ lg.numItems ≤ o.maxItems) then (lg, false)
  else if 0 < o.maxItems ∧ o.maxItems < lg.numItems then pruneSize o lg.head (3 * lg.numItems / 4)
  else (pruneAge o lg.head, false)

end Log

/-- The log, with all that was added, whether an `Add` has reported a prune, and whether the last one has reported
it exactly if it dropped an item within the window. -/
structure Record where
  log : Log := {}
  added : List Cursor := []
  pruned : Bool := false
  honest : Bool := true

/-- The source of the cursors does not go back. -/
def add (s : Record) (c : Cursor) : Record :=
  if ∀ d ∈ s.added, d < c then
    let res := (s.log.push c).checkPrune o c
    { log := res.1
      added := c :: s.added
      pruned := s.pruned || res.2
      honest := res.2 = decide (∃ d ∈ s.log.head, diff c d ≤ o.windowSize ∧ d ∉ res.1.head) }
  else s

variable (s : Record)

structure Right : Prop where
  items : s.log.head <+: s.added
  newest : s.log.head.head? = s.added.head?
  size : s.log.numItems = s.log.head.length
  oldest : ∀ c ∈ s.log.head.getLast?, s.log.oldestCursor = c
  capped : 0 < o.maxItems → s.log.numItems ≤ o.maxItems
  kept : s.pruned ∨ ∀ c ∈ s.added.head?, ∀ d ∈ s.added, diff c d ≤ o.windowSize → d ∈ s.log.head
  honest : s.honest = true

/-- The condition: the first item is a window after the zero cursor, or has that cursor; and where a prune for size
keeps items within the window only, the next item is within the window, too. -/
def Careful (c : Cursor) : Prop :=
  (∀ d ∈ s.added, d < c) →
    (s.log.head = [] → o.windowSize + windowSlop ≤ (ofLex c).1 ∨ c = toLex (0, 0)) ∧
    (0 < o.maxItems → o.maxItems ≤ s.log.numItems →
      let n := 3 * (s.log.numItems + 1) / 4
      ∀ last ∈ (c :: s.log.head)[n - 1]?, ∀ next ∈ (c :: s.log.head)[n]?,
        diff c last ≤ o.windowSize → diff c next ≤ o.windowSize)

variable {o s} {c : Cursor}

lemma diff_mono {c c' d d' : Cursor} (hc : c ≤ c') (hd : d' ≤ d) : diff c d ≤ diff c' d' := by
  have := Prod.Lex.monotone_fst c c' hc
  have := Prod.Lex.monotone_fst d' d hd
  unfold diff
  omega

/-- What a prune leaves: the first items, with their number and the last cursor. -/
structure Trimmed (o : Settings) (c : Cursor) (l : List Cursor) (res : Log × Bool) : Prop where
  items : res.1.head <+: c :: l
  newest : res.1.head.head? = some c
  size : res.1.numItems = res.1.head.length
  oldest : ∀ d ∈ res.1.head.getLast?, res.1.oldestCursor = d
  reports : ∀ d ∈ l, diff c d ≤ o.windowSize → d ∉ res.1.head → res.2 = true

variable {l : List Cursor} (hl : (c :: l).Pairwise (· > ·))

include hl

omit hl in
lemma mem_takeWhile_diff {d : Cursor} (hs : l.Pairwise (· > ·)) (hd : d ∈ l) (hw : diff c d ≤ o.windowSize) :
    d ∈ l.takeWhile (diff c · ≤ o.windowSize) := by
  induction l with
  | nil => exact hd
  | cons x l ih =>
    obtain ⟨hx, hs⟩ := pairwise_cons.mp hs
    rcases mem_cons.mp hd with rfl | hd
    · simp [hw]
    · rw [takeWhile_cons, if_pos (by simpa using (diff_mono le_rfl (hx d hd).le).trans hw)]
      exact mem_cons_of_mem x (ih hs hd)

lemma trimmed_pruneAge : Trimmed o c l (pruneAge o (c :: l), false) where
  items := cons_prefix_cons.mpr ⟨rfl, takeWhile_prefix _⟩
  newest := rfl
  size := rfl
  oldest d hd := by simpa [pruneAge, getLast?_cons] using hd
  reports d hd hw hn := absurd (mem_cons_of_mem c (mem_takeWhile_diff hl.of_cons hd hw)) hn

lemma trimmed_pruneSize {n : ℕ} (hn : 0 < n) (hle : n ≤ l.length + 1) : Trimmed o c l (pruneSize o (c :: l) n) := by
  obtain ⟨n, rfl⟩ := Nat.exists_eq_add_of_le' hn
  refine ⟨ take_prefix (n + 1) (c :: l), rfl, ?_, fun d hd => ?_, fun d hd hw hnm => ?_⟩
  · simp [pruneSize]
    omega
  · simpa [pruneSize, getLast?_cons] using hd
  · -- the last item that is kept is later than the one dropped
    have hla : (l.take n).getLast?.getD c ∈ (c :: l).take (n + 1) := mem_of_getLast? getLast?_cons
    rw [← take_append_drop (n + 1) (c :: l)] at hl
    have hdr := (mem_append.mp (take_append_drop (n + 1) (c :: l) ▸ mem_cons_of_mem c hd)).resolve_left hnm
    have hlt := (pairwise_append.mp hl).2.2 _ hla d hdr
    exact decide_eq_true ((diff_mono le_rfl hlt.le).trans hw)

/-- What a prune for size reports, and whether it should: by the last item it keeps, and by the next. -/
lemma pruneSize_reports {n : ℕ} (hn : 0 < n) (hle : n ≤ l.length) : ∃ last ∈ (c :: l)[n - 1]?, ∃ next ∈ (c :: l)[n]?,
    ((pruneSize o (c :: l) n).2 = true ↔ diff c last ≤ o.windowSize) ∧
      ((∃ d ∈ l, diff c d ≤ o.windowSize ∧ d ∉ (pruneSize o (c :: l) n).1.head) ↔ diff c next ≤ o.windowSize) := by
  obtain ⟨n, rfl⟩ := Nat.exists_eq_add_of_le' hn
  have hlt : n < l.length := hle
  have hla : (c :: l)[n]? = some ((l.take n).getLast?.getD c) := by
    rw [← getLast?_cons, ← take_succ_cons, getLast?_take]
    simp [getElem?_eq_getElem (l := c :: l) (i := n) (by simp; omega)]
  have hsp : c :: l = (c :: l).take (n + 1) ++ l[n] :: l.drop (n + 1) := by
    rw [← drop_eq_getElem_cons hlt]
    exact (take_append_drop (n + 1) (c :: l)).symm
  rw [hsp] at hl
  obtain ⟨-, hnx, hab⟩ := pairwise_append.mp hl
  refine ⟨_, hla, l[n], by simp [hlt], decide_eq_true_iff, ?_, fun hw => ?_⟩
  · rintro ⟨d, hd, hw, hn⟩
    have hdr := (mem_append.mp (hsp ▸ mem_cons_of_mem c hd)).resolve_left hn
    rcases mem_cons.mp hdr with rfl | hd
    · exact hw
    · exact (diff_mono le_rfl ((pairwise_cons.mp hnx).1 d hd).le).trans hw
  · exact ⟨l[n], getElem_mem hlt, hw, fun hm => (hab _ hm _ mem_cons_self).false⟩

omit hl

/-- The invariant of all runs, and what is right in those that are careful. -/
structure Sound (o : Settings) (s : Record) : Prop extends Right o s where
  sorted : s.added.Pairwise (· > ·)
  zero : s.log.head = [] → s.log.oldestCursor = toLex (0, 0)

namespace Sound

lemma checkPrune_cases : let res := (s.log.push c).checkPrune o c
    let fits := 0 < o.maxItems → (s.log.numItems : ℤ) + 1 ≤ o.maxItems
    (res = (s.log.push c, false) ∧ fits ∧ diff c s.log.oldestCursor < o.windowSize + windowSlop) ∨
      (res = (pruneAge o (c :: s.log.head), false) ∧ fits ∧ o.windowSize + windowSlop ≤ diff c s.log.oldestCursor) ∨
      res = pruneSize o (c :: s.log.head) (3 * (s.log.numItems + 1) / 4) ∧ 0 < o.maxItems ∧
        o.maxItems ≤ s.log.numItems := by
  dsimp only
  unfold Log.checkPrune Log.push
  split_ifs with h₁ h₂ <;> simp <;> push_cast at * <;> omega

variable (h : Sound o s) (hc : ∀ d ∈ s.added, d < c)

include h hc

lemma of_trimmed {res : Log × Bool} (hres : (s.log.push c).checkPrune o c = res) (ht : Trimmed o c s.log.head res)
    (hcap : 0 < o.maxItems → res.1.numItems ≤ o.maxItems)
    (hho : res.2 = true → ∃ d ∈ s.log.head, diff c d ≤ o.windowSize ∧ d ∉ res.1.head) : Sound o (add o s c) := by
  have he : add o s c = ⟨res.1, c :: s.added, s.pruned || res.2,
      res.2 = decide (∃ d ∈ s.log.head, diff c d ≤ o.windowSize ∧ d ∉ res.1.head)⟩ := by rw [add, if_pos hc, hres]
  rw [he]
  refine ⟨⟨ht.items.trans (cons_prefix_cons.mpr ⟨rfl, h.items⟩), ht.newest, ht.size, ht.oldest, hcap, ?_, ?_⟩,
    pairwise_cons.mpr ⟨hc, h.sorted⟩, fun hn => ?_⟩
  · rcases h.kept with hp | hk
    · simp [hp]
    rcases Bool.eq_false_or_eq_true res.2 with hr | hr
    · simp [hr]
    refine .inr fun x hx d hd hw => ?_
    cases hx
    rcases mem_cons.mp hd with rfl | hd
    · exact mem_of_head? ht.newest
    by_contra hn
    obtain ⟨x, rest, hx⟩ := exists_cons_of_ne_nil (ne_nil_of_mem hd)
    have hxc := hc x (by simp [hx])
    have hm := hk x (by simp [hx]) d hd ((diff_mono hxc.le le_rfl).trans hw)
    simp [ht.reports d hm hw hn] at hr
  · refine decide_eq_true (Bool.eq_iff_iff.mpr ⟨fun hr => decide_eq_true (hho hr), fun hd => ?_⟩)
    obtain ⟨d, hm, hw, hn⟩ := of_decide_eq_true hd
    exact ht.reports d hm hw hn
  · have := ht.newest
    rw [show res.1.head = [] from hn] at this
    cases this

lemma add_iff : (Careful o s c → Sound o (add o s c)) ∧ (Right o (add o s c) → Careful o s c) := by
  have hl : (c :: s.log.head).Pairwise (· > ·) :=
    pairwise_cons.mpr ⟨fun d hd => hc d (h.items.subset hd), h.sorted.sublist h.items.sublist⟩
  have hz := h.zero
  have hsz := h.size
  rcases checkPrune_cases (o := o) (s := s) (c := c) with ⟨hr, hf, ha⟩ | ⟨hr, hf, ha⟩ | ⟨hr, hm, hge⟩
  · constructor
    · intro hca
      refine h.of_trimmed hc hr ⟨prefix_rfl, rfl, congrArg (· + 1) hsz, fun d hd => ?_, fun d hd _ hn => ?_⟩
        (by simpa [Log.push] using hf) fun hr => (by cases hr)
      · cases hh : s.log.head with
        | nil =>
          rw [hz hh] at ha
          have h0 := ((hca hc).1 hh).resolve_left (by simpa [diff] using ha)
          simpa [Log.push, hh, hz hh, h0] using hd
        | cons x rest => exact h.oldest d (by simpa [Log.push, hh] using hd)
      · exact absurd (mem_cons_of_mem c hd) hn
    · intro hR _
      rw [add, if_pos hc, hr] at hR
      refine ⟨fun hn => .inr ?_, fun hm hge => ?_⟩
      · rw [← hz hn]
        exact (hR.oldest c (by simp [Log.push, hn])).symm
      · have := hf hm
        omega
  · have hle := ( takeWhile_prefix (l := s.log.head) (diff c · ≤ o.windowSize)).length_le
    have hs := h.of_trimmed hc hr (trimmed_pruneAge hl) (fun hm => ?_) fun hr => (by cases hr)
    · refine ⟨fun _ => hs, fun _ _ => ⟨fun hn => ?_, fun hm hge => ?_⟩⟩
      · rw [hz hn] at ha
        exact .inl (by simpa [diff] using ha)
      · have := hf hm
        omega
    · have := hf hm
      simp only [pruneAge]
      push_cast
      omega
  · have ht := trimmed_pruneSize (o := o) hl (n := 3 * (s.log.numItems + 1) / 4) (by omega) (by omega)
    obtain ⟨last, hla, next, hne, hre, hdr⟩ := pruneSize_reports (o := o) hl (n := 3 * (s.log.numItems + 1) / 4)
      (by omega) (by omega)
    constructor
    · intro hca
      refine h.of_trimmed hc hr ht (fun _ => ?_) fun hp => hdr.mpr ?_
      · obtain ⟨n, hn⟩ : ∃ n, 3 * (s.log.numItems + 1) / 4 = n + 1 := Nat.exists_eq_succ_of_ne_zero (by omega)
        have hca := h.capped hm
        rw [hn]
        change ((n + 1 : ℕ) : ℤ) ≤ o.maxItems
        omega
      · exact (hca hc).2 hm hge last hla next hne (hre.mp hp)
    · intro hR _
      refine ⟨fun hn => ?_, fun _ _ last' hla' next' hne' hw => ?_⟩
      · simp [hsz, hn] at hge
        omega
      · cases hla.symm.trans hla'
        cases hne.symm.trans hne'
        have := hR.honest
        rw [add, if_pos hc, hr] at this
        exact hdr.mp (of_decide_eq_true ((of_decide_eq_true this).symm.trans (hre.mpr hw)))

end Sound

end Tenderdash.EventLog
