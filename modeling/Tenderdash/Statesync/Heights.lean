import Tenderdash.Statesync.BlockQueue

/-!
Where the heights of a backfill are. A height between the two cursors is handed to a fetcher, pending,
failed or with the verifier, in exactly one of these places, and no fetcher is parked that could be
served.

* `Conserves`: the invariant, with the height `out` that the call under way has in its hands as one more
  place, so that every call is a take followed by a put.
* `Conserves.greatest_first_iff`: the heap of failed heights gives the least one first.
-/

namespace Tenderdash.Statesync

open List Option Function

namespace BlockQueue

variable {η π ι ε : Type*} [DecidableEq ι] [DecidableEq π]

/-! ### Where the heights are -/

section Places

omit [DecidableEq ι] [DecidableEq π]

def hits (o : Option ℤ) (h : ℤ) : ℕ := (o == some h).toNat

@[simp] lemma hits_none (h : ℤ) : hits none h = 0 := rfl

lemma hits_some (a h : ℤ) : hits (some a) h = if a = h then 1 else 0 := by by_cases heq : a = h <;> simp [hits, heq]

@[simp] lemma hits_some_self (h : ℤ) : hits (some h) h = 1 := by simp [hits]

lemma hits_of_ne {a h : ℤ} (hne : a ≠ h) : hits (some a) h = 0 := by simp [hits, hne]

def places (q : BlockQueue η π ι ε) (h : ℤ) : ℕ :=
  (q.handed.map Prod.snd).count h + (q.pending h).isSome.toNat + q.failed.count h + hits q.underVerification h

/-- Every height between the two cursors that somebody needs is in one place, where `out` is one more
place: the height that the call under way has in its hands. -/
structure Conserves (out : Option ℤ) (q : BlockQueue η π ι ε) : Prop where
  one : ∀ h, q.fetchHeight < h → h ≤ q.verifyHeight → ¬ q.BelowTerminal h →
    1 ≤ q.places h + hits out h
  atMost : ∀ h, q.places h + hits out h ≤ 1
  range : ∀ h, q.places h + hits out h ≠ 0 → q.fetchHeight < h ∧ h ≤ q.verifyHeight
  cursors : q.fetchHeight ≤ q.verifyHeight
  ahead : q.verifyHeight - q.fetchHeight ≤ q.maxFetchAhead
  parked : q.waiters ≠ [] → q.allocate = none
  sorted : q.failed.Pairwise (· ≤ ·)
  verifier : ∀ h, q.underVerification = some h → h = q.verifyHeight ∧ q.verifyCh = false
  named : ∀ h l, q.pending h = some l → l.block.height = h

variable {q q' : BlockQueue η π ι ε} {height : ℤ} {l : LightBlockResponse η π} {out out' : Option ℤ}

def bounds (q : BlockQueue η π ι ε) : ℤ × ℤ × ℤ × ℤ × Option (LightBlock η) :=
  (q.fetchHeight, q.verifyHeight, q.maxFetchAhead, q.initialHeight, q.terminal)

lemma Conserves.moved (hq : Conserves out q)
    (hp : ∀ h, q'.places h + hits out' h = q.places h + hits out h) (hb : q'.bounds = q.bounds)
    (hpa : q'.waiters ≠ [] → q'.allocate = none) (hs : q'.failed.Pairwise (· ≤ ·))
    (hve : ∀ h, q'.underVerification = some h → h = q'.verifyHeight ∧ q'.verifyCh = false)
    (hna : ∀ h l, q'.pending h = some l → l.block.height = h) : Conserves out' q' := by
  simp only [bounds, Prod.mk.injEq] at hb
  obtain ⟨hf, hv, hbo, -, ht⟩ := hb
  refine ⟨fun h hl hh hn => ?_, fun h => ?_, fun h hso => ?_, ?_, ?_, hpa, hs, hve, hna⟩
  · rw [hp]
    refine hq.one h (hf ▸ hl) (hv ▸ hh) ?_
    simpa only [BelowTerminal, ht] using hn
  · rw [hp]
    exact hq.atMost h
  · rw [hf, hv]
    exact hq.range h (hp h ▸ hso)
  · rw [hf, hv]
    exact hq.cursors
  · rw [hf, hv, hbo]
    exact hq.ahead

lemma Conserves.drop (hq : Conserves (some height) q) (hb : q.BelowTerminal height) : Conserves none q :=
  { hq with
    one := fun h hl hh hn => by
      have hne : height ≠ h := fun heq => hn (heq ▸ hb)
      simpa [hits_of_ne hne] using hq.one h hl hh hn
    atMost := fun h => (Nat.le_add_right ..).trans (hq.atMost h)
    range := fun h hs => hq.range h (ne_of_gt (Nat.add_pos_left (pos_of_ne_zero hs) _)) }

lemma allocate_congr (hb : q'.bounds = q.bounds) (hf : q'.failed = q.failed)
    (hn : q.allocate = none) : q'.allocate = none := by
  simp only [bounds, Prod.mk.injEq] at hb
  obtain ⟨hfe, hv, hbo, hi, ht⟩ := hb
  unfold allocate at hn ⊢
  rw [hf, ht, hfe, hv, hbo, hi]
  cases hh : q.failed with
  | cons h heap => simp [hh] at hn
  | nil =>
    simp only [hh] at hn ⊢
    split at hn
    · rename_i he
      rw [if_pos he]
    rename_i he
    rw [if_neg he]
    split at hn
    · rename_i hfu
      rw [if_pos hfu]
    · simp at hn

lemma Conserves.carried (hq : Conserves out q)
    (hp : ∀ h, q'.places h + hits out' h = q.places h + hits out h) (hb : q'.bounds = q.bounds)
    (hf : q'.failed = q.failed) (hw : q'.waiters = q.waiters)
    (hv : ∀ h, q'.underVerification = some h → h = q'.verifyHeight ∧ q'.verifyCh = false)
    (hn : ∀ h l, q'.pending h = some l → l.block.height = h) : Conserves out' q' :=
  hq.moved hp hb (fun hne => allocate_congr hb hf (hq.parked (hw ▸ hne))) (hf ▸ hq.sorted) hv hn

lemma failed_of_allocate_eq_none (hn : q.allocate = none) : q.failed = [] := by
  unfold allocate at hn
  cases hh : q.failed with
  | nil => rfl
  | cons h heap => simp [hh] at hn

lemma Conserves.requeueHeight (hq : Conserves (some height) q) : Conserves none (q.requeueHeight height) := by
  unfold BlockQueue.requeueHeight
  split
  · exact hq.drop ‹_›
  split
  · rename_i w ws hw
    refine hq.moved (fun h => ?_) rfl (fun _ => ?_) hq.sorted hq.verifier hq.named
    · simp only [places, hand, map_cons, count_cons, underVerification, hits_none, hits_some, beq_iff_eq]
      omega
    · exact allocate_congr (q := q) rfl rfl (hq.parked (by simp [hw]))
  · rename_i hw
    refine hq.moved (fun h => ?_) rfl (absurd hw) (MaxIntHeap.pairwise_push hq.sorted height) hq.verifier hq.named
    simp only [places, MaxIntHeap.count_push, underVerification, hits_none, hits_some]
    omega

lemma Conserves.allocate (hq : Conserves none q)
    (h : q.allocate = some (height, q')) : Conserves (some height) { q' with waiters := [] } := by
  rcases allocate_cases h with ⟨heap, hh, rfl⟩ | ⟨-, -, -, rfl, hr, rfl⟩
  · refine hq.moved (fun h => ?_) rfl (absurd rfl) ?_ hq.verifier hq.named
    · simp only [places, underVerification, hh, count_cons, hits_none, hits_some, beq_iff_eq]
      omega
    · have hs := hq.sorted
      rw [hh] at hs
      exact hs.of_cons
  · have hf : q.places q.fetchHeight = 0 := by
      by_contra hne
      have := (hq.range q.fetchHeight (by simpa using hne)).1
      omega
    refine ⟨fun h hl hhi hn => ?_, fun h => ?_, fun h hso => ?_, ?_, ?_, (absurd rfl), hq.sorted, hq.verifier, hq.named⟩
    · change q.fetchHeight - 1 < h at hl
      change 1 ≤ q.places h + _
      by_cases heq : q.fetchHeight = h
      · simp [heq]
      · simpa [hits_of_ne heq] using hq.one h (by omega) hhi hn
    · change q.places h + _ ≤ 1
      by_cases heq : q.fetchHeight = h
      · rw [← heq, hf, hits_some_self]
      · simpa [hits_of_ne heq] using hq.atMost h
    · change q.fetchHeight - 1 < h ∧ h ≤ q.verifyHeight
      change q.places h + _ ≠ 0 at hso
      have := hq.cursors
      by_cases heq : q.fetchHeight = h
      · omega
      have := hq.range h (by simpa [hits_of_ne heq] using hso)
      omega
    · change q.fetchHeight - 1 ≤ q.verifyHeight
      have := hq.cursors
      omega
    · change q.verifyHeight - (q.fetchHeight - 1) ≤ q.maxFetchAhead
      omega

lemma Conserves.hand (hq : Conserves (some height) q) (w : ι) : Conserves none (q.hand w height) := by
  refine hq.carried (fun h => ?_) rfl rfl rfl hq.verifier hq.named
  simp only [places, BlockQueue.hand, map_cons, count_cons, underVerification, hits_none, hits_some, beq_iff_eq]
  omega

lemma Conserves.setWaiters {out : Option ℤ} (hq : Conserves out q)
    (ws : List ι) (hp : ws ≠ [] → q.allocate = none) : Conserves out { q with waiters := ws } :=
  hq.moved (fun _ => rfl) rfl
    (fun hne => allocate_congr (q := q) rfl rfl (hp hne))
    hq.sorted hq.verifier hq.named

lemma Conserves.nextHeight (hq : Conserves none q) (w : ι) : Conserves none (q.nextHeight w) := by
  unfold BlockQueue.nextHeight
  split
  · rename_i height q' ha
    have hn : q.waiters = [] := by
      by_contra hne
      simp [hq.parked hne] at ha
    have hw : q'.waiters = [] := by
      rcases allocate_cases ha with ⟨heap, -, rfl⟩ | ⟨-, -, -, -, -, rfl⟩ <;> exact hn
    have ho := (hq.allocate ha).hand w
    rwa [← hw] at ho
  · rename_i hno
    exact hq.setWaiters _ fun _ => hno

lemma Conserves.resume (ws : List ι) (hws : q.waiters = ws)
    (hq : Conserves none { q with waiters := [] }) : Conserves none (q.resume ws) := by
  induction ws generalizing q with
  | nil =>
    rwa [← hws] at hq
  | cons w ws ih =>
    unfold resume
    split
    · rename_i hn
      have := hq.setWaiters (w :: ws) fun _ =>
        allocate_congr (q := q) rfl rfl hn
      rwa [← hws] at this
    rename_i height q' ha
    refine ih rfl ?_
    have ha' : BlockQueue.allocate { q with waiters := [] } = some (height, { q' with waiters := [] }) := by
      rcases allocate_cases ha with ⟨heap, hh, rfl⟩ | ⟨hh, ho, hi, rfl, hr, rfl⟩
      · simp [BlockQueue.allocate, hh]
      · simp [BlockQueue.allocate, hh, ho, not_lt.mpr hi, not_le.mpr hr]
    exact (hq.allocate ha').hand w

lemma Conserves.unpend (hq : Conserves none q) (hl : q.pending height = some l) :
    Conserves (some height) { q with pending := update q.pending height none } := by
  refine hq.carried (fun h => ?_) rfl rfl rfl hq.verifier fun h l' hl' => ?_
  · simp only [places, underVerification, hits_none]
    by_cases heq : height = h
    · subst heq
      simp [hl]
      omega
    · simp [hits_of_ne heq, update_of_ne (symm heq)]
  · by_cases heq : h = height
    · simp [heq] at hl'
    · simp only [update_of_ne heq] at hl'
      exact hq.named h l' hl'

lemma Conserves.discard [DecidableEq π] (hq : Conserves none q) (peer : π)
    (height : ℤ) : Conserves none (q.discard peer height) := by
  unfold BlockQueue.discard
  split
  · exact hq
  rename_i resp hr
  split
  · exact (hq.unpend hr).requeueHeight
  · exact hq

section

variable (hq : Conserves (some l.block.height) q)

include hq

lemma Conserves.pend :
    Conserves none { q with pending := update q.pending l.block.height (some l) } := by
  refine hq.carried (fun h => ?_) rfl rfl rfl hq.verifier fun h l' hl' => ?_
  · simp only [places, underVerification, hits_none]
    by_cases heq : l.block.height = h
    · have hf := hq.atMost l.block.height
      subst heq
      simp only [places, hits_some_self] at hf ⊢
      simp only [update_self, isSome_some, Bool.toNat_true, underVerification] at hf ⊢
      omega
    · simp [hits_of_ne heq, update_of_ne (symm heq)]
  · by_cases heq : h = l.block.height
    · subst heq
      simp only [update_self, some.injEq] at hl'
      rw [← hl']
    · simp only [update_of_ne heq] at hl'
      exact hq.named h l' hl'

lemma Conserves.verify (hh : l.block.height = q.verifyHeight)
    (hi : q.underVerification = none) : Conserves none { q with verifyCh := false, verifying := some l } := by
  refine hq.carried (fun h => ?_) rfl rfl rfl (fun h hv => ?_) hq.named
  · simp only [places, hi, hits_none, add_zero]
    rfl
  simp only [underVerification, map_some, some.injEq] at hv
  exact ⟨by rw [← hv, hh], rfl⟩

lemma Conserves.deliver : Conserves none (q.deliver l) := by
  unfold BlockQueue.deliver
  split
  · rename_i hw
    refine hq.verify hw.1 ?_
    cases hv : q.underVerification with
    | none => rfl
    | some h =>
      have := (hq.verifier h hv).2
      simp [hw.2] at this
  · exact hq.pend

end

lemma Conserves.mark (hq : Conserves none q) {b : LightBlock η}
    (hb : ¬ q.BelowTerminal b.height) : Conserves none (q.mark b) := by
  unfold BlockQueue.mark
  split
  · refine { hq with one := fun h hl hhi hn => ?_, parked := fun hne => ?_ }
    · refine hq.one h hl hhi fun ⟨t, ht, hlt⟩ => hn ⟨b, rfl, ?_⟩
      have hle : t.height ≤ b.height := not_lt.mp fun hbt => hb ⟨t, ht, hbt⟩
      exact hlt.trans_le hle
    · have hh := failed_of_allocate_eq_none (hq.parked hne)
      simp [BlockQueue.allocate, hh]
  · exact hq

lemma terminal_deliver (q : BlockQueue η π ι ε) (l : LightBlockResponse η π) : (q.deliver l).terminal = q.terminal := by
  unfold deliver
  split <;> rfl

lemma Conserves.add (hq : Conserves (some l.block.height) q) (ho : q.doneCh = false) : Conserves none (q.add l) := by
  unfold BlockQueue.add
  rw [if_neg (by simp [ho])]
  split
  · exact hq.drop ‹_›
  rename_i hn
  refine hq.deliver.mark ?_
  rwa [BelowTerminal, terminal_deliver]

lemma Conserves.requeue (hq : Conserves (some height) q)
    (ho : q.doneCh = false) : Conserves none (q.requeue height) := by
  unfold BlockQueue.requeue
  rw [if_neg (by simp [ho])]
  exact hq.requeueHeight

lemma Conserves.retry (hq : Conserves (some height) q)
    (ho : (q.retry height).doneCh = false) : Conserves none (q.retry height) := by
  unfold BlockQueue.retry at ho ⊢
  split
  · simp_all
  split
  · exact hq.drop ‹_›
  rename_i hd hn
  rw [if_neg hd, if_neg hn] at ho
  dsimp only at ho ⊢
  split
  · rename_i hs
    simp [if_pos hs, closeChannels] at ho
  have hc : Conserves (some height) { q with retries := q.retries + 1 } :=
    hq.carried (fun _ => rfl) rfl rfl rfl hq.verifier hq.named
  exact hc.requeueHeight

lemma Conserves.verifyNext (hq : Conserves none q)
    (hi : q.verifying = none) (hch : q.verifyCh = false) : Conserves none q.verifyNext := by
  have hn : q.underVerification = none := by rw [underVerification, hi, map_none]
  unfold BlockQueue.verifyNext
  split
  · exact hq
  split
  · rename_i l hl
    have hh := hq.named _ l hl
    have ho : Conserves (some l.block.height) { q with pending := update q.pending q.verifyHeight none } := by
      rw [hh]
      exact hq.unpend hl
    have hve := ho.verify hh hn
    rwa [← hch] at hve
  · refine hq.carried (fun _ => rfl) rfl rfl rfl (fun h hv => ?_) hq.named
    change q.underVerification = some h at hv
    simp [hn] at hv

lemma Conserves.release (hq : Conserves none q)
    (hh : q.underVerification = some height) : Conserves (some height) q.release := by
  refine hq.carried (fun h => ?_) rfl rfl rfl (fun h hv => ?_) hq.named
  · simp only [places, hh, hits_none]
    simp only [BlockQueue.release, underVerification, map_none, hits_none, add_zero]
  · simp [BlockQueue.release, underVerification] at hv

lemma Conserves.giveBack [DecidableEq ι] {w : ι} (hq : Conserves none q) (hm : (w, height) ∈ q.handed) :
    Conserves (some height) (q.giveBack w height) := by
  refine hq.carried (fun h => ?_) rfl rfl rfl hq.verifier hq.named
  have hp := ((perm_cons_erase hm).map Prod.snd).count_eq h
  rw [map_cons, count_cons] at hp
  simp only [places, BlockQueue.giveBack, underVerification, hits_none, hits_some, beq_iff_eq] at hp ⊢
  omega

lemma Conserves.success (hq : Conserves (some q.verifyHeight) q) (hi : q.verifying = none)
    (ho : ¬ ∃ t ∈ q.terminal, q.verifyHeight = t.height) : Conserves none q.success := by
  unfold BlockQueue.success
  rw [if_neg ho]
  refine resume _ rfl ?_
  have ht := hq.range q.verifyHeight (by simp)
  have hg : q.places q.verifyHeight = 0 := by
    have := hq.atMost q.verifyHeight
    rw [hits_some_self] at this
    omega
  refine ⟨fun h hl hh hn => ?_, fun h => ?_, fun h hs => ?_, ?_, ?_, (absurd rfl), hq.sorted, fun h hv => ?_, hq.named⟩
  · change h ≤ q.verifyHeight - 1 at hh
    have hne : q.verifyHeight ≠ h := by omega
    have := hq.one h hl (by omega) hn
    rwa [hits_of_ne hne] at this
  · have := hq.atMost h
    change q.places h + 0 ≤ 1
    omega
  · change q.places h + 0 ≠ 0 at hs
    change q.fetchHeight < h ∧ h ≤ q.verifyHeight - 1
    have hr := hq.range h (by omega)
    have hne : h ≠ q.verifyHeight := fun heq => hs (by rw [heq, hg])
    omega
  · change q.fetchHeight ≤ q.verifyHeight - 1
    omega
  · change q.verifyHeight - 1 - q.fetchHeight ≤ q.maxFetchAhead
    have := hq.ahead
    omega
  · simp [underVerification, hi] at hv

end Places

/-! ### Runs conserve the heights -/

omit [DecidableEq ι] [DecidableEq π] in
lemma conserves_new (startHeight stopHeight initialHeight stopTime maxRetries maxFetchAhead : ℤ) :
    Conserves none (newBlockQueue startHeight stopHeight initialHeight stopTime maxRetries
      maxFetchAhead : BlockQueue η π ι ε) where
  one h hlo hh _ := by
    change startHeight < h at hlo
    change h ≤ startHeight at hh
    omega
  atMost h := by simp [places, newBlockQueue, underVerification]
  range h hs := by simp [places, newBlockQueue, underVerification] at hs
  cursors := le_rfl
  ahead := by simp [newBlockQueue]
  parked hne := absurd rfl hne
  sorted := List.Pairwise.nil
  verifier h hv := by simp [newBlockQueue, underVerification] at hv
  named h l hl := by simp [newBlockQueue] at hl

variable {q : BlockQueue η π ι ε}

lemma Conserves.step {op : Op η π ι ε} (hq : Conserves none q)
    (hop : q.Disciplined op) (ho : (q.step op).doneCh = false) : Conserves none (q.step op) := by
  have hqo : q.doneCh = false := by
    by_contra hd
    simp [doneCh_step (by simpa using hd) op] at ho
  have hj (hs : q.verifying.isSome) : ∃ height, q.underVerification = some height := by
    rwa [← isSome_iff_exists, underVerification, isSome_map]
  cases op with
  | nextHeight w => exact hq.nextHeight w
  | add w l => exact (hq.giveBack hop).add hqo
  | retry w height => exact (hq.giveBack hop).retry ho
  | requeue w height => exact (hq.giveBack hop).requeue hqo
  | discardPeer order peer =>
    simp only [BlockQueue.step, discardPeer, hqo, Bool.false_eq_true, if_false]
    clear hop ho hqo hj
    induction order generalizing q with
    | nil => exact hq
    | cons height order ih => exact ih (hq.discard peer height)
  | verifyNext => exact hq.verifyNext hop.1 hop.2
  | success =>
    have hh : q.underVerification = some q.verifyHeight := by
      obtain ⟨height, hs⟩ := hj hop
      rw [hs, (hq.verifier _ hs).1]
    refine (hq.release hh).success rfl fun hl => ?_
    have hd := (success_sameEnd q.release).doneCh
    rw [decide_eq_true hl, Bool.or_true] at hd
    exact Bool.false_ne_true (ho.symm.trans hd)
  | rejected =>
    obtain ⟨height, hs⟩ := hj hop
    simp only [BlockQueue.step, hs, elim_some] at ho ⊢
    exact (hq.release hs).retry ho
  | refused =>
    obtain ⟨height, hs⟩ := hj hop
    simp only [BlockQueue.step, hs, elim_some] at ho ⊢
    exact (hq.release hs).requeue hqo
  | fail err => simp [BlockQueue.step, fail, hqo, closeChannels] at ho
  | close => simp [BlockQueue.step, close, closeChannels] at ho

open Lib.Run in
/-- **Every run.** The heights are conserved in every state of a disciplined run, until the queue is
done. -/
theorem run_conserves {ops : List (Op η π ι ε)} (hq : Conserves none q) (hr : Admitted step Disciplined q ops)
    (ho : (run step q ops).doneCh = false) : Conserves none (run step q ops) := by
  have hk : ∀ (q : BlockQueue η π ι ε) op, (q.doneCh = false → Conserves none q) →
      q.Disciplined op → (q.step op).doneCh = false → Conserves none (q.step op) := by
    intro q op hq hop ho
    have hqo : q.doneCh = false := by
      by_contra hd
      simp [doneCh_step (by simpa using hd) op] at ho
    exact (hq hqo).step hop ho
  exact hr.invariant hk (fun _ => hq) ho

def GreatestFirst (q : BlockQueue η π ι ε) : Prop :=
  ∀ height q', q.failed ≠ [] → q.allocate = some (height, q') → ∀ h ∈ q.failed, h ≤ height

omit [DecidableEq ι] [DecidableEq π] in
lemma Conserves.greatest_first_iff (hq : Conserves none q) : q.GreatestFirst ↔ q.failed.length ≤ 1 := by
  unfold GreatestFirst
  cases hh : q.failed with
  | nil => simp
  | cons a heap =>
    have hs := hq.sorted
    rw [hh, pairwise_cons] at hs
    constructor
    · intro hg
      cases hr : heap with
      | nil => simp
      | cons b rest =>
        -- then the two first heights are the same, and it is in two places
        have ha : q.allocate = some (a, { q with failed := heap }) := by simp [BlockQueue.allocate, hh]
        have hba : b ≤ a := hg a _ (by simp) ha b (by simp [hr])
        have hab : a ≤ b := hs.1 b (by simp [hr])
        have ht := hq.atMost a
        simp only [places, hh, hr, le_antisymm hba hab, count_cons_self] at ht
        omega
    · intro hl height q' _ ha h hm
      have hr : heap = [] := eq_nil_of_length_eq_zero (by simpa using hl)
      simp only [BlockQueue.allocate, hh, some.injEq, Prod.mk.injEq] at ha
      simp only [hr, mem_singleton] at hm
      exact (hm.trans ha.1).le

noncomputable def outstanding (q : BlockQueue η π ι ε) : Finset ℤ :=
  (Finset.Ioc q.fetchHeight q.verifyHeight).filter fun h => ¬ q.BelowTerminal h

omit [DecidableEq ι] [DecidableEq π] in
lemma Conserves.card_outstanding (hq : Conserves none q) : (q.outstanding.card : ℤ) ≤ q.maxFetchAhead := by
  have hc : q.outstanding.card ≤ (q.verifyHeight - q.fetchHeight).toNat := by
    rw [← Int.card_Ioc]
    exact Finset.card_filter_le ..
  have := hq.ahead
  have := hq.cursors
  omega

open Lib.Run in
/-- **Conservation and order.** In every state of a run before the queue is done: every outstanding
height is in one place; there are no more of them than may be fetched ahead; nobody is parked who could
be served; and the greatest of the failed heights is handed out first exactly when there are not two. -/
theorem heights_conserved
    (startHeight stopHeight initialHeight stopTime maxRetries maxFetchAhead : ℤ)
    (ops : List (Op η π ι ε))
    (hrun : Admitted step Disciplined
      (newBlockQueue startHeight stopHeight initialHeight stopTime maxRetries maxFetchAhead) ops)
    (q : BlockQueue η π ι ε)
    (hq : q = run step (newBlockQueue startHeight stopHeight initialHeight stopTime maxRetries maxFetchAhead) ops)
    (hopen : q.doneCh = false) :
    (∀ h ∈ q.outstanding, q.places h = 1) ∧ (q.outstanding.card : ℤ) ≤ q.maxFetchAhead ∧
      (q.waiters ≠ [] → q.allocate = none) ∧ (q.GreatestFirst ↔ q.failed.length ≤ 1) := by
  subst hq
  have hq := run_conserves (conserves_new startHeight stopHeight initialHeight stopTime maxRetries
    maxFetchAhead) hrun hopen
  refine ⟨fun h hm => ?_, hq.card_outstanding, hq.parked, hq.greatest_first_iff⟩
  simp only [outstanding, Finset.mem_filter, Finset.mem_Ioc] at hm
  exact le_antisymm (hq.atMost h) (hq.one h hm.1.1 hm.1.2 hm.2)

def bothFail : List (Op ℕ ℕ ℕ ℕ) := [.nextHeight 0, .nextHeight 1, .retry 1 4, .retry 0 5]

def fromFive : BlockQueue ℕ ℕ ℕ ℕ := newBlockQueue 5 1 1 0 10 8

open Lib.Run in
/-- The verifier waits for height 5, and height 4 is fetched first. -/
theorem least_height_first :
    Admitted step Disciplined fromFive bothFail ∧ (run step fromFive bothFail).doneCh = false ∧
      (run step fromFive bothFail).verifyHeight = 5 ∧ (run step fromFive bothFail).failed = [4, 5] ∧
      (run step fromFive (bothFail ++ [.nextHeight 2])).handed = [(2, 4)] ∧
      (run step fromFive (bothFail ++ [.nextHeight 2])).failed = [5] := by
  decide +kernel

open Lib.Run in
theorem fromFive_conserved :
    (∀ h ∈ (run step fromFive bothFail).outstanding, (run step fromFive bothFail).places h = 1) ∧
      ((run step fromFive bothFail).outstanding.card : ℤ) ≤ (run step fromFive bothFail).maxFetchAhead ∧
      ((run step fromFive bothFail).waiters ≠ [] → (run step fromFive bothFail).allocate = none) ∧
      ((run step fromFive bothFail).GreatestFirst ↔ (run step fromFive bothFail).failed.length ≤ 1) :=
  heights_conserved 5 1 1 0 10 8 bothFail (by decide +kernel) _ rfl (by decide +kernel)

end BlockQueue

end Tenderdash.Statesync
