import Tenderdash.Lib.Run

/-!
The rolling list of peers in `internal/statesync`, and the gate through which the fetchers of a backfill run take peers
from it. The steps are the critical sections of the two locks; a call of `Pop` on an empty list registers a channel and
waits outside.

A `Pop` that gives up leaves its channel registered, and the next peer is sent to it.
-/

namespace Tenderdash.Statesync

open Lib.Run List Prod Nat

/-- The list and the calls of `Pop`, which are numbered: what each was handed, and which of them have returned it or
given up. All that was appended and all that `Remove` took out is recorded. -/
structure PeerList (π : Type) where
  peers : List π := []
  waiting : List ℕ := []
  taken : ℕ := 0
  pops : ℕ := 0
  handed : List (ℕ × π) := []
  returned : List ℕ := []
  cancelled : List ℕ := []
  appended : List π := []
  removed : List π := []

namespace PeerList

variable {π : Type} [DecidableEq π] (l : PeerList π)

inductive Op (π : Type) where
  | pop
  /-- A waiting `Pop` receives its peer. -/
  | receive (call : ℕ)
  /-- The context of a waiting `Pop` ends. -/
  | cancel (call : ℕ)
  | append (peer : π)
  | remove (peer : π)

def append (peer : π) : PeerList π :=
  match l.waiting with
  | call :: rest =>
    { l with waiting := rest, taken := l.taken + 1, handed := (call, peer) :: l.handed, appended := peer :: l.appended }
  | [] => { l with peers := l.peers ++ [peer], appended := peer :: l.appended }

def remove (peer : π) : PeerList π :=
  if peer ∈ l.peers then { l with peers := l.peers.erase peer, removed := peer :: l.removed } else l

def selects (call : ℕ) : Bool := call < l.pops ∧ call ∉ l.returned ∧ call ∉ l.cancelled

def step : Op π → PeerList π
  | .pop => match l.peers with
    | [] => { l with waiting := l.waiting ++ [l.pops], pops := l.pops + 1 }
    | peer :: rest =>
      { l with peers := rest, taken := l.taken + 1, handed := (l.pops, peer) :: l.handed
               returned := l.pops :: l.returned, pops := l.pops + 1 }
  | .receive call =>
    if l.selects call ∧ call ∈ l.handed.map Prod.fst then { l with returned := call :: l.returned } else l
  | .cancel call => if l.selects call then { l with cancelled := call :: l.cancelled } else l
  | .append peer => l.append peer
  | .remove peer => l.remove peer

structure Sound (l : PeerList π) : Prop where
  kept : l.appended ~ l.peers ++ (l.removed ++ l.handed.map Prod.snd)
  once : (l.handed.map Prod.fst ++ l.waiting).Nodup
  made : ∀ call ∈ l.handed.map Prod.fst ++ l.waiting, call < l.pops
  taken : l.taken = l.handed.length

variable {l}

omit [DecidableEq π] in
lemma Sound.append (h : Sound l) (peer : π) : Sound (l.append peer) := by
  unfold PeerList.append
  split
  · next call rest hw =>
    have hp : l.handed.map fst ++ l.waiting ~ call :: (l.handed.map fst ++ rest) := hw ▸ perm_middle
    refine ⟨(h.kept.cons peer).trans ?_, hp.nodup_iff.mp h.once, fun c hc => h.made c (hp.mem_iff.mpr hc), by simp [h.taken]⟩
    simp only [map_cons]
    exact perm_middle.symm.trans (perm_middle.symm.append_left l.peers)
  · refine { h with kept := (h.kept.cons peer).trans ?_ }
    rw [append_assoc]
    exact perm_middle.symm

lemma Sound.remove (h : Sound l) (peer : π) : Sound (l.remove peer) := by
  unfold PeerList.remove
  split
  · next hp =>
    refine { h with kept := h.kept.trans (((perm_cons_erase hp).append_right _).trans ?_) }
    exact perm_middle.symm
  · exact h

lemma Sound.step (h : Sound l) (op : Op π) : Sound (l.step op) := by
  cases op with
  | append peer => exact h.append peer
  | remove peer => exact h.remove peer
  | receive call =>
    simp only [PeerList.step]
    split_ifs
    · exact { h with }
    · exact h
  | cancel call =>
    simp only [PeerList.step]
    split_ifs
    · exact { h with }
    · exact h
  | pop =>
    have hn : l.pops ∉ l.handed.map fst ++ l.waiting := fun hm => absurd (h.made _ hm) (lt_irrefl _)
    simp only [PeerList.step]
    split
    · refine ⟨h.kept, ?_, fun c hc => ?_, h.taken⟩
      · rw [← append_assoc]
        exact h.once.append (nodup_singleton _) (by simpa using hn)
      · rw [← append_assoc, mem_append, mem_singleton] at hc
        rcases hc with hc | rfl
        · exact (h.made c hc).trans (lt_succ_self _)
        · exact lt_succ_self _
    · next peer rest hp =>
      refine ⟨h.kept.trans ?_, nodup_cons.mpr ⟨hn, h.once⟩, fun c hc => ?_, by simp [h.taken]⟩
      · rw [hp]
        simp only [map_cons, cons_append]
        exact perm_middle.symm.trans (perm_middle.symm.append_left rest)
      · rcases mem_cons.mp hc with rfl | hc
        · exact lt_succ_self _
        · exact (h.made c hc).trans (lt_succ_self _)

lemma sound_run (ops : List (Op π)) : Sound (run PeerList.step ({} : PeerList π) ops) :=
  run_invariant (P := Sound) (fun _ op h => h.step op) ops ⟨.refl _, nodup_nil, by simp, rfl⟩

end PeerList

/-! ### The gate of a run -/

/-- `backfillDispatch` with its list, and the run's books: the first of its calls of `Pop`, those whose peer was
acquired, and the peers that are fetched from. `pending` is what the holder of the gate's lock has still to do with the
list: append or remove a peer. -/
structure BackfillDispatch (π ε : Type) where
  list : PeerList π
  accounted : ℕ
  firstPop : ℕ
  quarantined : List π := []
  inFlight : ℤ := 0
  stallReason : Option ε := none
  pending : Option (Bool × π) := none
  acquired : List ℕ := []
  fetching : List π := []

namespace BackfillDispatch

variable {π ε : Type} [DecidableEq π] (d : BackfillDispatch π ε)

inductive Event (π ε : Type) where
  | list (op : PeerList.Op π)
  /-- A fetcher of the run acquires the peer its `Pop` returned. -/
  | acquire (call : ℕ)
  | release (peer : π) (reuse : Bool)
  | quarantine (peer : π) (reason : ε)
  /-- The pending change of the list, after which the lock is free. -/
  | finish

def newBackfillDispatch (peers : PeerList π) : BackfillDispatch π ε :=
  { list := peers, accounted := peers.taken, firstPop := peers.pops }

def acquire (peer : π) : Bool := peer ∉ d.quarantined

def step : Event π ε → BackfillDispatch π ε
  | .list op => { d with list := d.list.step op }
  | .acquire call =>
    match d.list.handed.find? (·.1 = call) with
    | none => d
    | some (_, peer) =>
      if d.pending.isSome ∨ call < d.firstPop ∨ call ∉ d.list.returned ∨ call ∈ d.acquired then d
      else
        let d := { d with accounted := d.accounted + 1, acquired := call :: d.acquired }
        if d.acquire peer then { d with inFlight := d.inFlight + 1, fetching := peer :: d.fetching } else d
  | .release peer reuse =>
    if d.pending.isSome ∨ peer ∉ d.fetching then d
    else
      { d with inFlight := d.inFlight - 1, fetching := d.fetching.erase peer
               pending := if peer ∈ d.quarantined ∨ reuse = false then none else some (true, peer) }
  | .quarantine peer reason =>
    if d.pending.isSome then d
    else
      { d with quarantined := peer :: d.quarantined, stallReason := d.stallReason.orElse fun _ => some reason
               pending := some (false, peer) }
  | .finish =>
    match d.pending with
    | none => d
    | some (true, peer) => { d with list := d.list.append peer, pending := none }
    | some (false, peer) => { d with list := d.list.remove peer, pending := none }

/-- `stalled` needs the lock. -/
def stalled : Option ε :=
  if d.pending.isSome ∨ d.inFlight > 0 ∨ d.list.peers ≠ [] ∨ d.list.taken ≠ d.accounted then none else d.stallReason

structure Counted (start : PeerList π) (d : BackfillDispatch π ε) : Prop where
  sound : d.list.Sound
  since : ∃ new, d.list.handed = new ++ start.handed ∧ d.acquired ⊆ new.map Prod.fst
  firstPop : d.firstPop = start.pops
  once : d.acquired.Nodup
  accounted : d.accounted = start.taken + d.acquired.length
  inFlight : d.inFlight = d.fetching.length
  barred : ∀ peer, d.pending = some (true, peer) → peer ∉ d.quarantined

variable {d} {start : PeerList π}

section

omit [DecidableEq π]

lemma Counted.list (h : Counted start d) {l : PeerList π} (hl : l.Sound)
    (hh : ∃ new, l.handed = new ++ d.list.handed) : Counted start { d with list := l, pending := none } := by
  obtain ⟨new, hn, ha⟩ := h.since
  obtain ⟨more, hm⟩ := hh
  refine { h with sound := hl, since := ⟨more ++ new, by rw [hm, hn, append_assoc], ?_⟩, barred := fun _ hp => by cases hp }
  exact fun c hc => by simpa using .inr (by simpa using ha hc)

lemma handed_append (l : PeerList π) (peer : π) : ∃ new, (l.append peer).handed = new ++ l.handed := by
  unfold PeerList.append
  split
  · exact ⟨[_], rfl⟩
  · exact ⟨[], rfl⟩

end

lemma handed_remove (l : PeerList π) (peer : π) : ∃ new, (l.remove peer).handed = new ++ l.handed := by
  unfold PeerList.remove
  split_ifs <;> exact ⟨[], rfl⟩

lemma handed_step (l : PeerList π) (op : PeerList.Op π) : ∃ new, (l.step op).handed = new ++ l.handed := by
  cases op with
  | append peer => exact handed_append l peer
  | remove peer => exact handed_remove l peer
  | pop =>
    simp only [PeerList.step]
    split
    · exact ⟨[], rfl⟩
    · exact ⟨[_], rfl⟩
  | receive call | cancel call =>
    simp only [PeerList.step]
    split_ifs <;> exact ⟨[], rfl⟩

lemma Counted.step (hs : start.Sound) (h : Counted start d) (e : Event π ε) : Counted start (d.step e) := by
  cases e with
  | list op =>
    have := h.list (h.sound.step op) (handed_step d.list op)
    exact { this with barred := h.barred }
  | acquire call =>
    simp only [BackfillDispatch.step]
    split
    · exact h
    next c peer hf =>
    split_ifs with hg hq
    · exact h
    all_goals
      obtain ⟨hm, rfl⟩ : (c, peer) ∈ d.list.handed ∧ c = call := ⟨mem_of_find?_eq_some hf, by simpa using find?_some hf⟩
      push Not at hg
      obtain ⟨new, hn, ha⟩ := h.since
      have hc : c ∈ new.map fst := by
        rw [hn, mem_append] at hm
        rcases hm with hm | hm
        · exact mem_map_of_mem hm
        · have := hs.made c (mem_append_left _ (mem_map_of_mem hm))
          have := h.firstPop
          omega
      have hn' : Counted start { d with accounted := d.accounted + 1, acquired := c :: d.acquired } :=
        { h with
          since := ⟨new, hn, cons_subset.mpr ⟨hc, ha⟩⟩
          once := nodup_cons.mpr ⟨hg.2.2.2, h.once⟩
          accounted := by simp [h.accounted, add_assoc] }
    · exact { hn' with inFlight := by simp [h.inFlight] }
    · exact hn'
  | release peer reuse =>
    simp only [BackfillDispatch.step]
    split_ifs with hg hq
    · exact h
    all_goals
      push Not at hg
      have hf : d.inFlight - 1 = (d.fetching.erase peer).length := by
        have := length_pos_of_mem hg.2
        rw [length_erase_of_mem hg.2, h.inFlight]
        omega
    · exact { h with inFlight := hf, barred := fun _ hp => by cases hp }
    · refine { h with inFlight := hf, barred := fun q hp => ?_ }
      cases hp
      exact fun hm => hq (.inl hm)
  | quarantine peer reason =>
    simp only [BackfillDispatch.step]
    split_ifs
    · exact h
    · exact { h with barred := fun _ hp => by cases hp }
  | finish =>
    simp only [BackfillDispatch.step]
    split
    · exact h
    · exact h.list (h.sound.append _) (handed_append d.list _)
    · exact h.list (h.sound.remove _) (handed_remove d.list _)

lemma quarantined_step (d : BackfillDispatch π ε) (e : Event π ε) : d.quarantined ⊆ (d.step e).quarantined := by
  cases e with
  | list | finish | release | acquire =>
    simp only [BackfillDispatch.step]
    (repeat' split) <;> exact Subset.refl _
  | quarantine peer reason =>
    simp only [BackfillDispatch.step]
    split_ifs
    · exact Subset.refl _
    · exact subset_cons_self _ _

/-- **Stall detection and quarantine.** A run starts on a list at any point of its life. Whenever `stalled` gives a
reason, the list is empty, every peer handed out since the start has been acquired, and no fetch is outstanding. A peer
that was quarantined is not acquired later, and no release is about to append it. -/
theorem stalled_sound (before : List (PeerList.Op π)) (events later : List (Event π ε)) :
    let start := run PeerList.step {} before
    let d := run step (newBackfillDispatch start) events
    let d' := run step d later
    (∀ reason, d.stalled = some reason → d.list.peers = [] ∧ d.fetching = [] ∧
      ∀ handed ∈ d.list.handed, handed ∈ start.handed ∨ handed.1 ∈ d.acquired) ∧
      ∀ peer ∈ d.quarantined, d'.acquire peer = false ∧ d'.pending ≠ some (true, peer) := by
  intro start d d'
  have hs : start.Sound := PeerList.sound_run before
  have hd : Counted start d := run_invariant (P := Counted start) (fun _ e h => h.step hs e) events
    ⟨hs, ⟨[], rfl, nil_subset _⟩, rfl, nodup_nil, rfl, rfl, fun _ hp => by cases hp⟩
  have hd' : Counted start d' := run_invariant (P := Counted start) (fun _ e h => h.step hs e) later hd
  have hq : d.quarantined ⊆ d'.quarantined := run_invariant (P := fun s => d.quarantined ⊆ s.quarantined)
    (fun s e h => Subset.trans h (quarantined_step s e)) later (Subset.refl _)
  refine ⟨fun reason hr => ?_, fun peer hp => ⟨by simpa [acquire] using hq hp, fun hpe => hd'.barred peer hpe (hq hp)⟩⟩
  unfold stalled at hr
  split_ifs at hr with hg
  push Not at hg
  obtain ⟨new, hn, ha⟩ := hd.since
  have hl := hd.sound.taken
  have hi := hd.inFlight
  have hc := hd.accounted
  have ht := hs.taken
  rw [hn, length_append] at hl
  refine ⟨hg.2.2.1, length_eq_zero_iff.mp (by omega), fun handed hh => ?_⟩
  rw [hn, mem_append] at hh
  rcases hh with hh | hh
  · -- as many were acquired as were handed out
    have hp := (subperm_of_subset hd.once ha).perm_of_length_le (by rw [length_map]; omega)
    exact .inr (hp.mem_iff.mpr (mem_map_of_mem hh))
  · exact .inl hh

end BackfillDispatch

end Tenderdash.Statesync
