import Tenderdash.Lib.Run
import Tenderdash.Lib.Wire

/-!
The pool of advertised snapshots in `internal/statesync`. A peer advertises a snapshot with `Add`, which may evict
snapshots of peers that hold more; `Ranked` sorts the snapshots that more than the median number of peers have, and
then the others, each group by one comparison.

Room is made by evicting one snapshot after the other, before it is known whether enough can be evicted. The comparison
has no case for fewer peers.
-/

namespace Tenderdash.Statesync

open Lib Function List

def maxSnapshotBytes : ℤ := 64 * 1024 * 1024

def maxPeerSnapshotBytes : ℤ := 40000000

def maxSnapshots : ℕ := 1024

def recentSnapshots : ℕ := 10

def maxSnapshotAssociations : ℤ := maxSnapshots * recentSnapshots

/-- Byte strings: the pool reads their length, and their content in the key only. -/
class ByteString (β : Type) where
  len : β → ℕ

instance byteStringBytes : ByteString Bytes := ⟨length⟩

instance byteStringLength : ByteString ℕ := ⟨id⟩

structure Snapshot (β : Type) where
  height : ℕ
  version : ℕ
  hash : β
  metadata : β
  deriving DecidableEq, Repr

def Snapshot.size {β : Type} [ByteString β] (s : Snapshot β) : ℕ := ByteString.len s.hash + ByteString.len s.metadata

/-- A snapshot in the pool. The number of its admission stands for its address and is what `admitted` records. -/
structure Pooled (β κ : Type) where
  key : κ
  snapshot : Snapshot β
  id : ℕ
  deriving DecidableEq, Repr

/-- The maps by key, peer and address. Reading a missing entry of a map gives the zero value. -/
structure SnapshotPool (β κ : Type) where
  snapshots : List (Pooled β κ) := []
  snapshotPeers : κ → List String := fun _ => []
  peerIndex : String → List κ := fun _ => []
  formatBlacklist : List ℕ := []
  peerBlacklist : List String := []
  snapshotBlacklist : List κ := []
  retainedBytes : ℤ := 0
  peerBytes : String → ℤ := fun _ => 0
  associations : ℤ := 0
  keys : List ℕ := []
  active : Option (Pooled β κ) := none
  sequence : ℕ := 0

namespace SnapshotPool

variable {β κ : Type} (p : SnapshotPool β κ)

def pinned (s : Pooled β κ) : Bool := p.active.map (·.id) = some s.id

/-- A candidate of the scan for the richest owner's oldest snapshot; the weight of a snapshot is that of its poorest
owner. -/
def scan (weight : String → ℤ) (best : ℤ × Option (Pooled β κ)) (candidate : Pooled β κ) : ℤ × Option (Pooled β κ) :=
  if p.pinned candidate then best
  else
    let minimum := ((p.snapshotPeers candidate.key).map weight).foldl min (2 ^ 63 - 1)
    if minimum > best.1 ∨ (minimum = best.1 ∧ best.2.any fun victim => candidate.id < victim.id) then
      (minimum, some candidate)
    else best

/-- The victim of a round of `makeRoom`, if any owner is richer than the peer. -/
def victim (peer : String) (size : ℕ) : Option (Pooled β κ) :=
  let weight := fun peer =>
    if p.retainedBytes + size > maxSnapshotBytes then p.peerBytes peer else ((p.peerIndex peer).length : ℤ)
  (p.snapshots.foldl (p.scan weight) (weight peer, none)).2

def crowded (size count : ℕ) : Bool :=
  p.retainedBytes + size > maxSnapshotBytes ∨ p.keys.length + count > maxSnapshots ∨
    p.associations + 1 > maxSnapshotAssociations

variable {p} {v : Pooled β κ}

lemma mem_of_victim {peer : String} {size : ℕ} (h : p.victim peer size = some v) : v ∈ p.snapshots := by
  have hf : ∀ (weight : String → ℤ) (l : List (Pooled β κ)) (best : ℤ × Option (Pooled β κ)),
      (l.foldl (p.scan weight) best).2 = some v → v ∈ l ∨ best.2 = some v := by
    intro weight l
    induction l with
    | nil => exact fun _ h => .inr h
    | cons candidate l ih =>
      intro best h
      rcases ih _ h with h | h
      · exact .inl (mem_cons_of_mem _ h)
      unfold scan at h
      dsimp only at h
      split_ifs at h
      · exact .inr h
      · cases h
        exact .inl mem_cons_self
      · exact .inr h
  rcases hf _ _ _ h with h | h
  · exact h
  · cases h

variable [ByteString β] [DecidableEq κ] (key : Snapshot β → κ)

def find (key : κ) (p : SnapshotPool β κ) : Option (Pooled β κ) := p.snapshots.find? (·.key = key)

/-- The payload of the pinned snapshot stays in the budget. -/
def removeSnapshot (key : κ) (p : SnapshotPool β κ) : SnapshotPool β κ :=
  match p.find key with
  | none => p
  | some s =>
    let size : ℤ := s.snapshot.size
    let owners := p.snapshotPeers key
    { p with
      retainedBytes := if p.pinned s then p.retainedBytes else p.retainedBytes - size
      keys := if p.pinned s then p.keys else p.keys.erase s.id
      snapshots := p.snapshots.filter (·.key ≠ key)
      snapshotPeers := update p.snapshotPeers key []
      peerIndex := fun peer => if peer ∈ owners then (p.peerIndex peer).erase key else p.peerIndex peer
      peerBytes := fun peer =>
        if peer ∈ owners then if (p.peerIndex peer).erase key = [] then 0 else p.peerBytes peer - size
        else p.peerBytes peer
      associations := p.associations - owners.length }

lemma removeSnapshot_of_mem (hv : v ∈ p.snapshots) :
    (p.removeSnapshot v.key).snapshots.length < p.snapshots.length ∧
      ∀ peer, (p.removeSnapshot v.key).peerIndex peer ⊆ p.peerIndex peer := by
  obtain ⟨s, hs⟩ : ∃ s, p.find v.key = some s := Option.isSome_iff_exists.mp (find?_isSome.mpr ⟨v, hv, by simp⟩)
  rw [removeSnapshot, hs]
  refine ⟨length_filter_lt_length_iff_exists.mpr ⟨v, hv, by simp⟩, fun peer => ?_⟩
  dsimp only
  split_ifs
  · exact erase_subset
  · exact Subset.refl _

/-- The pool it leaves, and whether there is room. -/
def makeRoom (peer : String) (size count : ℕ) (p : SnapshotPool β κ) : SnapshotPool β κ × Bool :=
  if p.crowded size count then
    match _h : p.victim peer size with
    | none => (p, false)
    | some v => makeRoom peer size count (p.removeSnapshot v.key)
  else (p, true)
termination_by p.snapshots.length
decreasing_by exact (removeSnapshot_of_mem (mem_of_victim _h)).1

/-- The checks of `Add` before room is made. -/
def admissible (peer : String) (s : Snapshot β) (p : SnapshotPool β κ) : Bool :=
  ByteString.len s.hash ≠ 0 ∧ s.version ∉ p.formatBlacklist ∧ peer ∉ p.peerBlacklist ∧
    (p.peerIndex peer).length < recentSnapshots ∧ (s.size : ℤ) ≤ maxPeerSnapshotBytes - p.peerBytes peer ∧
    key s ∉ p.snapshotBlacklist ∧ key s ∉ p.peerIndex peer

/-- The room that `Add` asks for: none for a snapshot that is in the pool. -/
def roomFor (s : Snapshot β) (p : SnapshotPool β κ) : ℕ × ℕ :=
  if (p.find (key s)).isSome then (0, 0) else (s.size, 1)

/-- `Add`, with the key of a snapshot. -/
def add (p : SnapshotPool β κ) (peer : String) (s : Snapshot β) : SnapshotPool β κ × Bool :=
  if p.admissible key peer s then
    match p.makeRoom peer (p.roomFor key s).1 (p.roomFor key s).2 with
    | (p, false) => (p, false)
    | (p, true) =>
      let p := { p with
        peerBytes := update p.peerBytes peer (p.peerBytes peer + s.size)
        associations := p.associations + 1
        snapshotPeers := update p.snapshotPeers (key s) (peer :: p.snapshotPeers (key s))
        peerIndex := update p.peerIndex peer (key s :: p.peerIndex peer) }
      if (p.find (key s)).isSome then (p, false)
      else
        ({ p with
          snapshots := p.snapshots ++ [⟨key s, s, p.sequence + 1⟩]
          keys := p.keys ++ [p.sequence + 1]
          retainedBytes := p.retainedBytes + s.size
          sequence := p.sequence + 1 }, true)
  else (p, false)

/-! ### Refused advertisements -/

/-- `Add` neither admits the snapshot nor enters it for the peer. -/
def Refuses (p : SnapshotPool β κ) (peer : String) (s : Snapshot β) : Prop :=
  (p.add key peer s).2 = false ∧ (key s ∈ (p.add key peer s).1.peerIndex peer → key s ∈ p.peerIndex peer)

lemma makeRoom_spec (peer : String) (size count : ℕ) (p : SnapshotPool β κ) :
    (∀ q, (p.makeRoom peer size count).1.peerIndex q ⊆ p.peerIndex q) ∧
      (p.makeRoom peer size count = (p, true) ∨ p.makeRoom peer size count = (p, false) ∧ p.victim peer size = none ∨
        (p.makeRoom peer size count).1.snapshots.length < p.snapshots.length ∧ p.victim peer size ≠ none) := by
  fun_induction makeRoom peer size count p with
  | case1 p _ hn => exact ⟨fun _ => Subset.refl _, .inr (.inl ⟨rfl, hn⟩)⟩
  | case2 p _ v hv ih =>
    obtain ⟨hl, hi⟩ := removeSnapshot_of_mem (mem_of_victim hv)
    refine ⟨fun q => Subset.trans (ih.1 q) (hi q), .inr (.inr ⟨?_, by simp [hv]⟩)⟩
    rcases ih.2 with h | ⟨h, -⟩ | ⟨h, -⟩
    · rwa [h]
    · rwa [h]
    · exact h.trans hl
  | case3 p => exact ⟨fun _ => Subset.refl _, .inl rfl⟩

def advertised (ads : List (String × Snapshot ℕ)) : SnapshotPool ℕ ℕ :=
  ads.foldl (fun p ad => (p.add Snapshot.version ad.1 ad.2).1) {}

omit [ByteString β] [DecidableEq κ]

def numPeers (p : SnapshotPool β κ) (s : Pooled β κ) : ℕ := (p.snapshotPeers s.key).length

/-- The comparison of `sorterFactory`. -/
def less (p : SnapshotPool β κ) (a b : Pooled β κ) : Bool :=
  if a.snapshot.height > b.snapshot.height then true
  else if a.snapshot.height < b.snapshot.height then false
  else if p.numPeers a > p.numPeers b then true
  else a.snapshot.version > b.snapshot.version

def median (p : SnapshotPool β κ) : ℕ :=
  let counts := (p.snapshots.map p.numPeers).insertionSort (· ≤ ·)
  let middle := counts.length / 2
  if counts.length % 2 = 0 then (counts.getD (middle - 1) 0 + counts.getD middle 0) / 2 else counts.getD middle 0

/-- A group, in the order in which the map is iterated over. -/
def candidates (p : SnapshotPool β κ) (common : Bool) : List (Pooled β κ) :=
  p.snapshots.filter fun s => decide (p.median < p.numPeers s) = common

/-- An element on its way to the front of a sorted slice, which is given from its end. -/
def settle {α : Type*} (less : α → α → Bool) (x : α) : List α → List α
  | [] => [x]
  | y :: rest => if less x y then y :: settle less x rest else x :: y :: rest

/-- `sort.Slice` as it runs on a few elements. -/
def sortSlice {α : Type*} (less : α → α → Bool) (l : List α) : List α :=
  (l.foldl (fun sorted x => settle less x sorted) []).reverse

def ranked (p : SnapshotPool β κ) : List (Pooled β κ) :=
  sortSlice p.less (p.candidates true) ++ sortSlice p.less (p.candidates false)

def takeBest (p : SnapshotPool β κ) : SnapshotPool β κ × Option (Pooled β κ) :=
  let best := p.active.orElse fun _ => p.ranked.head?
  ({ p with active := best }, best)

structure StrictWeak {α : Type*} (less : α → α → Bool) (l : List α) : Prop where
  irrefl : ∀ a ∈ l, ¬ less a a
  asymm : ∀ a ∈ l, ∀ b ∈ l, less a b → ¬ less b a
  trans : ∀ a ∈ l, ∀ b ∈ l, ∀ c ∈ l, less a b → less b c → less a c
  ties : ∀ a ∈ l, ∀ b ∈ l, ∀ c ∈ l, ¬ less a b → ¬ less b a → ¬ less b c → ¬ less c b → ¬ less a c ∧ ¬ less c a

def rank (p : SnapshotPool β κ) (s : Pooled β κ) : ℕ × ℕ × ℕ := (s.snapshot.height, p.numPeers s, s.snapshot.version)

lemma less_iff (p : SnapshotPool β κ) (a b : Pooled β κ) :
    p.less a b ↔ b.snapshot.height < a.snapshot.height ∨ a.snapshot.height = b.snapshot.height ∧
      (p.numPeers b < p.numPeers a ∨ b.snapshot.version < a.snapshot.version) := by
  unfold less
  split_ifs <;> simp <;> omega

/-- **The ranking.** The comparison is a strict weak order on a group exactly if of two snapshots of one height the one
with more peers never has the lower version. A sorted group then has its snapshots in the order the pool gives them. -/
theorem ranking_iff (p : SnapshotPool β κ) (common : Bool) :
    (StrictWeak p.less (p.candidates common) ∧ ∀ l, l ~ p.candidates common →
      l.Pairwise (fun a b => ¬ p.less b a) → l.Pairwise fun a b => p.rank a ≠ p.rank b → p.less a b) ↔
      ∀ a ∈ p.candidates common, ∀ b ∈ p.candidates common, a.snapshot.height = b.snapshot.height →
        p.numPeers b < p.numPeers a → b.snapshot.version ≤ a.snapshot.version := by
  constructor
  · rintro ⟨hw, -⟩ a ha b hb hh hp
    by_contra hv
    exact hw.asymm a ha b hb ((less_iff p a b).mpr (by omega)) ((less_iff p b a).mpr (by omega))
  intro h
  refine ⟨⟨?_, ?_, ?_, ?_⟩, fun l _ hl => hl.imp fun {a b} hn hr => ?_⟩
  · intro a _
    rw [less_iff]
    omega
  · intro a ha b hb
    have hab := h a ha b hb
    have hba := h b hb a ha
    rw [less_iff, less_iff]
    omega
  · intro a ha b hb c hc
    have hab := h a ha b hb
    have hbc := h b hb c hc
    rw [less_iff, less_iff, less_iff]
    omega
  · intro a _ b _ c _
    simp only [less_iff]
    omega
  rw [less_iff] at hn ⊢
  simp only [rank, ne_eq, Prod.mk.injEq] at hr
  omega

/-- Of the two snapshots of height 5 one has more peers and the other the higher version: the best one is the one that
the map iteration came upon last. -/
theorem ranking_depends_on_iteration :
    let p := advertised [("a", ⟨1, 3, 1, 0⟩), ("a", ⟨1, 4, 1, 0⟩), ("a", ⟨5, 2, 1, 0⟩), ("b", ⟨5, 2, 1, 0⟩),
      ("a", ⟨5, 1, 1, 0⟩), ("b", ⟨5, 1, 1, 0⟩), ("c", ⟨5, 1, 1, 0⟩)]
    (p.candidates true).map (·.key) = [2, 1] ∧ (∀ a ∈ p.candidates true, ∀ b ∈ p.candidates true, a ≠ b → p.less a b) ∧
      p.takeBest.2.map (·.key) = some 1 ∧
      (takeBest { p with snapshots := p.snapshots.reverse }).2.map (·.key) = some 2 := by
  decide +kernel

end SnapshotPool

end Tenderdash.Statesync
