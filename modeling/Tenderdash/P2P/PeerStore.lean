import Tenderdash.Lib.Run

/-!
The store of known peers in `internal/p2p`, with its cached ranking. `Get` and `Set` copy a peer, but `Copy` keeps the
map of its addresses: what is changed in the map of a copy is changed in the store, and `Set` does not see that the
score of the peer has changed.
-/

namespace Tenderdash.P2P

open Lib.Run List

/-- What its score depends on. Maps are on the heap, and `addressInfo` is a place there. -/
structure PeerInfo where
  id : String
  addressInfo : ℕ
  fixedScore : ℤ := 0
  persistent : Bool := false
  isProtected : Bool := false
  mutableScore : ℤ := 0
  deriving DecidableEq, Repr

abbrev Heap := ℕ → List (String × ℕ)

def peerScorePersistent : ℤ := 2 ^ 15 - 1

def PeerInfo.hasReservedSlot (p : PeerInfo) : Bool := p.persistent || p.isProtected

def PeerInfo.score (heap : Heap) (p : PeerInfo) : ℤ :=
  if p.fixedScore > 0 then p.fixedScore
  else if p.hasReservedSlot then peerScorePersistent
  else max (min p.mutableScore (peerScorePersistent - 1) - ((heap p.addressInfo).map fun e => (e.2 : ℤ)).sum) (-2 ^ 15)

/-- The cached ranking is empty when it is not valid. -/
structure PeerStore where
  heap : Heap := fun _ => []
  peers : List PeerInfo := []
  ranked : List String := []

namespace PeerStore

variable (s : PeerStore) (id : String)

/-- The copy is the struct, with the place of its map. -/
def get : Option PeerInfo := s.peers.find? (·.id = id)

def score : ℤ := ((s.get id).map (·.score s.heap)).getD 0

inductive Op where
  /-- The failures of an address are written to the map of some copy. -/
  | write (place : ℕ) (address : String) (failures : ℕ)
  | set (peer : PeerInfo)
  | setMutableScore (id : String) (score : ℤ)
  | delete (id : String)
  /-- `Ranked`, with the order of equal peers that `sort.Slice` comes to. -/
  | ranked (order : List String)

def write (place : ℕ) (address : String) (failures : ℕ) : PeerStore :=
  { s with heap := Function.update s.heap place ((address, failures) :: (s.heap place).filter (·.1 ≠ address)) }

def set (peer : PeerInfo) : PeerStore :=
  if peer.id = "" then s
  else match s.get peer.id with
    | none => { s with peers := s.peers ++ [peer], ranked := [] }
    | some current =>
      let peers := s.peers.map fun p => if p.id = peer.id then peer else p
      if current.score s.heap ≠ peer.score s.heap then { s with peers, ranked := [] } else { s with peers }

def setMutableScore (score : ℤ) : PeerStore :=
  match s.get id with
  | some p =>
    if p.mutableScore ≠ score then
      { s with peers := s.peers.map fun p => if p.id = id then { p with mutableScore := score } else p, ranked := [] }
    else s
  | none => s

abbrev Ranks (order : List String) : Prop :=
  order ~ s.peers.map (·.id) ∧ order.Pairwise fun a b => s.score b ≤ s.score a

def step : Op → PeerStore
  | .write place address failures => s.write place address failures
  | .set peer => s.set peer
  | .setMutableScore id score => s.setMutableScore id score
  | .delete id => if (s.get id).isSome then { s with peers := s.peers.filter (·.id ≠ id), ranked := [] } else s
  | .ranked order => if s.ranked = [] ∧ s.Ranks order then { s with ranked := order } else s

def Current : Prop := s.ranked ≠ [] → s.Ranks s.ranked

/-- The condition: what is written to the map of a copy does not change the order of the cached ranking. -/
def Careful : Op → Prop
  | .write place address failures => s.ranked ≠ [] → s.ranked.Pairwise fun a b =>
      (s.write place address failures).score b ≤ (s.write place address failures).score a
  | _ => True

variable {s}

lemma Current.set (h : s.Current) (peer : PeerInfo) : (s.set peer).Current := by
  unfold PeerStore.set
  split_ifs
  · exact h
  split
  · exact fun hn => absurd rfl hn
  next current hc =>
  dsimp only
  split_ifs with hne
  · exact fun hn => absurd rfl hn
  intro hn
  rw [not_not] at hne
  obtain ⟨hp, ho⟩ := h hn
  have hi : ∀ p : PeerInfo, (if p.id = peer.id then peer else p).id = p.id := fun p => by split_ifs with h <;> simp [h]
  have hs : ∀ id, PeerStore.score { s with peers := s.peers.map fun p => if p.id = peer.id then peer else p } id = s.score id := by
    intro id
    simp only [PeerStore.score, PeerStore.get, find?_map, Function.comp_def, hi, Option.map_map]
    by_cases he : id = peer.id
    · rw [he, show s.peers.find? (·.id = peer.id) = some current from hc]
      have := find?_some hc
      simp_all
    · congr 1
      refine Option.map_congr fun p hp => ?_
      have := find?_some hp
      simp_all
  refine ⟨?_, ho.imp fun hle => ?_⟩
  · simpa [map_map, Function.comp_def, hi] using hp
  · rwa [hs, hs]

/-- A copy is fetched, the failures in its map are counted up, and the copy is stored. -/
def dialFailed (s : PeerStore) (id address : String) : PeerStore :=
  match s.get id with
  | none => s
  | some peer =>
    match (s.heap peer.addressInfo).lookup address with
    | none => s
    | some failures => (s.write peer.addressInfo address (failures + 1)).set peer

end PeerStore

/-! ### The address book

Which peers are stored, connected and being dialed. `Add` prunes the store and nothing else does; but an accepted
connection stores its peer too, and so does a score, and a peer that is not connected any more could be pruned. -/

/-- `PeerManagerOptions`, as far as `MaxPeers` goes. With no maximum the store is not pruned. -/
structure AddressBook.Options where
  selfID : String
  maxPeers : ℕ
  maxPeers_pos : 0 < maxPeers

structure AddressBook where
  peers : Finset String
  connected : Finset String := ∅
  dialing : Finset String := ∅

namespace AddressBook

inductive Op where
  /-- `Add` of a new address, with the ranking it prunes by. -/
  | add (id : String) (ranked : List String)
  /-- `TryDialNext`, with the peer it comes to. -/
  | dialNext (id : String)
  | dialFailed (id : String)
  /-- `Dialed` and `Accepted`, with the verdict of the limits on connections. -/
  | dialed (id : String) (slot : Bool)
  | accepted (id : String) (slot : Bool)
  | disconnected (id : String)
  /-- `processPeerEvent`, with a score to record. -/
  | scored (id : String)

variable (o : Options)

def active (s : AddressBook) : Finset String := s.connected ∪ s.dialing

/-- `prunePeers`, from the lowest rank up. -/
def prunePeers : AddressBook → List String → AddressBook
  | s, [] => s
  | s, id :: rest =>
    if s.peers.card ≤ o.maxPeers then s
    else if id ∈ s.active then prunePeers s rest
    else prunePeers { s with peers := s.peers.erase id } rest

/-- `NewPeerManager`, with the ranking of the peers that are loaded. -/
def start (ranked : List String) : AddressBook :=
  prunePeers o { peers := ranked.toFinset.erase o.selfID } ranked.reverse

variable (s : AddressBook)

def step : Op → AddressBook
  | .add id ranked =>
    -- a ranking is one of all peers in the store
    if id = o.selfID ∨ ranked.toFinset ≠ insert id s.peers then s
    else prunePeers o { s with peers := insert id s.peers } ranked.reverse
  | .dialNext id => if id ∈ s.peers \ s.active then { s with dialing := insert id s.dialing } else s
  | .dialFailed id => { s with dialing := s.dialing.erase id }
  | .dialed id slot =>
    let s := { s with dialing := s.dialing.erase id }
    if id ≠ o.selfID ∧ id ∈ s.peers \ s.connected ∧ slot then { s with connected := insert id s.connected } else s
  | .accepted id slot =>
    if id ≠ o.selfID ∧ id ∉ s.connected ∧ slot then
      { s with peers := insert id s.peers, connected := insert id s.connected }
    else s
  | .disconnected id => { s with connected := s.connected.erase id }
  | .scored id => { s with peers := insert id s.peers }

abbrev Bounded : Prop := s.peers.card ≤ max o.maxPeers s.active.card

/-- The condition: an unknown peer is stored only where there is room, or all peers are active; and while there are too
many peers, none of them ceases to be active. -/
def Careful : Op → Prop
  | .add .. => True
  | .accepted id slot => id ≠ o.selfID ∧ slot → id ∈ s.peers ∨ s.peers.card < o.maxPeers ∨ s.peers ⊆ s.active
  | .scored id => id ∈ s.peers ∨ s.peers.card < o.maxPeers
  | op => s.peers.card ≤ o.maxPeers ∨ s.active ⊆ (s.step o op).active

@[mk_iff]
structure Kept : Prop where
  stored : s.active ⊆ s.peers
  others : s.peers.card ≤ o.maxPeers ∨ s.peers ⊆ s.active

variable {o s}

lemma bounded_iff (h : s.active ⊆ s.peers) : Bounded o s ↔ Kept o s := by
  rw [Bounded, le_max_iff]
  constructor
  · rintro (hc | hc)
    · exact ⟨h, .inl hc⟩
    · exact ⟨h, .inr (Finset.eq_of_subset_of_card_le h hc).ge⟩
  · exact fun hk => hk.others.imp_right Finset.card_le_card

lemma kept_prunePeers {ids : List String} (h : s.active ⊆ s.peers) (hi : ∀ id ∈ s.peers, id ∈ s.active ∨ id ∈ ids) :
    Kept o (prunePeers o s ids) := by
  induction ids generalizing s with
  | nil => exact ⟨h, .inr fun id hm => (hi id hm).resolve_right not_mem_nil⟩
  | cons id rest ih =>
    unfold prunePeers
    split_ifs with hc ha
    · exact ⟨h, .inl hc⟩
    · exact ih h (by grind)
    · refine ih (fun other hm => Finset.mem_erase.mpr ⟨?_, h hm⟩) (by grind [active])
      rintro rfl
      exact ha hm

lemma kept_start (stored : List String) : Kept o (start o stored) := by
  refine kept_prunePeers (by simp [active]) fun id hm => .inr ?_
  simpa using Finset.mem_of_mem_erase hm

lemma Kept.moves {t : AddressBook} (h : Kept o s) (hp : t.peers = s.peers) (ha : t.active ⊆ s.peers) :
    t.active ⊆ t.peers ∧ (s.peers.card ≤ o.maxPeers ∨ s.active ⊆ t.active ↔ Kept o t) := by
  rw [kept_iff, hp]
  refine ⟨ha, fun hc => ⟨ha, ?_⟩, fun hk => hk.2.imp_right h.stored.trans⟩
  exact hc.elim .inl fun hs => h.others.imp_right fun hsub => hsub.trans hs

lemma Kept.step (h : Kept o s) (op : Op) :
    (s.step o op).active ⊆ (s.step o op).peers ∧ (Careful o s op ↔ Kept o (s.step o op)) := by
  have hst := h.stored
  have ho := h.others
  cases op with
  | add id ranked =>
    suffices hk : Kept o (s.step o (.add id ranked)) from ⟨hk.stored, iff_of_true trivial hk⟩
    simp only [AddressBook.step]
    split_ifs with hr
    · exact h
    rw [not_or, not_not] at hr
    refine kept_prunePeers (hst.trans (Finset.subset_insert id _)) fun other hm => .inr ?_
    rw [mem_reverse, ← mem_toFinset, hr.2]
    exact hm
  | accepted id slot =>
    simp only [AddressBook.step, Careful, kept_iff, active] at *
    by_cases hk : id ∈ s.peers
    · split_ifs <;> grind
    have hc := Finset.card_insert_of_notMem hk
    have hs := Finset.insert_subset_insert_iff (t := s.connected ∪ s.dialing) hk
    rw [← Finset.insert_union] at hs
    split_ifs <;> grind
  | scored id =>
    have hi := @hst id
    simp only [AddressBook.step, Careful, kept_iff, active] at *
    by_cases hk : id ∈ s.peers
    · grind
    have hc := Finset.card_insert_of_notMem hk
    grind
  | dialNext id => exact h.moves (by grind [AddressBook.step]) (by grind [AddressBook.step, active])
  | dialFailed id => exact h.moves rfl (by grind [AddressBook.step, active])
  | dialed id slot => exact h.moves (by grind [AddressBook.step]) (by grind [AddressBook.step, active])
  | disconnected id => exact h.moves rfl (by grind [AddressBook.step, active])

/-- **The address book is bounded** in every state of a run, from any store that is loaded, exactly if every step is
careful. -/
theorem book_bounded_iff (o : Options) (stored : List String) (ops : List Op) :
    (∀ done, done <+: ops → Bounded o (run (step o) (start o stored) done)) ↔
      Admitted (step o) (Careful o) (start o stored) ops := by
  refine admitted_iff (P := Kept o) (fun s h => (bounded_iff h.stored).mpr h) (fun s op h hok => (h.step op).2.mp hok)
    (fun s op h hb => ?_) (kept_start stored)
  obtain ⟨hs, hc⟩ := h.step op
  exact hc.mpr ((bounded_iff hs).mp hb)

/-- With room for one peer, that one is stored and another one connects. -/
theorem accepted_unpruned :
    let o : Options := ⟨"self", 1, by decide⟩
    ¬ Bounded o (run (step o) (start o []) [.add "a" ["a"], .accepted "b" true]) := by
  decide +kernel

end AddressBook

end Tenderdash.P2P
