import Tenderdash.Evidence.Pool
import Tenderdash.Types.VoteSet

/-!
The books of the evidence pool: the counter against the records, and pending against committed evidence.

Two calls put them out of order. Verification of evidence whose power or time is wrong stores the
corrected copy without asking whether it is already pending, which counts it twice, or committed. And a
restart starts counting at zero: the records of a time when evidence was enabled are not counted while it is
disabled, and the removal of expired records takes the counter below zero before it is set.
-/

namespace Tenderdash.Evidence.Pool

open Lib Run List

structure Booked (codec : Codec) (pool : Pool) : Prop where
  size : pool.evidenceSize = pool.pending.length
  disjoint : ∀ ev ∈ pool.pending, codec.key ev ∉ pool.committed
  unwrapped : pool.wrapped = false

structure Sound (codec : Codec) (pool : Pool) : Prop extends Booked codec pool where
  nodup : (pool.pending.map codec.key).Nodup
  loaded : pool.pendingLoaded = false →
    pool.pending = [] ∧ pool.consensusBuffer = [] ∧ pool.enabled = false

section Records

variable {codec : Codec} {pool : Pool} {ev : DuplicateVoteEvidence}

lemma Sound.ite {p : Prop} [Decidable p] {a b : Pool} (ha : Sound codec a) (hb : Sound codec b) :
    Sound codec (if p then a else b) := by split_ifs <;> assumption

lemma put_perm (codec : Codec) (ev : DuplicateVoteEvidence) (records : List DuplicateVoteEvidence) :
    (put codec ev records).Perm (ev :: records.filter fun other => codec.key other ≠ codec.key ev) :=
  perm_orderedInsert ..

variable {records evs : List DuplicateVoteEvidence}

lemma mem_put {other : DuplicateVoteEvidence} (h : other ∈ put codec ev records) : other = ev ∨ other ∈ records := by
  rcases mem_cons.mp ((put_perm codec ev records).mem_iff.mp h) with rfl | hm
  · exact .inl rfl
  · exact .inr (mem_filter.mp hm).1

lemma nodup_put (h : (records.map codec.key).Nodup) : ((put codec ev records).map codec.key).Nodup := by
  rw [((put_perm codec ev records).map codec.key).nodup_iff, map_cons]
  refine nodup_cons.mpr ⟨fun hm => ?_, h.sublist (filter_sublist.map _)⟩
  obtain ⟨other, ho, hk⟩ := mem_map.mp hm
  simp [hk] at ho

lemma isPending_iff : pool.isPending codec ev = true ↔ codec.key ev ∈ pool.pending.map codec.key :=
  decide_eq_true_iff

lemma isCommitted_iff : pool.isCommitted codec ev = true ↔ codec.key ev ∈ pool.committed :=
  decide_eq_true_iff

/-- **Adding evidence keeps the books in order exactly if it is neither pending nor committed.** -/
lemma Sound.addPendingEvidence_iff (h : Sound codec pool) (hlo : pool.pendingLoaded = true)
    (ev : DuplicateVoteEvidence) :
    (pool.isPending codec ev = false ∧ pool.isCommitted codec ev = false →
      Sound codec (pool.addPendingEvidence codec ev)) ∧
    (Booked codec (pool.addPendingEvidence codec ev) →
      pool.isPending codec ev = false ∧ pool.isCommitted codec ev = false) := by
  have hl := (put_perm codec ev pool.pending).length_eq
  constructor
  · rintro ⟨hp, hc⟩
    have hn : codec.key ev ∉ pool.pending.map codec.key := fun hm =>
      absurd (isPending_iff.mpr hm) (by simp [hp])
    have ha : (pool.pending.filter fun other => codec.key other ≠ codec.key ev) = pool.pending := by
      refine filter_eq_self.mpr fun other ho => ?_
      simpa using fun heq => hn (mem_map.mpr ⟨other, ho, heq⟩)
    rw [ha] at hl
    refine ⟨⟨?_, fun other ho => ?_, h.unwrapped⟩, nodup_put h.nodup, fun hno => ?_⟩
    · change pool.evidenceSize + 1 = (put codec ev pool.pending).length
      rw [hl, h.size]
      simp
    · rcases mem_put ho with rfl | ho
      · exact fun hm => absurd (isCommitted_iff.mpr (show _ ∈ pool.committed from hm)) (by simp [hc])
      · exact h.disjoint other ho
    rw [show pool.pendingLoaded = false from hno] at hlo
    cases hlo
  · intro hb
    have hs : ev ∈ put codec ev pool.pending := (put_perm codec ev pool.pending).mem_iff.mpr mem_cons_self
    constructor
    · -- the record of a pending one is overwritten, and counted again
      refine Bool.eq_false_iff.mpr fun hp => ?_
      obtain ⟨other, ho, hk⟩ := mem_map.mp (isPending_iff.mp hp)
      have hlt : (pool.pending.filter fun other => codec.key other ≠ codec.key ev).length < pool.pending.length :=
        length_filter_lt_length_iff_exists.mpr ⟨other, ho, by simpa using hk⟩
      have hsi : pool.evidenceSize + 1 = (put codec ev pool.pending).length := hb.size
      rw [hl, h.size, length_cons] at hsi
      omega
    · refine Bool.eq_false_iff.mpr fun hc => ?_
      exact hb.disjoint ev hs (isCommitted_iff.mp hc)

section

variable (hheight : ∀ a b, codec.hash a = codec.hash b → a.height = b.height)

include hheight

lemma length_filter_keys (hn : (records.map codec.key).Nodup) (hkn : ∀ ev ∈ evs, codec.key ev ∈ records.map codec.key) :
    (records.filter fun other => codec.key other ∈ evs.map codec.key).length = (evs.map codec.hash).dedup.length := by
  have hky : ∀ a b, codec.hash a = codec.hash b → codec.key a = codec.key b := fun a b hab =>
    Prod.ext (hheight a b hab) hab
  have hh : ((records.filter fun other => codec.key other ∈ evs.map codec.key).map codec.hash).Nodup := by
    have hke := hn.sublist ((filter_sublist (p := fun other => codec.key other ∈ evs.map codec.key)).map codec.key)
    exact pairwise_map.mpr ((pairwise_map.mp hke).imp fun hne heq => hne (hky _ _ heq))
  rw [← length_map (f := codec.hash)]
  refine ((perm_ext_iff_of_nodup hh (nodup_dedup _)).mpr fun hash => ?_).length_eq
  rw [mem_dedup]
  constructor
  · intro hm
    obtain ⟨other, ho, rfl⟩ := mem_map.mp hm
    obtain ⟨ev, hev, hk⟩ := mem_map.mp (of_decide_eq_true (mem_filter.mp ho).2)
    exact mem_map.mpr ⟨ev, hev, (Prod.mk.inj hk).2⟩
  intro hm
  obtain ⟨ev, hev, rfl⟩ := mem_map.mp hm
  obtain ⟨other, ho, hk⟩ := mem_map.mp (hkn ev hev)
  refine mem_map.mpr ⟨other, mem_filter.mpr ⟨ho, ?_⟩, (Prod.mk.inj hk).2⟩
  exact decide_eq_true (mem_map.mpr ⟨ev, hev, hk.symm⟩)

lemma deletePending_sound (hs : pool.evidenceSize = pool.pending.length) (hu : pool.wrapped = false)
    (hn : (pool.pending.map codec.key).Nodup)
    (hl : pool.pendingLoaded = false → pool.pending = [] ∧ pool.consensusBuffer = [] ∧ pool.enabled = false)
    (hk : ∀ ev ∈ evs, codec.key ev ∈ pool.pending.map codec.key)
    (hle : ∀ ev ∈ pool.pending, codec.key ev ∉ evs.map codec.key → codec.key ev ∉ pool.committed) :
    Sound codec (pool.deletePending codec evs) := by
  have hc := length_filter_keys hheight hn hk
  have hsp := length_eq_length_filter_add (l := pool.pending) fun other => decide (codec.key other ∈ evs.map codec.key)
  have hr : (pool.pending.filter fun other => codec.key other ∉ evs.map codec.key) =
      pool.pending.filter fun other => !decide (codec.key other ∈ evs.map codec.key) :=
    filter_congr fun other _ => decide_not
  refine ⟨⟨?_, fun ev hev => ?_, ?_⟩, ?_, fun hno => ?_⟩
  · change pool.evidenceSize - ((evs.map codec.hash).dedup.length : ℤ) =
      (pool.pending.filter fun other => codec.key other ∉ evs.map codec.key).length
    rw [hs, hr]
    omega
  · obtain ⟨hm, ho⟩ := mem_filter.mp hev
    exact hle ev hm (of_decide_eq_true ho)
  · change (pool.wrapped || decide (pool.evidenceSize < _)) = false
    rw [hu, Bool.false_or]
    refine decide_eq_false fun hlt => ?_
    omega
  · exact hn.sublist (filter_sublist.map _)
  obtain ⟨hni, hb, hd⟩ := hl hno
  refine ⟨?_, hb, hd⟩
  change pool.pending.filter _ = []
  rw [hni, filter_nil]

lemma Sound.markEvidenceAsCommitted (h : Sound codec pool) (evs : List DuplicateVoteEvidence) :
    Sound codec (pool.markEvidenceAsCommitted codec evs) := by
  -- a record that is not deleted has the key of none of the committed ones
  have hl : ∀ ev ∈ pool.pending,
      codec.key ev ∉ (evs.filter (pool.isPending codec)).map codec.key →
      codec.key ev ∉ evs.map codec.key ++ pool.committed := by
    intro ev hev hou hm
    rcases mem_append.mp hm with hm | hm
    · obtain ⟨other, ho, hk⟩ := mem_map.mp hm
      have hp : pool.isPending codec other = true := isPending_iff.mpr (mem_map.mpr ⟨ev, hev, hk.symm⟩)
      exact hou (mem_map.mpr ⟨other, mem_filter.mpr ⟨ho, hp⟩, hk⟩)
    · exact h.disjoint ev hev hm
  unfold Pool.markEvidenceAsCommitted
  dsimp only
  split_ifs with hn
  · rw [hn] at hl
    exact { h with disjoint := fun ev hev => hl ev hev (by simp) }
  refine deletePending_sound hheight h.size h.unwrapped h.nodup h.loaded (fun ev hev => ?_) hl
  exact isPending_iff.mp (mem_filter.mp hev).2

lemma Sound.removeExpiredPendingEvidence
    (h : Sound codec pool) : Sound codec (pool.removeExpiredPendingEvidence codec) := by
  have hk : Sound codec (if pool.pending.takeWhile pool.isExpired = [] then pool
      else pool.deletePending codec (pool.pending.takeWhile pool.isExpired)) := by
    split_ifs
    · exact h
    refine deletePending_sound hheight h.size h.unwrapped h.nodup h.loaded (fun ev hev => ?_)
      fun ev hev _ => h.disjoint ev hev
    exact mem_map_of_mem ((takeWhile_sublist _).mem hev)
  exact { hk with }

end

lemma loadPendingEvidence_sound (hk : pool.pending.takeWhile pool.isExpired = [])
    (hd : ∀ ev ∈ pool.pending, codec.key ev ∉ pool.committed) (hu : pool.wrapped = false)
    (hn : (pool.pending.map codec.key).Nodup) : Sound codec (pool.loadPendingEvidence codec) := by
  unfold loadPendingEvidence removeExpiredPendingEvidence
  simp only [hk, if_true]
  exact ⟨⟨rfl, hd, hu⟩, hn, fun hno => by cases hno⟩

end Records

/-! ### The calls -/

section Calls

variable (codec : Codec) (C : Crypto) (stores : Stores)

def fresh (pool : Pool) (ev : DuplicateVoteEvidence) : Bool :=
  match pool.examine C stores ev with
  | .ok (some corrected) =>
    !pool.enabled || (!pool.isPending codec corrected && !pool.isCommitted codec corrected)
  | _ => true

def allFresh : List Bytes → List DuplicateVoteEvidence → Pool → Bool
  | _, [], _ => true
  | seen, ev :: rest, pool =>
    (pool.isPending codec ev || pool.isCommitted codec ev || pool.fresh codec C stores ev) &&
      match pool.checkOne codec C stores ev with
      | (_, .error _) => true
      | (pool, .ok ()) => codec.hash ev ∈ seen || allFresh (codec.hash ev :: seen) rest pool

/-- A call that keeps the books in order: no corrected copy of known evidence is stored, and a restart
finds no record that it does not count, or drops before it has counted. -/
def orderly (pool : Pool) : Call → Bool
  | .addEvidence stores ev =>
    !pool.enabled || pool.isPending codec ev || pool.isCommitted codec ev || pool.fresh codec C stores ev
  | .checkEvidence stores evs => allFresh codec C stores [] evs pool
  | .reportConflictingVotes _ _ => true
  | .update _ _ _ => true
  | .restart state =>
    if 0 < state.params.maxBytes then pool.pending.takeWhile { pool with state := state }.isExpired = []
    else pool.pending = []

variable {codec C stores} {pool : Pool} {ev : DuplicateVoteEvidence}

section

variable (h : Sound codec pool)

include h

lemma Sound.pendingLoaded (he : pool.enabled = true) : pool.pendingLoaded = true := by
  by_contra hno
  rw [(h.loaded (by simpa using hno)).2.2] at he
  cases he

lemma Sound.verify_iff (C : Crypto) (stores : Stores) (ev : DuplicateVoteEvidence) :
    (pool.fresh codec C stores ev = true → Sound codec (pool.verify codec C stores ev).1) ∧
    (Booked codec (pool.verify codec C stores ev).1 → pool.fresh codec C stores ev = true) ∧
    ((pool.verify codec C stores ev).2 = .ok () → (pool.verify codec C stores ev).1 = pool) := by
  unfold verify fresh
  rcases pool.examine C stores ev with e | _ | corrected
  · exact ⟨fun _ => h, fun _ => rfl, fun hok => by cases hok⟩
  · exact ⟨fun _ => h, fun _ => rfl, fun _ => rfl⟩
  refine ⟨?_, ?_, fun hok => by cases hok⟩
  · intro hf
    split_ifs with he
    · refine (h.addPendingEvidence_iff (h.pendingLoaded he) corrected).1 ?_
      simpa [he] using hf
    · exact h
  · intro hb
    split_ifs at hb with he
    · obtain ⟨hp, hc⟩ := (h.addPendingEvidence_iff (h.pendingLoaded he) corrected).2 hb
      simp [hp, hc]
    · simp [he]

lemma Sound.addEvidence_iff (ev : DuplicateVoteEvidence) :
    (pool.orderly codec C (.addEvidence stores ev) = true → Sound codec (pool.addEvidence codec C stores ev).1) ∧
    (Booked codec (pool.addEvidence codec C stores ev).1 → pool.orderly codec C (.addEvidence stores ev) = true) := by
  unfold addEvidence orderly
  by_cases he : pool.enabled = true
  swap
  · simp [he, h]
  by_cases hk : pool.isPending codec ev = true ∨ pool.isCommitted codec ev = true
  · rcases hk with hk | hk <;> simp [hk, he, h]
  obtain ⟨hp, hc⟩ := not_or.mp hk
  obtain ⟨hke, hn, hs⟩ := h.verify_iff C stores ev
  simp only [he, hp, hc, Bool.true_eq_false, if_false, or_self, Bool.not_true, Bool.false_or]
  generalize pool.verify codec C stores ev = r at hke hn hs ⊢
  obtain ⟨pool', e | _⟩ := r
  · exact ⟨hke, hn⟩
  obtain rfl : pool' = pool := hs rfl
  refine ⟨fun _ => ?_, fun _ => hn h.toBooked⟩
  exact (h.addPendingEvidence_iff (h.pendingLoaded he) ev).1 (by simp [hp, hc])

lemma Sound.checkOne_iff (C : Crypto) (stores : Stores) (ev : DuplicateVoteEvidence) :
    ((pool.isPending codec ev || pool.isCommitted codec ev || pool.fresh codec C stores ev) = true →
      Sound codec (pool.checkOne codec C stores ev).1) ∧
    (Booked codec (pool.checkOne codec C stores ev).1 →
      (pool.isPending codec ev || pool.isCommitted codec ev || pool.fresh codec C stores ev) = true) ∧
    ((pool.checkOne codec C stores ev).2 = .ok () → Sound codec (pool.checkOne codec C stores ev).1) := by
  unfold checkOne
  by_cases hp : pool.isPending codec ev = true
  · simp [hp, h]
  by_cases hc : pool.isCommitted codec ev = true
  · simp [hp, hc, h]
  obtain ⟨hk, hn, hs⟩ := h.verify_iff C stores ev
  simp only [hp, hc, Bool.false_eq_true, if_false, Bool.false_or]
  generalize pool.verify codec C stores ev = r at hk hn hs ⊢
  obtain ⟨pool', e | _⟩ := r
  · exact ⟨hk, hn, fun hok => by cases hok⟩
  obtain rfl : pool' = pool := hs rfl
  have ha : Sound codec (if pool'.enabled then pool'.addPendingEvidence codec ev else pool') := by
    split_ifs with he
    · exact (h.addPendingEvidence_iff (h.pendingLoaded he) ev).1 (by simp [hp, hc])
    · exact h
  exact ⟨fun _ => ha, fun _ => hn h.toBooked, fun _ => ha⟩

lemma Sound.checkEvidence_iff (C : Crypto) (stores : Stores) (seen : List Bytes) (evs : List DuplicateVoteEvidence) :
    (allFresh codec C stores seen evs pool = true → Sound codec (checkEvidence codec C stores seen evs pool).1) ∧
    (Booked codec (checkEvidence codec C stores seen evs pool).1 → allFresh codec C stores seen evs pool = true) := by
  induction evs generalizing seen pool with
  | nil => exact ⟨fun _ => h, fun _ => rfl⟩
  | cons ev rest ih =>
    obtain ⟨hk, hn, hok⟩ := h.checkOne_iff C stores ev
    unfold checkEvidence allFresh
    generalize pool.checkOne codec C stores ev = r at hk hn hok ⊢
    obtain ⟨pool', e | _⟩ := r
    · dsimp only
      rw [Bool.and_true]
      exact ⟨hk, hn⟩
    have hne : Sound codec pool' := hok rfl
    have hf := hn hne.toBooked
    rw [hf, Bool.true_and]
    by_cases hs : codec.hash ev ∈ seen
    · simp [hs, hne]
    · simpa [hs] using ih hne (codec.hash ev :: seen)

lemma Sound.processVotes (hl : pool.pendingLoaded = true) (stores : Stores) (state : PoolState) (votes : Vote × Vote) :
    Sound codec (processVotes codec stores state pool votes) ∧
      (processVotes codec stores state pool votes).pendingLoaded = true := by
  unfold Pool.processVotes
  rcases bufferedEvidence stores state votes with _ | ev
  · exact ⟨h, hl⟩
  dsimp only
  split_ifs with hk
  · exact ⟨h, hl⟩
  obtain ⟨hp, hc⟩ := not_or.mp hk
  exact ⟨(h.addPendingEvidence_iff hl ev).1 (by simp [hp, hc]), hl⟩

lemma Sound.processConsensusBuffer (stores : Stores) (state : PoolState) :
    Sound codec (pool.processConsensusBuffer codec stores state) := by
  have hb : Sound codec (pool.consensusBuffer.foldl (Pool.processVotes codec stores state) pool) := by
    by_cases hl : pool.pendingLoaded = true
    · -- the votes are taken one after the other
      exact (run_invariant (P := fun pool => Sound codec pool ∧ pool.pendingLoaded = true)
        (fun _ votes h => h.1.processVotes h.2 stores state votes) pool.consensusBuffer ⟨h, hl⟩).1
    · rw [(h.loaded (by simpa using hl)).2.1]
      exact h
  exact { hb with loaded := fun hno => ⟨(hb.loaded hno).1, rfl, (hb.loaded hno).2.2⟩ }

section

variable (hheight : ∀ a b, codec.hash a = codec.hash b → a.height = b.height)

include hheight

lemma Sound.activate
    (state previous : PoolState) : Sound codec ({ pool with state := state }.activate codec previous) := by
  have hl : Sound codec
      (if pool.pendingLoaded = false then { pool with state := state }.loadPendingEvidence codec
      else if previous.params.maxBytes = 0 then
        { pool with state := state }.removeExpiredPendingEvidence codec
      else { pool with state := state }) := by
    split_ifs with hno hz
    · obtain ⟨hn, _, _⟩ := h.loaded hno
      refine loadPendingEvidence_sound ?_ h.disjoint h.unwrapped h.nodup
      change pool.pending.takeWhile _ = []
      rw [hn, takeWhile_nil]
    all_goals
      have hs : Sound codec { pool with state := state } :=
        { h with loaded := fun hy => absurd hy hno }
    · exact hs.removeExpiredPendingEvidence hheight
    · exact hs
  exact .ite (hl.removeExpiredPendingEvidence hheight) hl

lemma Sound.update (stores : Stores) (state : PoolState) (evs : List DuplicateVoteEvidence) :
    Sound codec (pool.update codec stores state evs) := by
  have hm : Sound codec (if evs = [] then pool else pool.markEvidenceAsCommitted codec evs) :=
    .ite h (h.markEvidenceAsCommitted hheight evs)
  unfold Pool.update
  dsimp only
  generalize (if evs = [] then pool else pool.markEvidenceAsCommitted codec evs) = marked at hm ⊢
  split_ifs with hp hz hb
  · exact h
  · have hd := hm.processConsensusBuffer stores state
    exact { hd with loaded := fun hno => ⟨(hd.loaded hno).1, rfl, by simp [enabled, hz]⟩ }
  · exact { hm with loaded := fun hno => ⟨(hm.loaded hno).1, rfl, by simp [enabled, hz]⟩ }
  · exact (hm.processConsensusBuffer stores state).activate hheight state pool.state

end

lemma Sound.start_iff (state : PoolState) :
    (pool.orderly codec C (.restart state) = true → Sound codec (start codec pool.pending pool.committed state)) ∧
    (Booked codec (start codec pool.pending pool.committed state) → pool.orderly codec C (.restart state) = true) := by
  unfold start orderly enabled
  by_cases he : 0 < state.params.maxBytes
  · simp only [he, decide_true, if_true, decide_eq_true_eq]
    refine ⟨fun hk => loadPendingEvidence_sound hk h.disjoint rfl h.nodup, fun hb => ?_⟩
    -- the counter stands at zero when the first record goes
    by_contra hex
    change ¬pool.pending.takeWhile _ = [] at hex
    have hp : ∀ evs : List DuplicateVoteEvidence, evs ≠ [] → (0 : ℤ) < (evs.map codec.hash).dedup.length := by
      intro evs hne
      simp only [Nat.cast_pos, length_pos_iff, ne_eq, dedup_eq_nil, map_eq_nil_iff]
      exact hne
    have hw := hb.unwrapped
    unfold loadPendingEvidence Pool.removeExpiredPendingEvidence at hw
    dsimp only at hw
    split_ifs at hw with hk
    · exact hex hk
    · exact absurd (hp _ hk) (of_decide_eq_false hw)
  · simp only [he, decide_false, if_false, decide_eq_true_eq, Bool.false_eq_true]
    refine ⟨fun hn => ?_, fun hb => ?_⟩
    · rw [hn]
      exact ⟨⟨rfl, by simp, rfl⟩, by simp, fun _ => ⟨rfl, rfl, by simp [enabled, he]⟩⟩
    have hs : (0 : ℤ) = pool.pending.length := hb.size
    exact length_eq_zero_iff.mp (by omega)

lemma Sound.call_iff (hheight : ∀ a b, codec.hash a = codec.hash b → a.height = b.height) (c : Call) :
    (pool.orderly codec C c = true → Sound codec (pool.call codec C c)) ∧
    (Booked codec (pool.call codec C c) → pool.orderly codec C c = true) := by
  cases c with
  | addEvidence stores ev => exact h.addEvidence_iff ev
  | checkEvidence stores evs => exact h.checkEvidence_iff C stores [] evs
  | reportConflictingVotes voteA voteB =>
    refine ⟨fun _ => ?_, fun _ => rfl⟩
    change Sound codec (pool.reportConflictingVotes voteA voteB)
    unfold reportConflictingVotes
    split_ifs with hd
    · exact h
    refine { h with loaded := fun hno => ?_ }
    exact absurd (h.loaded hno).2.2 hd
  | update stores state evs => exact ⟨fun _ => h.update hheight stores state evs, fun _ => rfl⟩
  | restart state => exact h.start_iff state

end

end Calls

/-! ### Runs -/

/-- **The books.** In a run of calls from a new pool the books are in order in every state exactly if
every call of the run is orderly. The hash of evidence covers its height. -/
theorem booked_iff_orderly (codec : Codec) (C : Crypto)
    (hheight : ∀ a b, codec.hash a = codec.hash b → a.height = b.height) (state : PoolState) (calls : List Call) :
    (∀ done, done <+: calls → Booked codec (run (call codec C) (start codec [] [] state) done)) ↔
      Admitted (call codec C) (fun pool c => pool.orderly codec C c = true) (start codec [] [] state) calls := by
  have hn : Sound codec (start codec [] [] state) := by
    unfold start
    dsimp only
    split_ifs with he
    · exact loadPendingEvidence_sound rfl (by simp) rfl (by simp)
    · exact ⟨⟨rfl, by simp, rfl⟩, by simp, fun _ => ⟨rfl, rfl, by simpa using he⟩⟩
  exact admitted_iff (fun _ h => h.toBooked) (fun _ c h hok => (h.call_iff hheight c).1 hok)
    (fun _ c h hb => (h.call_iff hheight c).2 hb) hn

def sampleCodec : Codec where
  hash ev := (if ev.height < 0 then 2 else 1) ::
    (List.replicate ev.height.natAbs 0 ++ List.replicate ev.validatorPower.natAbs 3)
  listSize evs := evs.length

lemma sampleCodec_height (a b : DuplicateVoteEvidence) (h : sampleCodec.hash a = sampleCodec.hash b) :
    a.height = b.height := by
  obtain ⟨hs, hr⟩ := cons.inj h
  have hc := congrArg (count 0) hr
  simp only [count_append, count_replicate, beq_iff_eq] at hc
  have hab : a.height.natAbs = b.height.natAbs := by simpa using hc
  by_cases ha : a.height < 0 <;> by_cases hb : b.height < 0
  · omega
  · simp [ha, hb] at hs
  · simp [ha, hb] at hs
  · omega

def doubleSign : DuplicateVoteEvidence :=
  ⟨(VoteSet.sampleVote .precommit 0 (sampleBlockID 1)).vote,
    (VoteSet.sampleVote .precommit 0 (sampleBlockID 2)).vote, 200, 100, 10⟩

def sampleState : PoolState := ⟨"chain", 2, 20, ⟨5, 50, 1000⟩, sampleValidators 2⟩

def sampleStores : Stores := ⟨fun height => some (height * 10), fun _ => some (sampleValidators 2)⟩

def twoCopies : List Call :=
  [.addEvidence sampleStores doubleSign, .addEvidence sampleStores { doubleSign with validatorPower := 7 }]

theorem corrected_copy_counted_twice :
    (run (call sampleCodec Crypto.sample) (start sampleCodec [] [] sampleState) twoCopies).evidenceSize = 2 ∧
    (run (call sampleCodec Crypto.sample) (start sampleCodec [] [] sampleState) twoCopies).pending = [doubleSign] := by
  decide +kernel

theorem first_copy_booked :
    Booked sampleCodec
      (run (call sampleCodec Crypto.sample) (start sampleCodec [] [] sampleState) (twoCopies.take 1)) :=
  (booked_iff_orderly sampleCodec Crypto.sample sampleCodec_height sampleState (twoCopies.take 1)).mpr
    (by decide +kernel) _ prefix_rfl

end Tenderdash.Evidence.Pool
