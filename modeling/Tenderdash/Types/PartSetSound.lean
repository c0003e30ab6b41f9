import Tenderdash.Types.PartSet

/-!
What a part set collected from an adversary holds.

A part is accepted only if it is a chunk of the data the header was made from, but not necessarily
the chunk of its own slot: the proof brings its own total, and the turns to its index among that
total may lead to another leaf of the real tree.
-/

namespace Tenderdash

open Lib Go Merkle Run List Option Nat

variable {D : Type} {H : Hasher Bytes D} {size : D → ℕ}

/-! ### Verification against the tree -/

lemma map_ok_iff {x : Go String D} {y : Option D} {f : D → D} {d : D} (h : ∀ e, x = .ok e ↔ y = some e) :
    (do let e ← x; return f e : Go String D) = .ok d ↔ y.map f = some d := by
  rw [bind_eq_ok, map_eq_some_iff]
  constructor
  · rintro ⟨e, he, hd⟩
    cases hd
    exact ⟨e, (h e).mp he, rfl⟩
  rintro ⟨e, he, rfl⟩
  exact ⟨e, (h e).mpr he, rfl⟩

lemma computeHashFromAunts_eq_ok {i t : ℕ} {h d : D} {aunts : List D} :
    computeHashFromAunts H i t h aunts = .ok d ↔ rootFromAunts H i t h aunts = some d := by
  induction aunts generalizing i t d with
  | nil =>
    rw [computeHashFromAunts, rootFromAunts]
    split_ifs
    all_goals simp [fail]
    all_goals omega
  | cons a as ih =>
    rw [computeHashFromAunts, rootFromAunts]
    by_cases hb : t ≤ i ∨ t ≤ 1
    · rw [if_pos hb]
      split_ifs
      all_goals simp [fail]
      all_goals omega
    rw [if_neg hb, if_neg (by omega), if_neg (by omega), Int.toNat_natCast]
    by_cases hi : i < splitPoint t
    · rw [if_pos hi, if_pos (by omega)]
      exact map_ok_iff fun e => ih
    have e1 : (i : ℤ) - (splitPoint t : ℕ) = ((i - splitPoint t : ℕ) : ℤ) := by omega
    have e2 : (t : ℤ) - (splitPoint t : ℕ) = ((t - splitPoint t : ℕ) : ℤ) := by omega
    rw [if_neg hi, if_neg (by omega), e1, e2]
    exact map_ok_iff fun e => ih

lemma Proof.verify_eq_ok [DecidableEq D] {sp : Proof D} {rootHash : D} {leaf : Bytes} (h : sp.verify H rootHash leaf = .ok ()) :
    0 ≤ sp.total ∧ 0 ≤ sp.index ∧
      rootFromAunts H sp.index.toNat sp.total.toNat (H.leaf leaf) sp.aunts.reverse = some rootHash := by
  simp only [verify, bind_eq_ok, failIf_eq_ok, mapErr_eq_ok, not_lt, not_not] at h
  obtain ⟨_, h1, _, h2, _, h3, d, h4, rfl⟩ := h
  refine ⟨h1, h2, ?_⟩
  rw [← h3, ← computeHashFromAunts_eq_ok, Int.toNat_of_nonneg h1, Int.toNat_of_nonneg h2]
  exact h4

lemma Part.validateBasic_sized {part : Part D} (h : part.validateBasic size = .ok ()) :
    ∀ aunt ∈ part.proof.aunts, size aunt = hashSize := by
  simp only [validateBasic, Proof.validateBasic, bind_eq_ok, failIf_eq_ok, mapErr_eq_ok] at h
  obtain ⟨_, -, _, ⟨_, -, _, -, _, -, _, -, hs⟩, -⟩ := h
  simpa using hs

/-! ### One call of AddPart -/

namespace PartSet

def store (ps : PartSet D) (part : Part D) : PartSet D :=
  { ps with
    parts := ps.parts.set part.index (some part)
    partsBitArray := ps.partsBitArray.set part.index true
    count := ps.count + 1
    byteSize := ps.byteSize + part.bytes.length }

lemma addPart_cases [DecidableEq D] (ps : PartSet D) (part : Part D) :
    (ps.addPart H part).1 = ps ∨
    (part.index < ps.total ∧ (part.index : ℤ) = part.proof.index ∧
      ps.parts.getD part.index none = none ∧
      part.proof.verify H ps.hash part.bytes = .ok () ∧
      (ps.addPart H part).1 = ps.store part) := by
  unfold addPart
  split_ifs with h1 h2 h3 h4
  · exact .inl rfl
  · exact .inl rfl
  · exact .inl rfl
  · exact .inl rfl
  rw [Bool.not_eq_false, isOk_iff] at h4
  obtain ⟨_, h4⟩ := h4
  exact .inr ⟨by omega, not_not.mp h2, by simpa using h3, h4, rfl⟩

/-- The turns the proof takes lead to the part's own slot or to no leaf of the tree. -/
def RouteHome (total : ℕ) (part : Part D) : Prop :=
  ∀ j, SameRoute part.index part.proof.total.toNat j total → j = part.index

variable {part : Part D} {chunks : List Bytes} {ps : PartSet D}

lemma routeHome_of_total_eq {total : ℕ} (h : part.proof.total = total) : RouteHome total part := by
  intro j hj
  rw [h, Int.toNat_natCast] at hj
  exact (hj.eq_of_total_eq rfl).symm

lemma verified_chunk [DecidableEq D] (hH : H.CollisionFree fun d => size d = hashSize)
    (hi : (part.index : ℤ) = part.proof.index) (hs : ∀ aunt ∈ part.proof.aunts, size aunt = hashSize) (hne : chunks ≠ [])
    (h : part.proof.verify H (root H chunks) part.bytes = .ok ()) :
    ∃ j, SameRoute part.index part.proof.total.toNat j chunks.length ∧ chunks[j]? = some part.bytes := by
  obtain ⟨_, _, h⟩ := Proof.verify_eq_ok h
  rw [← hi, Int.toNat_natCast] at h
  obtain ⟨j, hr, hj, _⟩ := rootFromAunts_eq_root hH (fun a ha => hs a (mem_reverse.mp ha)) hne h
  exact ⟨j, hr, hj⟩

/-! ### Collecting parts -/

structure Collects (H : Hasher Bytes D) (chunks : List Bytes) (ps : PartSet D) : Prop where
  total : ps.total = chunks.length
  hash : ps.hash = root H chunks
  length : ps.parts.length = ps.total
  count : ps.count = ps.parts.countP Option.isSome
  stored : ∀ (i : ℕ) (p : Part D), ps.parts[i]? = some (some p) → chunks[i]? = some p.bytes

lemma collects_newFromHeader (chunks : List Bytes) :
    Collects H chunks (newFromHeader chunks.length (root H chunks)) where
  total := rfl
  hash := rfl
  length := by simp [newFromHeader]
  count := by simp [newFromHeader, countP_replicate]
  stored i p h := by
    simp only [newFromHeader, getElem?_replicate] at h
    split at h <;> simp at h

lemma collects_store (h : Collects H chunks ps) (hi : part.index < ps.total) (hf : ps.parts.getD part.index none = none)
    (hb : chunks[part.index]? = some part.bytes) : Collects H chunks (ps.store part) := by
  have hlt : part.index < ps.parts.length := by rw [h.length]; exact hi
  have hf' : ps.parts[part.index] = none := by simpa [hlt] using hf
  refine ⟨h.total, h.hash, ?_, ?_, fun i p hip => ?_⟩
  · simpa [store] using h.length
  · show ps.count + 1 = (ps.parts.set ..).countP _
    rw [countP_set (h := hlt), hf', ← h.count]
    simp
  change (ps.parts.set ..)[i]? = _ at hip
  rw [getElem?_set] at hip
  split_ifs at hip with heq
  · cases hip
    rw [← heq]
    exact hb
  · exact h.stored i p hip

theorem collects_addPart [DecidableEq D] (hH : H.CollisionFree fun d => size d = hashSize)
    (h : Collects H chunks ps) (hva : part.validateBasic size = .ok ()) (hr : RouteHome chunks.length part) :
    Collects H chunks (ps.addPart H part).1 := by
  rcases ps.addPart_cases part with heq | ⟨hi, hin, hf, hv, heq⟩
  · rw [heq]
    exact h
  have hne : chunks ≠ [] := by
    rintro rfl
    rw [h.total] at hi
    simp at hi
  rw [h.hash] at hv
  obtain ⟨j, hj, hb⟩ := verified_chunk hH hin (Part.validateBasic_sized hva) hne hv
  rw [hr j hj] at hb
  rw [heq]
  exact collects_store h hi hf hb

abbrev addParts [DecidableEq D] (H : Hasher Bytes D) : PartSet D → List (Part D) → PartSet D :=
  run fun ps part => (ps.addPart H part).1

lemma collects_addParts [DecidableEq D] (hH : H.CollisionFree fun d => size d = hashSize) {parts : List (Part D)}
    (h : Collects H chunks ps) (hv : ∀ p ∈ parts, p.validateBasic size = .ok ())
    (hr : ∀ p ∈ parts, RouteHome chunks.length p) : Collects H chunks (addParts H ps parts) := by
  induction parts generalizing ps with
  | nil => exact h
  | cons p ps' ih =>
    have hs := collects_addPart hH h (hv p (by simp)) (hr p (by simp))
    exact ih hs (fun q hq => hv q (by simp [hq])) (fun q hq => hr q (by simp [hq]))

lemma exists_map_some {α : Type} {xs : List (Option α)} (h : ∀ o ∈ xs, isSome o = true) :
    ∃ ys : List α, xs = ys.map some := by
  induction xs with
  | nil => exact ⟨[], rfl⟩
  | cons o os ih =>
    obtain ⟨y, rfl⟩ := isSome_iff_exists.mp (h o (by simp))
    obtain ⟨ys, rfl⟩ := ih fun o ho => h o (by simp [ho])
    exact ⟨y :: ys, rfl⟩

lemma Collects.parts_bytes (h : Collects H chunks ps) (hc : ps.isComplete = true) :
    ∃ parts : List (Part D), ps.parts = parts.map some ∧ parts.map Part.bytes = chunks := by
  have ha : ∀ o ∈ ps.parts, isSome o = true := by
    rw [← countP_eq_length, ← h.count, h.length]
    simpa [isComplete] using hc
  obtain ⟨parts, hp⟩ := exists_map_some ha
  refine ⟨parts, hp, ext_getElem? fun i => ?_⟩
  have hl : parts.length = chunks.length := by rw [← h.total, ← h.length, hp, length_map]
  rcases lt_or_ge i parts.length with hi | hi
  · have := h.stored i parts[i] (by simp [hp, hi])
    rw [this]
    simp [hi]
  · rw [getElem?_eq_none (by simpa using hi), getElem?_eq_none (by omega)]

end PartSet

/-! ### Reading -/

namespace PartSetReader

def contents (cur : Bytes) (parts : List (Part D)) : Bytes := cur ++ (parts.map Part.bytes).flatten

lemma read_spec {n : ℕ} (hn : 0 < n) (cur : Bytes) (parts : List (Part D)) :
    ∃ out eof cur' parts', read n cur (parts.map some) = .ok (out, eof, ⟨cur', parts'.map some⟩) ∧
      contents cur parts = out ++ contents cur' parts' ∧
      (eof = false → out.length = n) ∧ (eof = true → contents cur' parts' = []) := by
  induction parts generalizing n cur with
  | nil =>
    rw [map_nil, read]
    by_cases hle : n ≤ cur.length
    · have hne : cur ≠ [] := by rintro rfl; simp at hle; omega
      rw [if_pos hle, if_neg hne]
      exact ⟨_, _, _, [], rfl, by simp [contents], by simp [hle], by simp⟩
    rw [if_neg hle]
    exact ⟨_, _, [], [], rfl, by simp [contents], by simp, by simp [contents]⟩
  | cons p parts ih =>
    rw [map_cons, read]
    by_cases hle : n ≤ cur.length
    · have hne : cur ≠ [] := by rintro rfl; simp at hle; omega
      rw [if_pos hle, if_neg hne]
      exact ⟨_, _, _, p :: parts, rfl, by simp [contents, ← append_assoc], by simp [hle], by simp⟩
    obtain ⟨out, eof, cur', parts', hr, hc, hf, hen⟩ := ih (n := n - cur.length) (by omega) p.bytes
    rw [if_neg hle]
    rw [hr]
    refine ⟨_, _, cur', parts', rfl, ?_, ?_, hen⟩
    · have : contents cur (p :: parts) = cur ++ contents p.bytes parts := by simp [contents]
      rw [this, hc, append_assoc]
    intro he
    rw [length_append, hf he]
    omega

theorem drain_eq (bufs : List ℕ) (cur : Bytes) (parts : List (Part D))
    (hp : ∀ n ∈ bufs, 0 < n) (hlt : (contents cur parts).length < bufs.sum) :
    drain bufs ⟨cur, parts.map some⟩ = .ok (contents cur parts, true) := by
  induction bufs generalizing cur parts with
  | nil => simp at hlt
  | cons n bufs ih =>
    obtain ⟨out, eof, cur', parts', hr, hc, hf, he⟩ := read_spec (hp n (by simp)) cur parts
    rw [drain]
    rw [hr]
    cases eof with
    | true =>
      rw [hc, he rfl, append_nil]
      rfl
    | false =>
      have ho := hf rfl
      have hl' : (contents cur' parts').length < bufs.sum := by
        rw [hc, length_append, ho, sum_cons] at hlt
        omega
      have := ih cur' parts' (fun m hm => hp m (by simp [hm])) hl'
      rw [hc]
      simp only [bind, Except.bind, pure, pure]
      rw [this]
      rfl

end PartSetReader

/-! ### The chunks of some data -/

def chunk (data : Bytes) (partSize i : ℕ) : Bytes := (data.drop (i * partSize)).take partSize

lemma chunks_flatten (data : Bytes) (partSize total : ℕ) :
    ((range total).map (chunk data partSize)).flatten = data.take (total * partSize) := by
  induction total with
  | zero => simp
  | succ n ih =>
    rw [range_succ, map_append, flatten_append, ih, succ_mul, take_add]
    simp [chunk]

namespace PartSet

lemma slice_eq_chunk {data b : Bytes} {partSize i : ℕ} (hi : (i + 1) * partSize < 2 ^ 32)
    (h : slice data partSize i = .ok b) : b = chunk data partSize i := by
  unfold slice at h
  have hlo : i * partSize < 2 ^ 32 := by rw [succ_mul] at hi; omega
  rw [mod_eq_of_lt hi, mod_eq_of_lt hlo] at h
  dsimp only at h
  split_ifs at h
  · cases h
  cases h
  unfold chunk
  rw [drop_take, take_eq_take_iff, length_drop, succ_mul]
  omega

lemma newFromData_spec {data : Bytes} {partSize : ℕ} {ps : PartSet D} (h : newFromData H data partSize = .ok ps) :
    ∃ chunks, chunks = (range ps.total).map (chunk data partSize) ∧
      ps.hash = root H chunks ∧ 0 < partSize ∧
      ps.total = (data.length + partSize + (2 ^ 32 - 1)) % 2 ^ 32 / partSize ∧
      ps = ⟨ps.total, root H chunks, chunks.mapIdx fun i b => some ⟨i, b, proofOf H chunks i b⟩,
        replicate ps.total true, ps.total, data.length⟩ := by
  unfold newFromData at h
  by_cases hz : partSize = 0
  · rw [if_pos hz] at h
    cases h
  rw [if_neg hz] at h
  set total := (data.length + partSize + (2 ^ 32 - 1)) % 2 ^ 32 / partSize with ht
  obtain ⟨bs, hbs, h⟩ := of_bind h
  cases h
  refine ⟨bs, ?_, rfl, by omega, rfl, rfl⟩
  -- no slice wraps around: the bounds of the last one are below the 32-bit sum
  have hb : total * partSize < 2 ^ 32 := lt_of_le_of_lt (div_mul_le_self ..) (mod_lt _ (by norm_num))
  have ha := mapM_eq_ok.mp hbs
  refine (ext_getElem (by simpa using ha.length_eq) fun i h1 h2 => ?_).symm
  have hlt : i < total := by simpa using h1
  have hi : (i + 1) * partSize < 2 ^ 32 := lt_of_le_of_lt (mul_le_mul_right _ hlt) hb
  have := slice_eq_chunk hi (by simpa using ha.get (by simpa using hlt) h2)
  simp [this]

lemma length_le_total {n partSize : ℕ} (hp : 0 < partSize) (h : n + partSize ≤ 2 ^ 32) (hn : 0 < n) :
    n ≤ (n + partSize + (2 ^ 32 - 1)) % 2 ^ 32 / partSize * partSize := by
  have hm : (n + partSize + (2 ^ 32 - 1)) % 2 ^ 32 = n + partSize - 1 := by omega
  rw [hm]
  have hd := div_add_mod' (n + partSize - 1) partSize
  have hlt := mod_lt (n + partSize - 1) hp
  omega

end PartSet

/-- For valid parts none of whose proofs takes the turns to another slot, every stored part is the
chunk of its slot. If moreover the data is not empty and the 32-bit count of its parts does not
overflow, then once the set is complete, reading it yields the data. -/
theorem collected_parts_sound [DecidableEq D] (H : Hasher Bytes D) (size : D → ℕ)
    (hH : H.CollisionFree fun d => size d = hashSize) (data : Bytes) (partSize : ℕ) (ps₀ : PartSet D) (h₀ : PartSet.newFromData H data partSize = .ok ps₀)
    (parts : List (Part D)) (hvalid : ∀ p ∈ parts, p.validateBasic size = .ok ())
    (hroute : ∀ p ∈ parts, PartSet.RouteHome ps₀.total p) :
    (∀ (i : ℕ) (p : Part D),
      (PartSet.addParts H (.newFromHeader ps₀.total ps₀.hash) parts).parts[i]? = some (some p) →
        p.bytes = chunk data partSize i) ∧
    (0 < data.length → data.length + partSize ≤ 2 ^ 32 →
      (PartSet.addParts H (.newFromHeader ps₀.total ps₀.hash) parts).isComplete = true →
      ∀ bufs : List ℕ, (∀ n ∈ bufs, 0 < n) → data.length < bufs.sum →
        ((PartSet.addParts H (.newFromHeader ps₀.total ps₀.hash) parts).getReader >>=
          PartSetReader.drain bufs) = .ok (data, true)) := by
  obtain ⟨chunks, hch, hh, hpo, ht, -⟩ := PartSet.newFromData_spec h₀
  have hl : chunks.length = ps₀.total := by rw [hch]; simp
  have hin : PartSet.Collects H chunks (.newFromHeader ps₀.total ps₀.hash) := by
    rw [hh, ← hl]
    exact PartSet.collects_newFromHeader chunks
  rw [← hl] at hroute
  have hf := PartSet.collects_addParts hH hin hvalid hroute
  refine ⟨fun i p hp => ?_, fun hd hsi hc bufs hbu hlt => ?_⟩
  · have := hf.stored i p hp
    rw [hch, List.getElem?_eq_some_iff] at this
    obtain ⟨hi, hck⟩ := this
    rw [← hck]
    simp
  · obtain ⟨stored, hs, hb⟩ := hf.parts_bytes hc
    have hle := PartSet.length_le_total hpo hsi hd
    rw [← ht] at hle
    have hj : (stored.map Part.bytes).flatten = data := by
      rw [hb, hch, chunks_flatten, take_of_length_le hle]
    cases stored with
    | nil =>
      rw [← hj] at hd
      simp at hd
    | cons p rest =>
      have hr : (PartSet.addParts H (.newFromHeader ps₀.total ps₀.hash) parts).getReader =
          .ok ⟨p.bytes, rest.map some⟩ := by
        unfold PartSet.getReader
        rw [hc, hs]
        rfl
      have hco : PartSetReader.contents p.bytes rest = data := by
        rw [← hj]
        simp [PartSetReader.contents]
      rw [hr]
      refine Eq.trans (PartSetReader.drain_eq bufs p.bytes rest hbu ?_) ?_
      · rw [hco]
        exact hlt
      · rw [hco]

/-! ### Digests without collisions, and a part in the wrong slot -/

inductive TermDigest where
  | leaf (b : Bytes)
  | inner (l r : TermDigest)
  | empty
  deriving DecidableEq, Repr

def TermDigest.hasher : Hasher Bytes TermDigest := ⟨.leaf, .inner, .empty⟩

lemma TermDigest.hasher_collisionFree : hasher.CollisionFree fun _ => hashSize = hashSize where
  sized_leaf _ := rfl
  sized_inner _ _ := rfl
  leaf_inj _ _ h := by injection h
  inner_inj _ _ _ _ _ _ _ _ h := by injection h with h1 h2; exact ⟨h1, h2⟩
  leaf_ne_inner _ _ _ h := by cases h

def threeParts : PartSet TermDigest :=
  (PartSet.newFromData TermDigest.hasher [1, 2, 3] 1).toOption.getD (.newFromHeader 0 .empty)

/-- The parts of three one-byte chunks, delivered in another order and with one of them twice. -/
theorem three_parts_collected :
    (PartSet.addParts TermDigest.hasher (.newFromHeader threeParts.total threeParts.hash)
      ((threeParts.parts ++ threeParts.parts).reverse.filterMap id)).isComplete = true ∧
    ((PartSet.addParts TermDigest.hasher (.newFromHeader threeParts.total threeParts.hash)
      ((threeParts.parts ++ threeParts.parts).reverse.filterMap id)).getReader >>=
        PartSetReader.drain [2, 2]) = .ok ([1, 2, 3], true) := by
  have h := collected_parts_sound TermDigest.hasher (fun _ => hashSize)
    TermDigest.hasher_collisionFree [1, 2, 3] 1 threeParts (by decide +kernel)
    ((threeParts.parts ++ threeParts.parts).reverse.filterMap id) (by decide +kernel)
    (fun p hp => PartSet.routeHome_of_total_eq (by revert p; decide +kernel))
  exact ⟨by decide +kernel, h.2 (by decide) (by decide) (by decide +kernel) [2, 2] (by decide) (by decide)⟩

def relabelledPart : Part TermDigest where
  index := 1
  bytes := [3]
  proof := ⟨2, 1, .leaf [3], [.inner (.leaf [1]) (.leaf [2])]⟩

/-- A valid part with the bytes of another chunk is stored, and the empty data has a complete part
set that cannot be read. -/
theorem relabelled_part_accepted :
    PartSet.newFromData TermDigest.hasher [1, 2, 3] 1 = .ok threeParts ∧
    relabelledPart.validateBasic (fun _ => hashSize) = .ok () ∧
    (PartSet.addParts TermDigest.hasher (.newFromHeader threeParts.total threeParts.hash)
      [relabelledPart]).parts[1]? = some (some relabelledPart) ∧
    relabelledPart.bytes ≠ chunk [1, 2, 3] 1 1 ∧
    ∃ ps, PartSet.newFromData TermDigest.hasher [] 1 = .ok ps ∧
      (PartSet.newFromHeader ps.total ps.hash).isComplete = true ∧
      (PartSet.newFromHeader ps.total ps.hash).getReader = Go.crash "index out of range" := by
  refine ⟨by decide +kernel, by decide +kernel, by decide +kernel, by decide +kernel,
    ⟨0, .empty, [], [], 0, 0⟩, by decide +kernel, by decide +kernel, by decide +kernel⟩

end Tenderdash
