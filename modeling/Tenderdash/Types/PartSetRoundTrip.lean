import Tenderdash.Types.PartSetSound

/-!
The round trip of a part set: data is cut into parts, the parts are added to an empty set with the same header,
and the complete set is read again.

* `addParts_own` — the parts of a set, in any order and with duplicates, are each added once;
* `drain_iff_steady` — reading yields the data unless a buffer of length zero is offered at the end of a part
  that is not the last one: the reader takes that for the end of the data.
-/

namespace Tenderdash

open Lib Go Merkle List

variable {D : Type} {H : Hasher Bytes D}

/-! ### Adding the parts -/

lemma sum_set_of_zero {xs : List ℕ} {i : ℕ} (hi : i < xs.length) (hz : xs[i] = 0) (n : ℕ) :
    (xs.set i n).sum = xs.sum + n := by
  induction xs generalizing i with
  | nil => simp at hi
  | cons x xs ih =>
    cases i with
    | zero =>
      obtain rfl : x = 0 := hz
      simp only [set_cons_zero, sum_cons]
      omega
    | succ i =>
      have ht := ih (by simpa using hi) (by simpa using hz)
      simp only [set_cons_succ, sum_cons, ht]
      omega

namespace PartSet

def added [DecidableEq D] (H : Hasher Bytes D) : PartSet D → List (Part D) → List (Part D)
  | _, [] => []
  | ps, part :: parts =>
    (match (ps.addPart H part).2 with
      | .ok true => [part]
      | _ => []) ++ added H (ps.addPart H part).1 parts

lemma verify_proofOf [DecidableEq D] {chunks : List Bytes} {i : ℕ} {b : Bytes} (h : chunks[i]? = some b) :
    (proofOf H chunks i b).verify H (root H chunks) b = .ok () := by
  have hi : i < chunks.length := (List.getElem?_eq_some_iff.mp h).1
  unfold Proof.verify proofOf
  have hr : computeHashFromAunts H i chunks.length (H.leaf b) (trail H chunks i) = .ok (root H chunks) :=
    computeHashFromAunts_eq_ok.mpr (rootFromAunts_trail H (SameRoute.refl hi) h)
  dsimp only
  rw [reverse_reverse]
  refine bind_eq_ok.mpr ⟨(), failIf_eq_ok.mpr (by omega), bind_eq_ok.mpr ⟨(),
    failIf_eq_ok.mpr (by omega), bind_eq_ok.mpr ⟨(), failIf_eq_ok.mpr (not_not.mpr rfl), ?_⟩⟩⟩
  exact bind_eq_ok.mpr ⟨_, mapErr_eq_ok.mpr hr, failIf_eq_ok.mpr (not_not.mpr rfl)⟩

def partOf (H : Hasher Bytes D) (chunks : List Bytes) (i : ℕ) (b : Bytes) : Part D := ⟨i, b, proofOf H chunks i b⟩

structure Gathers (H : Hasher Bytes D) (chunks : List Bytes) (ps : PartSet D) : Prop where
  total : ps.total = chunks.length
  hash : ps.hash = root H chunks
  length : ps.parts.length = chunks.length
  own : ∀ (i : ℕ) (p : Part D), ps.parts[i]? = some (some p) → ∃ b, chunks[i]? = some b ∧ p = partOf H chunks i b
  bits : ps.partsBitArray = ps.parts.map Option.isSome
  count : ps.count = ps.parts.countP Option.isSome
  byteSize : ps.byteSize = (ps.parts.map fun o => (o.map fun p => p.bytes.length).getD 0).sum

def Filled (ps : PartSet D) (i : ℕ) : Prop := ∃ p, ps.parts[i]? = some (some p)

lemma gathers_newFromHeader (chunks : List Bytes) : Gathers H chunks (newFromHeader chunks.length (root H chunks)) where
  total := rfl
  hash := rfl
  length := by simp [newFromHeader]
  own i p h := by
    simp only [newFromHeader, getElem?_replicate] at h
    split at h <;> simp at h
  bits := by simp [newFromHeader]
  count := by simp [newFromHeader, countP_replicate]
  byteSize := by simp [newFromHeader]

lemma not_filled_newFromHeader (total : ℕ) (hash : D) (i : ℕ) : ¬ (newFromHeader total hash).Filled i := by
  rintro ⟨p, hp⟩
  simp only [newFromHeader, getElem?_replicate] at hp
  split at hp <;> simp at hp

variable {chunks : List Bytes} {ps : PartSet D} {i : ℕ} {b : Bytes} {part : Part D}

lemma filled_iff : ps.Filled i ↔ (ps.parts.getD i none).isSome := by
  rw [Filled, getD_eq_getElem?_getD]
  rcases ps.parts[i]? with _ | _ | p <;> simp

lemma filled_store (hi : part.index < ps.parts.length) (j : ℕ) :
    (ps.store part).Filled j ↔ ps.Filled j ∨ j = part.index := by
  unfold Filled store
  by_cases hj : part.index = j
  · subst hj
    simp [hi]
  rw [getElem?_set_ne hj]
  simp [Ne.symm hj]

lemma Gathers.store (h : Gathers H chunks ps) (hb : chunks[i]? = some b) (hf : ¬ ps.Filled i) :
    Gathers H chunks (ps.store (partOf H chunks i b)) := by
  have hi : i < ps.parts.length := by
    rw [h.length]
    exact (List.getElem?_eq_some_iff.mp hb).1
  have hn : ps.parts[i] = none := by simpa [filled_iff, hi] using hf
  refine ⟨h.total, h.hash, ?_, fun j p hp => ?_, ?_, ?_, ?_⟩
  · show (ps.parts.set i _).length = _
    rw [length_set, h.length]
  · change (ps.parts.set i (some (partOf H chunks i b)))[j]? = _ at hp
    rw [List.getElem?_set] at hp
    split_ifs at hp with heq
    · cases hp
      exact ⟨b, heq ▸ hb, by rw [heq]⟩
    · exact h.own j p hp
  · show ps.partsBitArray.set i true = (ps.parts.set i _).map _
    rw [h.bits, map_set]
    rfl
  · show ps.count + 1 = (ps.parts.set i _).countP _
    rw [countP_set (h := hi), hn, ← h.count]
    simp
  · show ps.byteSize + b.length = ((ps.parts.set i _).map _).sum
    rw [h.byteSize, map_set]
    exact (sum_set_of_zero (by simpa using hi) (by simp [hn]) _).symm

lemma Gathers.addPart_own [DecidableEq D] (h : Gathers H chunks ps)
    (hb : chunks[part.index]? = some part.bytes) (hpa : part = partOf H chunks part.index part.bytes) :
    Gathers H chunks (ps.addPart H part).1 ∧ (∀ j, (ps.addPart H part).1.Filled j ↔ ps.Filled j ∨ j = part.index) ∧
      ((ps.addPart H part).2 = .ok true ↔ ¬ ps.Filled part.index) := by
  have hi : part.index < chunks.length := (List.getElem?_eq_some_iff.mp hb).1
  have hp : part.proof = proofOf H chunks part.index part.bytes := congrArg Part.proof hpa
  unfold addPart
  rw [if_neg (by rw [h.total]; omega), if_neg (by rw [hp]; exact not_not.mpr rfl)]
  by_cases hf : ps.Filled part.index
  · rw [if_pos (filled_iff.mp hf)]
    refine ⟨h, fun j => ⟨.inl, ?_⟩, by simp [hf]⟩
    rintro (hj | rfl)
    · exact hj
    · exact hf
  · rw [if_neg (mt filled_iff.mpr hf), if_neg (by rw [hp, h.hash, verify_proofOf hb]; decide)]
    have hs := h.store hb hf
    rw [← hpa] at hs
    exact ⟨hs, filled_store (h.length ▸ hi), by simp [hf]⟩

lemma Gathers.addParts_own [DecidableEq D] {parts : List (Part D)} (h : Gathers H chunks ps)
    (how : ∀ p ∈ parts, chunks[p.index]? = some p.bytes ∧ p = partOf H chunks p.index p.bytes) :
    Gathers H chunks (addParts H ps parts) ∧
      (∀ j, (addParts H ps parts).Filled j ↔ ps.Filled j ∨ ∃ p ∈ parts, p.index = j) ∧
      (added H ps parts).Nodup ∧
      ∀ p, p ∈ added H ps parts ↔ p ∈ parts ∧ ¬ ps.Filled p.index := by
  induction parts generalizing ps with
  | nil => simpa [added] using h
  | cons part parts ih =>
    obtain ⟨hb, hpa⟩ := how part (by simp)
    obtain ⟨hs, hfi, hn⟩ := h.addPart_own hb hpa
    obtain ⟨hg, hf, hnd, hm⟩ := ih hs fun p hp => how p (by simp [hp])
    rw [added]
    refine ⟨hg, fun j => ?_, ?_⟩
    · rw [exists_mem_cons_iff, ← or_assoc, eq_comm (b := j), ← hfi]
      exact hf j
    split
    · next ha =>
      have hfr := hn.mp ha
      refine ⟨nodup_cons.mpr ⟨fun hin => ((hm part).mp hin).2 ((hfi _).mpr (.inr rfl)), hnd⟩, fun p => ?_⟩
      rw [singleton_append, mem_cons, hm p, hfi, mem_cons]
      constructor
      · rintro (rfl | ⟨hp, ho⟩)
        · exact ⟨.inl rfl, hfr⟩
        · exact ⟨.inr hp, fun hj => ho (.inl hj)⟩
      rintro ⟨rfl | hp, ho⟩
      · exact .inl rfl
      by_cases hi : p.index = part.index
      · -- two parts of one index are the same part
        obtain ⟨hb', hp'⟩ := how p (by simp [hp])
        rw [hi, hb] at hb'
        rw [hi, ← Option.some.inj hb', ← hpa] at hp'
        exact .inl hp'
      · exact .inr ⟨hp, fun hj => hj.elim ho hi⟩
    · next hno =>
      have hfu : ps.Filled part.index := not_not.mp fun hfr => hno (hn.mpr hfr)
      refine ⟨hnd, fun p => ?_⟩
      rw [nil_append, hm p, hfi, mem_cons]
      constructor
      · rintro ⟨hp, ho⟩
        exact ⟨.inr hp, fun hj => ho (.inl hj)⟩
      rintro ⟨rfl | hp, ho⟩
      · exact absurd hfu ho
      · exact ⟨hp, fun hj => hj.elim ho fun heq => ho (heq ▸ hfu)⟩

def full (H : Hasher Bytes D) (chunks : List Bytes) : PartSet D where
  total := chunks.length
  hash := root H chunks
  parts := chunks.mapIdx fun i b => some (partOf H chunks i b)
  partsBitArray := List.replicate chunks.length true
  count := chunks.length
  byteSize := (chunks.map List.length).sum

lemma Gathers.eq_full (h : Gathers H chunks ps) (ha : ∀ i < chunks.length, ps.Filled i) : ps = full H chunks := by
  have hpa : ps.parts = chunks.mapIdx fun i b => some (partOf H chunks i b) := by
    refine ext_getElem (by simp [h.length]) fun i h1 h2 => ?_
    obtain ⟨p, hp⟩ := ha i (by simpa using h2)
    obtain ⟨b, hb, hpb⟩ := h.own i p hp
    obtain ⟨hi, hb⟩ := List.getElem?_eq_some_iff.mp hb
    have hp' := (List.getElem?_eq_some_iff.mp hp).2
    simp [hp', hpb, hb]
  obtain ⟨total, hash, parts, bits, count, byteSize⟩ := ps
  obtain rfl : parts = _ := hpa
  obtain ⟨ht, hh, -, -, hbi, hc, hs⟩ := h
  dsimp only at ht hh hbi hc hs
  congr 1
  · rw [hbi]
    refine ext_getElem (by simp) fun i h1 h2 => by simp
  · rw [hc]
    have : countP Option.isSome (chunks.mapIdx fun i b => some (partOf H chunks i b)) =
        (chunks.mapIdx fun i b => some (partOf H chunks i b)).length :=
      countP_eq_length.mpr fun o ho => by
        obtain ⟨i, hi, rfl⟩ := mem_mapIdx.mp ho
        rfl
    rw [this, length_mapIdx]
  · rw [hs]
    congr 1
    refine ext_getElem (by simp) fun i h1 h2 => by simp [partOf]

end PartSet

/-! ### Reading with any buffers -/

def Steady (partSize len : ℕ) : ℕ → List ℕ → Prop
  | _, [] => True
  | pos, n :: bufs => ¬ (n = 0 ∧ 0 < pos ∧ partSize ∣ pos ∧ pos < len) ∧ Steady partSize len (pos + n) bufs

variable {partSize total n : ℕ}

lemma steady_of_le {len pos : ℕ} (h : len ≤ pos) (bufs : List ℕ) : Steady partSize len pos bufs := by
  induction bufs generalizing pos with
  | nil => trivial
  | cons n bufs ih => exact ⟨by omega, ih (by omega)⟩

variable {data : Bytes}

lemma flatten_drop_chunks (hl : data.length ≤ total * partSize) {k : ℕ}
    (hk : k ≤ total) : (((List.range total).map (chunk data partSize)).drop k).flatten = data.drop (k * partSize) := by
  have ha : ((range total).map (chunk data partSize)).flatten = data := by rw [chunks_flatten, take_of_length_le hl]
  have ht : (((range total).map (chunk data partSize)).take k).flatten = data.take (k * partSize) := by
    rw [← map_take, take_range, min_eq_left hk, chunks_flatten]
  rw [← take_append_drop k ((range total).map (chunk data partSize)), flatten_append, ht] at ha
  exact append_cancel_left (ha.trans (take_append_drop ..).symm)

namespace PartSetReader

structure At (data : Bytes) (partSize total pos j : ℕ) (cur : Bytes) (parts : List (Part D)) : Prop where
  current : cur = (data.take ((j + 1) * partSize)).drop pos
  rest : parts.map Part.bytes = ((List.range total).map (chunk data partSize)).drop (j + 1)
  index : j < total
  start : j * partSize ≤ pos
  stop : pos ≤ (j + 1) * partSize

variable {data cur : Bytes} {partSize total pos j : ℕ} {parts : List (Part D)}

section

variable (h : At data partSize total pos j cur parts)

include h

lemma At.contents_eq (hl : data.length ≤ total * partSize) : contents cur parts = data.drop pos := by
  have hi := h.index
  unfold contents
  rw [h.rest, flatten_drop_chunks hl (by omega), h.current]
  have hs : data.drop pos = (data.take ((j + 1) * partSize) ++ data.drop ((j + 1) * partSize)).drop pos := by
    rw [take_append_drop]
  rcases le_or_gt ((j + 1) * partSize) data.length with hle | hgt
  · rw [hs, drop_append_of_le_length]
    rw [length_take, min_eq_left hle]
    exact h.stop
  · rw [take_of_length_le hgt.le, drop_of_length_le hgt.le, append_nil]

lemma At.current_length : cur.length = min ((j + 1) * partSize) data.length - pos := by
  rw [h.current, length_drop, length_take]

lemma At.read_within (hn : 0 < n) (hle : n ≤ cur.length) :
    PartSetReader.read n cur (parts.map some) = .ok ((data.drop pos).take n, false, ⟨cur.drop n, parts.map some⟩) ∧
      At data partSize total (pos + n) j (cur.drop n) parts := by
  have hne : cur ≠ [] := by
    rintro rfl
    simp at hle
    omega
  have hl := h.current_length
  have hs := h.start
  have ht : cur.take n = (data.drop pos).take n := by rw [h.current, drop_take, take_take, min_eq_left (by omega)]
  refine ⟨?_, ?_, h.rest, h.index, by omega, by omega⟩
  · rw [← ht]
    cases parts <;> rw [map, read, if_pos hle, if_neg hne]
  · rw [h.current, drop_drop]

lemma At.read (hn : 0 < n) (hp : pos + n ≤ data.length) (hln : data.length ≤ total * partSize) :
    ∃ cur' parts' j', PartSetReader.read n cur (parts.map some) =
        .ok ((data.drop pos).take n, false, ⟨cur', parts'.map some⟩) ∧
      At data partSize total (pos + n) j' cur' parts' ∧ j' * partSize < pos + n := by
  induction parts generalizing n cur pos j with
  | nil =>
    have hla : total ≤ j + 1 := by
      have := congrArg length h.rest
      simp at this
      omega
    have hm : total * partSize ≤ (j + 1) * partSize := Nat.mul_le_mul_right _ hla
    have hl := h.current_length
    obtain ⟨hr, hat⟩ := h.read_within hn (by omega)
    exact ⟨_, _, _, hr, hat, by have := h.start; omega⟩
  | cons p parts ih =>
    by_cases hle : n ≤ cur.length
    · obtain ⟨hr, hat⟩ := h.read_within hn hle
      exact ⟨_, _, _, hr, hat, by have := h.start; omega⟩
    -- the part is read to its end, and the read goes on at the start of the next one
    have hl := h.current_length
    have hst := h.stop
    have hne : j + 1 < total := by
      by_contra hla
      have := congrArg length h.rest
      simp at this
      omega
    have hre := h.rest
    rw [map_cons, drop_eq_getElem_cons (by simpa using hne)] at hre
    obtain ⟨hb, hre⟩ := cons.inj hre
    have hat : At data partSize total ((j + 1) * partSize) (j + 1) p.bytes parts := by
      refine ⟨?_, hre, hne, le_rfl, Nat.mul_le_mul_right _ (by omega)⟩
      rw [hb, getElem_map, getElem_range, chunk, drop_take]
      congr 1
      rw [Nat.succ_mul (j + 1)]
      omega
    have hs : pos + n = (j + 1) * partSize + (n - cur.length) := by omega
    obtain ⟨cur', parts', j', hr, ha', hj'⟩ := ih (n := n - cur.length) hat (by omega) (by omega)
    refine ⟨cur', parts', j', ?_, hs ▸ ha', hs ▸ hj'⟩
    rw [map_cons, read, if_neg hle]
    rw [hr]
    have ho : (data.drop pos).take n = cur ++ (data.drop ((j + 1) * partSize)).take (n - cur.length) := by
      have hc : cur = (data.drop pos).take cur.length := by
        conv_lhs => rw [h.current, drop_take]
        rw [take_eq_take_iff, length_drop]
        omega
      have hn' : n = cur.length + (n - cur.length) := by omega
      conv_lhs => rw [hn', take_add, ← hc, drop_drop]
      rw [show pos + cur.length = (j + 1) * partSize by omega]
    rw [ho]
    rfl

lemma At.read_past (hp : pos ≤ data.length) (hn : data.length < pos + n) (hl : data.length ≤ total * partSize) :
    ∃ r, PartSetReader.read n cur (parts.map some) = .ok (data.drop pos, true, r) := by
  obtain ⟨out, eof, cur', parts', hr, hc, hf, he⟩ := read_spec (n := n) (by omega) cur parts
  rw [h.contents_eq hl] at hc
  cases eof with
  | true =>
    rw [he rfl, append_nil] at hc
    exact ⟨_, by rw [hr, hc]⟩
  | false =>
    have ho := hf rfl
    have := congrArg length hc
    rw [length_drop, length_append] at this
    omega

end

lemma read_zero (cur : Bytes) (parts : List (Part D)) :
    PartSetReader.read 0 cur (parts.map some) = .ok ([], decide (cur = []), ⟨cur, parts.map some⟩) := by
  cases parts <;> by_cases hc : cur = [] <;> simp [read, hc]

theorem drain_iff_steady {bufs : List ℕ} (h : At data partSize total pos j cur parts)
    (hle : data.length ≤ total * partSize) (hp : pos ≤ data.length)
    (hs : 0 < pos → j * partSize < pos) (hcu : pos = 0 → cur ≠ []) (hb : data.length < pos + bufs.sum) :
    drain bufs ⟨cur, parts.map some⟩ = .ok (data.drop pos, true) ↔ Steady partSize data.length pos bufs := by
  induction bufs generalizing pos j cur parts with
  | nil =>
    simp at hb
    omega
  | cons n bufs ih =>
    rw [sum_cons] at hb
    have hl := h.current_length
    have hso := h.stop
    rw [Steady]
    rcases eq_zero_or_pos n with rfl | hn
    · by_cases hu : cur = []
      · -- the reader takes the end of the part for the end of the data
        have hz : cur.length = 0 := by rw [hu]; rfl
        have hp' : 0 < pos := pos_of_ne_zero fun h0 => hcu h0 hu
        have hr : drain (0 :: bufs) (⟨cur, parts.map some⟩ : PartSetReader D) = .ok ([], true) := by
          rw [drain]
          rw [read_zero, hu]
          rfl
        rw [hr, Except.ok.injEq, Prod.mk.injEq, and_iff_left rfl, eq_comm, drop_eq_nil_iff]
        constructor
        · intro he
          exact ⟨by omega, steady_of_le (by omega) bufs⟩
        rintro ⟨hst, -⟩
        by_contra hlt
        exact hst ⟨rfl, hp', ⟨j + 1, by rw [mul_comm]; omega⟩, by omega⟩
      · have hno : cur.length ≠ 0 := fun h0 => hu (eq_nil_of_length_eq_zero h0)
        have hr : drain (0 :: bufs) (⟨cur, parts.map some⟩ : PartSetReader D) = drain bufs ⟨cur, parts.map some⟩ := by
          rw [drain]
          rw [read_zero, decide_eq_false hu]
          simp only [bind, Except.bind, pure, Except.pure, Bool.false_eq_true, if_false, nil_append]
          cases drain bufs (⟨cur, parts.map some⟩ : PartSetReader D) <;> rfl
        have hi : ¬ (0 = 0 ∧ 0 < pos ∧ partSize ∣ pos ∧ pos < data.length) := by
          rintro ⟨-, hp', ⟨k, hk⟩, -⟩
          have hlo := hs hp'
          rw [hk, mul_comm partSize k] at hlo hl
          have hjk : j < k := Nat.lt_of_mul_lt_mul_right hlo
          have : (j + 1) * partSize ≤ k * partSize := Nat.mul_le_mul_right _ hjk
          omega
        rw [hr, and_iff_right hi]
        exact ih h hp hs hcu (by omega)
    · by_cases hin : pos + n ≤ data.length
      · obtain ⟨cur', parts', j', hr, hat, hj'⟩ := h.read hn hin hle
        rw [drain]
        rw [hr]
        simp only [bind, Except.bind, pure, Except.pure, Bool.false_eq_true, if_false]
        rw [and_iff_right (by omega), ← ih hat hin (fun _ => hj') (by omega) (by omega)]
        have hsp : data.drop pos = (data.drop pos).take n ++ data.drop (pos + n) := by
          rw [← drop_drop, take_append_drop]
        cases drain bufs (⟨cur', parts'.map some⟩ : PartSetReader D) with
        | error e => simp
        | ok res =>
          obtain ⟨out, eof⟩ := res
          have hc : (data.drop pos).take n ++ out = data.drop pos ↔ out = data.drop (pos + n) := by
            conv_lhs => rhs; rw [hsp]
            rw [append_cancel_left_eq]
          simp only [Except.ok.injEq, Prod.mk.injEq, hc]
      · obtain ⟨r, hr⟩ := h.read_past (n := n) hp (by omega) hle
        rw [drain]
        rw [hr]
        simp only [bind, Except.bind, pure, Except.pure, if_true, true_iff]
        exact ⟨by omega, steady_of_le (by omega) bufs⟩

end PartSetReader

/-! ### The round trip -/

namespace PartSet

def AllParts (ps : PartSet D) (order : List (Part D)) : Prop := ∀ p, p ∈ order ↔ some p ∈ ps.parts

structure Restored [DecidableEq D] (H : Hasher Bytes D) (data : Bytes) (bufs : List ℕ) (ps₀ : PartSet D) (order : List (Part D)) :
    Prop where
  nodup : (added H (newFromHeader ps₀.total ps₀.hash) order).Nodup
  added : ∀ p, p ∈ added H (newFromHeader ps₀.total ps₀.hash) order ↔ some p ∈ ps₀.parts
  complete : (addParts H (newFromHeader ps₀.total ps₀.hash) order).isComplete = true
  count : (addParts H (newFromHeader ps₀.total ps₀.hash) order).count = ps₀.count
  byteSize : (addParts H (newFromHeader ps₀.total ps₀.hash) order).byteSize = ps₀.byteSize
  bits : (addParts H (newFromHeader ps₀.total ps₀.hash) order).partsBitArray = List.replicate ps₀.total true
  read : ((addParts H (newFromHeader ps₀.total ps₀.hash) order).getReader >>= PartSetReader.drain bufs) =
    .ok (data, true)

def RoundTrips [DecidableEq D] (H : Hasher Bytes D) (data : Bytes) (partSize : ℕ) (bufs : List ℕ) : Prop :=
  ∃ ps₀, newFromData H data partSize = .ok ps₀ ∧ ∀ order, AllParts ps₀ order → Restored H data bufs ps₀ order

lemma newFromData_full [DecidableEq D] {ps₀ : PartSet D} (h₀ : newFromData H data partSize = .ok ps₀) :
    ∃ chunks, chunks = (List.range ps₀.total).map (chunk data partSize) ∧
      ps₀.total = (data.length + partSize + (2 ^ 32 - 1)) % 2 ^ 32 / partSize ∧ ps₀.count = ps₀.total ∧
      ps₀.byteSize = data.length ∧ ∀ order, AllParts ps₀ order →
        addParts H (newFromHeader ps₀.total ps₀.hash) order = full H chunks ∧
          (added H (newFromHeader ps₀.total ps₀.hash) order).Nodup ∧
          ∀ p, p ∈ added H (newFromHeader ps₀.total ps₀.hash) order ↔ some p ∈ ps₀.parts := by
  obtain ⟨chunks, hc, hh, -, ht, hp₀⟩ := newFromData_spec h₀
  have hpa : ps₀.parts = chunks.mapIdx fun i b => some (partOf H chunks i b) := by rw [hp₀]; rfl
  refine ⟨chunks, hc, ht, by rw [hp₀], by rw [hp₀], fun order ha => ?_⟩
  have ho : ∀ p ∈ order, chunks[p.index]? = some p.bytes ∧ p = partOf H chunks p.index p.bytes := by
    intro p hp
    have hm := (ha p).mp hp
    rw [hpa] at hm
    obtain ⟨i, hi, heq⟩ := mem_mapIdx.mp hm
    cases heq
    exact ⟨getElem?_eq_getElem hi, rfl⟩
  rw [hh, show ps₀.total = chunks.length by simp [hc]]
  obtain ⟨hg, hf, hn, hm⟩ := (gathers_newFromHeader (H := H) chunks).addParts_own ho
  refine ⟨hg.eq_full fun i hi => ?_, hn, fun p => ?_⟩
  · refine (hf i).mpr (.inr ⟨partOf H chunks i chunks[i], (ha _).mpr ?_, rfl⟩)
    rw [hpa]
    exact mem_mapIdx.mpr ⟨i, hi, rfl⟩
  rw [hm p, ha p]
  exact and_iff_left (not_filled_newFromHeader _ _ _)

lemma allParts_filterMap (ps : PartSet D) : AllParts ps (ps.parts.filterMap id) := by
  intro p
  simp [mem_filterMap]

lemma exists_newFromData (hp : 0 < partSize) (hsi : data.length + partSize ≤ 2 ^ 32) :
    ∃ ps₀, newFromData H data partSize = .ok ps₀ := by
  unfold newFromData
  rw [if_neg (by omega)]
  have hm : (data.length + partSize + (2 ^ 32 - 1)) % 2 ^ 32 = data.length + partSize - 1 := by omega
  rw [hm]
  have hs : (range ((data.length + partSize - 1) / partSize)).mapM (slice data partSize) =
      .ok ((range ((data.length + partSize - 1) / partSize)).map (chunk data partSize)) := by
    refine mapM_eq_ok.mpr (forall₂_map_right_iff.mpr (forall₂_same.mpr fun i hi => ?_))
    have hl : (i + 1) * partSize ≤ data.length + partSize - 1 :=
      le_trans (Nat.mul_le_mul_right _ (mem_range.mp hi)) (Nat.div_mul_le_self ..)
    have hok : ∃ b, slice data partSize i = .ok b := by
      have hsu : (i + 1) * partSize = i * partSize + partSize := Nat.succ_mul ..
      unfold slice
      rw [if_neg]
      · exact ⟨_, rfl⟩
      rw [Nat.mod_eq_of_lt (by omega), Nat.mod_eq_of_lt (by omega)]
      omega
    obtain ⟨b, hb⟩ := hok
    rw [hb, slice_eq_chunk (by omega) hb]
  exact ⟨_, bind_eq_ok.mpr ⟨_, hs, rfl⟩⟩

lemma read_full {bufs : List ℕ} (hc : chunks = (List.range total).map (chunk data partSize)) (hp : 0 < partSize)
    (hd : data ≠ []) (hle : data.length ≤ total * partSize) (hbu : data.length < bufs.sum) :
    ((full H chunks).getReader >>= PartSetReader.drain bufs) = .ok (data, true) ↔
      Steady partSize data.length 0 bufs := by
  have ht : 0 < total := by
    rcases eq_zero_or_pos total with rfl | h
    · simp at hle
      exact absurd hle hd
    · exact h
  set own := chunks.mapIdx (partOf H chunks) with ho
  have hpa : (full H chunks).parts = own.map some := by
    exact ext_getElem (by simp [full, ho]) fun i h1 h2 => by simp [full, ho]
  have hb : own.map Part.bytes = (range total).map (chunk data partSize) := by
    rw [← hc]
    exact ext_getElem (by simp [ho]) fun i h1 h2 => by simp [ho, partOf]
  cases hl : own with
  | nil =>
    have := congrArg length hb
    rw [hl] at this
    simp at this
    omega
  | cons p rest =>
    rw [hl, map_cons, ← take_append_drop 1 ((range total).map (chunk data partSize)),
      ← map_take, take_range, min_eq_left ht] at hb
    obtain ⟨hf, hre⟩ := cons.inj hb
    have hr : (full H chunks).getReader = .ok ⟨p.bytes, rest.map some⟩ := by
      unfold getReader
      rw [if_neg (by simp [isComplete, full]), hpa, hl]
      rfl
    have hcu : p.bytes = data.take partSize := by
      rw [hf]
      simp [chunk]
    have hat : PartSetReader.At data partSize total 0 0 p.bytes rest := ⟨by simp [hcu], hre, ht, by omega, by omega⟩
    have hne : p.bytes ≠ [] := by
      rw [hcu]
      simp [hd]
      omega
    rw [hr]
    have hdr : PartSetReader.drain bufs ⟨p.bytes, rest.map some⟩ = .ok (data.drop 0, true) ↔ _ :=
      PartSetReader.drain_iff_steady hat hle (by omega) (by omega) (fun _ => hne) (by omega)
    exact hdr

end PartSet

lemma PartSet.byteSize_full :
    (PartSet.full H ((List.range total).map (chunk data partSize))).byteSize = min (total * partSize) data.length := by
  show (map length _).sum = _
  rw [← length_flatten, chunks_flatten, length_take]

/-- For a part size of 32 bits and buffers that are enough to reach the end, the round trip succeeds exactly for data
that is not empty and whose number of parts does not overflow, if no empty buffer is offered at the end of a part that
is not the last one. -/
theorem roundTrip_iff [DecidableEq D] (H : Hasher Bytes D) (data : Bytes) (partSize : ℕ) (bufs : List ℕ)
    (hp : 0 < partSize) (hword : partSize < 2 ^ 32) (hbufs : data.length < bufs.sum) :
    PartSet.RoundTrips H data partSize bufs ↔
      data ≠ [] ∧ data.length + partSize ≤ 2 ^ 32 ∧ Steady partSize data.length 0 bufs := by
  constructor
  · rintro ⟨ps₀, h₀, ha⟩
    obtain ⟨chunks, hc, ht, -, hb₀, hf⟩ := PartSet.newFromData_full h₀
    have hr := ha _ (PartSet.allParts_filterMap ps₀)
    have hre := hr.read
    have hb := hr.byteSize
    rw [(hf _ (PartSet.allParts_filterMap ps₀)).1] at hre hb
    -- the set of no parts has no first one to read
    have hd : data ≠ [] := by
      rintro rfl
      have hz : ps₀.total = 0 := by
        rw [ht]
        refine Nat.div_eq_of_lt ?_
        simp only [length_nil]
        omega
      rw [hc, hz] at hre
      cases hre
    -- an overflow loses the bytes after the last part
    have hs : data.length + partSize ≤ 2 ^ 32 := by
      by_contra ho
      rw [hc, PartSet.byteSize_full] at hb
      have hmu : ps₀.total * partSize ≤ (data.length + partSize + (2 ^ 32 - 1)) % 2 ^ 32 := by
        rw [ht]
        exact Nat.div_mul_le_self ..
      omega
    refine ⟨hd, hs, (PartSet.read_full hc hp hd ?_ hbufs).mp hre⟩
    rw [ht]
    exact PartSet.length_le_total hp hs (length_pos_iff.mpr hd)
  · rintro ⟨hd, hs, hst⟩
    obtain ⟨ps₀, h₀⟩ := PartSet.exists_newFromData (H := H) hp hs
    obtain ⟨chunks, hc, ht, hc₀, hb₀, hf⟩ := PartSet.newFromData_full h₀
    have hl : chunks.length = ps₀.total := by simp [hc]
    have hco : data.length ≤ ps₀.total * partSize := by
      rw [ht]
      exact PartSet.length_le_total hp hs (length_pos_iff.mpr hd)
    refine ⟨ps₀, h₀, fun order ha => ?_⟩
    obtain ⟨hf, hn, hm⟩ := hf order ha
    refine ⟨hn, hm, ?_, ?_, ?_, ?_, ?_⟩ <;> rw [hf]
    · simp [PartSet.isComplete, PartSet.full]
    · exact hl.trans hc₀.symm
    · rw [hc, PartSet.byteSize_full, min_eq_right hco, hb₀]
    · show replicate chunks.length true = _
      rw [hl]
    · exact (PartSet.read_full hc hp hd hco hbufs).mpr hst

/-- Seven bytes in parts of three, read with buffers of two bytes. -/
theorem seven_bytes_roundTrip : PartSet.RoundTrips TermDigest.hasher [1, 2, 3, 4, 5, 6, 7] 3 [2, 2, 2, 2] :=
  (roundTrip_iff TermDigest.hasher [1, 2, 3, 4, 5, 6, 7] 3 [2, 2, 2, 2] (by decide) (by decide) (by decide)).mpr
    ⟨by decide, by decide, by simp [Steady]⟩

/-- The empty data is one that cannot be read again: its only part set is complete and has no first part. -/
theorem empty_data_not_read :
    ¬ PartSet.RoundTrips TermDigest.hasher [] 4 [1] ∧
      (PartSet.newFromData TermDigest.hasher [] 4 >>= fun ps => ps.getReader >>= PartSetReader.drain [1]) =
        Go.crash "index out of range" := by
  refine ⟨?_, by decide +kernel⟩
  rintro ⟨ps₀, h₀, ha⟩
  have hp₀ : ps₀ = ⟨0, .empty, [], [], 0, 0⟩ := by
    cases h₀
    rfl
  subst hp₀
  have hr := (ha [] (by simp [PartSet.AllParts])).read
  revert hr
  decide +kernel

end Tenderdash
