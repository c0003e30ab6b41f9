import Tenderdash.Store.BlockStore

/-!
What a prune of the block store deletes.

Saves and prunes keep a store `Filed`: its tables are in order, and every hash key is that of a meta. Whenever a prune
of such a store stops, it has deleted the first metas, parts and commits (`cut`), all of them below its height, and
parts and commits only once no meta is left there (`Filed.prune`).

The seen commits that `SaveBlock` stores by height are in none of the ranges that are pruned.
-/

namespace Tenderdash.Store.BlockStore

open Lib List Table

variable {bs bs' : BlockStore} {e : Entry} {height : ℤ} {writes : ℕ}

/-! ### Saving a block -/

lemma savePartsFrom_spec {ps : List (Option (Part Bytes))} {t t' : Table (ℤ ×ₗ ℕ) (Part Bytes)} {i : ℕ} (h : t.Sorted)
    (hs : savePartsFrom height i ps t = .ok t') :
    t'.Sorted ∧ (∀ x ∈ t', (ofLex x.1).1 = height ∨ x ∈ t) ∧
      (∀ (j : ℕ) (part : Part Bytes), ps[j]? = some (some part) → t'.get (toLex (height, i + j)) = some part) ∧
      ∀ k, (ofLex k).1 ≠ height ∨ (ofLex k).2 < i → t'.get k = t.get k := by
  induction ps generalizing i t with
  | nil =>
    cases hs
    exact ⟨h, fun _ => .inr, by simp, fun _ _ => rfl⟩
  | cons p ps ih =>
    cases p with
    | none => cases hs
    | some p =>
    obtain ⟨hso, hm, hn, ho⟩ := ih (h.set (toLex (height, i)) p) hs
    refine ⟨hso, fun x hx => ?_, fun j part hj => ?_, fun k hk => ?_⟩
    · rcases hm x hx with hx | hx
      · exact .inl hx
      · exact (mem_set hx).imp_left fun heq => by rw [heq]; rfl
    · cases j with
      | zero =>
        obtain rfl : p = part := by simpa using hj
        have hke := ho (toLex (height, i)) (.inr (Nat.lt_succ_self i))
        rw [add_zero, hke, get_set_self h]
      | succ j =>
        have := hn j part (by simpa using hj)
        rwa [show i + (j + 1) = i + 1 + j by ring]
    · have hne : k ≠ toLex (height, i) := by
        rintro rfl
        rcases hk with hk | hk
        · exact hk rfl
        · exact absurd hk (lt_irrefl i)
      rw [ho k (hk.imp_right Nat.lt_succ_of_lt), get_set_of_ne h p hne]

lemma saveBlock_eq_ok (h : bs.saveBlock e = .ok bs') :
    (0 < bs.base → e.height = bs.height + 1) ∧ ∃ parts,
      savePartsFrom e.height 0 (e.blockParts.parts.take e.blockParts.total) bs.parts = .ok parts ∧
      bs' =
        { metas := bs.metas.set e.height e.blockMeta
          parts := parts
          commits := bs.commits.set (e.height - 1) e.block.lastCommit
          hashes := upsert e.block.hash (fun _ => e.height) bs.hashes
          seenCommit := some e.seenCommit
          seenCommitsAt := bs.seenCommitsAt.set e.height e.seenCommit } := by
  unfold saveBlock at h
  split_ifs at h with hg hp hse
  · cases h
  · cases h
  · cases h
  obtain ⟨parts, hs, h⟩ := Go.of_bind h
  refine ⟨fun hb => ?_, parts, hs, (Except.ok.inj h).symm⟩
  by_contra hne
  exact hg ⟨hb, hne⟩

def Entry.InRange (e : Entry) : Prop := 1 ≤ e.height ∧ e.height < 2 ^ 63 - 1

structure Filed (bs : BlockStore) : Prop where
  metas : bs.metas.Sorted
  inRange : ∀ x ∈ bs.metas, 1 ≤ x.1 ∧ x.1 < 2 ^ 63 - 1
  parts : bs.parts.Sorted
  parts_nonneg : ∀ x ∈ bs.parts, 0 ≤ (ofLex x.1).1
  commits : bs.commits.Sorted
  commits_nonneg : ∀ x ∈ bs.commits, 0 ≤ x.1
  hashes : ∀ x ∈ bs.hashes, ∃ blockMeta, (x.2, blockMeta) ∈ bs.metas ∧ blockMeta.blockID.hash = x.1

namespace Filed

lemma new : new.Filed := by
  constructor <;> simp [BlockStore.new, Table.Sorted]

variable (h : bs.Filed)

include h

lemma listed : bs.listed = bs.metas :=
  filter_eq_self.mpr fun x hx => decide_eq_true (h.inRange x hx)

lemma fresh (hsa : bs.saveBlock e = .ok bs') : ∀ x ∈ bs.metas, x.1 < e.height := by
  intro x hx
  have hne := ne_nil_of_mem hx
  have hb : bs.base = (bs.metas.head hne).1 := by
    rw [base, h.listed, head?_eq_some_head hne]
    rfl
  have hh : bs.height = (bs.metas.getLast hne).1 := by
    rw [height, h.listed, getLast?_eq_some_getLast hne]
    rfl
  have hp := (h.inRange _ (head_mem hne)).1
  rw [(saveBlock_eq_ok hsa).1 (by omega), hh]
  have hs := h.metas
  rw [← dropLast_append_getLast hne] at hx hs
  rcases mem_append.mp hx with hx | hx
  · have := (pairwise_append.mp hs).2.2 x hx _ (mem_singleton_self _)
    omega
  · rw [mem_singleton.mp hx]
    omega

lemma save (hr : e.InRange) (hsa : bs.saveBlock e = .ok bs') : bs'.Filed := by
  have hf := h.fresh hsa
  obtain ⟨-, parts, hp, rfl⟩ := saveBlock_eq_ok hsa
  obtain ⟨hs, hme, -⟩ := savePartsFrom_spec h.parts hp
  have hpo := hr.1
  constructor
  · exact h.metas.set ..
  · intro x hx
    rcases mem_set hx with rfl | hx
    · exact hr
    · exact h.inRange x hx
  · exact hs
  · intro x hx
    rcases hme x hx with hx | hx
    · omega
    · exact h.parts_nonneg x hx
  · exact h.commits.set ..
  · intro x hx
    rcases mem_set hx with rfl | hx
    · dsimp only
      omega
    · exact h.commits_nonneg x hx
  · intro x hx
    rw [set_append hf]
    rcases mem_upsert hx with ⟨hk, -, hv⟩ | hx
    · exact ⟨e.blockMeta, mem_append_right _ (by rw [hv]; exact mem_singleton_self _), hk.symm⟩
    · obtain ⟨blockMeta, hm, hh⟩ := h.hashes x hx
      exact ⟨blockMeta, mem_append_left _ hm, hh⟩

end Filed

/-! ### Pruning -/

def cut (bs : BlockStore) (m p c : ℕ) : BlockStore :=
  { bs with
    metas := bs.metas.drop m
    hashes := bs.hashes.filter fun x => x.1 ∉ (bs.metas.take m).map (·.2.blockID.hash)
    parts := bs.parts.drop p
    commits := bs.commits.drop c }

lemma Filed.cut (h : bs.Filed) (m p c : ℕ) : (bs.cut m p c).Filed where
  metas := h.metas.sublist (drop_sublist ..)
  inRange x hx := h.inRange x (mem_of_mem_drop hx)
  parts := h.parts.sublist (drop_sublist ..)
  parts_nonneg x hx := h.parts_nonneg x (mem_of_mem_drop hx)
  commits := h.commits.sublist (drop_sublist ..)
  commits_nonneg x hx := h.commits_nonneg x (mem_of_mem_drop hx)
  hashes := by
    intro x hx
    obtain ⟨hx, hk⟩ := mem_filter.mp hx
    obtain ⟨blockMeta, hm, hh⟩ := h.hashes x hx
    refine ⟨blockMeta, ?_, hh⟩
    rw [← take_append_drop m bs.metas] at hm
    rcases mem_append.mp hm with hm | hm
    · exact absurd (mem_map.mpr ⟨_, hm, hh⟩) (of_decide_eq_true hk)
    · exact hm

lemma foldl_write_metas (batches : List (Table ℤ BlockMeta)) (bs : BlockStore) :
    (batches.map Write.metas).foldl write bs =
      { bs with
        metas := batches.foldl (fun t b => t.erase (b.map (·.1))) bs.metas
        hashes := bs.hashes.filter fun x => x.1 ∉ batches.flatten.map (·.2.blockID.hash) } := by
  induction batches generalizing bs with
  | nil => simp
  | cons b rest ih =>
    rw [map_cons, foldl_cons, ih, flatten_cons, map_append]
    simp only [write, filter_filter, mem_append, not_or, Bool.decide_and, Bool.and_comm, foldl_cons]

lemma foldl_write_parts (batches : List (Table (ℤ ×ₗ ℕ) (Part Bytes))) (bs : BlockStore) :
    (batches.map Write.parts).foldl write bs =
      { bs with parts := batches.foldl (fun t b => t.erase (b.map (·.1))) bs.parts } := by
  induction batches generalizing bs with
  | nil => rfl
  | cons b rest ih => exact ih (bs.write (.parts b))

lemma foldl_write_commits (batches : List (Table ℤ Commit)) (bs : BlockStore) :
    (batches.map Write.commits).foldl write bs =
      { bs with commits := batches.foldl (fun t b => t.erase (b.map (·.1))) bs.commits } := by
  induction batches generalizing bs with
  | nil => rfl
  | cons b rest ih => exact ih (bs.write (.commits b))

structure Pruned (height : ℤ) (writes : ℕ) (bs : BlockStore) (m p c : ℕ) : Prop where
  metas_lt : ∀ x ∈ bs.metas.take m, x.1 < height
  parts_lt : ∀ x ∈ bs.parts.take p, (ofLex x.1).1 < height
  commits_lt : ∀ x ∈ bs.commits.take c, x.1 < height
  ordered : p = 0 ∧ c = 0 ∨ ∀ x ∈ bs.metas.drop m, height ≤ x.1
  finished : (bs.pruneWrites height).length ≤ writes → (∀ x ∈ bs.metas.drop m, height ≤ x.1) ∧
    (∀ x ∈ bs.parts.drop p, height ≤ (ofLex x.1).1) ∧ ∀ x ∈ bs.commits.drop c, height ≤ x.1

lemma lt_part_iff {k : ℤ ×ₗ ℕ} : k < toLex (height, 0) ↔ (ofLex k).1 < height := by
  rw [Prod.Lex.lt_iff]
  constructor
  · rintro (hlt | ⟨_, hlt⟩)
    · exact hlt
    · exact absurd hlt (Nat.not_lt_zero _)
  · exact .inl

def metaBatches (bs : BlockStore) (height : ℤ) : List (Table ℤ BlockMeta) :=
  Table.batches pruneBatchSize (bs.metas.length + 1) bs.metas 0 height

section

variable (h : bs.Filed)

include h

lemma Filed.metaBatches (height : ℤ) (writes : ℕ) :
    ∃ m, ((bs.metaBatches height).take writes).flatten = bs.metas.take m ∧
      ((bs.metaBatches height).take writes).foldl (fun t b => t.erase (b.map (·.1))) bs.metas = bs.metas.drop m ∧
      (∀ x ∈ bs.metas.take m, x.1 < height) ∧
      ((bs.metaBatches height).length ≤ writes → ∀ x ∈ bs.metas.drop m, height ≤ x.1) :=
  erase_batches (by decide) h.metas (fun x hx => by have := (h.inRange x hx).1; omega) (Nat.lt_succ_self _) height
    writes

lemma Filed.prune (height : ℤ) (writes : ℕ) : ∃ m p c,
    ((bs.pruneWrites height).take writes).foldl write bs = bs.cut m p c ∧ Pruned height writes bs m p c := by
  have hs : 0 < pruneBatchSize := by decide
  have hst : ∀ x ∈ bs.parts, toLex ((0 : ℤ), 0) ≤ x.1 := fun x hx =>
    not_lt.mp fun hlt => absurd (h.parts_nonneg x hx) (not_le.mpr (lt_part_iff.mp hlt))
  generalize hP : batches pruneBatchSize (bs.parts.length + 1) bs.parts (toLex (0, 0)) (toLex (height, 0)) = P
  generalize hC : batches pruneBatchSize (bs.commits.length + 1) bs.commits 0 height = Cs
  have hw : bs.pruneWrites height = (bs.metaBatches height).map .metas ++ (P.map .parts ++ Cs.map .commits) := by
    rw [pruneWrites, hP, hC]
    rfl
  obtain ⟨m, hmf, hm, hml, hmd⟩ := h.metaBatches height writes
  generalize bs.metaBatches height = M at hw hmf hm hmd
  obtain ⟨p, _, hp, hpl, hpd⟩ := erase_batches hs h.parts hst (Nat.lt_succ_self _)
    (toLex (height, 0)) (writes - M.length)
  obtain ⟨c, _, hc, hcl, hcd⟩ := erase_batches hs h.commits h.commits_nonneg (Nat.lt_succ_self _)
    height (writes - M.length - P.length)
  rw [hP] at hp hpd
  rw [hC] at hc hcd
  have hf : ((bs.pruneWrites height).take writes).foldl write bs = bs.cut m p c := by
    rw [hw, take_append, take_append, length_map, length_map, ← map_take, ← map_take, ← map_take, foldl_append,
      foldl_append, foldl_write_metas, foldl_write_parts, foldl_write_commits, hm, hmf]
    rw [hp, hc]
    rfl
  by_cases hl : M.length < writes
  · refine ⟨m, p, c, hf, hml, fun x hx => lt_part_iff.mp (hpl x hx), hcl, .inr (hmd hl.le), fun ha => ?_⟩
    rw [hw, length_append, length_append, length_map, length_map, length_map] at ha
    refine ⟨hmd hl.le, fun x hx => not_lt.mp fun hlt => ?_, hcd (by omega)⟩
    exact not_le.mpr (lt_part_iff.mpr hlt) (hpd (by omega) x hx)
  · -- no part and no commit is deleted yet
    have hn : bs.cut m p c = bs.cut m 0 0 := by
      unfold BlockStore.cut
      rw [← hp, ← hc, show writes - M.length = 0 by omega, Nat.zero_sub]
      rfl
    have hpp : 0 < P.length := by
      rw [← hP]
      simp [batches]
    refine ⟨m, 0, 0, hf.trans hn, hml, by simp, by simp, .inl ⟨rfl, rfl⟩, fun ha => ?_⟩
    rw [hw, length_append, length_append, length_map, length_map, length_map] at ha
    omega

lemma Filed.pruneBlocks (height : ℤ) (writes : ℕ) : (bs.pruneBlocks height writes).Filed := by
  unfold BlockStore.pruneBlocks
  split_ifs
  · exact h
  obtain ⟨m, p, c, heq, -⟩ := h.prune height writes
  rw [heq]
  exact h.cut m p c

end

lemma Filed.run {ops : List Op} (ho : ∀ e, .save e ∈ ops → e.InRange) : (Run.run step .new ops).Filed := by
  have ha : Run.Admitted step (fun _ op => ∀ e, op = .save e → e.InRange) .new ops :=
    Run.admitted_of_mem fun _ op hop e heq => ho e (heq ▸ hop)
  refine ha.invariant (fun bs op h hop => ?_) new
  cases op with
  | prune height writes => exact h.pruneBlocks height writes
  | save e =>
    rw [step]
    cases hs : bs.saveBlock e with
    | error err => exact h
    | ok bs' => exact h.save (hop e rfl) hs

def prunedBlocks (bs : BlockStore) (height : ℤ) : ℕ := ((bs.metaBatches height).map length).sum

lemma Filed.prunedBlocks_eq (h : bs.Filed) (height : ℤ) :
    bs.prunedBlocks height = (bs.metas.filter fun x => x.1 < height).length := by
  obtain ⟨m, hf, -, hlt, hge⟩ := h.metaBatches height (bs.metaBatches height).length
  rw [take_length] at hf
  have hs : (bs.metas.filter fun x => x.1 < height) = bs.metas.take m := by
    conv_lhs => rw [← take_append_drop m bs.metas]
    rw [filter_append, filter_eq_self.mpr fun x hx => decide_eq_true (hlt x hx),
      filter_eq_nil_iff.mpr (by simpa using hge le_rfl), append_nil]
  rw [prunedBlocks, ← length_flatten, hf, hs]

structure BlocksReclaimed (height : ℤ) (bs : BlockStore) : Prop where
  metas : ∀ x ∈ bs.metas, height ≤ x.1
  parts : ∀ x ∈ bs.parts, height ≤ (ofLex x.1).1
  commits : ∀ x ∈ bs.commits, height ≤ x.1
  hashes : ∀ x ∈ bs.hashes, height ≤ x.2

/-- **What a prune reclaims.** After any saves and prunes, with crashes after any batch write, `PruneBlocks` at a valid
height returns the number of blocks stored below it and leaves nothing of them, except for their seen commits: those
below the height are all gone only if there was none. -/
theorem prune_reclaims_iff (ops : List Op) (hops : ∀ e, .save e ∈ ops → e.InRange) (height : ℤ) (hpos : 0 < height)
    (hle : height ≤ (Run.run step new ops).height) : let bs := Run.run step new ops
    let bs' := bs.pruneBlocks height (bs.pruneWrites height).length
    bs.prunedBlocks height = (bs.metas.filter fun x => x.1 < height).length ∧ BlocksReclaimed height bs' ∧
      ((∀ x ∈ bs'.seenCommitsAt, height ≤ x.1) ↔ ∀ x ∈ bs.seenCommitsAt, height ≤ x.1) := by
  intro bs bs'
  have h : bs.Filed := Filed.run hops
  obtain ⟨m, p, c, heq, hp⟩ := h.prune height (bs.pruneWrites height).length
  have hcu : bs' = bs.cut m p c := by
    rw [← heq]
    exact if_neg (not_or.mpr ⟨not_le.mpr hpos, not_lt.mpr hle⟩)
  obtain ⟨hm, hpa, hc⟩ := hp.finished le_rfl
  rw [hcu]
  refine ⟨h.prunedBlocks_eq height, ⟨hm, hpa, hc, fun x hx => ?_⟩, Iff.rfl⟩
  obtain ⟨blockMeta, hme, -⟩ := (h.cut m p c).hashes x hx
  exact hm _ hme

/-! ### A sample run -/

def sampleEntry (height : ℕ) : Entry where
  block :=
    { header := sampleHeader height (sampleValidators 1)
      hash := [UInt8.ofNat height]
      stateID := []
      lastCommit := ⟨height - 1, 0, BlockID.nil, [], [], []⟩
      numTxs := 0
      hasCoreChainLock := false }
  blockParts := ⟨1, [], [some ⟨0, [UInt8.ofNat height], ⟨1, 0, [], []⟩⟩], [true], 1, 1⟩
  seenCommit := ⟨height, 0, BlockID.nil, [], [], []⟩

def twoSaves : List Op := [.save (sampleEntry 1), .save (sampleEntry 2)]

theorem first_block_reclaimed : BlocksReclaimed 2 ((Run.run step new twoSaves).pruneBlocks 2
    ((Run.run step new twoSaves).pruneWrites 2).length) := by
  refine (prune_reclaims_iff twoSaves (fun e he => ?_) 2 (by decide) (by decide +kernel)).2.1
  have hs : e = sampleEntry 1 ∨ e = sampleEntry 2 := by simpa [twoSaves] using he
  rcases hs with rfl | rfl <;> constructor <;> decide

/-- `PruneBlocks(2)` deletes the first block, but not its seen commit. -/
theorem seen_commit_stays :
    (Run.run step new twoSaves).prunedBlocks 2 = 1 ∧
    ((Run.run step new twoSaves).pruneBlocks 2 ((Run.run step new twoSaves).pruneWrites 2).length).seenCommitsAt.get 1 =
      some (sampleEntry 1).seenCommit := by
  decide +kernel

end Tenderdash.Store.BlockStore
