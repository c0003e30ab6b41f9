import Tenderdash.Store.Pruning

/-!
The block store holds a contiguous segment of the chain.

The specification is the list of the blocks that were saved and the number of them that are gone. The
store stands for it (`Holds`) if its metas are those of the rest, block by block, the parts, commits and
hash keys of the rest are there, and nothing is stored above. Saving a block and every batch of a prune
keep this, because a prune deletes all metas below its height before it touches parts and commits. Parts
and commits of blocks that are gone may stay until a later prune finishes (`pruned_part_still_loads`).
-/

namespace Tenderdash.Store

open Lib List Table

structure BlockStore.Entry.Fits (decode : Bytes → Option FullBlock) (e : BlockStore.Entry) : Prop where
  height_pos : 1 ≤ e.height
  height_lt : e.height < 2 ^ 63 - 1
  parts : ∃ parts : List (Part Bytes), e.blockParts.parts = parts.map some ∧
    e.blockParts.total = parts.length ∧ decode (parts.flatMap (·.bytes)) = some e.block

namespace BlockStore

variable {decode : Bytes → Option FullBlock}

structure Holds (decode : Bytes → Option FullBlock) (first : ℤ) (chain : List Entry) (gone : ℕ)
    (bs : BlockStore) : Prop where
  fits : ∀ e ∈ chain, e.Fits decode
  heights : ∀ (i : ℕ) (e : Entry), chain[i]? = some e → e.height = first + i
  distinct : ∀ e ∈ chain, ∀ e' ∈ chain, e.block.hash = e'.block.hash → e.height = e'.height
  gone_lt : chain ≠ [] → gone < chain.length
  filed : bs.Filed
  metas : bs.metas = (chain.drop gone).map fun e => (e.height, e.blockMeta)
  parts_lt : ∀ x ∈ bs.parts, (ofLex x.1).1 < first + chain.length
  parts : ∀ e ∈ chain.drop gone, ∀ (i : ℕ) (part : Part Bytes), e.blockParts.parts[i]? = some (some part) →
    bs.loadBlockPart e.height i = some part
  commits_lt : ∀ x ∈ bs.commits, x.1 + 1 < first + chain.length
  commits : ∀ (i : ℕ) (e : Entry), gone ≤ i → chain[i + 1]? = some e →
    bs.loadBlockCommit (first + i) = some e.block.lastCommit
  hashes : ∀ e ∈ chain.drop gone, bs.hashes.lookup e.block.hash = some e.height

section Heights

variable {first : ℤ} {chain : List Entry} {gone : ℕ} {bs : BlockStore} (h : Holds decode first chain gone bs)

include h

variable {e e' : Entry}

lemma Holds.heights_drop {i : ℕ} (hi : (chain.drop gone)[i]? = some e) : e.height = first + gone + i := by
  rw [getElem?_drop] at hi
  rw [h.heights _ e hi]
  push_cast
  ring

lemma Holds.mem_drop (he : e ∈ chain.drop gone) :
    e ∈ chain ∧ first + gone ≤ e.height ∧ e.height < first + chain.length := by
  obtain ⟨i, hi⟩ := mem_iff_getElem?.mp he
  have hlt : i < (chain.drop gone).length := (List.getElem?_eq_some_iff.mp hi).1
  have hh := h.heights_drop hi
  rw [length_drop] at hlt
  exact ⟨mem_of_mem_drop he, by omega, by omega⟩

lemma Holds.base (hne : chain ≠ []) : bs.base = first + gone := by
  have hlt := h.gone_lt hne
  have hg : (chain.drop gone)[0]? = some chain[gone] := by rw [getElem?_drop, add_zero, getElem?_eq_getElem hlt]
  unfold BlockStore.base
  rw [h.filed.listed, h.metas, head?_map, head?_eq_getElem?, hg]
  have := h.heights_drop hg
  simpa using this

lemma Holds.height (hne : chain ≠ []) : bs.height = first + chain.length - 1 := by
  have hlt := h.gone_lt hne
  have hl : (chain.drop gone).getLast? = (chain.drop gone)[chain.length - gone - 1]? := by
    rw [getLast?_eq_getElem?, length_drop]
  have hg : (chain.drop gone)[chain.length - gone - 1]? = some chain[chain.length - 1] := by
    rw [getElem?_drop, getElem?_eq_getElem (by omega)]
    congr 2
    omega
  unfold BlockStore.height
  rw [h.filed.listed, h.metas, getLast?_map, hl, hg]
  have hh := h.heights_drop hg
  simp only [Option.map_some, Option.getD_some, hh]
  omega

lemma Holds.loadBlock (he : e ∈ chain.drop gone) :
    bs.loadBlockMeta e.height = some e.blockMeta ∧ bs.loadBlock decode e.height = .ok (some e.block) := by
  have hm : bs.loadBlockMeta e.height = some e.blockMeta := by
    refine (get_eq_some_iff h.filed.metas).mpr ?_
    rw [h.metas]
    exact mem_map_of_mem he
  refine ⟨hm, ?_⟩
  obtain ⟨ps, hps, ht, hd⟩ := (h.fits e (mem_of_mem_drop he)).parts
  have hp : ((range ps.length).mapM (bs.loadBlockPart e.height)) = some ps := by
    have hma : ∀ n ≤ ps.length, ((range n).mapM (bs.loadBlockPart e.height)) = some (ps.take n) := by
      intro n
      induction n with
      | zero => intro _; simp
      | succ n ih =>
        intro hn
        have hlt : n < ps.length := hn
        have hpa := h.parts e he n ps[n] (by rw [hps]; simp [hlt])
        have hl : ([n].mapM (bs.loadBlockPart e.height)) = some [ps[n]] := by
          simp only [mapM_cons, mapM_nil, hpa]
          rfl
        rw [range_succ, mapM_append, ih (by omega), hl, take_succ_eq_append_getElem hlt]
        rfl
    have := hma ps.length le_rfl
    rwa [take_length] at this
  unfold BlockStore.loadBlock
  rw [hm]
  have ht' : e.blockMeta.blockID.partSetHeader.total = ps.length := ht
  simp only [ht', hp, hd]

lemma Holds.loadBlockByHash (hash : Bytes) :
    bs.loadBlockByHash decode hash = .ok none ∨ ∃ e ∈ chain.drop gone, e.block.hash = hash ∧
      bs.loadBlockByHash decode hash = .ok (some e.block) := by
  unfold BlockStore.loadBlockByHash
  cases hl : bs.hashes.lookup hash with
  | none => exact .inl rfl
  | some height =>
    obtain ⟨blockMeta, hm, hh⟩ := h.filed.hashes _ (mem_of_lookup hl)
    rw [h.metas] at hm
    obtain ⟨e, he, heq⟩ := mem_map.mp hm
    cases heq
    exact .inr ⟨e, he, hh, (h.loadBlock he).2⟩

lemma Holds.loadBlock_none {height : ℤ} (ho : ∀ e ∈ chain.drop gone, e.height ≠ height) :
    bs.loadBlockMeta height = none ∧ bs.loadBlock decode height = .ok none := by
  have hm : bs.loadBlockMeta height = none := by
    refine get_eq_none h.filed.metas fun blockMeta hme => ?_
    rw [h.metas] at hme
    obtain ⟨e, he, heq⟩ := mem_map.mp hme
    exact ho e he (Prod.mk.inj heq).1
  refine ⟨hm, ?_⟩
  unfold BlockStore.loadBlock
  rw [hm]

end Heights

/-! ### Saving a block -/

/-! A block at the end of a chain -/

lemma mem_concat {chain : List Entry} : e' ∈ chain ++ [e] ↔ e' ∈ chain ∨ e' = e := by simp

lemma getElem?_concat {chain : List Entry} {i : ℕ} (h : (chain ++ [e])[i]? = some e') :
    chain[i]? = some e' ∨ i = chain.length ∧ e' = e := by
  rw [List.getElem?_append] at h
  split at h
  · exact .inl h
  obtain ⟨hlt, rfl⟩ := List.getElem?_eq_some_iff.mp h
  simp only [length_singleton, Nat.lt_one_iff] at hlt
  exact .inr ⟨by omega, by simp⟩

section Save

variable {first : ℤ} {chain : List Entry} {gone : ℕ} {bs bs' : BlockStore}

lemma Holds.save (h : Holds decode first chain gone bs) (hf : e.Fits decode) (hh : e.height = first + chain.length)
    (hg : gone ≤ chain.length) (hha : ∀ e' ∈ chain, e'.block.hash = e.block.hash → e'.height = e.height)
    (hs : bs.saveBlock e = .ok bs') : Holds decode first (chain ++ [e]) gone bs' := by
  have hfi := h.filed.save ⟨hf.height_pos, hf.height_lt⟩ hs
  have hfr := h.filed.fresh hs
  obtain ⟨_, parts', hp, rfl⟩ := saveBlock_eq_ok hs
  obtain ⟨ps, hps, ht, _⟩ := hf.parts
  rw [take_of_length_le (by simp [hps, ht])] at hp
  obtain ⟨-, hm, hne, ho⟩ := savePartsFrom_spec h.filed.parts hp
  have hd : (chain ++ [e]).drop gone = chain.drop gone ++ [e] := drop_append_of_le_length hg
  have hl : ((chain ++ [e]).length : ℤ) = chain.length + 1 := by simp
  constructor
  · intro e' he'
    rcases mem_concat.mp he' with he' | rfl
    · exact h.fits e' he'
    · exact hf
  · intro i e' hi
    rcases getElem?_concat hi with hi | ⟨rfl, rfl⟩
    · exact h.heights i e' hi
    · exact hh
  · intro a ha b hb hab
    rcases mem_concat.mp ha with hia | rfl <;> rcases mem_concat.mp hb with hib | rfl
    · exact h.distinct a hia b hib hab
    · exact hha a hia hab
    · exact (hha b hib hab.symm).symm
    · rfl
  · intro _
    rw [length_append, length_singleton]
    omega
  · exact hfi
  · dsimp only
    rw [set_append hfr, h.metas, hd, map_append]
    rfl
  · intro x hx
    rw [hl]
    rcases hm x hx with hx | hx
    · omega
    · have := h.parts_lt x hx
      omega
  · intro e' he' i part hi
    rw [hd] at he'
    rcases mem_concat.mp he' with he' | rfl
    · have hlt := (h.mem_drop he').2.2
      have ho' := ho (toLex (e'.height, i)) (.inl (by rw [hh]; exact hlt.ne))
      unfold loadBlockPart
      rw [ho']
      exact h.parts e' he' i part hi
    · have hge := hne i part hi
      rwa [zero_add] at hge
  · intro x hx
    rw [hl]
    rcases mem_set hx with rfl | hx
    · dsimp only
      omega
    · have := h.commits_lt x hx
      omega
  · intro i e' hi hn
    unfold loadBlockCommit
    rcases getElem?_concat hn with hn | ⟨hla, rfl⟩
    · have hlt := (List.getElem?_eq_some_iff.mp hn).1
      rw [get_set_of_ne h.filed.commits _ (by omega)]
      exact h.commits i e' hi hn
    · rw [show first + (i : ℤ) = e'.height - 1 by omega, get_set_self h.filed.commits]
  · intro e' he'
    rw [hd] at he'
    rcases mem_concat.mp he' with he' | rfl
    · by_cases heq : e'.block.hash = e.block.hash
      · rw [heq, lookup_upsert_self, hha e' (mem_of_mem_drop he') heq]
      · rw [lookup_upsert_of_ne _ _ heq]
        exact h.hashes e' he'
    · exact lookup_upsert_self ..

end Save

/-! ### Pruning -/

section Prune

variable {first height : ℤ} {chain : List Entry} {gone writes m p c : ℕ} {bs : BlockStore}

lemma get_drop {K V : Type} [LinearOrder K] {t : Table K V} (h : t.Sorted) {k : K} {v : V} {n : ℕ}
    (hg : t.get k = some v) (ho : ∀ e ∈ t.take n, e.1 ≠ k) : get (t.drop n) k = some v := by
  rw [get_eq_some_iff h, ← take_append_drop n t] at hg
  refine (get_eq_some_iff (h.sublist (drop_sublist n t))).mpr ?_
  rcases mem_append.mp hg with hm | hm
  · exact absurd rfl (ho _ hm)
  · exact hm

lemma getElem_mem_drop {n i : ℕ} (hn : n ≤ i) (hi : i < chain.length) : chain[i] ∈ chain.drop n := by
  rw [mem_drop_iff_getElem]
  exact ⟨i - n, by omega, by congr; omega⟩

lemma Holds.prune (h : Holds decode first chain gone bs) (hne : chain ≠ []) (hh : height ≤ bs.height)
    (hp : Pruned height writes bs m p c) : Holds decode first chain (gone + m) (bs.cut m p c) := by
  have hd : chain.drop (gone + m) = (chain.drop gone).drop m := (drop_drop).symm
  have hsu : ∀ e ∈ chain.drop (gone + m), e ∈ chain.drop gone := fun e he =>
    mem_of_mem_drop (hd ▸ he)
  have hm : bs.metas.drop m = (chain.drop (gone + m)).map fun e => (e.height, e.blockMeta) := by
    rw [h.metas, hd, ← map_drop]
  -- once parts or commits are deleted, the blocks left are not below the height
  have ha : ¬(p = 0 ∧ c = 0) → ∀ e ∈ chain.drop (gone + m), height ≤ e.height := by
    intro hs e he
    rcases hp.ordered with hn | hal
    · exact absurd hn hs
    · exact hal (e.height, e.blockMeta) (hm ▸ mem_map_of_mem he)
  constructor
  · exact h.fits
  · exact h.heights
  · exact h.distinct
  · intro _
    by_contra hge
    -- the last block is not below the height
    have hlt := h.gone_lt hne
    have hl : chain[chain.length - 1] ∈ chain.drop gone := getElem_mem_drop (by omega) (by omega)
    have hme : (chain[chain.length - 1].height, chain[chain.length - 1].blockMeta) ∈ bs.metas.take m := by
      rw [take_of_length_le (by rw [h.metas, length_map, length_drop]; omega), h.metas]
      exact mem_map_of_mem hl
    have hb := hp.metas_lt _ hme
    have hix := h.heights (chain.length - 1) _ (List.getElem?_eq_getElem (by omega))
    rw [h.height hne] at hh
    omega
  · exact h.filed.cut m p c
  · exact hm
  · exact fun x hx => h.parts_lt x (mem_of_mem_drop hx)
  · intro e he i part hi
    refine get_drop h.filed.parts (h.parts e (hsu e he) i part hi) fun entry hen heq => ?_
    by_cases hn : p = 0 ∧ c = 0
    · rw [hn.1] at hen
      simp at hen
    have hlt := hp.parts_lt entry hen
    have hge := ha hn e he
    rw [heq] at hlt
    exact absurd hlt (not_lt.mpr hge)
  · exact fun x hx => h.commits_lt x (mem_of_mem_drop hx)
  · intro i e hi hnx
    refine get_drop h.filed.commits (h.commits i e (by omega) hnx) fun entry hen heq => ?_
    by_cases hn : p = 0 ∧ c = 0
    · rw [hn.2] at hen
      simp at hen
    have hle : i + 1 < chain.length := (List.getElem?_eq_some_iff.mp hnx).1
    have hix := h.heights i _ (List.getElem?_eq_getElem (by omega))
    have hlt := hp.commits_lt entry hen
    have hge := ha hn _ (getElem_mem_drop hi (by omega))
    omega
  · intro e he
    -- no block that is deleted has the hash of one that is left
    have ho : e.block.hash ∉ (bs.metas.take m).map (·.2.blockID.hash) := by
      intro hin
      obtain ⟨x, hx, hha⟩ := mem_map.mp hin
      have hlt := h.filed.metas.take_lt_drop m x hx _ (hm ▸ mem_map_of_mem he)
      have hme := mem_of_mem_take hx
      rw [h.metas] at hme
      obtain ⟨e', he', rfl⟩ := mem_map.mp hme
      exact hlt.ne (h.distinct e' (mem_of_mem_drop he') e (mem_of_mem_drop he) hha)
    rw [cut, lookup_filter_key bs.hashes fun hash => decide (hash ∉ (bs.metas.take m).map (·.2.blockID.hash)),
      if_pos (decide_eq_true ho)]
    exact h.hashes e (hsu e he)

end Prune

/-! ### Runs -/

def saved (bs : BlockStore) : List Op → List Entry
  | [] => []
  | .save e :: rest =>
    if (bs.saveBlock e).isOk then e :: saved (bs.step (.save e)) rest else saved (bs.step (.save e)) rest
  | .prune height writes :: rest => saved (bs.step (.prune height writes)) rest

def Stands (decode : Bytes → Option FullBlock) (chain : List Entry) (bs : BlockStore) : Prop :=
  chain = [] ∧ bs = new ∨ chain ≠ [] ∧ ∃ first gone, Holds decode first chain gone bs

lemma holds_new (decode : Bytes → Option FullBlock) (first : ℤ) : Holds decode first [] 0 new := by
  refine ⟨?_, ?_, ?_, ?_, Filed.new, ?_, ?_, ?_, ?_, ?_, ?_⟩ <;> simp [new]

variable {chain : List Entry} {bs : BlockStore}

lemma Stands.save {bs' : BlockStore} (h : Stands decode chain bs)
    (hf : e.Fits decode) (hh : ∀ e' ∈ chain, e'.block.hash = e.block.hash → e'.height = e.height)
    (hs : bs.saveBlock e = .ok bs') : Stands decode (chain ++ [e]) bs' := by
  right
  refine ⟨by simp, ?_⟩
  rcases h with ⟨rfl, rfl⟩ | ⟨hne, first, gone, h⟩
  · exact ⟨e.height, 0, (holds_new decode e.height).save hf (by simp) le_rfl hh hs⟩
  have hfi : 1 ≤ first := by
    have hp : 0 < chain.length := length_pos_iff.mpr hne
    have hz := h.heights 0 _ (getElem?_eq_getElem hp)
    have := (h.fits _ (getElem_mem hp)).height_pos
    omega
  have hn := (saveBlock_eq_ok hs).1 (by rw [h.base hne]; omega)
  rw [h.height hne] at hn
  exact ⟨first, gone, h.save hf (by omega) (h.gone_lt hne).le hh hs⟩

lemma Stands.prune (h : Stands decode chain bs) (height : ℤ)
    (writes : ℕ) : Stands decode chain (bs.pruneBlocks height writes) := by
  unfold pruneBlocks
  split_ifs with hb
  · exact h
  rcases h with ⟨rfl, rfl⟩ | ⟨hne, first, gone, h⟩
  · have he : new.height = 0 := rfl
    omega
  obtain ⟨m, p, c, heq, hp⟩ := h.filed.prune height writes
  rw [heq]
  exact .inr ⟨hne, first, gone + m, h.prune hne (by omega) hp⟩

lemma Stands.run {ops : List Op} (hf : ∀ e, .save e ∈ ops → e.Fits decode) (h : Stands decode chain bs)
    (hh : ∀ e e', (e ∈ chain ∨ .save e ∈ ops) → (e' ∈ chain ∨ .save e' ∈ ops) →
      e.block.hash = e'.block.hash → e.height = e'.height) :
    Stands decode (chain ++ saved bs ops) (Run.run step bs ops) := by
  induction ops generalizing chain bs with
  | nil => simpa [saved] using h
  | cons op rest ih =>
    have hf' : ∀ e, .save e ∈ rest → e.Fits decode := fun e he =>
      hf e (mem_cons_of_mem _ he)
    have hm : ∀ e, (e ∈ chain ∨ Op.save e ∈ rest) → e ∈ chain ∨ Op.save e ∈ op :: rest := fun e =>
      .imp_right (mem_cons_of_mem _)
    cases op with
    | save e =>
      cases hs : bs.saveBlock e with
      | error err =>
        have hst : bs.step (.save e) = bs := by simp [step, hs, Except.toOption]
        have hsa : saved bs (.save e :: rest) = saved bs rest := by simp [saved, hs, hst]
        rw [hsa, Run.run_cons, hst]
        exact ih hf' h fun a b ha hb => hh a b (hm a ha) (hm b hb)
      | ok bs' =>
        have hst : bs.step (.save e) = bs' := by simp [step, hs, Except.toOption]
        have hsa : saved bs (.save e :: rest) = e :: saved bs' rest := by simp [saved, hs, hst]
        have hn := h.save (hf e mem_cons_self) (fun e' he' => hh e' e (.inl he') (.inr mem_cons_self)) hs
        have hba : ∀ a, (a ∈ chain ++ [e] ∨ Op.save a ∈ rest) → a ∈ chain ∨ Op.save a ∈ Op.save e :: rest := by
          rintro a (ha | ha)
          · rcases mem_concat.mp ha with ha | rfl
            · exact .inl ha
            · exact .inr mem_cons_self
          · exact .inr (mem_cons_of_mem _ ha)
        rw [hsa, Run.run_cons, hst, append_cons]
        exact ih hf' hn fun a b ha hb => hh a b (hba a ha) (hba b hb)
    | prune height writes =>
      exact ih hf' (h.prune height writes) fun a b ha hb => hh a b (hm a ha) (hm b hb)

/-- What the loads of a store say about the saved blocks: they are there from the base to the height,
and nothing else is. -/
structure IsSegment (decode : Bytes → Option FullBlock) (chain : List Entry) (bs : BlockStore) :
    Prop where
  /-- Every height from the base to the height loads what was saved. -/
  loads : 0 < bs.base → ∀ height, bs.base ≤ height → height ≤ bs.height → ∃ e ∈ chain,
    e.height = height ∧ bs.loadBlockMeta height = some e.blockMeta ∧
    bs.loadBlock decode height = .ok (some e.block) ∧
    (∀ (i : ℕ) (part : Part Bytes), e.blockParts.parts[i]? = some (some part) →
      bs.loadBlockPart height i = some part) ∧
    bs.loadBlockByHash decode e.block.hash = .ok (some e.block)
  /-- Below the height it loads the commit of the block, which came with the next one. -/
  commits : 0 < bs.base → ∀ height, bs.base ≤ height → height < bs.height → ∃ e ∈ chain,
    e.height = height + 1 ∧ bs.loadBlockCommit height = some e.block.lastCommit
  /-- A hash loads nothing but the block it belongs to. -/
  hashes : ∀ hash, bs.loadBlockByHash decode hash = .ok none ∨ ∃ e ∈ chain, e.block.hash = hash ∧
    bs.base ≤ e.height ∧ e.height ≤ bs.height ∧
    bs.loadBlockByHash decode hash = .ok (some e.block)
  /-- No other height has a block or a meta. -/
  outside : ∀ height, height < bs.base ∨ bs.height < height →
    bs.loadBlockMeta height = none ∧ bs.loadBlock decode height = .ok none
  /-- Above the height there are no parts and no commits. -/
  above : ∀ height, bs.height < height →
    (∀ i, bs.loadBlockPart height i = none) ∧ bs.loadBlockCommit height = none
  /-- A prune that finishes leaves no parts and no commits below its height. -/
  finished : ∀ height writes, 0 < height → height ≤ bs.height →
    (bs.pruneWrites height).length ≤ writes → ∀ below, below < height →
      (∀ i, (bs.pruneBlocks height writes).loadBlockPart below i = none) ∧
      (bs.pruneBlocks height writes).loadBlockCommit below = none

lemma Stands.isSegment {chain : List Entry} {bs : BlockStore} (h : Stands decode chain bs) :
    IsSegment decode chain bs := by
  rcases h with ⟨rfl, rfl⟩ | ⟨hne, first, gone, h⟩
  · -- an empty store
    have hl : ∀ height, new.loadBlockMeta height = none ∧ new.loadBlock decode height = .ok none := fun height =>
      (holds_new decode 0).loadBlock_none (by simp)
    refine ⟨fun hpo => absurd hpo (by decide), fun hpo => absurd hpo (by decide), fun _ => .inl rfl,
      fun height _ => hl height, fun _ _ => ⟨fun _ => rfl, rfl⟩, fun height _ hpo hle => ?_⟩
    have hem : new.height = 0 := rfl
    omega
  · have hba := h.base hne
    have hhe := h.height hne
    have hbl : ∀ height, first + gone ≤ height → height < first + chain.length →
        ∃ e ∈ chain.drop gone, e.height = height := by
      intro height hge hl'
      have hi : (height - first).toNat - gone < (chain.drop gone).length := by
        rw [length_drop]
        omega
      refine ⟨_, getElem_mem hi, ?_⟩
      rw [h.heights_drop (getElem?_eq_getElem hi)]
      omega
    refine ⟨fun _ height hge hle => ?_, fun _ height hge hle => ?_, fun hash => ?_, fun height ho => ?_,
      fun height ha => ⟨fun i => ?_, ?_⟩, fun height writes hpo hle hal below hb => ?_⟩
    · obtain ⟨e, he, rfl⟩ := hbl height (by omega) (by omega)
      have hl := h.loadBlock he
      refine ⟨e, mem_of_mem_drop he, rfl, hl.1, hl.2, h.parts e he, ?_⟩
      unfold loadBlockByHash
      rw [h.hashes e he]
      exact hl.2
    · have hi : (height - first).toNat + 1 < chain.length := by omega
      have hg := getElem?_eq_getElem hi
      refine ⟨_, getElem_mem hi, ?_, ?_⟩
      · rw [h.heights _ _ hg]
        omega
      have hc := h.commits (height - first).toNat _ (by omega) hg
      rwa [show first + ((height - first).toNat : ℤ) = height by omega] at hc
    · rcases h.loadBlockByHash hash with hn | ⟨e, he, hh, hl⟩
      · exact .inl hn
      · have hm := h.mem_drop he
        exact .inr ⟨e, hm.1, hh, by omega, by omega, hl⟩
    · refine h.loadBlock_none fun e he heq => ?_
      have hm := h.mem_drop he
      omega
    · refine get_eq_none h.filed.parts fun part hpa => ?_
      have hlo : height < first + chain.length := h.parts_lt _ hpa
      omega
    · refine get_eq_none h.filed.commits fun commit hc => ?_
      have hlo := h.commits_lt _ hc
      omega
    · obtain ⟨m, p, c, heq, hp⟩ := h.filed.prune height writes
      obtain ⟨-, hpr, hco⟩ := hp.finished hal
      unfold pruneBlocks
      rw [if_neg (by omega), heq]
      have hf := h.filed.cut m p c
      refine ⟨fun i => ?_, ?_⟩
      · exact get_eq_none hf.parts fun part hpa => not_le.mpr hb (hpr _ hpa)
      · exact get_eq_none hf.commits fun commit hc => not_le.mpr hb (hco _ hc)

/-- **The block store is a segment of the chain.** After any saves and prunes, with crashes after any
batch write, the store loads from its base to its height the blocks that were saved, and outside no
block and no meta. -/
theorem run_isSegment (decode : Bytes → Option FullBlock) (ops : List Op) (hfits : ∀ e, .save e ∈ ops → e.Fits decode)
    (hhash : ∀ e e', .save e ∈ ops → .save e' ∈ ops → e.block.hash = e'.block.hash → e.height = e'.height) :
    IsSegment decode (saved new ops) (Run.run step new ops) := by
  have hs : Stands decode [] new := .inl ⟨rfl, rfl⟩
  have hr := hs.run hfits fun e e' he he' =>
    hhash e e' (he.resolve_left (by simp)) (he'.resolve_left (by simp))
  exact hr.isSegment

/-! ### A sample run -/

def sampleDecode : Bytes → Option FullBlock
  | [b] => some (sampleEntry b.toNat).block
  | _ => none

def crashedPrune : List Op := [.save (sampleEntry 1), .save (sampleEntry 2), .prune 2 1]

theorem pruned_part_still_loads :
    (Run.run step new crashedPrune).base = 2 ∧
    (Run.run step new crashedPrune).loadBlockPart 1 0 = some ⟨0, [1], ⟨1, 0, [], []⟩⟩ ∧
    (Run.run step new crashedPrune).loadBlockCommit 1 = some (sampleEntry 2).block.lastCommit := by
  decide +kernel

lemma sampleEntry_fits {height : ℕ} (hp : 0 < height) (hlt : height < 256) :
    (sampleEntry height).Fits sampleDecode := by
  have hm : (UInt8.ofNat height).toNat = height := by simp [Nat.mod_eq_of_lt hlt]
  refine ⟨?_, ?_, [⟨0, [UInt8.ofNat height], ⟨1, 0, [], []⟩⟩], rfl, rfl, ?_⟩
  · change (1 : ℤ) ≤ height
    omega
  · change (height : ℤ) < 2 ^ 63 - 1
    omega
  change sampleDecode [UInt8.ofNat height] = _
  rw [sampleDecode, hm]

theorem crashed_prune_isSegment : IsSegment sampleDecode (saved new crashedPrune) (Run.run step new crashedPrune) := by
  have hs : ∀ e, .save e ∈ crashedPrune → e = sampleEntry 1 ∨ e = sampleEntry 2 := by
    intro e he
    simpa [crashedPrune] using he
  refine run_isSegment sampleDecode crashedPrune (fun e he => ?_) fun e e' he he' hh => ?_
  · rcases hs e he with rfl | rfl
    · exact sampleEntry_fits (by decide) (by decide)
    · exact sampleEntry_fits (by decide) (by decide)
  rcases hs e he with rfl | rfl <;> rcases hs e' he' with rfl | rfl
  · rfl
  · exact absurd hh (by decide)
  · exact absurd hh (by decide)
  · rfl

end BlockStore

end Tenderdash.Store
