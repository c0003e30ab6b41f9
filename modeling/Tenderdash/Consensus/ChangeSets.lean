import Tenderdash.Consensus.ProposerSelector
import Tenderdash.Types.ValidatorUpdates

/-!
What a change set does to a validator set that is in order: the members are the old ones that were not changed and the
updates, in order. The proposer index stays what it was.
-/

namespace Tenderdash

open Lib Go List

def Validator.rank (val : Validator) : List ℕ := val.proTxHash.map UInt8.toNat

def Ordered (vals : List Validator) : Prop := vals.Pairwise fun a b => a.rank < b.rank

def before (val : Validator) (vals : List Validator) : ℕ := vals.countP fun x => bytesLess x.proTxHash val.proTxHash

section

variable {a b : Validator} {l existing updates deletes : List Validator}

lemma rank_inj : a.rank = b.rank ↔ a.proTxHash = b.proTxHash :=
  (List.map_injective_iff.mpr fun _ _ => UInt8.toNat_inj.mp).eq_iff

lemma bytesLess_iff : bytesLess a.proTxHash b.proTxHash = true ↔ a.rank < b.rank := by simp [bytesLess, Validator.rank]

lemma not_bytesLess_iff : bytesLess b.proTxHash a.proTxHash = false ↔ a.rank ≤ b.rank := by
  rw [← not_lt, ← bytesLess_iff, Bool.not_eq_true]

lemma ne_of_below (h : ∀ x ∈ l, a.rank < x.rank) : ∀ x ∈ l, a.proTxHash ≠ x.proTxHash :=
  fun x hx he => (h x hx).ne (rank_inj.mpr he)

namespace Ordered

lemma below (h : Ordered (b :: l)) (hl : a.rank < b.rank) : ∀ x ∈ b :: l, a.rank < x.rank :=
  forall_mem_cons.mpr ⟨hl, fun x hx => hl.trans ((pairwise_cons.mp h).1 x hx)⟩

lemma nodup (h : Ordered l) : (l.map (·.proTxHash)).Nodup :=
  pairwise_map.mpr (h.imp fun hl he => hl.ne (rank_inj.mpr he))

lemma sort_eq (h : Ordered l) : sortByProTxHash l = l :=
  Pairwise.insertionSort_eq (h.imp fun hl => not_bytesLess_iff.mpr hl.le)

lemma getElem?_before (h : Ordered l) (ha : a ∈ l) : l[before a l]? = some a := by
  induction l with
  | nil => cases ha
  | cons x l ih =>
    obtain ⟨hx, hl⟩ := pairwise_cons.mp h
    rcases mem_cons.mp ha with rfl | ha
    · have hz : before a (a :: l) = 0 := countP_eq_zero.mpr fun y hy => by
        rw [bytesLess_iff, not_lt]
        exact (mem_cons.mp hy).elim (fun he => he ▸ le_rfl) fun hy => (hx y hy).le
      rw [hz, getElem?_cons_zero]
    · have hs : before a (x :: l) = before a l + 1 := countP_cons_of_pos (bytesLess_iff.mpr (hx a ha))
      rw [hs, getElem?_cons_succ, ih hl ha]

lemma hash_getElem?_iff {i : ℕ} (h : Ordered l) (ha : ∃ x ∈ l, x.proTxHash = a.proTxHash) :
    l[i]?.map (·.proTxHash) = some a.proTxHash ↔ before a l = i := by
  obtain ⟨x, hx, he⟩ := ha
  have hg : l[before a l]?.map (·.proTxHash) = some a.proTxHash := by
    rw [before, ← he, ← before, h.getElem?_before hx, Option.map_some]
  rw [← getElem?_map] at hg ⊢
  rw [← hg, eq_comm, getElem?_inj (List.getElem?_eq_some_iff.mp hg).1 h.nodup]

end Ordered

lemma pairwise_sortByProTxHash (l : List Validator) : (sortByProTxHash l).Pairwise fun a b => a.rank ≤ b.rank := by
  have ht : Std.Total fun a b : Validator => bytesLess b.proTxHash a.proTxHash = false :=
    ⟨fun a b => by simpa only [not_bytesLess_iff] using le_total a.rank b.rank⟩
  have hi : IsTrans Validator fun a b => bytesLess b.proTxHash a.proTxHash = false :=
    ⟨fun a b c => by simpa only [not_bytesLess_iff] using le_trans⟩
  exact (pairwise_insertionSort _ l).imp not_bytesLess_iff.mp

lemma splitChanges_spec (prev : Bytes) (hs : l.Pairwise fun a b => a.rank ≤ b.rank) :
    Returns (splitChanges prev l) ∧ ∀ parts, splitChanges prev l = .ok parts → (∀ x ∈ l.head?, x.proTxHash ≠ prev) ∧
      Ordered l ∧ parts = (l.filter (·.votingPower ≠ 0), l.filter (·.votingPower = 0)) := by
  induction l generalizing prev with
  | nil =>
    refine ⟨returns_ok _, fun _ h => ?_⟩
    cases h
    exact ⟨by simp, .nil, rfl⟩
  | cons val rest ih =>
    obtain ⟨hv, hs⟩ := pairwise_cons.mp hs
    refine ensures_bind (returns_failIf _ _) fun _ hp => ensures_bind (returns_failIf _ _) fun _ _ =>
      ensures_bind (returns_failIf _ _) fun _ _ => ensures_bind (ih _ hs).1 fun parts hr => ⟨returns_ok _, fun _ h => ?_⟩
    obtain ⟨hn, ho, rfl⟩ := (ih _ hs).2 parts hr
    cases h
    refine ⟨by simpa using failIf_eq_ok.mp hp, pairwise_cons.mpr ⟨?_, ho⟩, ?_⟩
    · cases rest with
      | nil => simp
      | cons y rest =>
        exact ho.below (lt_of_le_of_ne (hv y mem_cons_self) fun he => hn y rfl (rank_inj.mp he.symm))
    · by_cases hz : val.votingPower = 0 <;> simp [hz]

namespace ValidatorSet

structure Merged (existing updates l : List Validator) : Prop where
  ordered : Ordered l
  mem_iff : ∀ val, val ∈ l ↔ val ∈ updates ∨ val ∈ existing ∧ ∀ u ∈ updates, u.proTxHash ≠ val.proTxHash

lemma Merged.cons (h : Merged existing updates l) (hu : ∀ x ∈ updates, a.rank < x.rank)
    (he : ∀ x ∈ existing, a.rank < x.rank) : Ordered (a :: l) :=
  pairwise_cons.mpr ⟨fun x hx => ((h.mem_iff x).mp hx).elim (hu x) fun hx => he x hx.1, h.ordered⟩

lemma applyUpdates_merged (he : Ordered existing) (hu : Ordered updates) :
    Merged existing updates (applyUpdates existing updates) := by
  fun_induction applyUpdates existing updates with
  | case1 updates => exact ⟨hu, by simp⟩
  | case2 existing _ => exact ⟨he, by simp⟩
  | case3 e existing u updates hl ih =>
    obtain ⟨hb, he⟩ := pairwise_cons.mp he
    have ha := hu.below (bytesLess_iff.mp hl)
    have hn := ne_of_below ha
    refine ⟨(ih he hu).cons ha hb, fun val => ?_⟩
    rw [mem_cons, (ih he hu).mem_iff]
    grind
  | case4 e existing u updates _ heq ih =>
    obtain ⟨hb, he⟩ := pairwise_cons.mp he
    obtain ⟨ha, hu⟩ := pairwise_cons.mp hu
    rw [rank_inj.mpr heq] at hb
    have hn := ne_of_below hb
    refine ⟨(ih he hu).cons ha hb, fun val => ?_⟩
    rw [mem_cons, (ih he hu).mem_iff]
    grind
  | case5 e existing u updates hl hne ih =>
    obtain ⟨ha, hu⟩ := pairwise_cons.mp hu
    have hle := not_bytesLess_iff.mp (Bool.eq_false_of_not_eq_true hl)
    have hb := he.below (lt_of_le_of_ne hle (rank_inj.not.mpr (Ne.symm hne)))
    have hn := ne_of_below hb
    refine ⟨(ih he hu).cons ha hb, fun val => ?_⟩
    rw [mem_cons, (ih he hu).mem_iff]
    grind

lemma applyRemovals_eq (he : Ordered existing) (hd : Ordered deletes)
    (hm : ∀ d ∈ deletes, ∃ e ∈ existing, e.proTxHash = d.proTxHash) :
    applyRemovals existing deletes = .ok (existing.filter fun e => ∀ d ∈ deletes, d.proTxHash ≠ e.proTxHash) := by
  fun_induction applyRemovals existing deletes with
  | case1 existing => simp
  | case2 d deletes => simpa using hm d mem_cons_self
  | case3 e existing d deletes heq ih =>
    obtain ⟨hb, he⟩ := pairwise_cons.mp he
    obtain ⟨ha, hd⟩ := pairwise_cons.mp hd
    have hn := ne_of_below hb
    have hn' := ne_of_below ha
    rw [ih he hd (by grind), filter_cons_of_neg (by simp [heq])]
    exact congrArg _ (filter_congr fun x hx => by simp [← heq, hn x hx])
  | case4 e existing d deletes hne ih =>
    obtain ⟨hb, he⟩ := pairwise_cons.mp he
    obtain ⟨x, hx, hxd⟩ : ∃ x ∈ existing, x.proTxHash = d.proTxHash := by
      have := hm d mem_cons_self
      grind
    have hn := ne_of_below (hd.below (rank_inj.mpr hxd ▸ hb x hx))
    rw [ih he hd (by grind), filter_cons_of_pos (by simpa using fun y hy => (hn y hy).symm)]
    rfl

lemma verifyRemovals_spec (vals : ValidatorSet) (hd : Ordered deletes) :
    Returns (vals.verifyRemovals deletes) ∧ ∀ power, vals.verifyRemovals deletes = .ok power →
      ∀ d ∈ deletes, ∃ e ∈ vals.validators, e.proTxHash = d.proTxHash := by
  refine ensures_bind (returns_mapM (fun d => ?_) _) fun powers hp => ?_
  · split
    exacts [returns_fail _, returns_ok _]
  have hf : ∀ d ∈ deletes, ∃ e ∈ vals.validators, e.proTxHash = d.proTxHash := by
    intro d hd
    obtain ⟨_, hf⟩ := ok_of_mapM hp d hd
    split at hf
    · cases hf
    · next known hk => exact ⟨known, mem_of_find?_eq_some hk, by simpa using find?_some hk⟩
  have hs : deletes.map (·.proTxHash) ⊆ vals.validators.map (·.proTxHash) := by simpa [subset_def] using hf
  have hl : deletes.length ≤ vals.size := by simpa [size] using (hd.nodup.subperm hs).length_le
  rw [if_neg (not_lt.mpr hl)]
  exact ⟨returns_ok _, fun _ _ => hf⟩

lemma returns_verifyTotal (total : ℤ) (deltas : List ℤ) : Returns (verifyTotal total deltas) := by
  induction deltas generalizing total with
  | nil => exact returns_ok ()
  | cons delta rest ih =>
    unfold verifyTotal
    split
    exacts [returns_fail _, ih _]

structure Changed (vals : ValidatorSet) (changes : List Validator) (vals' : ValidatorSet) : Prop where
  ordered : Ordered vals'.validators
  mem_iff : ∀ val, val ∈ vals'.validators ↔ val ∈ changes ∧ val.votingPower ≠ 0 ∨
    val ∈ vals.validators ∧ ∀ c ∈ changes, c.proTxHash ≠ val.proTxHash

lemma updateWithChangeSet_spec {vals : ValidatorSet} (ho : Ordered vals.validators) (changes : List Validator)
    (key : Option PubKey) (quorumHash : Bytes) :
    Returns (vals.updateWithChangeSet changes true key quorumHash) ∧
      ∀ vals', vals.updateWithChangeSet changes true key quorumHash = .ok vals' → changes ≠ [] →
        Changed vals changes vals' := by
  unfold updateWithChangeSet
  split
  · next hc => exact ⟨returns_ok _, fun _ _ h => absurd hc h⟩
  obtain ⟨hpr, hpf⟩ := splitChanges_spec [] (pairwise_sortByProTxHash changes)
  refine ensures_bind (returns_failIf _ _) fun _ _ => ensures_bind (returns_failIf _ _) fun _ _ =>
    ensures_bind hpr fun parts hp => ?_
  obtain ⟨updates, deletes⟩ := parts
  obtain ⟨-, hs, he⟩ := hpf _ hp
  obtain ⟨hu, hd⟩ := Prod.ext_iff.mp he
  dsimp only at hu hd ⊢
  have hou : Ordered updates := hu ▸ hs.filter _
  have hod : Ordered deletes := hd ▸ hs.filter _
  obtain ⟨hrr, hrf⟩ := vals.verifyRemovals_spec hod
  obtain ⟨ha, ham⟩ := applyUpdates_merged ho hou
  refine ensures_bind (returns_failIf _ _) fun _ _ => ensures_bind (returns_failIf _ _) fun _ _ =>
    ensures_bind hrr fun power hr => ensures_bind (returns_check fun _ _ =>
      returns_verifyTotal _ _) fun _ _ => ?_
  have hf : ∀ d ∈ deletes, ∃ e ∈ applyUpdates vals.validators updates, e.proTxHash = d.proTxHash := by
    intro d hd
    obtain ⟨e, he, hed⟩ := hrf power hr d hd
    grind
  rw [ho.sort_eq, applyRemovals_eq ha hod hf]
  refine ⟨returns_ok _, fun vals' h _ => ?_⟩
  cases h
  have hof := ha.filter fun e => decide (∀ d ∈ deletes, d.proTxHash ≠ e.proTxHash)
  refine ⟨(Ordered.sort_eq hof).symm ▸ hof, fun val => ?_⟩
  dsimp only
  rw [Ordered.sort_eq hof]
  -- an update and a removal do not have one hash
  have hi := inj_on_of_nodup_map hs.nodup
  have hm : ∀ val, val ∈ sortByProTxHash changes ↔ val ∈ changes := fun _ => mem_insertionSort _
  simp only [mem_filter, hu, hd, hm, decide_eq_true_eq] at hi ⊢
  grind

end ValidatorSet

end

namespace SelectProposer

structure Seated extends Rotation where
  ordered : Ordered vals.validators
  index_nonneg : 0 ≤ proposerIndex
  index_lt : proposerIndex < vals.size

/-- The set is written after the last check, and the proposer index is not. -/
def Rotation.updateWithChangeSet (r : Rotation) (changes : List Validator) (newThresholdPublicKey : Option PubKey)
    (newQuorumHash : Bytes) : Rotation × Go String Unit :=
  match r.vals.updateWithChangeSet changes true newThresholdPublicKey newQuorumHash with
  | .ok vals => ({ r with vals }, .ok ())
  | .error e => (r, .error e)

def Stays (changes : List Validator) (proposer : Validator) : Prop :=
  ∀ c ∈ changes, c.votingPower = 0 → c.proTxHash ≠ proposer.proTxHash

def KeepsProposer (r r' : Rotation) (changes : List Validator) : Prop :=
  (0 ≤ r'.proposerIndex ∧ r'.proposerIndex < r'.vals.size) ∧ ∀ proposer ∈ r.proposer, Stays changes proposer →
    r'.proposer.map (·.proTxHash) = some proposer.proTxHash

end SelectProposer

end Tenderdash
