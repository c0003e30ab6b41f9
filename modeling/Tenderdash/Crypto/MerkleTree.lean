import Tenderdash.Types.PartSetRoundTrip

/-!
# The other ways to a Merkle root

`HashFromByteSlicesIterative` goes level by level, and `ProofsFromByteSlices` makes the proofs of all items as well.
-/

namespace Tenderdash.MerkleTree

open Lib Merkle Go List

variable {D : Type} (H : Hasher Bytes D)

/-- `HashFromByteSlices`. -/
abbrev hashFromByteSlices (items : List Bytes) : D := root H items

/-! ### Level by level -/

/-- One level: neighbours are hashed, and a last item without one is carried up. -/
def pairUp : List D → List D
  | l :: r :: items => H.inner l r :: pairUp items
  | items => items

def levels : ℕ → List D → D
  | _, [] => H.empty
  | _, [hash] => hash
  | 0, hash :: _ => hash
  | fuel + 1, items => levels fuel (pairUp H items)

/-- The levels are fewer than the items. -/
def hashFromByteSlicesIterative (items : List Bytes) : D := levels H items.length (items.map H.leaf)

def above : Hasher D D := { H with leaf := id }

lemma root_map (xs : List Bytes) : root (above H) (xs.map H.leaf) = root H xs := by
  induction hn : xs.length using Nat.strong_induction_on generalizing xs with
  | _ n ih =>
    rcases lt_or_ge xs.length 2 with hlt | hge
    · rcases eq_or_ne xs [] with rfl | hne
      · rfl
      · obtain ⟨x, rfl⟩ := eq_singleton hne hlt
        rfl
    have hl := splitPoint_lt hge
    have hp := splitPoint_pos hge
    rw [root_split H hge, root_split _ (by simpa using hge), length_map, ← map_take, ← map_drop,
      ih _ (by rw [length_take]; omega) _ rfl, ih _ (by rw [length_drop]; omega) _ rfl]
    rfl

variable {H}

lemma length_pairUp (items : List D) : (pairUp H items).length = (items.length + 1) / 2 := by
  fun_induction pairUp H items with
  | case1 l r items ih =>
    simp only [length_cons, ih]
    omega
  | case2 items h =>
    rcases items with _ | ⟨l, _ | ⟨r, items⟩⟩
    · simp
    · simp
    · exact absurd rfl (h l r items)

lemma pairUp_append {xs : List D} (ys : List D) (h : xs.length % 2 = 0) :
    pairUp H (xs ++ ys) = pairUp H xs ++ pairUp H ys := by
  fun_induction pairUp H xs with
  | case1 l r xs ih =>
    rw [cons_append, cons_append, pairUp, ih (by rw [length_cons, length_cons] at h; omega), cons_append]
  | case2 xs hn =>
    rcases xs with _ | ⟨l, _ | ⟨r, xs⟩⟩
    · rfl
    · simp at h
    · exact absurd rfl (hn l r xs)

lemma root_pairUp (items : List D) : root (above H) (pairUp H items) = root (above H) items := by
  induction hn : items.length using Nat.strong_induction_on generalizing items with
  | _ n ih =>
    rcases items with _ | ⟨a, _ | ⟨b, _ | ⟨c, items⟩⟩⟩
    · rfl
    · rfl
    · have hs : splitPoint 2 = 1 := splitPoint_eq (j := 0) one_lt_two le_rfl
      have hsp := root_split (above H) (le_refl [a, b].length)
      rw [hsp]
      simp [hs, above, pairUp]
    have hge : 3 ≤ (a :: b :: c :: items).length := by simp
    generalize a :: b :: c :: items = xs at *
    subst hn
    obtain ⟨j, hlt, hle, hk⟩ := exists_splitPoint_eq (n := xs.length) (by omega)
    obtain ⟨i, rfl⟩ : ∃ i, j = i + 1 := Nat.exists_eq_succ_of_ne_zero (by rintro rfl; omega)
    have hp := Nat.two_pow_pos i
    have hro : root (above H) xs = _ := root_split _ (by omega)
    rw [pow_succ] at hlt hk
    rw [pow_succ, pow_succ] at hle
    have hta : (xs.take (2 ^ i * 2)).length = 2 ^ i * 2 := by rw [length_take]; omega
    have hsp : splitPoint (pairUp H xs).length = 2 ^ i := by
      refine splitPoint_eq ?_ ?_ <;> rw [length_pairUp] <;> omega
    have hpa := pairUp_append (H := H) (xs.drop (2 ^ i * 2)) (hta ▸ Nat.mul_mod_left _ _)
    rw [take_append_drop] at hpa
    have hlp : (pairUp H (xs.take (2 ^ i * 2))).length = 2 ^ i := by rw [length_pairUp, hta]; omega
    rw [root_split _ (by rw [length_pairUp]; omega), hsp, hpa, take_left' hlp, drop_left' hlp, ih _ (by omega) _ hta,
      ih _ (by rw [length_drop]; omega) _ rfl, hro, hk]

lemma levels_eq {fuel : ℕ} {items : List D} (h : items.length ≤ fuel) : levels H fuel items = root (above H) items := by
  induction fuel generalizing items with
  | zero =>
    obtain rfl := length_eq_zero_iff.mp (Nat.le_zero.mp h)
    rfl
  | succ fuel ih =>
    rcases items with _ | ⟨a, _ | ⟨b, items⟩⟩
    · rfl
    · rfl
    · rw [levels, ih (by rw [length_pairUp]; simp at *; omega), root_pairUp]
      · simp
      · simp

/-! ### With proofs -/

/-- A node on the way from a leaf to the root, with the hash of its sibling. -/
structure ProofNode (D : Type) where
  hash : D
  left : Option D := none
  right : Option D := none

def flattenAunts (trail : List (ProofNode D)) : List D := trail.filterMap fun spn => spn.left.or spn.right

variable (H)

/-- The roots of two trees become siblings. -/
def join (l r : List (List (ProofNode D)) × D) : List (List (ProofNode D)) × D :=
  (l.1.map (· ++ [{ hash := l.2, right := r.2 }]) ++ r.1.map (· ++ [{ hash := r.2, left := l.2 }]), H.inner l.2 r.2)

/-- The nodes on the way from each leaf to the root, which is left out, and the hash of the root. -/
def trailsAux : ℕ → List Bytes → List (List (ProofNode D)) × D
  | _, [] => ([], H.empty)
  | _, [x] => ([[]], H.leaf x)
  | 0, x :: _ => ([[]], H.leaf x)
  | fuel + 1, items =>
    let k := splitPoint items.length
    join H (trailsAux fuel (items.take k)) (trailsAux fuel (items.drop k))

def trailsFromByteSlices (items : List Bytes) : List (List (ProofNode D)) × D :=
  let (trails, root) := trailsAux H items.length items
  (trails.map (· ++ [{ hash := root }]), root)

def proofsFromByteSlices (items : List Bytes) : D × List (Proof D) :=
  let (trails, rootHash) := trailsFromByteSlices H items
  (rootHash, trails.mapIdx fun i trail =>
    ⟨items.length, i, (trail.head?.map (·.hash)).getD H.empty, flattenAunts trail⟩)

variable {H}

lemma flattenAunts_append (t : List (ProofNode D)) (spn : ProofNode D) :
    flattenAunts (t ++ [spn]) = flattenAunts t ++ (spn.left.or spn.right).toList := by
  cases h : spn.left.or spn.right <;> simp [flattenAunts, h]

lemma trailsAux_spec {fuel : ℕ} {items : List Bytes} (h : items.length ≤ fuel) :
    (trailsAux H fuel items).2 = root H items ∧ (trailsAux H fuel items).1.length = items.length ∧
      ∀ i x, items[i]? = some x → ∃ t, (trailsAux H fuel items).1[i]? = some t ∧
        flattenAunts t = (trail H items i).reverse ∧ (t.head?.map (·.hash)).getD (root H items) = H.leaf x := by
  induction fuel generalizing items with
  | zero =>
    obtain rfl := length_eq_zero_iff.mp (Nat.le_zero.mp h)
    exact ⟨rfl, rfl, fun _ _ hx => (by cases hx)⟩
  | succ fuel ih =>
    rcases lt_or_ge items.length 2 with hlt | hge
    · rcases eq_or_ne items [] with rfl | hne
      · exact ⟨rfl, rfl, fun _ _ hx => (by cases hx)⟩
      obtain ⟨y, rfl⟩ := eq_singleton hne hlt
      refine ⟨rfl, rfl, fun i x hx => ?_⟩
      obtain ⟨rfl, rfl⟩ : i = 0 ∧ y = x := by simpa [getElem?_singleton] using hx
      exact ⟨[], rfl, by rw [trail_short H hlt]; rfl, rfl⟩
    obtain ⟨hl, hr⟩ := halves_le hge h
    obtain ⟨hl2, hll, hlt⟩ := ih hl
    obtain ⟨hr2, hrl, hrt⟩ := ih hr
    have hk := splitPoint_lt hge
    have hsu : trailsAux H (fuel + 1) items = join H (trailsAux H fuel (items.take (splitPoint items.length)))
        (trailsAux H fuel (items.drop (splitPoint items.length))) := by
      obtain ⟨x, y, zs, rfl⟩ := two_le_length hge
      rfl
    rw [length_take, min_eq_left hk.le] at hll
    rw [length_drop] at hrl
    rw [hsu, join, hl2, hr2, root_split H hge]
    refine ⟨rfl, by rw [length_append, length_map, length_map, hll, hrl]; omega, fun i x hx => ?_⟩
    rw [trail_split H hge]
    rcases lt_or_ge i (splitPoint items.length) with hi | hi
    · obtain ⟨t, hti, hf, hh⟩ := hlt i x (by rwa [getElem?_take_of_lt hi])
      refine ⟨_, by rw [getElem?_append_left (by rwa [length_map, hll]), getElem?_map, hti]; rfl, ?_, ?_⟩
      · rw [flattenAunts_append, hf, if_pos hi, reverse_cons]
        rfl
      · rw [← hh]
        cases t <;> rfl
    · obtain ⟨t, hti, hf, hh⟩ := hrt (i - splitPoint items.length) x (by rwa [getElem?_drop, Nat.add_sub_cancel' hi])
      refine ⟨_, by rw [getElem?_append_right (by rwa [length_map, hll]), length_map, hll, getElem?_map, hti]; rfl,
        ?_, ?_⟩
      · rw [flattenAunts_append, hf, if_neg (by omega), reverse_cons]
        rfl
      · rw [← hh]
        cases t <;> rfl

/-- **The ways to the root agree**, the proofs are accepted, and under the right total nothing else is. -/
theorem merkle_tree_spec [DecidableEq D] (H : Hasher Bytes D) (items : List Bytes) :
    hashFromByteSlicesIterative H items = hashFromByteSlices H items ∧
      (proofsFromByteSlices H items).1 = hashFromByteSlices H items ∧
      (∀ (i : ℕ) x, items[i]? = some x → ∃ sp : Proof D, (proofsFromByteSlices H items).2[i]? = some sp ∧
        sp.total = items.length ∧ sp.index = i ∧ sp.verify H (hashFromByteSlices H items) x = .ok ()) ∧
      (H.CollisionFree (fun _ => True) → items ≠ [] → ∀ (sp : Proof D) (leaf : Bytes), sp.total = items.length →
        0 ≤ sp.index → sp.index < sp.total → sp.verify H (hashFromByteSlices H items) leaf = .ok () →
        items[sp.index.toNat]? = some leaf) := by
  obtain ⟨hr, hl, ht⟩ := trailsAux_spec (H := H) (le_refl items.length)
  refine ⟨?_, hr, fun i x hx => ?_, fun hH hne sp leaf htot h0 hlt hv => ?_⟩
  · rw [hashFromByteSlicesIterative, levels_eq (by simp), root_map]
  · obtain ⟨t, hti, hf, hh⟩ := ht i x hx
    refine ⟨PartSet.proofOf H items i x, ?_, rfl, rfl, PartSet.verify_proofOf hx⟩
    have hfl : flattenAunts (t ++ [⟨root H items, none, none⟩]) = (trail H items i).reverse := by
      rw [flattenAunts_append, hf]
      simp
    have hhd : ((t ++ [(⟨root H items, none, none⟩ : ProofNode D)]).head?.map (·.hash)).getD H.empty = H.leaf x := by
      rw [← hh]
      cases t <;> rfl
    simp only [proofsFromByteSlices, trailsFromByteSlices, getElem?_mapIdx, getElem?_map, hti, hr, Option.map_some, hfl,
      hhd]
    rfl
  · obtain ⟨-, -, h⟩ := Proof.verify_eq_ok hv
    obtain ⟨j, hj, hx, -⟩ := rootFromAunts_eq_root hH (fun _ _ => trivial) hne h
    rw [htot, Int.toNat_natCast] at hj
    rw [hj.eq_of_total_eq rfl]
    exact hx

end Tenderdash.MerkleTree
