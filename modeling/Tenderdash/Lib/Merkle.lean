import Mathlib.Tactic

/-!
# Merkle trees over lists

The tree of a list with at least two items splits it at the largest power of two below its length.
A proof for one item is its index, the number of items it claims the tree to have, and the aunts:
the hashes of the siblings on the way to the root. The verifier never sees the tree. It takes the
turns at each level from the index and the claimed total alone.

Main results, for a hasher without collisions:

* `rootFromAunts_eq_root`: what the verifier accepts under a root is an item of the list, namely the
  one whose route in the list's own tree has the same turns (`SameRoute`), and the aunts are that
  item's;
* `rootFromAunts_trail`: conversely every item is accepted under every index and total with its
  turns;
* `SameRoute.eq_of_total_eq`: under the right total those turns lead to the claimed index only.
-/

namespace Lib.Merkle

open List Option

/-! ### Splitting -/

/-- The largest power of two below `n`, for `n` at least two. -/
def splitPoint (n : ℕ) : ℕ :=
  let k := 2 ^ Nat.log2 n
  if k = n then k / 2 else k

variable {n : ℕ}

lemma splitPoint_eq {j : ℕ} (hlt : 2 ^ j < n) (hle : n ≤ 2 ^ (j + 1)) : splitPoint n = 2 ^ j := by
  unfold splitPoint
  rw [pow_succ] at hle
  rcases hle.eq_or_lt with rfl | hl
  · rw [← pow_succ, Nat.log2_two_pow, if_pos rfl, pow_succ, Nat.mul_div_cancel _ two_pos]
  · rw [(Nat.log2_eq_iff (by omega)).mpr ⟨hlt.le, by rwa [pow_succ]⟩, if_neg hlt.ne]

lemma exists_splitPoint_eq (h : 2 ≤ n) : ∃ j, 2 ^ j < n ∧ n ≤ 2 ^ (j + 1) ∧ splitPoint n = 2 ^ j := by
  have hlo := Nat.log2_self_le (n := n - 1) (by omega)
  have hhi := Nat.lt_log2_self (n := n - 1)
  exact ⟨(n - 1).log2, by omega, by omega, splitPoint_eq (by omega) (by omega)⟩

lemma splitPoint_pos (h : 2 ≤ n) : 0 < splitPoint n := by
  obtain ⟨j, -, -, he⟩ := exists_splitPoint_eq h
  exact he ▸ Nat.two_pow_pos j

lemma splitPoint_lt (h : 2 ≤ n) : splitPoint n < n := by
  obtain ⟨j, hlt, -, he⟩ := exists_splitPoint_eq h
  exact he ▸ hlt

/-! ### Roots -/

/-- A leaf hash, an inner hash and the hash of the empty list. -/
structure Hasher (α D : Type*) where
  leaf : α → D
  inner : D → D → D
  empty : D

variable {α D : Type*} (H : Hasher α D)

/-- The root of a list, with as much recursion as `fuel` allows. -/
def rootAux : ℕ → List α → D
  | _, [] => H.empty
  | _, [x] => H.leaf x
  | 0, x :: _ => H.leaf x
  | fuel + 1, x :: y :: zs =>
    let k := splitPoint (x :: y :: zs).length
    H.inner (rootAux fuel ((x :: y :: zs).take k)) (rootAux fuel ((x :: y :: zs).drop k))

def root (xs : List α) : D := rootAux H xs.length xs

variable {xs : List α} {x : α}

lemma two_le_length (h : 2 ≤ xs.length) : ∃ x y zs, xs = x :: y :: zs := by
  match xs with
  | x :: y :: zs => exact ⟨x, y, zs, rfl⟩

lemma eq_singleton (h : xs ≠ []) (hlt : xs.length < 2) : ∃ x, xs = [x] := by
  match xs, h, hlt with
  | [x], _, _ => exact ⟨x, rfl⟩

lemma rootAux_succ {fuel : ℕ} (h : 2 ≤ xs.length) :
    rootAux H (fuel + 1) xs = H.inner (rootAux H fuel (xs.take (splitPoint xs.length)))
      (rootAux H fuel (xs.drop (splitPoint xs.length))) := by
  obtain ⟨x, y, zs, rfl⟩ := two_le_length h
  rfl

lemma halves_le (h : 2 ≤ xs.length) (hn : xs.length ≤ n + 1) :
    (xs.take (splitPoint xs.length)).length ≤ n ∧ (xs.drop (splitPoint xs.length)).length ≤ n := by
  have hlt := splitPoint_lt h
  have hp := splitPoint_pos h
  rw [length_take, length_drop]
  omega

lemma rootAux_eq {fuel fuel' : ℕ} (h : xs.length ≤ fuel) (h' : xs.length ≤ fuel') :
    rootAux H fuel xs = rootAux H fuel' xs := by
  induction fuel generalizing fuel' xs with
  | zero =>
    obtain rfl : xs = [] := length_eq_zero_iff.mp (by omega)
    cases fuel' <;> rfl
  | succ fuel ih =>
    rcases lt_or_ge xs.length 2 with hlt | hge
    · match xs, hlt with
      | [], _ => cases fuel' <;> rfl
      | [x], _ => cases fuel' <;> rfl
    obtain ⟨f, rfl⟩ : ∃ f, fuel' = f + 1 := ⟨fuel' - 1, by omega⟩
    obtain ⟨hl, hr⟩ := halves_le hge h
    obtain ⟨hl', hr'⟩ := halves_le hge h'
    rw [rootAux_succ H hge, rootAux_succ H hge, ih hl hl', ih hr hr']

@[simp] lemma root_nil : root H ([] : List α) = H.empty := rfl

@[simp] lemma root_singleton (x : α) : root H [x] = H.leaf x := rfl

lemma root_split (h : 2 ≤ xs.length) :
    root H xs = H.inner (root H (xs.take (splitPoint xs.length))) (root H (xs.drop (splitPoint xs.length))) := by
  obtain ⟨hl, hr⟩ := halves_le h (Nat.le_succ _)
  rw [root, rootAux_eq H le_rfl (Nat.le_succ _), rootAux_succ H h, rootAux_eq H hl le_rfl, rootAux_eq H hr le_rfl]
  rfl

/-! ### Proofs -/

/-- The root a verifier computes from an index, a claimed total, the hash of a leaf and the aunts,
the one nearest the root first. -/
def rootFromAunts : ℕ → ℕ → D → List D → Option D
  | i, t, h, [] => if i = 0 ∧ t = 1 then some h else none
  | i, t, h, aunt :: aunts =>
    if t ≤ i ∨ t ≤ 1 then none
    else if i < splitPoint t then
      (rootFromAunts i (splitPoint t) h aunts).map fun l => H.inner l aunt
    else
      (rootFromAunts (i - splitPoint t) (t - splitPoint t) h aunts).map fun r => H.inner aunt r

/-- The aunts of an item, the one nearest the root first. -/
def trailAux : ℕ → List α → ℕ → List D
  | fuel + 1, x :: y :: zs, i =>
    let k := splitPoint (x :: y :: zs).length
    if i < k then
      root H ((x :: y :: zs).drop k) :: trailAux fuel ((x :: y :: zs).take k) i
    else
      root H ((x :: y :: zs).take k) :: trailAux fuel ((x :: y :: zs).drop k) (i - k)
  | _, _, _ => []

def trail (xs : List α) (i : ℕ) : List D := trailAux H xs.length xs i

/-- The routes to index `i` among `t` items and to index `j` among `n` items take the same turns. -/
inductive SameRoute : ℕ → ℕ → ℕ → ℕ → Prop where
  | leaf : SameRoute 0 1 0 1
  | left {i t j n : ℕ} (ht : 2 ≤ t) (hn : 2 ≤ n) (hi : i < splitPoint t) (hj : j < splitPoint n)
      (h : SameRoute i (splitPoint t) j (splitPoint n)) : SameRoute i t j n
  | right {i t j n : ℕ} (ht : 2 ≤ t) (hn : 2 ≤ n) (hi : splitPoint t ≤ i) (hj : splitPoint n ≤ j)
      (h : SameRoute (i - splitPoint t) (t - splitPoint t) (j - splitPoint n)
        (n - splitPoint n)) : SameRoute i t j n

namespace SameRoute

lemma lt {i t j n : ℕ} (h : SameRoute i t j n) : i < t ∧ j < n := by
  induction h with
  | leaf => exact ⟨one_pos, one_pos⟩
  | left ht hn hi hj _ _ =>
    have := splitPoint_lt ht
    have := splitPoint_lt hn
    omega
  | right ht hn hi hj _ ih => omega

lemma refl {i n : ℕ} (h : i < n) : SameRoute i n i n := by
  induction n using Nat.strong_induction_on generalizing i with
  | _ n ih =>
    rcases lt_or_ge n 2 with hlt | hge
    · obtain rfl : n = 1 := by omega
      obtain rfl : i = 0 := by omega
      exact leaf
    have hlt := splitPoint_lt hge
    have hp := splitPoint_pos hge
    rcases lt_or_ge i (splitPoint n) with hi | hi
    · exact left hge hge hi hi (ih _ hlt hi)
    · exact right hge hge hi hi (ih _ (by omega) (by omega))

variable {fuel i t : ℕ} {xs : List α}

theorem eq_of_total_eq {i t j n : ℕ} (h : SameRoute i t j n) (hn : t = n) : i = j := by
  induction h with
  | leaf => rfl
  | left _ _ _ _ _ ih => exact ih (by rw [hn])
  | right _ _ hi hj _ ih =>
    have := ih (by rw [hn])
    rw [hn] at hi this
    omega

end SameRoute

/-! ### Trails -/

lemma trailAux_succ (h : 2 ≤ xs.length) :
    trailAux H (fuel + 1) xs i =
      if i < splitPoint xs.length then
        root H (xs.drop (splitPoint xs.length)) :: trailAux H fuel (xs.take (splitPoint xs.length)) i
      else
        root H (xs.take (splitPoint xs.length)) ::
          trailAux H fuel (xs.drop (splitPoint xs.length)) (i - splitPoint xs.length) := by
  obtain ⟨x, y, zs, rfl⟩ := two_le_length h
  rfl

lemma trailAux_short (h : xs.length < 2) : trailAux H fuel xs i = [] := by
  match fuel, xs, h with
  | 0, [], _ | 0, [x], _ | _ + 1, [], _ | _ + 1, [x], _ => rfl

lemma trailAux_eq {fuel' : ℕ} (h : xs.length ≤ fuel)
    (h' : xs.length ≤ fuel') : trailAux H fuel xs i = trailAux H fuel' xs i := by
  induction fuel generalizing fuel' xs i with
  | zero => rw [trailAux_short H (by omega), trailAux_short H (by omega)]
  | succ fuel ih =>
    rcases lt_or_ge xs.length 2 with hlt | hge
    · rw [trailAux_short H hlt, trailAux_short H hlt]
    obtain ⟨f, rfl⟩ : ∃ f, fuel' = f + 1 := ⟨fuel' - 1, by omega⟩
    obtain ⟨hl, hr⟩ := halves_le hge h
    obtain ⟨hl', hr'⟩ := halves_le hge h'
    rw [trailAux_succ H hge, trailAux_succ H hge, ih hl hl', ih hr hr']

lemma trail_short (h : xs.length < 2) : trail H xs i = [] :=
  trailAux_short H h

lemma trail_split (h : 2 ≤ xs.length) :
    trail H xs i =
      if i < splitPoint xs.length then
        root H (xs.drop (splitPoint xs.length)) :: trail H (xs.take (splitPoint xs.length)) i
      else
        root H (xs.take (splitPoint xs.length)) ::
          trail H (xs.drop (splitPoint xs.length)) (i - splitPoint xs.length) := by
  obtain ⟨hl, hr⟩ := halves_le h (Nat.le_succ _)
  rw [trail, trailAux_eq H le_rfl (Nat.le_succ _), trailAux_succ H h, trailAux_eq H hl le_rfl, trailAux_eq H hr le_rfl]
  rfl

/-! ### Completeness -/

theorem rootFromAunts_trail {j : ℕ} (hr : SameRoute i t j xs.length) (hx : xs[j]? = some x) :
    rootFromAunts H i t (H.leaf x) (trail H xs j) = some (root H xs) := by
  generalize hl : xs.length = n at hr
  induction hr generalizing xs with
  | leaf =>
    obtain ⟨y, rfl⟩ := length_eq_one_iff.mp hl
    obtain rfl : y = x := by simpa using hx
    have hs : trail H [y] 0 = [] := trail_short H (by simp)
    simp [hs, rootFromAunts]
  | left ht hn hi hj hr ih =>
    subst hl
    have hlt := splitPoint_lt hn
    have hl' := splitPoint_lt ht
    rw [trail_split H hn, if_pos hj, root_split H hn, rootFromAunts, if_neg (by omega), if_pos hi,
      ih (by rwa [getElem?_take_of_lt hj]) (by rw [length_take]; omega)]
    rfl
  | right ht hn hi hj hr ih =>
    subst hl
    have hlt := hr.lt
    rw [trail_split H hn, if_neg (by omega), root_split H hn, rootFromAunts, if_neg (by omega),
      if_neg (by omega), ih (by rwa [getElem?_drop, Nat.add_sub_cancel' hj]) (by rw [length_drop])]
    rfl

/-! ### Soundness -/

/-- No collisions among the digests that are `sized`, which those the hasher makes are. -/
structure Hasher.CollisionFree (sized : D → Prop) : Prop where
  sized_leaf : ∀ x, sized (H.leaf x)
  sized_inner : ∀ l r, sized (H.inner l r)
  leaf_inj : ∀ x y, H.leaf x = H.leaf y → x = y
  inner_inj : ∀ l r l' r', sized l → sized r → sized l' → sized r' →
    H.inner l r = H.inner l' r' → l = l' ∧ r = r'
  leaf_ne_inner : ∀ x l r, H.leaf x ≠ H.inner l r

variable {H} {sized : D → Prop} {aunts : List D}

lemma sized_root (hH : H.CollisionFree sized) (h : xs ≠ []) : sized (root H xs) := by
  rcases lt_or_ge xs.length 2 with hlt | hge
  · obtain ⟨x, rfl⟩ := eq_singleton h hlt
    exact hH.sized_leaf x
  rw [root_split H hge]
  exact hH.sized_inner ..

lemma sized_rootFromAunts (hH : H.CollisionFree sized) {h d : D}
    (hh : sized h) (hd : rootFromAunts H i t h aunts = some d) : sized d := by
  cases aunts with
  | nil =>
    rw [rootFromAunts] at hd
    split_ifs at hd
    cases hd
    exact hh
  | cons a as =>
    rw [rootFromAunts] at hd
    split_ifs at hd
    all_goals
      obtain ⟨d', _, rfl⟩ := map_eq_some_iff.mp hd
      exact hH.sized_inner ..

/-- **Soundness.** What a verifier accepts under the root of a list is the item of the list with the
same turns, with that item's aunts. -/
theorem rootFromAunts_eq_root (hH : H.CollisionFree sized) (hau : ∀ a ∈ aunts, sized a)
    (hxs : xs ≠ []) (h : rootFromAunts H i t (H.leaf x) aunts = some (root H xs)) :
    ∃ j, SameRoute i t j xs.length ∧ xs[j]? = some x ∧ aunts = trail H xs j := by
  induction aunts generalizing i t xs with
  | nil =>
    rw [rootFromAunts] at h
    split_ifs at h with hit
    obtain ⟨rfl, rfl⟩ := hit
    injection h with h
    rcases lt_or_ge xs.length 2 with hlt | hge
    · obtain ⟨y, rfl⟩ := eq_singleton hxs hlt
      obtain rfl := hH.leaf_inj x y h
      exact ⟨0, .leaf, rfl, rfl⟩
    rw [root_split H hge] at h
    exact absurd h (hH.leaf_ne_inner _ _ _)
  | cons a as ih =>
    have ha : sized a := hau a (by simp)
    have has : ∀ b ∈ as, sized b := fun b hb => hau b (by simp [hb])
    rw [rootFromAunts] at h
    split_ifs at h with hba hi
    all_goals
      obtain ⟨d, hd, hrt⟩ := map_eq_some_iff.mp h
      have hsd := sized_rootFromAunts hH (hH.sized_leaf x) hd
      -- an inner hash is the root of a list with two parts
      have hge : 2 ≤ xs.length := by
        by_contra hlt
        obtain ⟨y, rfl⟩ := eq_singleton hxs (by omega)
        exact hH.leaf_ne_inner _ _ _ hrt.symm
      have hlt := splitPoint_lt hge
      have hp := splitPoint_pos hge
      have hl : xs.take (splitPoint xs.length) ≠ [] := by rw [ne_eq, ← length_eq_zero_iff, length_take]; omega
      have hr : xs.drop (splitPoint xs.length) ≠ [] := by rw [ne_eq, ← length_eq_zero_iff, length_drop]; omega
      rw [root_split H hge] at hrt
    · obtain ⟨rfl, rfl⟩ := hH.inner_inj _ _ _ _ hsd ha (sized_root hH hl) (sized_root hH hr) hrt
      obtain ⟨j, hro, hx, rfl⟩ := ih has hl hd
      rw [length_take, min_eq_left hlt.le] at hro
      have hj := hro.lt.2
      refine ⟨j, .left (by omega) hge hi hj hro, ?_, by rw [trail_split H hge, if_pos hj]⟩
      rwa [getElem?_take_of_lt hj] at hx
    · obtain ⟨rfl, rfl⟩ := hH.inner_inj _ _ _ _ ha hsd (sized_root hH hl) (sized_root hH hr) hrt
      obtain ⟨j, hro, hx, rfl⟩ := ih has hr hd
      rw [length_drop] at hro
      refine ⟨splitPoint xs.length + j, .right (by omega) hge (by omega) (by omega) ?_, ?_, ?_⟩
      · rwa [Nat.add_sub_cancel_left]
      · rwa [getElem?_drop] at hx
      · rw [trail_split H hge, if_neg (by omega), Nat.add_sub_cancel_left]

end Lib.Merkle
