import Mathlib.Tactic

/-!
Agreement of locking protocols. Voters vote in rounds, first in a ballot and then in a decision; a value is
decided in a round once a quorum decides for it. The honest voters keep three rules: they vote once in each
ballot, they decide only for a value with a quorum in the ballot of the round, and after a decision they ballot
for another value only if a ballot since then has a quorum for it.

* `exists_honest` — two quorums share an honest voter;
* `Rules.ballot_unique` — after a decided value no ballot has a quorum for another one;
* `Rules.agreement` — two decided values are equal.
-/

namespace Lib.Locking

variable {ν β : Type*} {P Q : ν → Prop}

def Quorum (voters : Finset ν) (q : ℕ) (P : ν → Prop) : Prop :=
  ∃ S ⊆ voters, q ≤ S.card ∧ ∀ x ∈ S, P x

lemma Quorum.mono {voters : Finset ν} {q : ℕ} (h : Quorum voters q P) (hPQ : ∀ x, P x → Q x) : Quorum voters q Q :=
  h.imp fun _ hS => ⟨hS.1, hS.2.1, fun x hx => hPQ x (hS.2.2 x hx)⟩

lemma exists_honest [DecidableEq ν] {voters : Finset ν} {honest : ν → Prop} [DecidablePred honest] {q f : ℕ}
    (hf : (voters.filter fun x => ¬ honest x).card ≤ f) (hq : voters.card + f < 2 * q) (hP : Quorum voters q P) (hQ : Quorum voters q Q) : ∃ x, honest x ∧ P x ∧ Q x := by
  obtain ⟨S, hS, hs, hSP⟩ := hP
  obtain ⟨T, hT, ht, hTQ⟩ := hQ
  by_contra hno
  have hsu : S ∩ T ⊆ voters.filter fun x => ¬ honest x := by
    intro x hx
    obtain ⟨hxS, hxT⟩ := Finset.mem_inter.mp hx
    exact Finset.mem_filter.mpr ⟨hS hxS, fun hh => hno ⟨x, hh, hSP x hxS, hTQ x hxT⟩⟩
  have hi := Finset.card_le_card hsu
  have hu : (S ∪ T).card ≤ voters.card := Finset.card_le_card (Finset.union_subset hS hT)
  have hsm := Finset.card_union_add_card_inter S T
  omega

structure Rules (voters : Finset ν) (q : ℕ) (honest : ν → Prop) (real : β → Prop)
    (ballots decides : ℤ → ν → β → Prop) : Prop where
  ballot_once : ∀ x r b b', honest x → ballots r x b → ballots r x b' → b = b'
  decide_ballot : ∀ x r b, honest x → real b → decides r x b → Quorum voters q fun y => ballots r y b
  released : ∀ x r r' b b', honest x → real b → real b' → decides r x b → ballots r' x b' → r < r' →
    b' ≠ b → ∃ s, r ≤ s ∧ s < r' ∧ Quorum voters q fun y => ballots s y b'

namespace Rules

variable {voters : Finset ν} {q : ℕ} {honest : ν → Prop} {real : β → Prop}
  {ballots decides : ℤ → ν → β → Prop}

lemma ballot_unique (h : Rules voters q honest real ballots decides)
    (hm : ∀ P Q : ν → Prop, Quorum voters q P → Quorum voters q Q → ∃ x, honest x ∧ P x ∧ Q x)
    {r : ℤ} {b : β} (hb : real b) (hde : Quorum voters q fun x => decides r x b) (k : ℕ) {b' : β}
    (hb' : real b') (hba : Quorum voters q fun x => ballots (r + k) x b') : b' = b := by
  induction k using Nat.strong_induction_on generalizing b' with
  | _ k ih =>
    obtain ⟨x, hx, hd, hbl⟩ := hm _ _ hde hba
    rcases eq_zero_or_pos k with rfl | hp
    · -- the same round: the decision was backed by its ballot
      obtain ⟨y, hy, hyb, hy'⟩ := hm _ _ (h.decide_ballot x r b hx hb hd) hba
      simp only [Nat.cast_zero, add_zero] at hy'
      exact h.ballot_once y r b' b hy hy' hyb
    by_contra hne
    obtain ⟨s, hle, hlt, hs⟩ := h.released x r (r + k) b b' hx hb hb' hd hbl (by omega) hne
    refine hne (ih (s - r).toNat (by omega) hb' ?_)
    rwa [Int.toNat_of_nonneg (by omega), add_sub_cancel]

theorem agreement (h : Rules voters q honest real ballots decides)
    (hm : ∀ P Q : ν → Prop, Quorum voters q P → Quorum voters q Q → ∃ x, honest x ∧ P x ∧ Q x)
    {r r' : ℤ} {b b' : β} (hb : real b) (hb' : real b') (hd : Quorum voters q fun x => decides r x b)
    (hd' : Quorum voters q fun x => decides r' x b') : b = b' := by
  -- the later decision was backed by a ballot
  have hl : ∀ {r r' : ℤ} {b b' : β}, real b → real b' → (Quorum voters q fun x => decides r x b) →
      (Quorum voters q fun x => decides r' x b') → r ≤ r' → b' = b := by
    intro r r' b b' hb hb' hd hd' hle
    obtain ⟨x, hx, hde, -⟩ := hm _ _ hd' hd'
    refine h.ballot_unique hm hb hd (r' - r).toNat hb' ?_
    rw [Int.toNat_of_nonneg (by omega), add_sub_cancel]
    exact h.decide_ballot x r' b' hx hb' hde
  rcases le_total r r' with hle | hle
  · exact (hl hb hb' hd hd' hle).symm
  · exact hl hb' hb hd' hd hle

end Rules

end Lib.Locking
