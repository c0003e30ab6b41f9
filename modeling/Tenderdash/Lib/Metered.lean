import Tenderdash.Lib.Go

/-!
Calls that are charged to a budget in stages. A budget decides on every charge, knowing those before it; a call that is
refused a charge ends with a refusal, and a call that is refused none ends as it does without a budget. `Within` says
so of a call, with a bound on what it is charged; the rules follow how calls are composed. A bucket of tokens that
refills over time is such a budget, and covers what it holds at one time at every later one.
-/

namespace Lib

open List

/-! ### Budgets -/

/-- A budget: whether a cost is allowed after those charged before. -/
abbrev Meter := List ℕ → ℕ → Bool

namespace Meter

def Allows (meter : Meter) : List ℕ → List ℕ → Prop
  | _, [] => True
  | before, cost :: costs => meter before cost = true ∧ meter.Allows (before ++ [cost]) costs

def Covers (meter : Meter) (tokens : ℕ) : Prop :=
  ∀ before cost, before.sum + cost ≤ tokens → meter before cost = true

lemma Covers.allows {meter : Meter} {tokens : ℕ} {before costs : List ℕ} (h : meter.Covers tokens)
    (hle : before.sum + costs.sum ≤ tokens) : meter.Allows before costs := by
  induction costs generalizing before with
  | nil => trivial
  | cons cost costs ih =>
    rw [sum_cons] at hle
    refine ⟨h before cost (by omega), ih ?_⟩
    rw [sum_append, sum_singleton]
    omega

end Meter

/-! ### Charged calls -/

variable {ρ σ ε α β : Type}

/-- The call is charged `n` at most, after the charges before. -/
def Within (before : List ℕ) (n : ℕ) (call : Option Meter → ρ) (refusal : ρ) : Prop :=
  ∃ costs : List ℕ, (∀ cost ∈ costs, 0 < cost) ∧ costs.sum ≤ n ∧
    (∀ meter : Meter, meter.Allows before costs → call (some meter) = call none) ∧
    ∀ meter : Meter, ¬ meter.Allows before costs → call (some meter) = refusal

namespace Within

variable {before : List ℕ} {n : ℕ} {call : Option Meter → ρ} {refusal : ρ}

lemma mono {m : ℕ} (h : Within before n call refusal) (hle : n ≤ m) : Within before m call refusal := by
  obtain ⟨costs, hp, hs, hc⟩ := h
  exact ⟨costs, hp, hs.trans hle, hc⟩

lemma free (result refusal : ρ) : Within before n (fun _ => result) refusal :=
  ⟨[], forall_mem_nil _, Nat.zero_le n, fun _ _ => rfl, fun _ => absurd trivial⟩

lemma charge {cost : ℕ} (hc : 0 < cost) (h : Within (before ++ [cost]) n call refusal) :
    Within before (cost + n)
      (fun budget => if budget.any fun meter => meter before cost = false then refusal else call budget) refusal := by
  obtain ⟨costs, hp, hs, ha, hr⟩ := h
  refine ⟨cost :: costs, forall_mem_cons.mpr ⟨hc, hp⟩, by simpa using hs, ?_, ?_⟩
  · rintro meter ⟨hm, hre⟩
    simpa [hm] using ha meter hre
  intro meter hn
  by_cases hm : meter before cost = true
  · simpa [hm] using hr meter fun hre => hn ⟨hm, hre⟩
  · simp [hm]

lemma via {call' : Option Meter → σ} {refusal' : σ} (h : Within before n call refusal)
    (hs : ∀ meter, call (some meter) = call none → call' (some meter) = call' none)
    (hr : ∀ meter, call (some meter) = refusal → call' (some meter) = refusal') : Within before n call' refusal' := by
  obtain ⟨costs, hp, hsu, ha, hn⟩ := h
  exact ⟨costs, hp, hsu, fun meter hal => hs meter (ha meter hal), fun meter hno => hr meter (hn meter hno)⟩

lemma andThen {call : Option Meter → Except ε α} {refusal : Except ε α} {f : α → Except ε β} {refusal' : Except ε β}
    (h : Within before n call refusal) (hr : refusal >>= f = refusal') :
    Within before n (fun budget => call budget >>= f) refusal' := by
  refine h.via (fun meter heq => ?_) fun meter heq => ?_
  · rw [heq]
  · rw [heq, hr]

lemma bind {x : Except ε α} {k : α → Option Meter → Except ε β} {refusal : Except ε β}
    (h : ∀ a, x = .ok a → Within before n (k a) refusal) :
    Within before n (fun budget => x >>= fun a => k a budget) refusal := by
  cases x with
  | error e => exact free (.error e) refusal
  | ok a => exact h a rfl

lemma of_zero (h : Within before 0 call refusal) (meter : Meter) : call (some meter) = call none := by
  obtain ⟨costs, hp, hs, ha, -⟩ := h
  cases costs with
  | nil => exact ha meter trivial
  | cons cost costs =>
    have hc := hp cost mem_cons_self
    rw [sum_cons] at hs
    omega

end Within

/-! ### A bucket of tokens -/

structure TokenBucket where
  limit : ℚ
  burst : ℕ
  tokens : ℚ
  last : ℚ
  deriving DecidableEq

namespace TokenBucket

variable (b : TokenBucket) (now : ℚ)

/-- What the bucket holds at a time; a clock that went back adds nothing. -/
def tokensAt : ℚ := min (b.burst : ℚ) (b.tokens + b.limit * (now - min b.last now))

def allowN (cost : ℕ) : TokenBucket × Bool :=
  if cost ≤ b.burst ∧ cost ≤ b.tokensAt now then ({ b with tokens := b.tokensAt now - cost, last := now }, true)
  else (b, false)

def charged (clock : ℕ → ℚ) : TokenBucket → ℕ → List ℕ → TokenBucket
  | b, _, [] => b
  | b, i, cost :: costs => charged clock (b.allowN (clock i) cost).1 (i + 1) costs

def meter (clock : ℕ → ℚ) (b : TokenBucket) : Meter := fun before cost =>
  ((charged clock b 0 before).allowN (clock before.length) cost).2

lemma tokensAt_mono {b : TokenBucket} {now later : ℚ} (hli : 0 ≤ b.limit) (hle : now ≤ later) :
    b.tokensAt now ≤ b.tokensAt later := by
  have he : now - min b.last now ≤ later - min b.last later := by
    rcases le_total b.last now with hl | hl
    · rw [min_eq_left hl, min_eq_left (hl.trans hle)]
      linarith
    rw [min_eq_right hl]
    linarith [min_le_right b.last later]
  exact min_le_min (le_refl _) (by gcongr)

lemma tokensAt_le_burst : b.tokensAt now ≤ b.burst := min_le_left ..

lemma tokensAt_le_add {b : TokenBucket} {now later : ℚ} (hli : 0 ≤ b.limit) (hle : now ≤ later) :
    b.tokensAt later ≤ b.tokensAt now + b.limit * (later - now) := by
  have he : later - min b.last later ≤ now - min b.last now + (later - now) := by linarith [min_le_min_left b.last hle]
  have hm := mul_le_mul_of_nonneg_left he hli
  have hn : 0 ≤ b.limit * (later - now) := mul_nonneg hli (sub_nonneg.mpr hle)
  unfold tokensAt
  rw [min_add]
  exact min_le_min (by linarith) (by linarith)

lemma tokensAt_allowN {b : TokenBucket} {now later : ℚ} {cost : ℕ} (hl : 0 ≤ b.limit) (hle : now ≤ later)
    (he : cost ≤ b.tokensAt now) : b.tokensAt now - cost ≤ (b.allowN now cost).1.tokensAt later := by
  have hb : cost ≤ b.burst := by exact_mod_cast he.trans (b.tokensAt_le_burst now)
  rw [allowN, if_pos ⟨hb, he⟩]
  refine le_min ?_ ?_
  · linarith [b.tokensAt_le_burst now, (Nat.cast_nonneg cost : (0 : ℚ) ≤ cost)]
  have hn : 0 ≤ b.limit * (later - now) := mul_nonneg hl (sub_nonneg.mpr hle)
  simpa [min_eq_left hle] using hn

lemma allowN_limit (cost : ℕ) : (b.allowN now cost).1.limit = b.limit := by
  unfold allowN
  split <;> rfl

lemma le_tokensAt_charged {clock : ℕ → ℚ} (hcl : Monotone clock) {costs : List ℕ} {b : TokenBucket} {i : ℕ}
    {tokens : ℕ} (hl : 0 ≤ b.limit) (hs : costs.sum ≤ tokens) (ht : tokens ≤ b.tokensAt (clock i)) :
    ((tokens - costs.sum : ℕ) : ℚ) ≤ (charged clock b i costs).tokensAt (clock (i + costs.length)) := by
  induction costs generalizing b i tokens with
  | nil => simpa [charged] using ht
  | cons cost costs ih =>
    rw [sum_cons] at hs
    have hc : cost ≤ tokens := by omega
    have he : (cost : ℚ) ≤ b.tokensAt (clock i) := le_trans (by exact_mod_cast hc) ht
    have hle := tokensAt_allowN hl (hcl (Nat.le_succ i)) he
    have hr := @ih (b.allowN (clock i) cost).1 (i + 1) (tokens - cost) (by rwa [allowN_limit]) (by omega)
      (by rw [Nat.cast_sub hc]; linarith)
    rw [sum_cons, ← Nat.sub_sub]
    have hi : i + (cost :: costs).length = i + 1 + costs.length := by
      rw [length_cons]
      omega
    rw [hi]
    exact hr

lemma covers_meter {clock : ℕ → ℚ} (hc : Monotone clock) {b : TokenBucket} (hl : 0 ≤ b.limit) {now : ℚ}
    (hn : now ≤ clock 0) {tokens : ℕ} (ht : tokens ≤ b.tokensAt now) : (b.meter clock).Covers tokens := by
  intro before cost hle
  have hlf := @le_tokensAt_charged clock hc before b 0 tokens hl (by omega) (ht.trans (tokensAt_mono hl hn))
  rw [zero_add] at hlf
  have he : (cost : ℚ) ≤ (charged clock b 0 before).tokensAt (clock before.length) :=
    le_trans (by exact_mod_cast Nat.le_sub_of_add_le' hle) hlf
  have hb : cost ≤ (charged clock b 0 before).burst := by exact_mod_cast he.trans (tokensAt_le_burst ..)
  rw [meter, allowN, if_pos ⟨hb, he⟩]

end TokenBucket

end Lib
