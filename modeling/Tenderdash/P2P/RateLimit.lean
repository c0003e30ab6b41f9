import Tenderdash.Lib.Metered
import Tenderdash.Lib.Run

/-!
The rate limiter of `internal/p2p/client`, for one peer. A call takes its tokens from the bucket of the peer, which
is made full when it is missing; the garbage collection drops a bucket that was not used for a minute. What has been
granted in a time is compared with what one bucket would grant.
-/

namespace Tenderdash.P2P

open Lib Run List TokenBucket

/-- `RateLimit` with a limit; `NewRateLimitWithBurst` makes the burst one at least. -/
structure RateLimit where
  limit : ℚ
  burst : ℕ
  drop : Bool
  limit_pos : 0 < limit
  burst_pos : 0 < burst

structure Limiter where
  bucket : TokenBucket
  lastEvent : ℚ
  lastAccess : ℤ

namespace Limiter

variable (l : Limiter) (now : ℚ) (n : ℕ)

/-- `ReserveN` of no more than the burst, with the time to act at. -/
def reserveN : Limiter × ℚ :=
  let left := l.bucket.tokensAt now - n
  let due := now + max 0 (-left / l.bucket.limit)
  (⟨{ l.bucket with tokens := left, last := now }, due, l.lastAccess⟩, due)

/-- `CancelAt` of a reservation: what later reservations have taken is not given back. -/
def cancelAt (due : ℚ) : Limiter :=
  let restore := n - l.bucket.limit * (l.lastEvent - due)
  let previous := due - n / l.bucket.limit
  if n = 0 ∨ due < now ∨ restore ≤ 0 then l
  else { l with
    bucket := { l.bucket with tokens := min l.bucket.burst (l.bucket.tokensAt now + restore), last := now }
    lastEvent := if due = l.lastEvent ∧ now ≤ previous then previous else l.lastEvent }

end Limiter

namespace RateLimit

structure Grant where
  limiter : ℕ
  time : ℚ
  tokens : ℕ

structure State where
  made : ℕ := 0
  limiter : Option Limiter := none
  grants : List Grant := []

inductive Op where
  /-- `Limit`; a context that has ended is one past its deadline. -/
  | limit (now : ℚ) (nTokens : ℕ) (deadline : Option ℚ)
  /-- The context of a call that waits is cancelled. -/
  | cancel (now : ℚ) (call : ℕ)
  | gc (now : ℚ)

def Op.time : Op → ℚ
  | .limit now _ _ | .cancel now _ | .gc now => now

variable (cfg : RateLimit) (s : State) (now : ℚ)

def getLimiter : ℕ × Limiter :=
  match s.limiter with
  | some l => (s.made, { l with lastAccess := ⌊now⌋ })
  | none => (s.made + 1, ⟨⟨cfg.limit, cfg.burst, cfg.burst, now⟩, now, ⌊now⌋⟩)

/-- `Limit`: with `waitN` the message is let through when its reservation comes due. -/
def limitN (nTokens : ℕ) (deadline : Option ℚ) : State :=
  let (made, l) := cfg.getLimiter s now
  if cfg.drop then
    let (bucket, ok) := l.bucket.allowN now nTokens
    ⟨made, some { l with bucket }, if ok then ⟨made, now, nTokens⟩ :: s.grants else s.grants⟩
  else if deadline.any (· ≤ now) ∨ cfg.burst < nTokens then ⟨made, some l, s.grants⟩
  else
    let (l, due) := l.reserveN now nTokens
    if deadline.any (· < due) then ⟨made, some (l.cancelAt now nTokens due), s.grants⟩
    else ⟨made, some l, ⟨made, due, nTokens⟩ :: s.grants⟩

def step (s : State) : Op → State
  | .limit now nTokens deadline => cfg.limitN s now nTokens deadline
  | .cancel now call =>
    match s.grants[call]? with
    | some g =>
      if now < g.time then
        { s with
          limiter := if g.limiter = s.made then s.limiter.map (·.cancelAt now g.tokens g.time) else s.limiter
          grants := s.grants.eraseIdx call }
      else s
    | none => s
  | .gc now => if s.limiter.any (·.lastAccess < ⌊now⌋ - 60) then { s with limiter := none } else s

def tokensIn (grants : List Grant) (a b : ℚ) : ℕ :=
  ((grants.filter fun g => a ≤ g.time ∧ g.time ≤ b).map Grant.tokens).sum

def Bounded : Prop := ∀ a b, a ≤ b → (tokensIn s.grants a b : ℚ) ≤ cfg.burst + cfg.limit * (b - a)

def level : ℚ := s.limiter.elim (cfg.burst : ℚ) (·.bucket.tokensAt now)

structure Metered : Prop where
  past : ∀ g ∈ s.grants, g.time ≤ now
  bucket : ∀ l ∈ s.limiter, l.bucket.limit = cfg.limit ∧ l.bucket.burst = cfg.burst ∧ 0 ≤ l.bucket.tokens ∧
    l.bucket.last ≤ now ∧ ⌊l.bucket.last⌋ ≤ l.lastAccess
  spent : ∀ a ≤ now, ∀ b, tokensIn s.grants a b + cfg.level s now ≤ cfg.burst + cfg.limit * (now - a)
  bounded : cfg.Bounded s

variable {cfg s now} {later : ℚ}

lemma tokensIn_cons (g : Grant) (gs : List Grant) (a b : ℚ) :
    tokensIn (g :: gs) a b = (if a ≤ g.time ∧ g.time ≤ b then g.tokens else 0) + tokensIn gs a b := by
  unfold tokensIn
  split_ifs with h <;> simp [h]

namespace Metered

lemma level_le (h : cfg.Metered s now) (hle : now ≤ later) :
    cfg.level s later ≤ cfg.level s now + cfg.limit * (later - now) := by
  unfold level
  cases hl : s.limiter with
  | none => simpa using mul_nonneg cfg.limit_pos.le (sub_nonneg.mpr hle)
  | some l =>
    have hb := h.bucket l hl
    have := tokensAt_le_add (b := l.bucket) (hb.1 ▸ cfg.limit_pos.le) hle
    rwa [hb.1] at this

lemma level_le_burst (h : cfg.Metered s now) (later : ℚ) : cfg.level s later ≤ cfg.burst := by
  unfold level
  cases hl : s.limiter with
  | none => exact le_refl _
  | some l => exact (h.bucket l hl).2.1 ▸ l.bucket.tokensAt_le_burst later

lemma wait (h : cfg.Metered s now) (hle : now ≤ later) : cfg.Metered s later where
  past g hg := (h.past g hg).trans hle
  bucket l hl := by
    obtain ⟨hli, hb, ht, hla, hf⟩ := h.bucket l hl
    exact ⟨hli, hb, ht, hla.trans hle, hf⟩
  spent a ha b := by
    rcases le_or_gt a now with han | han
    · have := h.spent a han b
      have := h.level_le hle
      linarith
    · have hz : tokensIn s.grants a b = 0 := by
        have : s.grants.filter (fun g => a ≤ g.time ∧ g.time ≤ b) = [] := by
          refine filter_eq_nil_iff.mpr fun g hg => ?_
          have := h.past g hg
          simp [not_le.mpr (this.trans_lt han)]
        rw [tokensIn, this]
        rfl
      have := h.level_le_burst later
      have := mul_nonneg cfg.limit_pos.le (sub_nonneg.mpr ha)
      rw [hz]
      push_cast
      linarith
  bounded := h.bounded

lemma start (now : ℚ) : cfg.Metered {} now where
  past := by simp
  bucket := by simp
  spent a ha b := by
    have := mul_nonneg cfg.limit_pos.le (sub_nonneg.mpr ha)
    simpa [tokensIn, level] using this
  bounded a b hab := by
    have := mul_nonneg cfg.limit_pos.le (sub_nonneg.mpr hab)
    simp only [tokensIn, filter_nil, map_nil, sum_nil]
    push_cast
    positivity

lemma getLimiter (h : cfg.Metered s now) : let l := (cfg.getLimiter s now).2
    l.bucket.limit = cfg.limit ∧ l.bucket.burst = cfg.burst ∧ 0 ≤ l.bucket.tokens ∧ l.bucket.last ≤ now ∧
      l.lastAccess = ⌊now⌋ ∧ l.bucket.tokensAt now = cfg.level s now := by
  unfold RateLimit.getLimiter level
  cases hl : s.limiter with
  | none => simp [tokensAt]
  | some l =>
    obtain ⟨hli, hb, ht, hla, -⟩ := h.bucket l hl
    exact ⟨hli, hb, ht, hla, rfl, rfl⟩

lemma limitN (h : cfg.Metered s now) (hd : cfg.drop = true) (nTokens : ℕ) (deadline : Option ℚ) :
    cfg.Metered (cfg.limitN s now nTokens deadline) now := by
  obtain ⟨hli, hb, ht, hla, hac, hle⟩ := h.getLimiter
  have hf : ∀ {last : ℚ}, last ≤ now → ⌊last⌋ ≤ (cfg.getLimiter s now).2.lastAccess := by
    intro last hl
    rw [hac]
    exact Int.floor_le_floor hl
  by_cases hc : nTokens ≤ cfg.burst ∧ nTokens ≤ cfg.level s now
  · simp only [RateLimit.limitN, hd, if_true, allowN, hle, hb, if_pos hc]
    have hin : ∀ a b, a ≤ now → (tokensIn s.grants a b : ℚ) + nTokens ≤ cfg.burst + cfg.limit * (now - a) := by
      intro a b ha
      linarith [h.spent a ha b, hc.2]
    refine ⟨?_, ?_, fun a ha b => ?_, fun a b hab => ?_⟩
    · simpa using h.past
    · simpa [hli, hb, hc.2] using hf (le_refl now)
    · rw [tokensIn_cons]
      have hlv : ∀ x : ℚ, min (cfg.burst : ℚ) (x + (cfg.getLimiter s now).2.bucket.limit * (now - min now now)) ≤ x :=
        fun x => (min_le_right _ _).trans (by simp)
      have := h.spent a ha b
      have := hlv (cfg.level s now - nTokens)
      dsimp only [level, Option.elim, tokensAt] at *
      split_ifs <;> push_cast <;> linarith
    · rw [tokensIn_cons]
      split_ifs with hg
      · have := hin a b hg.1
        have := mul_le_mul_of_nonneg_left (sub_le_sub_right hg.2 a) cfg.limit_pos.le
        push_cast
        linarith
      · simpa using h.bounded a b hab
  · simp only [RateLimit.limitN, hd, if_true, allowN, hle, hb, if_neg hc]
    refine ⟨h.past, ?_, fun a ha b => ?_, h.bounded⟩
    · simpa [hli, hb, ht, hla] using hf hla
    · have := h.spent a ha b
      rwa [← hle] at this

lemma gc (h : cfg.Metered s now) (hm : cfg.burst ≤ 60 * cfg.limit) : cfg.Metered (cfg.step s (.gc now)) now := by
  simp only [step]
  split_ifs with hc
  · obtain ⟨l, hl, hold⟩ := (Option.any_eq_true _ _).mp hc
    obtain ⟨hli, hb, ht, hla, hf⟩ := h.bucket l hl
    have hlast : l.bucket.last ≤ now - 60 := by
      have hz : ⌊l.bucket.last⌋ + 61 ≤ ⌊now⌋ := by
        have := of_decide_eq_true hold
        omega
      have : (⌊l.bucket.last⌋ : ℚ) + 61 ≤ ⌊now⌋ := by exact_mod_cast hz
      linarith [Int.lt_floor_add_one l.bucket.last, Int.floor_le now]
    have hfull : cfg.level s now = cfg.burst := by
      refine le_antisymm (h.level_le_burst now) ?_
      rw [level, show s.limiter = some l from hl, Option.elim, tokensAt, hb, hli, min_eq_left hla]
      refine le_min (le_refl _) ?_
      have : cfg.limit * 60 ≤ cfg.limit * (now - l.bucket.last) :=
        mul_le_mul_of_nonneg_left (by linarith) cfg.limit_pos.le
      linarith
    refine ⟨h.past, by simp, fun a ha b => ?_, h.bounded⟩
    have := h.spent a ha b
    rwa [hfull] at this
  · exact h

lemma step (hd : cfg.drop = true) (hm : cfg.burst ≤ 60 * cfg.limit) (h : cfg.Metered s now) {op : Op}
    (hle : now ≤ op.time) : cfg.Metered (cfg.step s op) op.time := by
  have h := h.wait hle
  cases op with
  | limit now nTokens deadline => exact h.limitN hd nTokens deadline
  | cancel now call =>
    simp only [RateLimit.step]
    split
    · next g hg =>
      -- no call waits
      have hle : g.time ≤ now := h.past g (mem_of_getElem? hg)
      rw [if_neg (not_lt.mpr hle)]
      exact h
    · exact h
  | gc now => exact h.gc hm

lemma run (hd : cfg.drop = true) (hm : cfg.burst ≤ 60 * cfg.limit) (h : cfg.Metered s now) {ops : List Op}
    (ho : (now :: ops.map Op.time).Pairwise (· ≤ ·)) : ∃ later, cfg.Metered (run cfg.step s ops) later := by
  induction ops generalizing s now with
  | nil => exact ⟨now, h⟩
  | cons op ops ih =>
    obtain ⟨hle, ho⟩ := pairwise_cons.mp ho
    exact ih (h.step hd hm (hle op.time mem_cons_self)) ho

end Metered

/-! ### Calls that wait -/

def waitingOn (cfg : RateLimit) (k : ℕ) (e : ℚ) : Limiter := ⟨⟨cfg.limit, cfg.burst, cfg.burst - k * cfg.burst, 0⟩, e, 0⟩

lemma step_waitingOn (hd : cfg.drop = false) {k : ℕ} {e : ℚ} {gs : List Grant} :
    cfg.step ⟨1, some (cfg.waitingOn k e), gs⟩ (.limit 0 cfg.burst none) =
      ⟨1, some (cfg.waitingOn (k + 1) (k * cfg.burst / cfg.limit)), ⟨1, k * cfg.burst / cfg.limit, cfg.burst⟩ :: gs⟩ := by
  have hk : (0 : ℚ) ≤ k * cfg.burst / cfg.limit := div_nonneg (by positivity) cfg.limit_pos.le
  have ht : min (cfg.burst : ℚ) (cfg.burst - k * cfg.burst) - cfg.burst = -(k * cfg.burst) := by
    rw [min_eq_right (by linarith [show (0 : ℚ) ≤ k * cfg.burst by positivity])]
    ring
  simp [RateLimit.step, limitN, getLimiter, hd, Limiter.reserveN, tokensAt, waitingOn, ht, max_eq_right hk]
  ring

lemma run_waiting (hd : cfg.drop = false) (k : ℕ) :
    ∃ e gs, run cfg.step {} (.limit 0 0 none :: replicate k (.limit 0 cfg.burst none)) =
      ⟨1, some (cfg.waitingOn k e), gs⟩ ∧
        ∀ b, 0 ≤ b → (k - 1) * cfg.burst ≤ b * cfg.limit → tokensIn gs 0 b = k * cfg.burst := by
  induction k with
  | zero =>
    refine ⟨0, [⟨1, 0, 0⟩], ?_, fun b hb _ => by simp [tokensIn, hb]⟩
    have hle : -(cfg.burst : ℚ) / cfg.limit ≤ 0 := div_nonpos_of_nonpos_of_nonneg (by simp) cfg.limit_pos.le
    simp [RateLimit.step, limitN, getLimiter, hd, Limiter.reserveN, tokensAt, waitingOn, hle]
  | succ k ih =>
    obtain ⟨e, gs, hr, hs⟩ := ih
    refine ⟨k * cfg.burst / cfg.limit, ⟨1, k * cfg.burst / cfg.limit, cfg.burst⟩ :: gs, ?_, fun b hb hk => ?_⟩
    · rw [replicate_succ', ← cons_append, run_append, hr]
      exact step_waitingOn hd
    · push_cast at hk
      have hle : k * cfg.burst / cfg.limit ≤ b := (div_le_iff₀ cfg.limit_pos).mpr (by linarith)
      have h0 : (0 : ℚ) ≤ k * cfg.burst / cfg.limit := div_nonneg (by positivity) cfg.limit_pos.le
      rw [tokensIn_cons, if_pos ⟨h0, hle⟩, hs b hb (by linarith [(Nat.cast_nonneg cfg.burst : (0 : ℚ) ≤ cfg.burst)])]
      ring

lemma waiting_mints (hd : cfg.drop = false) : ∃ ops : List Op, (ops.map Op.time).Pairwise (· ≤ ·) ∧
    ¬cfg.Bounded (run cfg.step {} ops) := by
  obtain ⟨k, hk⟩ := exists_nat_ge (61 * cfg.limit / cfg.burst)
  have hb : (0 : ℚ) < cfg.burst := by exact_mod_cast cfg.burst_pos
  have hk : 61 * cfg.limit ≤ k * cfg.burst := (div_le_iff₀ hb).mp hk
  obtain ⟨e, gs, hr, hs⟩ := run_waiting hd (k + 1)
  refine ⟨(.limit 0 0 none :: replicate (k + 1) (.limit 0 cfg.burst none)) ++ [.gc 61, .limit 61 cfg.burst none], ?_,
    fun h => ?_⟩
  · simp [pairwise_append, pairwise_replicate, Op.time]
  · have hle : 61 ≤ k * cfg.burst / cfg.limit := (le_div_iff₀ cfg.limit_pos).mpr hk
    have := h 0 (k * cfg.burst / cfg.limit) (by linarith)
    rw [run_append, hr] at this
    simp [RateLimit.step, limitN, getLimiter, hd, Limiter.reserveN, tokensAt, waitingOn, tokensIn_cons, hle] at this
    rw [hs _ (by linarith) (by simp [div_mul_cancel₀ _ cfg.limit_pos.ne'])] at this
    rw [mul_div_cancel₀ _ cfg.limit_pos.ne'] at this
    push_cast at this
    linarith

/-- **The rate bound** holds in all runs exactly if messages over the limit are dropped and the bucket fills in a
minute. -/
theorem rate_bounded_iff (cfg : RateLimit) :
    (∀ ops : List Op, (ops.map Op.time).Pairwise (· ≤ ·) → cfg.Bounded (run cfg.step {} ops)) ↔
      cfg.drop = true ∧ cfg.burst ≤ 60 * cfg.limit := by
  constructor
  · intro h
    have hd : cfg.drop = true := by
      by_contra hd
      obtain ⟨ops, ho, hn⟩ := waiting_mints (Bool.eq_false_iff.mpr hd)
      exact hn (h ops ho)
    refine ⟨hd, ?_⟩
    by_contra hm
    -- the bucket is emptied late in a second, and dropped as soon as it may be
    have hx : 0 < min 1 (cfg.burst / cfg.limit - 60) :=
      lt_min one_pos (sub_pos.mpr ((lt_div_iff₀ cfg.limit_pos).mpr (not_le.mp hm)))
    obtain ⟨d, hd0, hd1⟩ := exists_between hx
    obtain ⟨hd1, hlt⟩ := lt_min_iff.mp hd1
    have hlt : (60 + d) * cfg.limit < cfg.burst := (lt_div_iff₀ cfg.limit_pos).mp (by linarith)
    have hf : ⌊1 - d⌋ = 0 := Int.floor_eq_iff.mpr ⟨by push_cast; linarith, by push_cast; linarith⟩
    have := h [.limit (1 - d) cfg.burst none, .gc 61, .limit 61 cfg.burst none] (by simp [Op.time]; linarith) (1 - d) 61
      (by linarith)
    have hle : 1 ≤ 61 + d := by linarith
    simp [RateLimit.step, limitN, getLimiter, hd, TokenBucket.allowN, TokenBucket.tokensAt, hf, tokensIn, hle] at this
    linarith
  · rintro ⟨hd, hm⟩ ops ho
    cases ops with
    | nil => exact (Metered.start 0).bounded
    | cons op ops =>
      have h : cfg.Metered {} op.time := .start op.time
      obtain ⟨_, h⟩ := (h.step hd hm (le_refl op.time)).run hd hm ho
      exact h.bounded

/-- A burst of a hundred that fills in a hundred seconds: the bucket is dropped after a minute. -/
theorem dropped_bucket_mints :
    let cfg : RateLimit := ⟨1, 100, true, by decide, by decide⟩
    ¬cfg.Bounded (run cfg.step {} [.limit 0 100 none, .gc 61, .limit 61 100 none]) := by
  intro cfg h
  have := h 0 61 (by decide)
  revert this
  decide +kernel

end RateLimit

end Tenderdash.P2P
