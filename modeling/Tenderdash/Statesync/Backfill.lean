import Tenderdash.Statesync.Heights

/-!
The verify loop of `Reactor.backfill`: it takes the blocks from the queue in descending order, compares
the hash of each header with the one the header above names, and tells the queue what became of the
block. The peers that serve the fetchers may return any block of the height they are asked for.

The queue marks the last block of a run when the block comes in, before it is verified.
-/

namespace Tenderdash.Statesync

open Lib.Run Option

variable {η π ι ε : Type*} [DecidableEq ι] [DecidableEq π]

/-! ### How a call can change the end of a run -/

namespace BlockQueue

inductive EndMove (q q' : BlockQueue η π ι ε) : Op η π ι ε → Prop where
  | same {op} (hop : op ≠ .success) (h : SameEnd q q') : EndMove q q' op
  | marked {w l} (he : q.Ends l.block) (h : SameEnd { q with terminal := some l.block } q') :
    EndMove q q' (.add w l)
  | counted {op} (hop : op ≠ .success) (ho : q.doneCh = false)
    (h : SameEnd { q with retries := q.retries + 1 } q') : EndMove q q' op
  | spent {op} (hop : op ≠ .success) (hs : q.maxRetries ≤ q.retries + 1)
    (h : SameEnd { q with retries := q.retries + 1, doneCh := true } q') : EndMove q q' op
  | verified (h : SameEnd { q with
      verifyHeight := q.verifyHeight - 1
      doneCh := q.doneCh || decide (∃ t ∈ q.terminal, q.verifyHeight = t.height) } q') :
    EndMove q q' .success
  | failed {err} (h : SameEnd { q with terminalErr := q.terminalErr <|> some err, doneCh := true } q') :
    EndMove q q' (.fail err)
  | closed (h : SameEnd { q with doneCh := true } q') : EndMove q q' .close

omit [DecidableEq ι] [DecidableEq π] in
lemma endMove_retry {q p : BlockQueue η π ι ε} {op : Op η π ι ε} (hop : op ≠ .success)
    (hp : SameEnd q p) (height : ℤ) : EndMove q (p.retry height) op := by
  rcases hd : q.doneCh with _ | _
  · rcases retry_cases p height with h | h | ⟨hs, h⟩
    · exact .same hop (hp.trans h)
    · refine .counted hop hd (SameEnd.trans ?_ h)
      exact { hp with retries := by simp [hp.retries] }
    · rw [hp.maxRetries, hp.retries] at hs
      refine .spent hop hs (SameEnd.trans ?_ h)
      exact { hp with doneCh := rfl, retries := by simp [hp.retries] }
  · have hsa : p.retry height = p := by simp [retry, hp.doneCh, hd]
    rw [hsa]
    exact .same hop hp

lemma endMove_step (q : BlockQueue η π ι ε) (op : Op η π ι ε) : EndMove q (q.step op) op := by
  have hb : ∀ w height, SameEnd q (q.giveBack w height) := fun w height => .rest
  have hr : SameEnd q q.release := .rest
  cases op with
  | nextHeight w => exact .same (by simp) (sameEnd_nextHeight q w)
  | add w l =>
    rcases add_cases (q.giveBack w l.block.height) l with h | ⟨he, h⟩
    · exact .same (by simp) ((hb w _).trans h)
    exact .marked he { h with }
  | retry w height => exact endMove_retry (by simp) (hb w height) height
  | requeue w height => exact .same (by simp) ((hb w height).trans (sameEnd_requeue _ height))
  | discardPeer order peer => exact .same (by simp) (sameEnd_discardPeer q order peer)
  | verifyNext => exact .same (by simp) (sameEnd_verifyNext q)
  | success =>
    have h := success_sameEnd q.release
    exact .verified { h with }
  | rejected =>
    unfold step
    cases q.underVerification with
    | none => exact .same (by simp) (SameEnd.refl q)
    | some height => exact endMove_retry (by simp) hr height
  | refused =>
    unfold step
    cases q.underVerification with
    | none => exact .same (by simp) (SameEnd.refl q)
    | some height => exact .same (by simp) (hr.trans (sameEnd_requeue _ height))
  | fail err =>
    change EndMove q (q.fail err) _
    unfold fail
    split
    · exact .same (by simp) (SameEnd.refl q)
    · exact .failed (SameEnd.refl _)
  | close => exact .closed (SameEnd.refl _)

omit [DecidableEq ι] [DecidableEq π] in
lemma error_isSome_iff (q : BlockQueue η π ι ε) : q.error.isSome ↔ q.terminalErr.isSome ∨ q.maxRetries ≤ q.retries := by
  unfold error
  cases q.terminalErr with
  | some err => simp
  | none =>
    split <;> simp_all

omit [DecidableEq ι] [DecidableEq π] in
lemma SameEnd.error_isSome {q q' : BlockQueue η π ι ε} (h : SameEnd q q') : q'.error.isSome ↔ q.error.isSome := by
  rw [error_isSome_iff, error_isSome_iff, h.terminalErr, h.maxRetries, h.retries]

lemma error_step {q : BlockQueue η π ι ε} (her : q.error.isSome) (op : Op η π ι ε) : (q.step op).error.isSome := by
  have hq := (error_isSome_iff q).mp her
  have hm := endMove_step q op
  generalize q.step op = q' at hm ⊢
  cases hm with
  | same _ h | marked _ h | verified h | closed h =>
    exact h.error_isSome.mpr ((error_isSome_iff _).mpr hq)
  | counted _ _ h | spent _ _ h =>
    refine h.error_isSome.mpr ((error_isSome_iff _).mpr (hq.imp_right fun hle => ?_))
    exact hle.trans (by simp)
  | failed h =>
    refine h.error_isSome.mpr ((error_isSome_iff _).mpr (hq.imp_left fun hs => ?_))
    simp only [isSome_iff_exists] at hs
    obtain ⟨e, he⟩ := hs
    simp [he]

lemma ends_step (q : BlockQueue η π ι ε) (op : Op η π ι ε) (b : LightBlock η) : (q.step op).Ends b ↔ q.Ends b := by
  have hm := endMove_step q op
  generalize q.step op = q' at hm ⊢
  cases hm with
  | same _ h | marked _ h | verified h | closed h | counted _ _ h | spent _ _ h | failed h =>
    rw [Ends, h.stopHeight, h.stopTime, h.initialHeight, Ends]

omit [DecidableEq ι] [DecidableEq π] in
lemma verifying_allocate {q q' : BlockQueue η π ι ε} {height : ℤ}
    (h : q.allocate = some (height, q')) : q'.verifying = q.verifying := by
  rcases allocate_cases h with ⟨heap, -, rfl⟩ | ⟨-, -, -, -, -, rfl⟩ <;> rfl

omit [DecidableEq ι] [DecidableEq π] in
lemma verifying_resume (ws : List ι) (q : BlockQueue η π ι ε) : (q.resume ws).verifying = q.verifying := by
  induction ws generalizing q with
  | nil => rfl
  | cons w ws ih =>
    unfold resume
    split
    · rfl
    rename_i height q' ha
    have ht := verifying_allocate ha
    rw [ih]
    exact ht

omit [DecidableEq ι] [DecidableEq π] in
lemma verifying_success (q : BlockQueue η π ι ε) : q.success.verifying = q.verifying := by
  unfold success resumeFetchers
  rw [verifying_resume]
  split <;> rfl

lemma verifying_step_of_done {q : BlockQueue η π ι ε} (hd : q.doneCh = true) (hi : q.verifying = none)
    {op : Op η π ι ε} (hop : q.Disciplined op) : (q.step op).verifying = none := by
  cases op with
  | nextHeight w =>
    change (q.nextHeight w).verifying = none
    unfold nextHeight
    split
    · rename_i height q' ha
      exact (verifying_allocate ha).trans hi
    · exact hi
  | add w l => simpa [step, add, giveBack, hd] using hi
  | retry w height => simpa [step, retry, giveBack, hd] using hi
  | requeue w height => simpa [step, requeue, giveBack, hd] using hi
  | discardPeer order peer => simpa [step, discardPeer, hd] using hi
  | verifyNext => simpa [step, verifyNext, hd] using hi
  | success | rejected | refused => simp [Disciplined, hi] at hop
  | fail err => simpa [step, fail, hd] using hi
  | close => exact hi

end BlockQueue

/-! ### The verify loop -/

structure Backfill (η π ι ε : Type*) where
  queue : BlockQueue η π ι ε
  trustedBlockID : η
  accepted : Option (LightBlock η)

namespace Backfill

open BlockQueue

def start (queue : BlockQueue η π ι ε) (trustedBlockID : η) : Backfill η π ι ε :=
  ⟨queue, trustedBlockID, none⟩

/-- A call to the queue. The loop calls `success` for a block it has stored, and trusts the header below
from then on. -/
def step (s : Backfill η π ι ε) (op : Op η π ι ε) : Backfill η π ι ε :=
  match op, s.queue.verifying with
  | .success, some l => ⟨s.queue.step .success, l.block.lastBlockID, some l.block⟩
  | op, _ => { s with queue := s.queue.step op }

/-- The calls of the loop: a block whose header is not the trusted one is rejected, any other one is
refused for its commit or accepted. -/
def Loop (hash : LightBlock η → η) (s : Backfill η π ι ε) (op : Op η π ι ε) : Prop :=
  s.queue.Disciplined op ∧
    match op with
    | .rejected => ∀ l ∈ s.queue.verifying, hash l.block ≠ s.trustedBlockID
    | .refused | .success => ∀ l ∈ s.queue.verifying, hash l.block = s.trustedBlockID
    | _ => True

instance [DecidableEq η] (hash : LightBlock η → η) (s : Backfill η π ι ε) (op : Op η π ι ε) :
    Decidable (Loop hash s op) :=
  match op with
  | .rejected | .refused | .success => inferInstanceAs (Decidable (_ ∧ ∀ l ∈ s.queue.verifying, _))
  | .nextHeight _ | .add .. | .retry .. | .requeue .. | .discardPeer .. | .verifyNext | .fail _ | .close =>
    inferInstanceAs (Decidable (_ ∧ True))

def Undisturbed (chain : ℤ → LightBlock η) (s : Backfill η π ι ε) : Op η π ι ε → Prop
  | .add _ l => s.queue.Ends l.block → l.block = chain l.block.height
  | .close => False
  | _ => True

instance [DecidableEq η] (chain : ℤ → LightBlock η) (s : Backfill η π ι ε) (op : Op η π ι ε) :
    Decidable (Undisturbed chain s op) :=
  match op with
  | .add .. => inferInstanceAs (Decidable (_ → _))
  | .close => inferInstanceAs (Decidable False)
  | .nextHeight _ | .retry .. | .requeue .. | .discardPeer .. | .verifyNext | .success | .rejected | .refused
  | .fail _ => inferInstanceAs (Decidable True)

def Linked (hash : LightBlock η → η) (chain : ℤ → LightBlock η) : Prop :=
  ∀ h, (chain h).lastBlockID = hash (chain (h - 1))

structure OnChain (hash : LightBlock η → η) (chain : ℤ → LightBlock η) (s : Backfill η π ι ε) : Prop where
  conserves : s.queue.doneCh = false → Conserves none s.queue
  trusted : s.queue.doneCh = false → s.trustedBlockID = hash (chain s.queue.verifyHeight)
  mark : ∀ t ∈ s.queue.terminal, s.queue.Ends t ∧ t = chain t.height
  ended : s.queue.doneCh = true → s.queue.error.isSome ∨
    s.queue.verifying = none ∧ ∃ b ∈ s.accepted, s.queue.Ends b

lemma queue_step (s : Backfill η π ι ε) (op : Op η π ι ε) : (s.step op).queue = s.queue.step op := by
  unfold step
  split <;> rfl

variable {op : Op η π ι ε} {s : Backfill η π ι ε} {hash : LightBlock η → η} {chain : ℤ → LightBlock η}
  {l : LightBlockResponse η π}

lemma step_of_ne_success (s : Backfill η π ι ε) (hop : op ≠ .success) :
    s.step op = { s with queue := s.queue.step op } := by
  unfold step
  split
  · exact absurd rfl hop
  · rfl

lemma step_success (hl : s.queue.verifying = some l) :
    s.step .success = ⟨s.queue.step .success, l.block.lastBlockID, some l.block⟩ := by simp [step, hl]

omit [DecidableEq ι] [DecidableEq π] in
lemma OnChain.eq_chain (hha : Function.Injective hash) (hs : OnChain hash chain s) (ho : s.queue.doneCh = false) (hl : s.queue.verifying = some l) (ha : hash l.block = s.trustedBlockID) :
    l.block.height = s.queue.verifyHeight ∧ l.block = chain s.queue.verifyHeight := by
  have hh : s.queue.underVerification = some l.block.height := by rw [underVerification, hl, map_some]
  exact ⟨((hs.conserves ho).verifier _ hh).1, hha (ha.trans (hs.trusted ho))⟩

lemma OnChain.step_open (hh : Function.Injective hash) (hch : Linked hash chain)
    (hs : OnChain hash chain s) (hop : Loop hash s op) (hca : Undisturbed chain s op)
    (ho : s.queue.doneCh = false) : OnChain hash chain (s.step op) := by
  have hc : (s.step op).queue.doneCh = false → Conserves none (s.step op).queue := by
    rw [queue_step]
    exact (hs.conserves ho).step hop.1
  have he : ∀ b, (s.step op).queue.Ends b ↔ s.queue.Ends b := by
    intro b
    rw [queue_step]
    exact ends_step s.queue op b
  have hmo := endMove_step s.queue op
  rw [← queue_step] at hmo
  have hm : ∀ t ∈ s.queue.terminal, (s.step op).queue.Ends t ∧ t = chain t.height :=
    fun t ht => ⟨(he t).mpr (hs.mark t ht).1, (hs.mark t ht).2⟩
  have htr : op ≠ .success → (s.step op).trustedBlockID = s.trustedBlockID := fun hne => by
    rw [step_of_ne_success s hne]
  -- all moves but one leave the loop where it is; those that close the queue leave an error
  cases hmo with
  | same hne h | counted hne _ h =>
    refine ⟨hc, fun _ => ?_, fun t ht => ?_, fun hd => ?_⟩
    · rw [htr hne, h.verifyHeight]
      exact hs.trusted ho
    · exact hm t (h.terminal ▸ ht)
    · simp [h.doneCh, ho] at hd
  | marked hla h =>
    refine ⟨hc, fun _ => ?_, fun t ht => ?_, fun hd => ?_⟩
    · rw [htr (by simp), h.verifyHeight]
      exact hs.trusted ho
    · rw [h.terminal] at ht
      obtain rfl := some.inj ht
      exact ⟨(he _).mpr hla, hca hla⟩
    · simp [h.doneCh, ho] at hd
  | spent hne hsp h =>
    refine ⟨hc, fun hd => ?_, fun t ht => ?_, fun _ => ?_⟩
    · simp [h.doneCh] at hd
    · exact hm t (h.terminal ▸ ht)
    · exact .inl (h.error_isSome.mpr ((error_isSome_iff _).mpr (.inr hsp)))
  | verified h =>
    obtain ⟨l, hl⟩ := isSome_iff_exists.mp hop.1
    obtain ⟨hhe, hb⟩ := hs.eq_chain hh ho hl (hop.2 l hl)
    refine ⟨hc, fun _ => ?_, fun t ht => ?_, fun hd => ?_⟩
    · rw [h.verifyHeight, step_success hl]
      change l.block.lastBlockID = hash (chain (s.queue.verifyHeight - 1))
      rw [hb, hch]
    · exact hm t (h.terminal ▸ ht)
    simp only [h.doneCh, ho, Bool.false_or, decide_eq_true_eq] at hd
    obtain ⟨t, ht, hla⟩ := hd
    have hsa : t = l.block := by rw [(hs.mark t ht).2, ← hla, hb]
    refine .inr ⟨?_, l.block, by rw [step_success hl]; rfl, (he _).mpr (hsa ▸ (hs.mark t ht).1)⟩
    rw [step_success hl]
    exact verifying_success s.queue.release
  | failed h =>
    refine ⟨hc, fun hd => ?_, fun t ht => ?_, fun _ => ?_⟩
    · simp [h.doneCh] at hd
    · exact hm t (h.terminal ▸ ht)
    refine .inl (h.error_isSome.mpr ((error_isSome_iff _).mpr (.inl ?_)))
    cases s.queue.terminalErr <;> rfl
  | closed h => exact hca.elim

lemma OnChain.step_done (hs : OnChain hash chain s) (hop : Loop hash s op) (hd : s.queue.doneCh = true)
    (hm : ∀ t ∈ (s.step op).queue.terminal, (s.step op).queue.Ends t ∧ t = chain t.height) :
    OnChain hash chain (s.step op) := by
  have hst : (s.step op).queue.doneCh = true := by
    rw [queue_step]
    exact doneCh_step hd op
  refine ⟨fun ho => ?_, fun ho => ?_, hm, fun _ => ?_⟩
  · simp [hst] at ho
  · simp [hst] at ho
  rcases hs.ended hd with her | ⟨hi, b, hb, he⟩
  · left
    rw [queue_step]
    exact error_step her op
  right
  have hne : op ≠ .success := by
    rintro rfl
    simpa [Disciplined, hi] using hop.1
  rw [step_of_ne_success s hne]
  exact ⟨verifying_step_of_done hd hi hop.1, b, hb, (ends_step s.queue op b).mpr he⟩

lemma OnChain.step (hh : Function.Injective hash) (hch : Linked hash chain) (hs : OnChain hash chain s)
    (hop : Loop hash s op) (hc : Undisturbed chain s op) : OnChain hash chain (s.step op) := by
  rcases hd : s.queue.doneCh with _ | _
  · exact hs.step_open hh hch hop hc hd
  refine hs.step_done hop hd fun t ht => ?_
  -- a done queue marks nothing, and what it had marked is on the chain
  rw [queue_step] at ht ⊢
  rw [ends_step]
  have hm := endMove_step s.queue op
  generalize s.queue.step op = q' at hm ht
  cases hm with
  | same _ h | verified h | counted _ _ h | spent _ _ h | failed h | closed h =>
    exact hs.mark t (h.terminal ▸ ht)
  | marked hl h =>
    rw [h.terminal] at ht
    obtain rfl := some.inj ht
    exact ⟨hl, hc hl⟩

/-- **Backfill never stops early**, where every block that passes the test for the last block when it
comes in is the chain's block of its height, and nobody interrupts the run. Whenever the queue is done
without an error, the last block the loop accepted has the initial height, or lies at or below the stop
height and before the stop time. -/
theorem backfill_ends (hash : LightBlock η → η) (hhash : Function.Injective hash)
    (chain : ℤ → LightBlock η) (hchain : Linked hash chain)
    (startHeight stopHeight initialHeight stopTime maxRetries maxFetchAhead : ℤ)
    (s : Backfill η π ι ε)
    (hstart : s = start (newBlockQueue startHeight stopHeight initialHeight stopTime maxRetries
      maxFetchAhead) (hash (chain startHeight)))
    (ops : List (Op η π ι ε)) (hrun : Admitted step (Loop hash) s ops)
    (hcalm : Admitted step (Undisturbed chain) s ops)
    (hdone : (run step s ops).queue.doneCh = true) (herr : (run step s ops).queue.error = none) :
    ∃ b ∈ (run step s ops).accepted, b.height = initialHeight ∨ b.height ≤ stopHeight ∧ b.time < stopTime := by
  have hi : OnChain hash chain s ∧
      ∀ b, s.queue.Ends b ↔ b.height ≤ stopHeight ∧ b.time < stopTime ∨ b.height = initialHeight := by
    subst hstart
    refine ⟨⟨fun _ => conserves_new .., fun _ => rfl, fun t ht => ?_, fun hdone => ?_⟩, fun b => Iff.rfl⟩
    · simp [start, newBlockQueue] at ht
    · simp [start, newBlockQueue] at hdone
  have he := (hrun.and hcalm).invariant
    (P := fun s => OnChain hash chain s ∧
      ∀ b, s.queue.Ends b ↔ b.height ≤ stopHeight ∧ b.time < stopTime ∨ b.height = initialHeight)
    (fun s op hs hop => ⟨hs.1.step hhash hchain hop.1 hop.2, fun b => by
      rw [queue_step, ends_step]; exact hs.2 b⟩) hi
  rcases he.1.ended hdone with he' | ⟨-, b, hb, hen⟩
  · simp [herr] at he'
  · exact ⟨b, hb, ((he.2 b).mp hen).symm⟩

/-! ### A run that a forged block ends -/

/-- Hashes without collisions, in which the headers of one chain have short names. -/
inductive Digest where
  | chain (height : ℤ)
  | other (height time : ℤ) (lastBlockID : Digest)
  deriving DecidableEq, Repr

def sampleChain (height : ℤ) : LightBlock Digest := ⟨height, 100 * height, .chain (height - 1)⟩

def digest (b : LightBlock Digest) : Digest :=
  if b = sampleChain b.height then .chain b.height else .other b.height b.time b.lastBlockID

lemma digest_injective : Function.Injective digest := by
  rintro ⟨height, time, last⟩ ⟨height', time', last'⟩ heq
  unfold digest at heq
  split at heq <;> split at heq
  · rename_i hb hb'
    simp only [Digest.chain.injEq] at heq
    subst heq
    exact hb.trans hb'.symm
  · simp at heq
  · simp at heq
  · simpa using heq

lemma linked_sampleChain : Linked digest sampleChain := fun h => by
  simp [digest, sampleChain]

def fromThree : Backfill Digest ℕ ℕ ℕ :=
  start (newBlockQueue 3 2 1 150 10 8) (digest (sampleChain 3))

def honest (height : ℤ) : LightBlockResponse Digest ℕ := ⟨sampleChain height, 1, 1⟩

def forged : LightBlockResponse Digest ℕ := ⟨⟨2, 50, .chain 1⟩, 2, 2⟩

def forgedRun : List (Op Digest ℕ ℕ ℕ) :=
  [.nextHeight 0, .nextHeight 1, .add 0 (honest 3), .add 1 forged, .verifyNext, .success, .verifyNext,
    .rejected, .nextHeight 0, .add 0 (honest 2), .verifyNext, .success]

/-- The run ends at height 2, whose block is from second 200: the mark of the rejected block was never
taken back. -/
theorem forged_time_ends_backfill :
    Admitted step (Loop digest) fromThree forgedRun ∧
      (run step fromThree forgedRun).queue.doneCh = true ∧
      (run step fromThree forgedRun).queue.error = none ∧
      (run step fromThree forgedRun).accepted = some (sampleChain 2) ∧
      (sampleChain 2).height ≠ 1 ∧ ¬ (sampleChain 2).time < 150 := by
  decide +kernel

def honestRun : List (Op Digest ℕ ℕ ℕ) :=
  [.nextHeight 0, .nextHeight 1, .nextHeight 2, .add 2 (honest 1), .add 1 (honest 2), .add 0 (honest 3),
    .verifyNext, .success, .verifyNext, .success, .verifyNext, .success]

theorem honestRun_ends : ∃ b ∈ (run step fromThree honestRun).accepted, b.height = 1 ∨ b.height ≤ 2 ∧ b.time < 150 :=
  backfill_ends digest digest_injective sampleChain linked_sampleChain 3 2 1 150 10 8 fromThree rfl
    honestRun (by decide +kernel) (by decide +kernel) (by decide +kernel) (by decide +kernel)

end Backfill

end Tenderdash.Statesync
