import Tenderdash.Consensus.ParkedCommits

/-!
How often commits can have a block processed again. A commit of another round takes the application away from the
round the node is in, and the next precommit takes it back. A commit that is rejected teaches the node what its round
expects, so that the next one with other extensions is refused before the block is processed for it.

What the checks and the returns may still cost is bounded by `owed`: two calls for each round that nothing is known
about, and one if the application is away from the round of the node.
-/

namespace Tenderdash

open Lib Go Run List Option

def Output.isProcess : Output → Bool
  | .processProposal .. => true
  | _ => false

def executions (outputs : List Output) : ℕ := outputs.countP Output.isProcess

lemma executions_eq_zero {outputs : List Output} (h : ∀ o ∈ outputs, o.passing = true) : executions outputs = 0 := by
  refine countP_eq_zero.mpr fun o ho => ?_
  have hp := h o ho
  cases o <;> first | exact Bool.false_ne_true | cases hp

structure World.Accepts (W : World) (block : Block) (shape : ℤ → ℤ × Bytes → List (Option VoteExtensionProto)) :
    Prop where
  answers : W.Answers
  processes : W.Processes block
  validates : ∀ n state round, W.validateBlock n state (StateData.answerFor block round) block = true
  contract : W.KeepsContract shape

/-! ### What is known of a round -/

namespace CommitExpectations

variable {e : CommitExpectations} {commit : Commit} {height round : ℤ} {key : Bytes}
  (extensions : List (Option VoteExtensionProto))

def knows (e : CommitExpectations) (height : ℤ) (key : Bytes) (round : ℤ) : Bool :=
  height = e.height ∧ (e.byRound (round, key)).isSome

lemma knows_commit (e : CommitExpectations) (commit : Commit) :
    e.knows commit.height commit.blockID.key commit.round = (e.lookup commit).isSome := by
  unfold knows lookup
  by_cases hh : commit.height = e.height <;> simp [hh, roundBlock]

lemma knows_learn : (e.learn commit extensions).knows commit.height commit.blockID.key commit.round = true := by
  rw [knows_commit]
  unfold learn store lookup
  split_ifs <;> simp_all

lemma knows_learn_of_knows (h : e.knows commit.height key round = true)
    : (e.learn commit extensions).knows commit.height key round = true := by
  unfold knows at h
  rw [decide_eq_true_eq] at h
  unfold learn store knows
  rw [if_neg (not_not.mpr h.1)]
  simp only [decide_eq_true_eq]
  refine ⟨h.1, ?_⟩
  by_cases hs : (round, key) = roundBlock commit
  · rw [hs, Function.update_self]
    rfl
  rw [Function.update_of_ne hs]
  exact h.2

def unknown (e : CommitExpectations) (height : ℤ) (key : Bytes) (rounds : Finset ℤ) : Finset ℤ :=
  rounds.filter fun round => e.knows height key round = false

lemma unknown_subset {e' : CommitExpectations} {rounds : Finset ℤ}
    (h : ∀ round, e.knows height key round = true → e'.knows height key round = true) :
    e'.unknown height key rounds ⊆ e.unknown height key rounds := by
  intro round hr
  obtain ⟨hm, hn⟩ := Finset.mem_filter.mp hr
  refine Finset.mem_filter.mpr ⟨hm, Bool.eq_false_iff.mpr fun hk => ?_⟩
  rw [h round hk] at hn
  cases hn

end CommitExpectations

namespace StateData

open CommitExpectations

variable {W : World} {sd sd' : StateData} {block : Block} {commit : Commit}
  {shape : ℤ → ℤ × Bytes → List (Option VoteExtensionProto)} {result : Except ConsensusError Unit} {vote : Vote}

/-! ### One return -/

def away (sd : StateData) : Bool :=
  sd.currentRoundState.round ≠ sd.round ∧ sd.processedFor sd.currentRoundState.round

lemma away_eq_false_of_processedFor (h : sd.processedFor sd.round = true) : sd.away = false := by
  obtain ⟨-, -, hr, -⟩ := processedFor_spec h
  simp [away, hr]

lemma ensureProcess_frame {round : ℤ} (h : sd.ensureProcess W round = (sd', result)) :
    sd'.round = sd.round ∧ sd'.height = sd.height ∧ sd'.expectations = sd.expectations := by
  unfold ensureProcess at h
  split at h
  · cases h
    exact ⟨rfl, rfl, rfl⟩
  split at h
  · cases h
    exact ⟨rfl, rfl, rfl⟩
  · split at h <;> cases h <;> exact ⟨rfl, rfl, rfl⟩

lemma ensureOwnRound_pays (hW : W.Accepts block shape) (hheld : sd.proposalBlock = some block)
    (h : sd.ensureOwnRound W = (sd', result)) : sd' = sd ∨
      (sd.away = true ∧ sd'.away = false ∧ sd'.proposalBlock = some block ∧ sd'.round = sd.round ∧
        sd'.height = sd.height ∧ sd'.expectations = sd.expectations ∧
        sd'.outputs = sd.outputs ++ [.processProposal block sd.round true]) := by
  unfold ensureOwnRound at h
  dsimp only at h
  split at h
  · cases h
    exact .inl rfl
  split at h
  · cases h
    exact .inl rfl
  next hc =>
  simp only [not_or, Bool.not_eq_false] at hc
  obtain ⟨hr, hp, -⟩ := hc
  obtain ⟨-, hn, hID⟩ := (processedFor_eq_true hheld).mp hp
  obtain ⟨-, hd, hs | ⟨-, ho⟩⟩ := ensureProcess_once hW.answers hheld hW.processes (hID ▸ hn) h
  · exact .inl hs.2
  obtain ⟨hsl, -⟩ := ensureProcess_slots h
  obtain ⟨hr', hh, he⟩ := ensureProcess_frame h
  refine .inr ⟨by simp [away, hr, hp], away_eq_false_of_processedFor ?_, hsl.trans hheld, hr', hh, he, ho⟩
  rw [hr']
  exact hd

/-! ### One check -/

lemma verifyCommitExtensions_learns (hc : W.KeepsContract shape) (hsound : sd.expectations.Sound shape) (hv : commit.getCanonicalVote = .ok vote) (hp : sd.processedFor commit.round = true)
    {e : ConsensusError} (h : sd.verifyCommitExtensions W commit = .ok (sd', .error e)) :
    sd'.expectations.knows commit.height commit.blockID.key commit.round = true ∧
      ∀ key round, sd.expectations.knows commit.height key round = true →
        sd'.expectations.knows commit.height key round = true := by
  obtain ⟨hi, -⟩ := verifyCommitExtensions_iff hsound hc h
  have hn : ¬ Fits shape commit := fun hf => absurd (hi.mpr ⟨⟨vote, hv⟩, hf⟩) nofun
  unfold verifyCommitExtensions at h
  split at h
  · next hr =>
    obtain ⟨exp, hlo, hr⟩ := (any_eq_true _ _).mp hr
    simp [(hsound commit exp hlo).2] at hr
  obtain ⟨settled, hs, h⟩ := of_bind h
  obtain rfl := Except.ok.inj ((settle_eq_ok_ok.mpr hv).symm.trans hs)
  obtain ⟨ok, -, h⟩ := of_bind h
  split at h
  · cases h
  obtain ⟨sd₁, hl, h⟩ := of_bind h
  cases h
  have hs₁ : sd₁.expectations.Sound shape := by
    refine learnExpectation_sound ?_ hc hl
    exact hsound
  -- what is known does not fit, so nothing else is remembered
  have hsa : (sd₁.rememberRejection commit).expectations = sd₁.expectations := by
    unfold rememberRejection
    split
    · next exp hlo => rw [if_neg fun hok => hn ((fits_iff hs₁ hlo).mp hok)]
    · rfl
  rw [hsa]
  unfold learnExpectation at hl
  split at hl
  · next exp hlo =>
    cases hl
    refine ⟨?_, fun _ _ hk => hk⟩
    rw [knows_commit, hlo]
    rfl
  · rw [if_pos (show (sd.emit _).processedFor commit.round = true from hp)] at hl
    obtain ⟨⟨sd₂, extensions⟩, he, hl⟩ := of_bind hl
    obtain ⟨_, -, he⟩ := of_bind he
    cases he
    cases hl
    exact ⟨knows_learn _, fun _ _ => knows_learn_of_knows _⟩

lemma verifyProcessedCommit_pays (hW : W.Accepts block shape) (hsound : sd.expectations.Sound shape)
    (hheld : sd.proposalBlock = some block) (hv : commit.getCanonicalVote = .ok vote)
    (hc : sd.verifyCommitBlock commit = .ok true) (h : sd.verifyProcessedCommit W commit = .ok (sd', result)) :
    sd'.proposalBlock = some block ∧ sd'.round = sd.round ∧ sd'.height = sd.height ∧
      sd'.expectations.Sound shape ∧ ∃ more, sd'.outputs = sd.outputs ++ more ∧ executions more ≤ 1 ∧
      (result ≠ .ok () → (∀ key round, sd.expectations.knows commit.height key round = true →
        sd'.expectations.knows commit.height key round = true) ∧
        ((executions more = 0 ∧ sd'.away = sd.away) ∨
          (sd.expectations.knows commit.height commit.blockID.key commit.round = false ∧
            sd'.expectations.knows commit.height commit.blockID.key commit.round = true))) := by
  unfold verifyProcessedCommit at h
  split at h
  · cases h
    exact ⟨hheld, rfl, rfl, hsound, [], by rw [append_nil], Nat.zero_le 1, fun _ => ⟨fun _ _ hk => hk, .inl ⟨rfl, rfl⟩⟩⟩
  next hp =>
  rcases hpc : sd.ensureProcess W commit.round with ⟨sd₁, processed⟩
  obtain ⟨rfl, hd, hca⟩ := ensureProcess_once hW.answers hheld hW.processes (blockID_ne_nil hheld hc) hpc
  obtain ⟨hs, -⟩ := ensureProcess_slots hpc
  obtain ⟨hro, hh, he⟩ := ensureProcess_frame hpc
  have hh₁ : sd₁.proposalBlock = some block := hs.trans hheld
  have hs₁ : sd₁.expectations.Sound shape := he ▸ hsound
  have hva : sd₁.validate W = .ok true := by
    unfold validate
    rw [hh₁, ((processedFor_eq_true hh₁).mp hd).1]
    exact congrArg Except.ok (hW.validates ..)
  rw [hpc] at h
  dsimp only at h
  rw [hva] at h
  have h : sd₁.verifyCommitExtensions W commit = .ok (sd', result) := h
  obtain ⟨hi, hs'⟩ := verifyCommitExtensions_iff hs₁ hW.contract h
  have ha := verifyCommitExtensions_asks h
  have haw : sd'.away = sd₁.away := by
    have hpr := ha.processedFor
    obtain ⟨_, _, -, rfl⟩ := ha
    unfold away
    rw [hpr]
  have hl : result ≠ .ok () →
      sd'.expectations.knows commit.height commit.blockID.key commit.round = true ∧
        ∀ key round, sd₁.expectations.knows commit.height key round = true →
          sd'.expectations.knows commit.height key round = true := by
    intro hr
    cases result with
    | ok _ => exact absurd rfl hr
    | error e => exact verifyCommitExtensions_learns hW.contract hs₁ hv hd h
  obtain ⟨_, asked, hpa, rfl⟩ := ha
  rw [he] at hl
  rcases hca with ⟨-, rfl⟩ | ⟨hn, ho⟩
  · refine ⟨hheld, hro, hh, hs', asked, rfl, ?_, fun hr =>
      ⟨(hl hr).2, .inl ⟨executions_eq_zero hpa, haw⟩⟩⟩
    rw [executions_eq_zero hpa]
    exact Nat.zero_le 1
  refine ⟨hh₁, hro, hh, hs', .processProposal block commit.round true :: asked, ?_, ?_,
    fun hr => ⟨(hl hr).2, .inr ⟨?_, (hl hr).1⟩⟩⟩
  · show sd₁.outputs ++ asked = _
    rw [ho, append_assoc]
    rfl
  · show executions ([_] ++ asked) ≤ 1
    unfold executions
    rw [countP_append, show asked.countP Output.isProcess = 0 from executions_eq_zero hpa]
    exact le_refl 1
  -- a commit that fits what is known would have been accepted
  rw [knows_commit]
  unfold refuseUnprocessedCommit at hp
  rw [if_neg (by rw [hn]; nofun)] at hp
  split at hp
  · next hlo => rw [hlo]; rfl
  next exp hlo =>
  split at hp
  · cases hp
  next hf =>
  simp only [not_or, Bool.not_eq_false] at hf
  exact absurd (hi.mpr ⟨⟨vote, hv⟩, (fits_iff hsound hlo).mp hf.1⟩) hr

/-! ### A whole period -/

/-- The node goes on holding the block in its round and learns nothing of the application, which whatever else it
does can take back to the round but not away from it. -/
structure Stays (sd sd' : StateData) : Prop where
  height : sd'.height = sd.height
  round : sd'.round = sd.round
  block : sd'.proposalBlock = sd.proposalBlock
  expectations : sd'.expectations = sd.expectations
  record : sd'.away = true → sd.away = true

structure Stream where
  block : Block
  blockID : BlockID
  shape : ℤ → ℤ × Bytes → List (Option VoteExtensionProto)
  rounds : Finset ℤ

structure Checks (cfg : Config) (s : Stream) (sd : StateData) (commit : Commit) : Prop where
  blockID : commit.blockID = s.blockID
  authentic : sd.view.Verifies cfg.C commit
  block : sd.verifyCommitBlock commit = .ok true

/-- While the node holds a block in its round, commits for it and precommits arrive, in any order. The number counts
the calls to process the block that the checks of these commits and the returns to the round make. -/
inductive Holding (cfg : Config) (s : Stream) (sd : StateData) : ℕ → StateData → Prop
  | start : Holding cfg s sd 0 sd
  | other {n : ℕ} {sd₁ sd₂ : StateData} (h : Holding cfg s sd n sd₁) (hs : Stays sd₁ sd₂) : Holding cfg s sd n sd₂
  | returned {n : ℕ} {sd₁ sd₂ : StateData} {W : World} {result : Except ConsensusError Unit} {more : List Output}
      (h : Holding cfg s sd n sd₁) (hW : W.Accepts s.block s.shape) (ho : sd₁.ensureOwnRound W = (sd₂, result))
      (hm : sd₂.outputs = sd₁.outputs ++ more) : Holding cfg s sd (n + executions more) sd₂
  | rejected {n : ℕ} {sd₁ sd₂ : StateData} {W : World} {commit : Commit} {e : ConsensusError} {more : List Output}
      (h : Holding cfg s sd n sd₁) (hW : W.Accepts s.block s.shape) (hr : commit.round ∈ s.rounds)
      (hc : Checks cfg s sd₁ commit) (hch : sd₁.verifyProcessedCommit W commit = .ok (sd₂, .error e))
      (hm : sd₂.outputs = sd₁.outputs ++ more) : Holding cfg s sd (n + executions more) sd₂

variable {cfg : Config} {s : Stream} {n : ℕ}

lemma Checks.spec (h : Checks cfg s sd commit) :
    commit.height = sd.height ∧ ∃ vote, commit.getCanonicalVote = .ok vote := by
  obtain ⟨hh, -, budget, hv⟩ := h.authentic
  obtain ⟨_, hs, -⟩ := of_bind hv
  obtain ⟨_, hd, -⟩ := of_bind hs
  simp only [ValidatorSet.commitSignData, bind_eq_ok, mapErr_eq_ok] at hd
  obtain ⟨-, -, -, -, vote, hvo, -⟩ := hd
  exact ⟨hh, vote, hvo⟩

def owed (sd : StateData) (key : Bytes) (rounds : Finset ℤ) : ℕ :=
  2 * (sd.expectations.unknown sd.height key rounds).card + sd.away.toNat

lemma Holding.pays (h : Holding cfg s sd n sd') (hheld : sd.proposalBlock = some s.block)
    (hsound : sd.expectations.Sound s.shape) :
    sd'.proposalBlock = some s.block ∧ sd'.expectations.Sound s.shape ∧
      n + sd'.owed s.blockID.key s.rounds ≤ sd.owed s.blockID.key s.rounds := by
  induction h with
  | start => exact ⟨hheld, hsound, by omega⟩
  | other _ hs ih =>
    obtain ⟨hheld, hsound, hp⟩ := ih
    refine ⟨hs.block.trans hheld, hs.expectations ▸ hsound, le_trans ?_ hp⟩
    have haw := Bool.toNat_le_toNat hs.record
    unfold owed
    rw [hs.expectations, hs.height]
    omega
  | @returned n sd₁ sd₂ W result more _ hW how hm ih =>
    obtain ⟨hheld, hsound, hp⟩ := ih
    rcases ensureOwnRound_pays hW hheld how with rfl | ⟨hb, ha, hbl, -, hh, he, ho⟩
    · obtain rfl : more = [] := append_cancel_left (hm.symm.trans (append_nil _).symm)
      exact ⟨hheld, hsound, hp⟩
    obtain rfl := append_cancel_left (hm.symm.trans ho)
    refine ⟨hbl, he ▸ hsound, le_trans ?_ hp⟩
    unfold owed
    rw [he, hh, hb, ha]
    show _ + 1 + (_ + 0) ≤ _ + (_ + 1)
    omega
  | @rejected n sd₁ sd₂ W commit e more _ hW hro hc hch hm ih =>
    obtain ⟨hheld, hsound, hp⟩ := ih
    obtain ⟨hco, vote, hv⟩ := hc.spec
    obtain ⟨hbl, -, hh, hs', more', ho, hon, hr⟩ := verifyProcessedCommit_pays hW hsound hheld hv hc.block hch
    obtain rfl := append_cancel_left (hm.symm.trans ho)
    obtain ⟨hg, hca⟩ := hr nofun
    rw [hco] at hg hca
    have hsu : sd₂.expectations.unknown sd₁.height s.blockID.key s.rounds ⊆
        sd₁.expectations.unknown sd₁.height s.blockID.key s.rounds := unknown_subset (hg s.blockID.key)
    refine ⟨hbl, hs', le_trans ?_ hp⟩
    unfold owed
    rw [hh]
    rcases hca with ⟨hn, haw⟩ | ⟨hb, ha⟩
    · have hcr := Finset.card_le_card hsu
      rw [hn, haw]
      omega
    -- one round less is unknown, which pays for this call and for the return
    rw [hc.blockID] at hb ha
    have hl : (sd₂.expectations.unknown sd₁.height s.blockID.key s.rounds).card <
        (sd₁.expectations.unknown sd₁.height s.blockID.key s.rounds).card := by
      refine Finset.card_lt_card (Finset.ssubset_iff_of_subset hsu |>.mpr ⟨commit.round, ?_, ?_⟩)
      · exact Finset.mem_filter.mpr ⟨hro, hb⟩
      intro hme
      rw [(Finset.mem_filter.mp hme).2] at ha
      cases ha
    have haw := Bool.toNat_le sd₂.away
    omega

/-! ### Messages -/

lemma Stays.refl (sd : StateData) : Stays sd sd := ⟨rfl, rfl, rfl, rfl, id⟩

lemma held_by_verifyCommitBlock (h : sd.verifyCommitBlock commit = .ok true) :
    hasHeader sd.proposalBlockParts commit.blockID.partSetHeader = true ∧
      hashesTo sd.proposalBlock commit.blockID.hash = true := by
  obtain ⟨held, hheld⟩ := held_of_verifyCommitBlock h
  unfold verifyCommitBlock at h
  rw [hheld] at h ⊢
  dsimp only at h
  split_ifs at h with hh hha
  exact ⟨Bool.not_eq_false _ ▸ hh, Bool.not_eq_false _ ▸ hha⟩

lemma adoptCommit_of_verifyCommitBlock (hb : sd.verifyCommitBlock commit = .ok true) :
    ∃ proposal, sd.adoptCommit commit = { sd with proposal := proposal, commit := some commit } := by
  obtain ⟨proposal, hd⟩ := dropStaleProposal_eq sd commit.blockID
  obtain ⟨hh, hha⟩ := held_by_verifyCommitBlock hb
  refine ⟨proposal, ?_⟩
  unfold adoptCommit retargetTo
  rw [hd]
  dsimp only
  rw [hh, hha, if_neg nofun, if_neg nofun]

def Continues (cfg : Config) (s : Stream) (sd : StateData) (n : ℕ) (sd₁ sd₂ : StateData) : Prop :=
  ∃ more, sd₂.outputs = sd₁.outputs ++ more ∧ Holding cfg s sd (n + executions more) sd₂

def Accepted (cfg : Config) (s : Stream) (W : World) (sd : StateData) (commit : Commit) : Prop :=
  ∃ sd₁ sd₂, Stays sd sd₁ ∧ sd₁.outputs = sd.outputs ∧ Checks cfg s sd₁ commit ∧
    sd₁.verifyProcessedCommit W commit = .ok (sd₂, .ok ())

section Messages

variable {sd₁ sd₂ : StateData} {peerID : String} {fromReplay : Bool}

lemma Holding.continues (h : Holding cfg s sd n sd₁) : Continues cfg s sd n sd₁ sd₁ :=
  ⟨[], (append_nil _).symm, h⟩

lemma Continues.stays {sd₃ : StateData} {more : List Output} (h : Continues cfg s sd n sd₁ sd₂) (hs : Stays sd₂ sd₃)
    (hm : sd₃.outputs = sd₂.outputs ++ more) (hn : executions more = 0) : Continues cfg s sd n sd₁ sd₃ := by
  obtain ⟨more₁, hm₁, h⟩ := h
  refine ⟨more₁ ++ more, by rw [hm, hm₁, append_assoc], ?_⟩
  rw [show executions (more₁ ++ more) = executions more₁ + executions more from countP_append, hn]
  exact h.other hs

lemma Continues.reported (h : Continues cfg s sd n sd₁ sd₂) (e : ConsensusError) (peerID : String)
    (fromReplay : Bool) : Continues cfg s sd n sd₁ (sd₂.handleCommitVerifyError e peerID fromReplay) := by
  unfold handleCommitVerifyError
  split
  · split
    · exact h
    · exact h.stays ⟨rfl, rfl, rfl, rfl, id⟩ rfl rfl
  · exact h

variable (hheld : sd.proposalBlock = some s.block) (hsound : sd.expectations.Sound s.shape)
  (hW : W.Accepts s.block s.shape)

include hheld hsound hW in
lemma Holding.rejects (h : Holding cfg s sd n sd₁) (hr : commit.round ∈ s.rounds)
    (hc : Checks cfg s sd₁ commit) {e : ConsensusError}
    (hch : sd₁.verifyProcessedCommit W commit = .ok (sd₂, .error e)) : Continues cfg s sd n sd₁ sd₂ := by
  obtain ⟨hh₁, hs₁, -⟩ := h.pays hheld hsound
  obtain ⟨-, vote, hv⟩ := hc.spec
  obtain ⟨-, -, -, -, more, hm, -⟩ := verifyProcessedCommit_pays hW hs₁ hh₁ hv hc.block hch
  exact ⟨more, hm, h.rejected hW hr hc hch hm⟩

include hheld hsound hW in
lemma Holding.addCurrentCommit (h : Holding cfg s sd n sd₁) (hID : commit.blockID = s.blockID)
    (hro : commit.round ∈ s.rounds) (hb : sd₁.verifyCommitBlock commit = .ok true)
    (ha : sd₁.addCurrentCommit W cfg commit peerID fromReplay = .ok (sd₂, result)) :
    Continues cfg s sd n sd₁ sd₂ ∨ Accepted cfg s W sd₁ commit := by
  obtain ⟨⟨sd₃, prepared⟩, hpr, ha⟩ := of_bind ha
  obtain ⟨⟨sd₄, ready⟩, hr, hp⟩ := of_bind hpr
  rcases readyToApplyCommit_cases hr with ⟨rfl, hv⟩ | ⟨rfl, -, rfl⟩
  · rcases ready with e | _ | _
    · cases hp
      cases ha
      exact .inl (h.continues.reported e peerID fromReplay)
    · cases hp
      cases ha
      exact .inl h.continues
    · dsimp only at hp
      rw [hb] at hp
      obtain ⟨⟨sd₅, checked⟩, hch, hp⟩ := of_bind hp
      have hc : Checks cfg s sd₄ commit := ⟨hID, (hv rfl).2, hb⟩
      cases checked with
      | error e =>
        cases hp
        cases ha
        exact .inl ((h.rejects hheld hsound hW hro hc hch).reported e peerID fromReplay)
      | ok _ => exact .inr ⟨sd₄, sd₅, .refl sd₄, rfl, hc, hch⟩
  · cases hp
    cases ha
    obtain ⟨proposal, had⟩ := adoptCommit_of_verifyCommitBlock hb
    rw [had]
    exact .inl (h.continues.stays ⟨rfl, rfl, rfl, rfl, id⟩ (append_nil _).symm rfl)

include hheld hsound hW in
lemma Holding.commitMessage (h : Holding cfg s sd n sd₁) (hn : sd₁.commit = none) (hID : commit.blockID = s.blockID)
    (hr : commit.round ∈ s.rounds) (hb : sd₁.verifyCommitBlock commit = .ok true)
    (ha : sd₁.tryAddCommit W cfg commit peerID fromReplay = .ok (sd₂, result)) :
    Continues cfg s sd n sd₁ sd₂ ∨ Accepted cfg s W sd₁ commit := by
  cases tryAddCommit_cases ha with
  | ignored => exact .inl h.continues
  | refused e => exact .inl (h.continues.reported e peerID fromReplay)
  | queued hp =>
    rw [hn] at hp
    cases hp
  | current _ ha => exact h.addCurrentCommit hheld hsound hW hID hr hb ha
  | later _ hv ha =>
    -- the commit is adopted, and checked before the round changes
    obtain ⟨proposal, had⟩ := adoptCommit_of_verifyCommitBlock hb
    rw [had] at ha
    set sd₃ : StateData := { sd₁ with proposal := proposal, commit := some commit }
    have hs : Stays sd₁ sd₃ := ⟨rfl, rfl, rfl, rfl, id⟩
    have hch : Checks cfg s sd₃ commit := ⟨hID, hv, hb⟩
    obtain ⟨⟨sd₄, checked⟩, hc, ha⟩ := of_bind ha
    obtain ⟨hhe, hha⟩ := held_by_verifyCommitBlock hch.block
    rw [if_pos (by simp [holdsProposalBlock, hhe, hha])] at hc
    unfold verifyHeldCommit at hc
    rw [hch.block] at hc
    have hc : sd₃.verifyProcessedCommit W commit = .ok (sd₄, checked) := hc
    cases checked with
    | error e =>
      cases ha
      obtain ⟨more, hm, hh⟩ := (h.other hs).rejects hheld hsound hW hr hch hc
      have hco : Continues cfg s sd n sd₁ sd₄ := ⟨more, hm, hh⟩
      refine .inl (Continues.reported ?_ e peerID fromReplay)
      exact hco.stays ⟨rfl, rfl, rfl, rfl, id⟩ (append_nil _).symm rfl
    | ok _ => exact .inr ⟨sd₃, sd₄, hs, rfl, hch, hc⟩

include hheld hsound hW in
lemma Holding.precommitMessage (h : Holding cfg s sd n sd₁) {ref : VoteRef} {budget : Option VerificationBudget}
    {added : Except ConsensusError Bool} (ha : sd₁.addPrecommit W cfg ref budget = .ok (sd₂, added)) :
    ∃ sd₃, Continues cfg s sd n sd₁ sd₃ ∧
      (sd₂ = sd₃ ∨ ∃ check, sd₃.addToVoteSet W cfg ref check = .ok (sd₂, added)) := by
  obtain ⟨hh₁, -, -⟩ := h.pays hheld hsound
  have hr : ∀ {sd₃ own}, sd₁.ensureOwnRound W = (sd₃, own) → Continues cfg s sd n sd₁ sd₃ := by
    intro sd₃ own ho
    rcases ensureOwnRound_pays hW hh₁ ho with rfl | ⟨-, -, -, -, -, -, hm⟩
    · exact h.continues
    · exact ⟨_, hm, h.returned hW ho hm⟩
  obtain ⟨sd₃, hsh, hs⟩ := addPrecommit_cases ha
  refine ⟨sd₃, ?_, hs.imp_right fun ⟨check, _, ha⟩ => ⟨check, ha⟩⟩
  cases hsh with
  | unseen => exact h.continues
  | returned ho => exact hr ho
  | seen ho ok => exact (hr ho).stays ⟨rfl, rfl, rfl, rfl, id⟩ rfl rfl

end Messages

/-- Commits cannot force unbounded re-execution. While a node holds one block at a height and round, the checks of
authenticated commits for it and the returns to its round process the block twice for each round of the commits and
once for the commit that is accepted, at most, and once more if the application was away from its round at first. This
is what becomes of commit messages and precommits. -/
theorem reexecution_bounded (cfg : Config) (state : ChainState) (lastCommit : Option Commit)
    (inputs : List (World × Event)) (sd : StateData) (h : reached cfg state lastCommit inputs = some sd) (s : Stream)
    (hcontract : ∀ input ∈ inputs, input.1.KeepsContract s.shape) (hheld : sd.proposalBlock = some s.block) (n : ℕ)
    (sd' : StateData) (hholding : Holding cfg s sd n sd') :
    n ≤ 2 * s.rounds.card + sd.away.toNat ∧
      ∀ W, W.Accepts s.block s.shape →
        (∀ commit sd₁ more, Checks cfg s sd' commit → sd'.verifyProcessedCommit W commit = .ok (sd₁, .ok ()) →
          sd₁.outputs = sd'.outputs ++ more → n + executions more ≤ 2 * s.rounds.card + 1 + sd.away.toNat) ∧
        (∀ commit peerID fromReplay sd₁ result, sd'.commit = none → commit.blockID = s.blockID →
          commit.round ∈ s.rounds → sd'.verifyCommitBlock commit = .ok true →
          sd'.tryAddCommit W cfg commit peerID fromReplay = .ok (sd₁, result) →
          Continues cfg s sd n sd' sd₁ ∨ Accepted cfg s W sd' commit) ∧
        ∀ ref budget sd₁ added, sd'.addPrecommit W cfg ref budget = .ok (sd₁, added) →
          ∃ sd₂, Continues cfg s sd n sd' sd₂ ∧
            (sd₁ = sd₂ ∨ ∃ check, sd₂.addToVoteSet W cfg ref check = .ok (sd₁, added)) := by
  have hsound : sd.expectations.Sound s.shape := sound_run hcontract h
  obtain ⟨hh', hs', hp⟩ := hholding.pays hheld hsound
  have how : sd.owed s.blockID.key s.rounds ≤ 2 * s.rounds.card + sd.away.toNat := by
    have hca : (sd.expectations.unknown sd.height s.blockID.key s.rounds).card ≤ s.rounds.card :=
      Finset.card_filter_le s.rounds _
    unfold owed
    omega
  refine ⟨by omega, fun W hW => ⟨fun commit sd₁ more hc hch hm => ?_, ?_, ?_⟩⟩
  · obtain ⟨-, vote, hv⟩ := hc.spec
    obtain ⟨-, -, -, -, more', ho, hon, -⟩ := verifyProcessedCommit_pays hW hs' hh' hv hc.block hch
    obtain rfl := append_cancel_left (hm.symm.trans ho)
    omega
  · intro commit peerID fromReplay sd₁ result hn hID hr hb ha
    exact hholding.commitMessage hheld hsound hW hn hID hr hb ha
  · intro ref budget sd₁ added ha
    exact hholding.precommitMessage hheld hsound hW ha

def padCrypto : Crypto :=
  { Crypto.sample with
    verifySignatureDigest := fun _ key digest sig => sig.take (key ++ digest).length = key ++ digest }

def padConfig : Config := { lockConfig with C := padCrypto }

def oddCommit : Commit :=
  let ext : VoteExtension := ⟨.threshold, ⟨.thresholdRecover, [1], [], none⟩⟩
  match ext.signItem padCrypto "chain" 1 2 100 (lockCommit 2).quorumHash with
  | .ok item => { lockCommit 2 with thresholdVoteExtensions := [some { ext.proto with
      signature := List.replicate pubKeySize 1 ++ item.signHash ++ List.replicate 16 0 }] }
  | .error _ => lockCommit 2

def lateRound : List (World × Event) :=
  [.timeout ⟨1, 0, .newHeight⟩, .proposal (lockProposal 0 (-1)) "peer" false, .blockPart 1 lockPart "peer" false,
    voteEvent .precommit 0 1 .nil, voteEvent .precommit 0 2 .nil,
    voteEvent .precommit 0 3 .nil, .timeout ⟨1, 0, .precommitWait⟩,
    .proposal (lockProposal 1 (-1)) "peer" false].map (parkWorld, ·) ++
  [({ parkWorld with proposalIsTimely := false }, .blockPart 1 lockPart "peer" false)]

def awayAndBack : List (World × Event) :=
  [voteEvent .precommit 1 1 lockID, .commit oddCommit "first" false,
    voteEvent .precommit 1 2 lockID, .commit (lockCommit 2) "second" false].map (parkWorld, ·)

def lateStream : Stream := ⟨lockBlock, lockID, fun _ _ => [], {2}⟩

lemma parkWorld_accepts : parkWorld.Accepts lateStream.block lateStream.shape where
  answers := by
    rintro n block round crs ⟨⟩
    simp [CurrentRoundState.matchesBlock]
  processes _ _ := ⟨_, rfl⟩
  validates _ _ _ := rfl
  contract := parkWorld_keepsContract

lemma accepts_of_mem {input : World × Event} (h : input ∈ lateRound ++ awayAndBack) :
    input.1.Accepts lateStream.block lateStream.shape := by
  rcases mem_append.mp h with h | h
  · rcases mem_append.mp h with h | h
    · obtain ⟨_, -, rfl⟩ := mem_map.mp h
      exact parkWorld_accepts
    · rw [mem_singleton.mp h]
      exact ⟨parkWorld_accepts.1, parkWorld_accepts.2, parkWorld_accepts.3, ⟨parkWorld_accepts.4.1, parkWorld_accepts.4.2⟩⟩
  · obtain ⟨_, -, rfl⟩ := mem_map.mp h
    exact parkWorld_accepts

/-- The first return is owed to round 0, so that one round takes four calls until the height is finalized. -/
theorem four_executions_for_one_round : ∃ sd sd', reached padConfig lockState none lateRound = some sd ∧
    (sd.height, sd.round, sd.proposalBlock) = (1, 1, some lateStream.block) ∧
    run (turn padConfig) (some sd) awayAndBack = some sd' ∧ sd'.height = 2 ∧
    executions (sd'.outputs.drop sd.outputs.length) = 4 ∧ lateStream.rounds.card = 1 ∧
    ∀ input ∈ lateRound ++ awayAndBack, input.1.Accepts lateStream.block lateStream.shape := by
  have hr : ((reached padConfig lockState none lateRound).bind fun sd =>
      (run (turn padConfig) (some sd) awayAndBack).map fun sd' => ((sd.height, sd.round, sd.proposalBlock),
        sd'.height, executions (sd'.outputs.drop sd.outputs.length))) =
      some ((1, 1, some lateStream.block), 2, 4) := by decide +kernel
  obtain ⟨sd, hsd, hr⟩ := bind_eq_some_iff.mp hr
  obtain ⟨sd', hs', hs⟩ := map_eq_some_iff.mp hr
  simp only [Prod.mk.injEq] at hs
  obtain ⟨hheld, hh, hc⟩ := hs
  exact ⟨sd, sd', hsd, by simp [hheld], hs', hh, hc, rfl, fun _ => accepts_of_mem⟩

/-- The return to round 1 is within the bound. -/
theorem late_return_bounded : ∃ sd sd₁, reached padConfig lockState none lateRound = some sd ∧
    Holding padConfig lateStream sd 1 sd₁ ∧ 1 ≤ 2 * lateStream.rounds.card + sd.away.toNat := by
  have hs : (reached padConfig lockState none lateRound).map (fun sd =>
      (sd.proposalBlock, sd.away, (sd.ensureOwnRound parkWorld).1.away)) =
        some (some lateStream.block, true, false) := by decide +kernel
  obtain ⟨sd, hsd, hs⟩ := map_eq_some_iff.mp hs
  simp only [Prod.mk.injEq] at hs
  obtain ⟨hheld, ha, hb⟩ := hs
  rcases ho : sd.ensureOwnRound parkWorld with ⟨sd₁, own⟩
  rw [ho] at hb
  have hr : Holding padConfig lateStream sd 1 sd₁ := by
    rcases ensureOwnRound_pays parkWorld_accepts hheld ho with rfl | ⟨-, -, -, -, -, -, hm⟩
    · rw [ha] at hb
      cases hb
    · exact Holding.start.returned parkWorld_accepts ho hm
  exact ⟨sd, sd₁, hsd, hr, (reexecution_bounded padConfig lockState none lateRound sd hsd lateStream
    (fun _ hi => (accepts_of_mem (mem_append_left _ hi)).contract) hheld 1 _ hr).1⟩

end StateData

end Tenderdash
