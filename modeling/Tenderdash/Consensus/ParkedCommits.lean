import Tenderdash.Consensus.AppContext

/-!
Commits that wait for their block. One commit is parked, and the commits of other peers are queued behind it, one
for each peer. Once the block is complete they are tried, a round at a time, until one is accepted
(`selectParkedCommit_selects`). With an application that keeps its contract, the order does not matter
(`Ready.tryCommits`).
-/

namespace Tenderdash

open Lib Go Run List

/-! ### One candidate per peer -/

namespace CommitCandidates

variable {c : CommitCandidates} {connected : String → Bool} {height : ℤ} {candidate : CommitCandidate}

def peers (candidates : List CommitCandidate) : List String := candidates.map (·.peerID)

@[simp] lemma peers_cons (first : CommitCandidate) (rest : List CommitCandidate) :
    peers (first :: rest) = first.peerID :: peers rest := rfl

lemma peers_place (candidate : CommitCandidate) (kept : List CommitCandidate) :
    peers (place candidate kept) =
      if candidate.peerID ∈ peers kept then peers kept else peers kept ++ [candidate.peerID] := by
  induction kept with
  | nil => rfl
  | cons first rest ih =>
    unfold place
    by_cases hp : first.peerID = candidate.peerID
    · simp [hp]
    rw [if_neg hp, peers_cons, peers_cons, ih]
    by_cases hm : candidate.peerID ∈ peers rest
    · rw [if_pos hm, if_pos (mem_cons_of_mem _ hm)]
    have hn : candidate.peerID ∉ first.peerID :: peers rest := by simp [Ne.symm hp, hm]
    rw [if_neg hm, if_neg hn, cons_append]

lemma nodup_place {kept : List CommitCandidate} (h : (peers kept).Nodup) : (peers (place candidate kept)).Nodup := by
  rw [peers_place]
  split
  · exact h
  next hn => exact nodup_append.mpr ⟨h, nodup_singleton _, by
    rintro peer hm _ hs rfl
    exact hn (mem_singleton.mp hs ▸ hm)⟩

lemma nodup_resetUnless (h : (peers c.candidates).Nodup) : (peers (c.resetUnless height).candidates).Nodup := by
  unfold resetUnless
  split
  · exact nodup_nil
  · exact h

lemma nodup_add (h : (peers c.candidates).Nodup) (commit : Commit) (peerID : String) (fromReplay : Bool) :
    (peers (c.add connected height commit peerID fromReplay).candidates).Nodup :=
  nodup_place (((nodup_resetUnless h).sublist (filter_sublist.map _)))

lemma filter_place {keep : CommitCandidate → Bool}
    (hk : ∀ other, keep other = true → other.peerID ≠ candidate.peerID) (kept : List CommitCandidate) :
    (place candidate kept).filter keep = kept.filter keep := by
  have hs : ∀ other, other.peerID = candidate.peerID → keep other = false := fun other hp =>
    Bool.eq_false_iff.mpr fun ht => hk other ht hp
  induction kept with
  | nil => simp [place, hs candidate rfl]
  | cons first rest ih =>
    unfold place
    split
    · next hp => simp [hs candidate rfl, hs first hp]
    · simp only [filter_cons, ih]

lemma filter_add {keep : CommitCandidate → Bool} {peerID : String} (commit : Commit) (fromReplay : Bool)
    (hk : ∀ other, keep other = true → other.peerID ≠ peerID ∧ retainable connected other = true) :
    (c.add connected height commit peerID fromReplay).candidates.filter keep =
      (c.resetUnless height).candidates.filter keep := by
  unfold add
  rw [filter_place (fun other ho => (hk other ho).1), filter_filter]
  refine filter_congr fun other _ => ?_
  by_cases ho : keep other = true
  · simp [ho, (hk other ho).2]
  · simp [ho]

lemma add_height (commit : Commit) (peerID : String) (fromReplay : Bool) :
    (c.add connected height commit peerID fromReplay).height = height := resetUnless_height c height

end CommitCandidates

def Output.processesAt (round : ℤ) : Output → Bool
  | .processProposal _ r _ => r = round
  | _ => false

lemma Output.processesAt_of_quiet {o : Output} (h : o.quiet = true) (round : ℤ) : o.processesAt round = false := by
  cases o <;> first | rfl | cases h

def World.Processes (W : World) (block : Block) : Prop :=
  ∀ n round, ∃ crs, W.processProposal n block round = .ok crs

structure World.Steady (W : World) : Prop where
  processProposal : ∀ n, W.processProposal n = W.processProposal 0
  validateBlock : ∀ n, W.validateBlock n = W.validateBlock 0

namespace StateData

variable {W : World} {cfg : Config} {sd sd' : StateData} {round : ℤ} {inputs : List (World × Event)}
  {lastCommit : Option Commit} {state : ChainState}

open CommitCandidates

lemma nodup_deed (h : (peers sd.candidates.candidates).Nodup) (hd : Deed cfg W sd sd') :
    (peers sd'.candidates.candidates).Nodup := by
  cases hd with
  | quiet hq =>
    rw [hq.candidates]
    exact h
  | queued commit peerID fromReplay => exact nodup_add h commit peerID fromReplay
  | taken => exact nodup_nil
  | _ => exact h

lemma nodup_run (h : reached cfg state lastCommit inputs = some sd) : (peers sd.candidates.candidates).Nodup := by
  refine deeds_run (fun sd => (peers sd.candidates.candidates).Nodup) (fun _ => True) (fun sd hsd => ?_)
    (fun _ hd hn => nodup_deed hn hd) (fun _ _ => trivial) h
  obtain ⟨_, -, hsd⟩ := of_bind hsd
  obtain ⟨votes, -, hsd⟩ := of_bind hsd
  cases hsd
  exact nodup_nil

lemma sound_run
    {shape : ℤ → ℤ × Bytes → List (Option VoteExtensionProto)} (hc : ∀ input ∈ inputs, input.1.KeepsContract shape)
    (h : reached cfg state lastCommit inputs = some sd) : sd.expectations.Sound shape := by
  refine deeds_run (fun sd => sd.expectations.Sound shape) (fun W => W.KeepsContract shape)
    (fun sd hsd commit exp hl => ?_) (fun hW hd hs => ?_) hc h
  · obtain ⟨_, -, hsd⟩ := of_bind hsd
    obtain ⟨votes, -, hsd⟩ := of_bind hsd
    cases hsd
    have hn : CommitExpectations.lookup ⟨0, fun _ => none⟩ commit = none := by
      unfold CommitExpectations.lookup
      split <;> rfl
    rw [show CommitExpectations.lookup ⟨0, fun _ => none⟩ commit = some exp from hl] at hn
    cases hn
  · cases hd with
    | quiet hq => exact hq.sound shape hW hs
    | _ => exact hs

/-! ### Commits that arrive meanwhile -/

structure CommitArrival where
  W : World
  commit : Commit
  peerID : String
  fromReplay : Bool

def CommitArrival.input (a : CommitArrival) : World × Event := (a.W, .commit a.commit a.peerID a.fromReplay)

def CommitArrival.Spares (a : CommitArrival) (keep : CommitCandidate → Bool) : Prop :=
  ∀ other, keep other = true → other.peerID ≠ a.peerID ∧ retainable a.W.connected other = true

structure Others (keep : CommitCandidate → Bool) (sd sd' : StateData) : Prop where
  commit : sd'.commit = sd.commit
  height : sd'.height = sd.height
  candidates : (sd'.candidates.resetUnless sd.height).candidates.filter keep =
    (sd.candidates.resetUnless sd.height).candidates.filter keep

variable {keep : CommitCandidate → Bool}

lemma Others.refl (keep : CommitCandidate → Bool) (sd : StateData) : Others keep sd sd := ⟨rfl, rfl, rfl⟩

lemma Others.trans {sd₁ : StateData} (h : Others keep sd sd₁) (h' : Others keep sd₁ sd') : Others keep sd sd' := by
  refine ⟨h'.commit.trans h.commit, h'.height.trans h.height, ?_⟩
  have hc := h'.candidates
  rw [h.height] at hc
  exact hc.trans h.candidates

lemma Others.handle {a : CommitArrival} (hs : a.Spares keep) (hp : sd.commit.isSome)
    (h : sd.handle a.input.1 cfg a.input.2 = .ok sd') : Others keep sd sd' := by
  cases handle_cases h with
  | commit h =>
    cases tryAddCommit_cases h with
    | ignored => exact .refl keep sd
    | refused e =>
      unfold handleCommitVerifyError
      split
      · split <;> exact ⟨rfl, rfl, rfl⟩
      · exact .refl keep sd
    | queued =>
      refine ⟨rfl, rfl, ?_⟩
      -- what was added is of this height
      have hsa : ((sd.candidates.add a.W.connected sd.height a.commit a.peerID a.fromReplay).resetUnless
          sd.height) = sd.candidates.add a.W.connected sd.height a.commit a.peerID a.fromReplay := by
        unfold resetUnless
        rw [if_neg (not_not.mpr (add_height a.commit a.peerID a.fromReplay))]
      exact (congrArg (fun c => c.candidates.filter keep) hsa).trans (filter_add a.commit a.fromReplay hs)
    | current hn => simp [hn] at hp
    | later hn => simp [hn] at hp

lemma Others.run {arrivals : List CommitArrival} (hs : ∀ a ∈ arrivals, a.Spares keep) (hp : sd.commit.isSome)
    (h : run (turn cfg) (some sd) (arrivals.map (·.input)) = some sd') : Others keep sd sd' := by
  refine run_turn (P := Others keep sd) (fun ho hok _ hh => ?_)
    (admitted_of_mem fun _ _ => mem_map.mp) (fun _ hsd => Option.some.inj hsd ▸ .refl keep sd) sd' h
  obtain ⟨a, hm, rfl⟩ := hok
  exact ho.trans (.handle (hs a hm) (ho.commit ▸ hp) hh)

/-! ### One check -/

def answerFor (block : Block) (round : ℤ) : CurrentRoundState :=
  ⟨.processProposal, block.height, round, block.appHash, block.resultsHash⟩

variable {block : Block} {commit : Commit}

lemma eq_answerFor {crs : CurrentRoundState} (hs : crs.source = .processProposal)
    (hm : crs.matchesBlock block round = true) : crs = answerFor block round := by
  simp only [CurrentRoundState.matchesBlock, Bool.decide_and, Bool.and_eq_true, decide_eq_true_eq] at hm
  cases crs
  simp_all [answerFor]

lemma processedFor_eq_true (hb : sd.proposalBlock = some block) :
    sd.processedFor round = true ↔ sd.currentRoundState = answerFor block round ∧
      sd.processedBlockID.isNil = false ∧ sd.processedBlockID = blockIDOf sd.proposalBlock sd.proposalBlockParts := by
  unfold processedFor
  rw [hb]
  simp only [Option.any_some, decide_eq_true_eq]
  constructor
  · rintro ⟨hs, hm, hn, hID⟩
    exact ⟨eq_answerFor hs hm, hn, hID⟩
  rintro ⟨hc, hn, hID⟩
  rw [hc]
  exact ⟨rfl, by simp [CurrentRoundState.matchesBlock, answerFor], hn, hID⟩

lemma processedFor_unique {round' : ℤ} (h : sd.processedFor round = true) (h' : sd.processedFor round' = true) :
    round = round' := by
  obtain ⟨-, -, hr, -⟩ := processedFor_spec h
  obtain ⟨-, -, hr', -⟩ := processedFor_spec h'
  exact hr.symm.trans hr'

lemma held_of_verifyCommitBlock (h : sd.verifyCommitBlock commit = .ok true) :
    ∃ block, sd.proposalBlock = some block := by
  rcases Option.eq_none_or_eq_some sd.proposalBlock with hn | hs
  · unfold verifyCommitBlock at h
    rw [hn] at h
    cases h
  · exact hs

lemma verifyHeldCommit_cases {result : Except ConsensusError Unit}
    (h : sd.verifyHeldCommit W commit = .ok (sd', result)) :
    (sd' = sd ∧ result ≠ .ok ()) ∨ (sd.verifyCommitBlock commit = .ok true ∧ ∃ sd₁ processed,
      sd.ensureProcess W commit.round = (sd₁, processed) ∧ Asks sd₁ sd' ∧ (processed ≠ .ok () → result ≠ .ok ())) := by
  unfold verifyHeldCommit at h
  split at h
  · cases h
    exact .inl ⟨rfl, nofun⟩
  · cases h
    exact .inl ⟨rfl, nofun⟩
  next hv =>
  unfold verifyProcessedCommit at h
  split at h
  · cases h
    exact .inl ⟨rfl, nofun⟩
  split at h
  · cases h
  · next sd₁ e _ hp =>
    cases h
    exact .inr ⟨hv, sd', .error e, hp, .refl sd', fun _ => nofun⟩
  next sd₁ hp =>
  refine .inr ⟨hv, sd₁, .ok (), hp, ?_, (absurd rfl)⟩
  obtain ⟨valid, -, h⟩ := of_bind h
  split at h
  · exact verifyCommitExtensions_asks h
  cases h
  exact .refl _

/-! ### How often the block is processed -/

lemma ensureProcess_once (hW : W.Answers) {processed : Except ConsensusError Unit} (hb : sd.proposalBlock = some block)
    (hs : W.Processes block) (hn : (blockIDOf sd.proposalBlock sd.proposalBlockParts).isNil = false)
    (h : sd.ensureProcess W round = (sd', processed)) :
    processed = .ok () ∧ sd'.processedFor round = true ∧ ((sd.processedFor round = true ∧ sd' = sd) ∨
      (sd.processedFor round = false ∧ sd'.outputs = sd.outputs ++ [.processProposal block round true])) := by
  unfold ensureProcess at h
  rw [hb] at h
  dsimp only at h
  split at h
  · next hp =>
    cases h
    exact ⟨rfl, hp, .inl ⟨hp, rfl⟩⟩
  next hp =>
  obtain ⟨crs, ha⟩ := hs sd.outputs.length round
  rw [ha] at h
  cases h
  obtain ⟨hso, hm⟩ := hW _ _ _ _ ha
  refine ⟨rfl, (@processedFor_eq_true _ _ block ?_).mpr ⟨?_, ?_, ?_⟩, .inr ⟨Bool.eq_false_iff.mpr hp, rfl⟩⟩
  · exact hb
  · exact eq_answerFor hso hm
  · rw [hb] at hn
    exact hn
  show blockIDOf (some block) _ = blockIDOf sd.proposalBlock _
  rw [hb]
  rfl

def processCalls (round : ℤ) (outputs : List Output) : ℕ := outputs.countP (Output.processesAt round)

lemma processCalls_eq_zero {outputs : List Output} (h : ∀ o ∈ outputs, o.passing = true) (round : ℤ) :
    processCalls round outputs = 0 :=
  countP_eq_zero.mpr fun o ho => by simp [Output.processesAt_of_quiet (Output.quiet_of_passing (h o ho))]

lemma verifyHeldCommit_count (hW : W.Answers) {result : Except ConsensusError Unit}
    (hs : ∀ block ∈ sd.proposalBlock, W.Processes block) (h : sd.verifyHeldCommit W commit = .ok (sd', result)) :
    sd'.proposalBlock = sd.proposalBlock ∧ ∃ more, sd'.outputs = sd.outputs ++ more ∧
      (((∀ r, sd'.processedFor r = sd.processedFor r) ∧ ∀ r, processCalls r more = 0) ∨
      (sd.processedFor commit.round = false ∧ sd'.processedFor commit.round = true ∧
        ∀ r, processCalls r more = if r = commit.round then 1 else 0)) := by
  rcases verifyHeldCommit_cases h with ⟨rfl, -⟩ | ⟨hv, sd₁, processed, hpr, ha, -⟩
  · exact ⟨rfl, [], by rw [append_nil], .inl ⟨fun _ => rfl, fun _ => rfl⟩⟩
  obtain ⟨block, hb⟩ := held_of_verifyCommitBlock hv
  obtain ⟨hsl, -⟩ := ensureProcess_slots hpr
  obtain ⟨-, hd, hc⟩ := ensureProcess_once hW hb (hs block hb) (blockID_ne_nil hb hv) hpr
  have hp := ha.processedFor
  obtain ⟨expectations, more, hpa, rfl⟩ := ha
  refine ⟨hsl, ?_⟩
  rcases hc with ⟨-, rfl⟩ | ⟨hn, ho⟩
  · exact ⟨more, rfl, .inl ⟨hp, processCalls_eq_zero hpa⟩⟩
  refine ⟨.processProposal block commit.round true :: more, ?_, .inr ⟨hn, (hp _).trans hd, fun r => ?_⟩⟩
  · show sd₁.outputs ++ more = _
    rw [ho, append_assoc]
    rfl
  have hr : more.countP (Output.processesAt r) = 0 := processCalls_eq_zero hpa r
  simp [processCalls, countP_cons, hr, Output.processesAt, eq_comm]

variable {commits : List Commit} {found : Option Commit}

lemma tryCommits_count (hW : W.Answers) {key : ℤ → ℤ}
    (hs : ∀ block ∈ sd.proposalBlock, W.Processes block)
    (hk : ∀ commit ∈ commits, ∀ r, key r = key commit.round → r = commit.round)
    (hso : commits.Pairwise fun a b => key a.round ≤ key b.round)
    (hf : ∀ r, sd.processedFor r = true → ∀ commit ∈ commits, key r ≤ key commit.round)
    (h : tryCommits W commits sd = .ok (sd', found)) :
    ∃ more, sd'.outputs = sd.outputs ++ more ∧ ∀ r, processCalls r more ≤ 1 ∧
      (sd.processedFor r = true → processCalls r more = 0) ∧
      ((∀ commit ∈ commits, commit.round ≠ r) → processCalls r more = 0) := by
  induction commits generalizing sd with
  | nil =>
    cases h
    exact ⟨[], by rw [append_nil], fun r => ⟨Nat.zero_le _, fun _ => rfl, fun _ => rfl⟩⟩
  | cons commit rest ih =>
    obtain ⟨⟨sd₁, checked⟩, hch, h⟩ := of_bind h
    obtain ⟨hsl, more, hou, hc⟩ := verifyHeldCommit_count hW hs hch
    obtain ⟨hb, hso⟩ := pairwise_cons.mp hso
    -- what the rest of the loop does
    have hre : ∃ more', sd'.outputs = sd₁.outputs ++ more' ∧ ∀ r, processCalls r more' ≤ 1 ∧
        (sd₁.processedFor r = true → processCalls r more' = 0) ∧
        ((∀ other ∈ rest, other.round ≠ r) → processCalls r more' = 0) := by
      cases checked with
      | ok _ =>
        cases h
        exact ⟨[], by rw [append_nil], fun r => ⟨Nat.zero_le _, fun _ => rfl, fun _ => rfl⟩⟩
      | error e =>
        refine ih (hsl ▸ hs) (fun other hot => hk other (mem_cons_of_mem _ hot)) hso (fun r hr other hot => ?_) h
        rcases hc with ⟨hsa, -⟩ | ⟨-, hd, -⟩
        · exact hf r (hsa r ▸ hr) other (mem_cons_of_mem _ hot)
        rw [processedFor_unique hr hd]
        exact hb other hot
    obtain ⟨more', ho', hbo⟩ := hre
    refine ⟨more ++ more', by rw [ho', hou, append_assoc], fun r => ?_⟩
    obtain ⟨hon, hz, hot⟩ := hbo r
    have hsu : processCalls r (more ++ more') = processCalls r more + processCalls r more' := countP_append
    rw [hsu]
    rcases hc with ⟨hsa, hn⟩ | ⟨hnt, hd, hca⟩
    · rw [hn r, zero_add]
      exact ⟨hon, fun hr => hz (hsa r ▸ hr), fun hr => hot fun o ho => hr o (mem_cons_of_mem _ ho)⟩
    rw [hca r]
    by_cases hr : r = commit.round
    · subst hr
      rw [if_pos rfl, hz hd]
      refine ⟨le_refl _, fun hp => ?_, fun hno => absurd rfl (hno commit mem_cons_self)⟩
      rw [hp] at hnt
      cases hnt
    · rw [if_neg hr, zero_add]
      refine ⟨hon, fun hp => hot fun o ho heq => ?_, fun hno => hot fun o ho =>
        hno o (mem_cons_of_mem _ ho)⟩
      -- a round on record before this one does not come again
      have hle : key commit.round ≤ key r := heq ▸ hb o ho
      have hge : key r ≤ key commit.round := hf r hp commit mem_cons_self
      exact hr (hk commit mem_cons_self r (le_antisymm hge hle))

def roundRank (sd : StateData) (commits : List Commit) (r : ℤ) : ℤ :=
  if sd.processedFor sd.currentRoundState.round ∧ r = sd.currentRoundState.round then -1
  else commits.findIdx fun other => other.round = r

lemma roundRank_injective (hm : commit ∈ commits) {r : ℤ}
    (h : sd.roundRank commits r = sd.roundRank commits commit.round) : r = commit.round := by
  unfold roundRank at h
  by_cases hr : sd.processedFor sd.currentRoundState.round ∧ r = sd.currentRoundState.round <;>
    by_cases hc : sd.processedFor sd.currentRoundState.round ∧ commit.round = sd.currentRoundState.round
  · rw [hr.2, hc.2]
  · rw [if_pos hr, if_neg hc] at h
    omega
  · rw [if_neg hr, if_pos hc] at h
    omega
  · rw [if_neg hr, if_neg hc] at h
    have hi : commits.findIdx (fun other => other.round = r) =
        commits.findIdx (fun other => other.round = commit.round) := by exact_mod_cast h
    have hf : commits.findIdx (fun other => other.round = commit.round) < commits.length :=
      findIdx_lt_length_of_exists ⟨commit, hm, by simp⟩
    have hro := findIdx_getElem (w := hf)
    have hr' := findIdx_getElem (w := hi ▸ hf)
    simp only [decide_eq_true_eq] at hro hr'
    simp only [hi] at hr'
    exact hr'.symm.trans hro

/-! ### Which commits are accepted -/

section Contract

variable {shape : ℤ → ℤ × Bytes → List (Option VoteExtensionProto)} {commit : Commit}
  {result : Except ConsensusError Unit}

@[mk_iff]
structure Passes (W : World) (shape : ℤ → ℤ × Bytes → List (Option VoteExtensionProto)) (sd : StateData)
    (commit : Commit) : Prop where
  block : sd.verifyCommitBlock commit = .ok true
  processed : ∀ block ∈ sd.proposalBlock, ∃ crs, W.processProposal 0 block commit.round = .ok crs
  valid : ∀ block ∈ sd.proposalBlock, W.validateBlock 0 sd.state (answerFor block commit.round) block = true
  vote : ∃ vote, commit.getCanonicalVote = .ok vote
  fits : Fits shape commit

structure Ready (W : World) (shape : ℤ → ℤ × Bytes → List (Option VoteExtensionProto)) (sd : StateData) :
    Prop where
  sound : sd.expectations.Sound shape
  record : ∀ r, sd.processedFor r = true → ∀ block ∈ sd.proposalBlock, ∃ crs, W.processProposal 0 block r = .ok crs

lemma Ready.ensureProcess (hW : W.Answers) (hst : W.Steady) (hre : Ready W shape sd) {block : Block}
    (hb : sd.proposalBlock = some block) (h : sd.ensureProcess W round = (sd', result)) :
    (result = .ok () ↔ ∃ crs, W.processProposal 0 block round = .ok crs) ∧
      (result = .ok () → sd'.currentRoundState = answerFor block round) ∧ Ready W shape sd' ∧
      sd'.state = sd.state := by
  unfold StateData.ensureProcess at h
  rw [hb] at h
  dsimp only at h
  split at h
  · next hp =>
    cases h
    exact ⟨iff_of_true rfl (hre.record round hp block hb), fun _ => ((processedFor_eq_true hb).mp hp).1, hre, rfl⟩
  rw [hst.processProposal] at h
  split at h
  · next why hf =>
    cases h
    refine ⟨iff_of_false nofun fun ⟨crs, hok⟩ => ?_, nofun, ⟨hre.sound, fun r hr => ?_⟩, rfl⟩
    · rw [hok] at hf
      cases hf
    obtain ⟨-, -, -, hn, -⟩ := processedFor_spec hr
    exact absurd hn (by simp)
  · next crs ha =>
    cases h
    obtain ⟨hs, hm⟩ := hW _ _ _ _ ha
    have hc := eq_answerFor hs hm
    refine ⟨iff_of_true rfl ⟨crs, ha⟩, fun _ => hc, ⟨hre.sound, fun r hr other ho => ?_⟩, rfl⟩
    obtain ⟨-, -, hro, -, -⟩ := processedFor_spec hr
    obtain rfl : round = r := by
      rw [← hro]
      exact (congrArg CurrentRoundState.round hc).symm
    obtain rfl : block = other := Option.some.inj (hb.symm.trans ho)
    exact ⟨crs, ha⟩

lemma Passes.congr (hb : sd'.proposalBlock = sd.proposalBlock) (hp : sd'.proposalBlockParts = sd.proposalBlockParts)
    (hs : sd'.state = sd.state) : Passes W shape sd' commit ↔ Passes W shape sd commit := by
  rw [passes_iff, passes_iff, verifyCommitBlock_congr hb hp, hb, hs]

lemma Ready.check (hW : W.Answers) (hst : W.Steady) (hc : W.KeepsContract shape)
    (hre : Ready W shape sd) (h : sd.verifyHeldCommit W commit = .ok (sd', result)) :
    (result = .ok () ↔ Passes W shape sd commit) ∧ Ready W shape sd' ∧
      sd'.proposalBlock = sd.proposalBlock ∧ sd'.proposalBlockParts = sd.proposalBlockParts ∧
      sd'.state = sd.state := by
  unfold verifyHeldCommit at h
  split at h
  · next hv =>
    cases h
    refine ⟨iff_of_false nofun fun hp => ?_, hre, rfl, rfl, rfl⟩
    rw [hp.block] at hv
    cases hv
  · next hv =>
    cases h
    refine ⟨iff_of_false nofun fun hp => ?_, hre, rfl, rfl, rfl⟩
    rw [hp.block] at hv
    cases hv
  · next hv =>
    unfold verifyProcessedCommit at h
    split at h
    · next hrf =>
      cases h
      exact ⟨iff_of_false nofun fun hp => not_fits_of_refused hre.sound hrf hp.fits, hre, rfl, rfl, rfl⟩
    obtain ⟨block, hb⟩ := held_of_verifyCommitBlock hv
    split at h
    · cases h
    · next hpr =>
      cases h
      obtain ⟨hif, -, hr', hs⟩ := hre.ensureProcess hW hst hb hpr
      obtain ⟨hsl, hpa⟩ := ensureProcess_slots hpr
      refine ⟨iff_of_false nofun fun hp => ?_, hr', hsl, hpa, hs⟩
      exact absurd (hif.mpr (hp.processed block hb)) nofun
    · next sd₁ hpr =>
      obtain ⟨hif, hcr, hr₁, hs⟩ := hre.ensureProcess hW hst hb hpr
      obtain ⟨hsl, hpa⟩ := ensureProcess_slots hpr
      obtain ⟨valid, hva, h⟩ := of_bind h
      unfold validate at hva
      rw [hsl, hb] at hva
      obtain rfl : W.validateBlock sd₁.outputs.length sd₁.state sd₁.currentRoundState block = valid := Except.ok.inj hva
      rw [hcr rfl, hs, hst.validateBlock] at h
      split at h
      · next hva =>
        obtain ⟨he, hso⟩ := verifyCommitExtensions_iff hr₁.sound hc h
        have ha := verifyCommitExtensions_asks h
        have hpd := ha.processedFor
        obtain ⟨_, _, -, rfl⟩ := ha
        refine ⟨he.trans ⟨fun ⟨hvo, hf⟩ => ?_, fun hp => ⟨hp.vote, hp.fits⟩⟩,
          ⟨hso, fun r hr => hr₁.record r (hpd r ▸ hr)⟩, hsl, hpa, hs⟩
        refine ⟨hv, fun other ho => ?_, fun other ho => ?_, hvo, hf⟩ <;>
          obtain rfl : block = other := Option.some.inj (hb.symm.trans ho)
        · exact hif.mp rfl
        · exact hva
      · next hi =>
        cases h
        refine ⟨iff_of_false nofun fun hp => hi (hp.valid block hb), hr₁, hsl, hpa, hs⟩

lemma Passes.check (hW : W.Answers) (hs : W.Steady) (hc : W.KeepsContract shape) (hre : Ready W shape sd)
    (hp : Passes W shape sd commit) : ∃ sd', sd.verifyHeldCommit W commit = .ok (sd', .ok ()) := by
  obtain ⟨block, hb⟩ := held_of_verifyCommitBlock hp.block
  rcases hpr : sd.ensureProcess W commit.round with ⟨sd₁, processed⟩
  obtain ⟨hi, hcr, hr₁, hst⟩ := hre.ensureProcess hW hs hb hpr
  obtain rfl := hi.mpr (hp.processed block hb)
  obtain ⟨hsl, -⟩ := ensureProcess_slots hpr
  obtain ⟨vote, hv⟩ := hp.vote
  have hva : sd₁.validate W = .ok true := by
    unfold validate
    rw [hsl, hb]
    dsimp only
    rw [hcr rfl, hst, hs.validateBlock, hp.valid block hb]
  have hn : ¬ ((sd₁.expectations.lookup commit).any fun exp => exp.rejected ∧ exp.fits commit) = true := by
    intro hr
    obtain ⟨exp, hl, hr⟩ := (Option.any_eq_true ..).mp hr
    simp [(hr₁.sound commit exp hl).2] at hr
  refine ⟨sd₁.emit (.verifyVoteExtension vote true), ?_⟩
  unfold verifyHeldCommit
  rw [hp.block]
  unfold verifyProcessedCommit
  rw [refuseUnprocessedCommit_of_fits hre.sound hp.fits]
  rw [hpr]
  refine bind_eq_ok.mpr ⟨true, hva, ?_⟩
  rw [if_pos rfl]
  unfold verifyCommitExtensions
  rw [if_neg hn]
  refine bind_eq_ok.mpr ⟨.ok vote, settle_eq_ok_ok.mpr hv, ?_⟩
  have hf : sameVoteExtensionShape commit.thresholdVoteExtensions
      (shape commit.height (CommitExpectations.roundBlock commit)) = true := hp.fits
  refine bind_eq_ok.mpr ⟨true, ?_, rfl⟩
  rw [hc.verifies _ commit vote hv, hf]

lemma Ready.tryCommits (hW : W.Answers) (hs : W.Steady) (hc : W.KeepsContract shape)
    (hr : Ready W shape sd) (h : tryCommits W commits sd = .ok (sd', found)) :
    found.isSome = true ↔ ∃ commit ∈ commits, Passes W shape sd commit := by
  induction commits generalizing sd with
  | nil =>
    cases h
    simp
  | cons commit rest ih =>
    obtain ⟨⟨sd₁, checked⟩, hch, h⟩ := of_bind h
    obtain ⟨hi, hr₁, hb, hpa, hst⟩ := hr.check hW hs hc hch
    cases checked with
    | ok _ =>
      cases h
      exact iff_of_true rfl ⟨commit, mem_cons_self, hi.mp rfl⟩
    | error e =>
      have hn : ¬ Passes W shape sd commit := fun hp => absurd (hi.mpr hp) nofun
      rw [ih hr₁ h]
      simp only [Passes.congr hb hpa hst, exists_mem_cons_iff, hn, false_or]

end Contract

/-! ### The selection -/

def waiting (sd : StateData) (parked : Commit) : List Commit :=
  parked :: (sd.candidates.take sd.height).2.map (·.commit)

def unparked (sd : StateData) : StateData :=
  { sd with commit := none, candidates := (sd.candidates.take sd.height).1 }

inductive Rejected (W : World) : List Commit → StateData → StateData → Prop
  | nil (sd : StateData) : Rejected W [] sd sd
  | cons {commit : Commit} {rest : List Commit} {sd sd₁ sd' : StateData} {e : ConsensusError}
      (hc : sd.verifyHeldCommit W commit = .ok (sd₁, .error e)) (hr : Rejected W rest sd₁ sd') :
      Rejected W (commit :: rest) sd sd'

inductive Ends (W : World) (sd : StateData) : List Commit → StateData → Option Commit → Prop
  | none : Ends W sd [] sd none
  | accepted {commit : Commit} (rest : List Commit) {sd' : StateData}
      (hc : sd.verifyHeldCommit W commit = .ok (sd', .ok ())) :
      Ends W sd (commit :: rest) { sd' with commit := some commit } (some commit)

lemma tryCommits_ends (h : tryCommits W commits sd = .ok (sd', found))
    : ∃ tried rest sd₁, commits = tried ++ rest ∧ Rejected W tried sd sd₁ ∧ Ends W sd₁ rest sd' found := by
  induction commits generalizing sd with
  | nil =>
    cases h
    exact ⟨[], [], sd', rfl, .nil sd', .none⟩
  | cons commit rest ih =>
    obtain ⟨⟨sd₁, checked⟩, hc, h⟩ := of_bind h
    cases checked with
    | ok _ =>
      cases h
      exact ⟨[], commit :: rest, sd, rfl, .nil sd, .accepted rest hc⟩
    | error e =>
      obtain ⟨tried, rest', sd₂, rfl, hr, he⟩ := ih h
      exact ⟨commit :: tried, rest', sd₂, rfl, .cons hc hr, he⟩

structure Selects (W : World) (sd : StateData) (parked : Commit) (sd' : StateData) (found : Option Commit) : Prop where
  /-- All commits are checked, in some order, until one is accepted. -/
  tries : ∃ tried rest sd₁, (tried ++ rest).Perm (sd.waiting parked) ∧ Rejected W tried sd.unparked sd₁ ∧
    Ends W sd₁ rest sd' found
  /-- If `ProcessProposal` succeeds, the block is processed once for a round among them, at most. -/
  processes : W.Answers → (∀ block ∈ sd.proposalBlock, W.Processes block) → ∃ more, sd'.outputs = sd.outputs ++ more ∧
    ∀ r, processCalls r more ≤ 1 ∧ ((∀ commit ∈ sd.waiting parked, commit.round ≠ r) → processCalls r more = 0)
  /-- With an application that keeps its contract, one is accepted exactly if one of them is acceptable. -/
  found_iff : W.Answers → W.Steady → ∀ shape, W.KeepsContract shape → Ready W shape sd →
    (found.isSome = true ↔ ∃ commit ∈ sd.waiting parked, ∃ sd₁,
      sd.unparked.verifyHeldCommit W commit = .ok (sd₁, .ok ()))

lemma orderCommits_pairwise (sd : StateData) (commits : List Commit) : (sd.orderCommits commits).Pairwise
    fun a b => sd.roundRank commits a.round ≤ sd.roundRank commits b.round := by exact pairwise_insertionSort ..

lemma roundRank_processed (h : sd.processedFor round = true) (r : ℤ) :
    sd.roundRank commits round ≤ sd.roundRank commits r := by
  obtain ⟨-, -, hr, -⟩ := processedFor_spec h
  have hra : sd.roundRank commits round = -1 := by
    unfold roundRank
    rw [hr, if_pos ⟨h, rfl⟩]
  rw [hra]
  unfold roundRank
  split <;> omega

lemma selectParkedCommit_selects {parked : Commit}
    (h : sd.selectParkedCommit W parked = .ok (sd', found)) : Selects W sd parked sd' found := by
  have ht : tryCommits W (sd.unparked.orderCommits (sd.waiting parked)) sd.unparked = .ok (sd', found) := h
  have hp : (sd.unparked.orderCommits (sd.waiting parked)).Perm (sd.waiting parked) := perm_insertionSort ..
  refine ⟨?_, fun hW hs => ?_, fun hW hst shape hc hre => ?_⟩
  · obtain ⟨tried, rest, sd₁, hor, hrj, he⟩ := tryCommits_ends ht
    exact ⟨tried, rest, sd₁, hor ▸ hp, hrj, he⟩
  · have hs : ∀ block ∈ sd.unparked.proposalBlock, W.Processes block := hs
    obtain ⟨more, ho, hco⟩ := tryCommits_count hW hs
      (fun commit hm r => roundRank_injective (hp.mem_iff.mp hm))
      (orderCommits_pairwise sd.unparked (sd.waiting parked))
      (fun r hr commit _ => roundRank_processed hr commit.round) ht
    exact ⟨more, ho, fun r => ⟨(hco r).1, fun hno => (hco r).2.2 fun commit hm =>
      hno commit (hp.mem_iff.mp hm)⟩⟩
  · have hre : Ready W shape sd.unparked := ⟨hre.sound, hre.record⟩
    rw [hre.tryCommits hW hst hc ht]
    refine ⟨fun ⟨commit, hm, hpa⟩ => ⟨commit, hp.mem_iff.mp hm, ?_⟩,
      fun ⟨commit, hm, sd₁, hch⟩ => ⟨commit, hp.mem_iff.mpr hm, ?_⟩⟩
    · exact hpa.check hW hst hc hre
    · exact (hre.check hW hst hc hch).1.mp rfl

/-- **Parked commits are all tried.** In every run each peer has one queued commit at most. While a commit is
parked, commits that arrive leave it there, and leave the candidates of other connected peers as they are and in
their order. Once the block is complete, the parked commit and the queued ones are tried; what the node expects of
the application by then is right, if the application has kept its contract. -/
theorem parked_commits_tried (cfg : Config) (state : ChainState) (lastCommit : Option Commit)
    (inputs : List (World × Event)) (sd : StateData) (h : reached cfg state lastCommit inputs = some sd) :
    (peers sd.candidates.candidates).Nodup ∧
      (∀ (arrivals : List CommitArrival) sd', sd.commit.isSome → run (turn cfg) (some sd) (arrivals.map (·.input)) = some sd' →
        (peers sd'.candidates.candidates).Nodup ∧
          ∀ keep, (∀ a ∈ arrivals, a.Spares keep) → Others keep sd sd') ∧
      (∀ W proposal block parts parked sd' found,
        selectParkedCommit W { sd with proposal := proposal, proposalBlock := some block, proposalBlockParts := parts }
          parked = .ok (sd', found) →
        Selects W { sd with proposal := proposal, proposalBlock := some block, proposalBlockParts := parts } parked sd'
          found) ∧
      ∀ shape, (∀ input ∈ inputs, input.1.KeepsContract shape) → sd.expectations.Sound shape := by
  refine ⟨nodup_run h, fun arrivals sd' hp hru => ⟨?_, fun keep hs => Others.run hs hp hru⟩,
    fun W proposal block parts parked sd' found => selectParkedCommit_selects,
    fun shape hc => sound_run hc h⟩
  have hr : reached cfg state lastCommit (inputs ++ arrivals.map (·.input)) = some sd' := by
    unfold reached at h ⊢
    rw [run_append, h, hru]
  exact nodup_run hr

def longCrypto : Crypto :=
  { Crypto.sample with verifySignatureDigest := fun _ key digest sig => sig = key ++ digest ++ List.replicate 16 0 }

def parkConfig : Config := { lockConfig with C := longCrypto }

def parkWorld : World := { lockWorld with verifyVoteExtension := fun _ vote => .ok vote.voteExtensions.isEmpty }

lemma parkWorld_keepsContract : parkWorld.KeepsContract fun _ _ => [] := by
  refine ⟨fun n vote => ⟨[], rfl, rfl⟩, fun n commit vote hv => ?_⟩
  obtain ⟨extensions, he, hv⟩ := of_bind hv
  cases hv
  cases hc : commit.thresholdVoteExtensions with
  | nil =>
    rw [hc] at he
    cases he
    rfl
  | cons first rest =>
    -- the vote of a commit with extensions has some
    rw [hc] at he
    cases first with
    | none => cases he
    | some pve =>
      obtain ⟨ext, -, he⟩ := of_bind he
      obtain ⟨exts, -, he⟩ := of_bind he
      cases he
      rfl

def lockCommit (round : ℤ) : Commit :=
  let vote : Vote := ⟨.precommit, 1, round, lockID, [], 0, [], []⟩
  let commit : Commit := ⟨1, round, lockID, (sampleValidators 4).quorumHash, [], []⟩
  match makeBlockSignItem longCrypto "chain" vote.toProto 100 commit.quorumHash with
  | .ok item => { commit with
      thresholdBlockSignature := List.replicate pubKeySize 1 ++ item.signHash ++ List.replicate 16 0 }
  | .error _ => commit

def parkedRun : List (World × Event) :=
  [.timeout ⟨1, 0, .newHeight⟩, .commit (lockCommit 0) "first" false,
    .commit (lockCommit 1) "second" false].map (parkWorld, ·)

def thirdCommit : CommitArrival := ⟨parkWorld, lockCommit 2, "third", false⟩

def filled (sd : StateData) : StateData :=
  { sd with proposal := none, proposalBlock := some lockBlock, proposalBlockParts := sd.proposalBlockParts }

/-- The third commit is queued behind the second, and the parked one is accepted once the block is there. -/
theorem parkedRun_tried : ∃ sd, reached parkConfig lockState none parkedRun = some sd ∧
    sd.commit = some (lockCommit 0) ∧ peers sd.candidates.candidates = ["second"] ∧
    (∃ sd', run (turn parkConfig) (some sd) [thirdCommit.input] = some sd' ∧
      peers sd'.candidates.candidates = ["second", "third"] ∧ Others (fun other => other.peerID = "second") sd sd') ∧
    ∃ sd' found, selectParkedCommit parkWorld sd.filled (lockCommit 0) = .ok (sd', found) ∧
      found = some (lockCommit 0) ∧ Selects parkWorld sd.filled (lockCommit 0) sd' found ∧
      ∃ commit ∈ sd.filled.waiting (lockCommit 0), ∃ sd₁,
        sd.filled.unparked.verifyHeldCommit parkWorld commit = .ok (sd₁, .ok ()) := by
  have hst : (reached parkConfig lockState none parkedRun).map (fun sd =>
      (sd.commit, peers sd.candidates.candidates)) = some (some (lockCommit 0), ["second"]) := by decide +kernel
  have ht : ((reached parkConfig lockState none parkedRun).bind fun sd =>
      (run (turn parkConfig) (some sd) [thirdCommit.input]).map fun sd' => peers sd'.candidates.candidates) =
        some ["second", "third"] := by decide +kernel
  have hsl : ((reached parkConfig lockState none parkedRun).bind fun sd =>
      ((selectParkedCommit parkWorld sd.filled (lockCommit 0)).toOption.map (·.2))) =
        some (some (lockCommit 0)) := by decide +kernel
  obtain ⟨sd, hsd, hst⟩ := Option.map_eq_some_iff.mp hst
  obtain ⟨hp, hpe⟩ := Prod.mk.inj hst
  rw [hsd] at ht hsl
  obtain ⟨sd₁, hru, hp₁⟩ := Option.map_eq_some_iff.mp ht
  obtain ⟨⟨sd₂, found⟩, hs, hf⟩ := Option.map_eq_some_iff.mp hsl
  have hs := toOption_eq_some.mp hs
  obtain ⟨-, har, hsn, hso⟩ := parked_commits_tried parkConfig lockState none parkedRun sd hsd
  have hse : Selects parkWorld sd.filled (lockCommit 0) sd₂ found := hsn _ _ _ _ _ _ _ hs
  have han : parkWorld.Answers := by
    rintro n block round crs ⟨⟩
    simp [CurrentRoundState.matchesBlock]
  have hr : Ready parkWorld (fun _ _ => []) sd.filled := by
    refine ⟨hso _ fun input hi => ?_, fun r _ block _ => ⟨_, rfl⟩⟩
    obtain ⟨event, -, rfl⟩ := mem_map.mp hi
    exact parkWorld_keepsContract
  refine ⟨sd, hsd, hp, hpe, ⟨sd₁, hru, hp₁, ?_⟩, sd₂, found, hs, hf, hse,
    (hse.found_iff han ⟨fun _ => rfl, fun _ => rfl⟩ _ parkWorld_keepsContract hr).mp
      (by rw [show found = some (lockCommit 0) from hf]; rfl)⟩
  refine (har [thirdCommit] sd₁ (by rw [hp]; rfl) hru).2 _ fun a ha other ho => ?_
  rw [mem_singleton.mp ha]
  rw [decide_eq_true_eq] at ho
  rw [ho]
  exact ⟨by decide, by simp [retainable, thirdCommit, parkWorld, lockWorld]⟩

end StateData

end Tenderdash
