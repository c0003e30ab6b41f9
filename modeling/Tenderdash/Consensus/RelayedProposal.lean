import Tenderdash.Consensus.OneVote

/-!
A proposal on its way through a relay. The signature of the proposer covers neither the core chain height nor the
state ID of the block, so a relay may change them, and the node only finds the true values once the block is
complete.

Until then two nodes that got different versions differ in their proposal alone (`Altered`), and once the block is
complete they do not differ at all. Nothing that compares the whole block ID may come before.
-/

namespace Tenderdash

open Lib Run HeightVoteSet Prod

structure Relays (p p' : ProposalProto) : Prop where
  height : p'.height = p.height
  round : p'.round = p.round
  polRound : p'.polRound = p.polRound
  timestamp : p'.timestamp = p.timestamp
  signature : p'.signature = p.signature
  hash : p'.blockID.hash = p.blockID.hash
  partSetHeader : p'.blockID.partSetHeader = p.blockID.partSetHeader

namespace StateData

variable {W : World} {cfg : Config} {sd sd' : StateData} {p p' : ProposalProto} {α : Type} {vote : Vote}

structure Altered (p p' : ProposalProto) (sd sd' : StateData) : Prop where
  proposal : sd.proposal = some p
  block : sd.proposalBlock = none
  eq : sd' = { sd with proposal := some p' }

inductive Together (p p' : ProposalProto) : Except String (Outcome α) → Except String (Outcome α) → Prop
  | ok {sd sd' : StateData} {result : Except ConsensusError α} (h : Altered p p' sd sd') :
      Together p p' (.ok (sd, result)) (.ok (sd', result))
  | error (e : String) : Together p p' (.error e) (.error e)

/-! ### Votes -/

def Below (cfg : Config) (sd : StateData) (ref : VoteRef) : Prop :=
  ∀ check votes added err, sd.votes.addVote cfg.C ref check = .ok (votes, added, err) →
    hasTwoThirdsAny (votes.getVoteSet ref.vote.round ref.vote.type) = false ∧
      twoThirdsMajority (votes.getVoteSet ref.vote.round ref.vote.type) = none

lemma dispatchPrevote_below (hb : sd.proposalBlock = none)
    (ha : hasTwoThirdsAny (sd.votes.prevotes vote.round) = false)
    (hm : twoThirdsMajority (sd.votes.prevotes vote.round) = none) :
    (sd.updateValidOnPolka vote).dispatchPrevote W cfg vote = .ok sd := by
  have hs : sd.updateValidOnPolka vote = sd := by
    unfold updateValidOnPolka
    rw [hm]
  have hc : sd.isProposalComplete = false := by
    unfold isProposalComplete
    split
    · rfl
    · simp [hb]
  rw [hs]
  unfold dispatchPrevote
  simp [ha, hm, hc]

lemma dispatchPrecommit_below (ha : hasTwoThirdsAny (sd.votes.precommits vote.round) = false)
    (hm : twoThirdsMajority (sd.votes.precommits vote.round) = none) : sd.dispatchPrecommit W cfg vote = .ok sd := by
  unfold dispatchPrecommit
  simp [ha, hm]

variable {ref : VoteRef} {budget : Option VerificationBudget} {node node' : Option StateData}

lemma addToVoteSet_together (h : Altered p p' sd sd') (hbe : Below cfg sd ref)
    (ht : ref.vote.type = .prevote ∨ ref.vote.type = .precommit) (check : VoteSet.VoteCheck) :
    Together p p' (sd.addToVoteSet W cfg ref check) (sd'.addToVoteSet W cfg ref check) := by
  obtain ⟨hp, hb, rfl⟩ := h
  unfold addToVoteSet
  cases had : sd.votes.addVote cfg.C ref check with
  | error e => exact .error e
  | ok stored =>
    obtain ⟨votes, added, err⟩ := stored
    obtain ⟨ha, hm⟩ := hbe check votes added err had
    cases err with
    | some e => cases added <;> exact .ok ⟨hp, hb, rfl⟩
    | none =>
      cases added with
      | false => exact .ok ⟨hp, hb, rfl⟩
      | true =>
        simp only [bind, Except.bind]
        rcases ht with ht | ht <;> rw [ht] at ha hm ⊢
        · rw [dispatchPrevote_below (by exact hb) (by exact ha) (by exact hm),
            dispatchPrevote_below (by exact hb) (by exact ha) (by exact hm)]
          exact .ok ⟨hp, hb, rfl⟩
        simp only
        rw [dispatchPrecommit_below (by exact ha) (by exact hm), dispatchPrecommit_below (by exact ha) (by exact hm)]
        exact .ok ⟨hp, hb, rfl⟩

lemma addPrecommit_together (h : Altered p p' sd sd') (hbe : Below cfg sd ref) (ht : ref.vote.type = .precommit)
    : Together p p' (sd.addPrecommit W cfg ref budget) (sd'.addPrecommit W cfg ref budget) := by
  have ha := fun check => addToVoteSet_together (W := W) h hbe (.inr ht) check
  obtain ⟨hp, hb, rfl⟩ := h
  have he : Altered p p' (sd.emit (.verifyVoteExtension ref.vote true))
      (emit { sd with proposal := some p' } (.verifyVoteExtension ref.vote true)) :=
    ⟨hp, hb, rfl⟩
  have ha' := fun check => addToVoteSet_together (W := W) he (by exact hbe) (.inr ht) check
  -- the block is missing, so the round of the application is left alone
  have ho : ∀ proposal, ensureOwnRound W { sd with proposal := proposal } =
      ({ sd with proposal := proposal }, .ok ()) := by
    intro proposal
    unfold ensureOwnRound
    cases proposal with
    | none => rfl
    | some proposal => simp [processedFor, hb]
  have hkn : knowsVote cfg { sd with proposal := some p' } ref.vote = sd.knowsVote cfg ref.vote := rfl
  unfold addPrecommit
  dsimp only
  rw [hkn]
  by_cases hn : ref.vote.blockID.isNil = true ∨ ref.vote.validatorProTxHash = cfg.proTxHash
  · rw [if_pos hn, if_pos hn]
    exact ha _
  rw [if_neg hn, if_neg hn]
  by_cases hk : sd.knowsVote cfg ref.vote = true
  · rw [if_pos hk, if_pos hk]
    exact .ok ⟨hp, hb, rfl⟩
  rw [if_neg hk, if_neg hk]
  cases hv : sd.state.validators.getByIndex ref.vote.validatorIndex with
  | none => exact .ok ⟨hp, hb, rfl⟩
  | some val =>
    dsimp only
    cases hs : (verifyVoteSignatures cfg.C (some ref) sd.state.chainID sd.state.validators.quorumType
      sd.state.validators.quorumHash val.pubKey val.proTxHash budget).settle with
    | error e => exact .error e
    | ok verified =>
      cases verified with
      | error e => exact .ok ⟨hp, hb, rfl⟩
      | ok verified =>
        simp only [bind, bind]
        rw [show sd.ensureOwnRound W = (sd, .ok ()) from ho sd.proposal, ho (some p')]
        dsimp only
        cases hex : W.verifyVoteExtension sd.outputs.length ref.vote with
        | error e => exact .error e
        | ok accepted =>
          cases accepted with
          | false => exact .ok ⟨hp, hb, rfl⟩
          | true => exact ha' _

lemma Together.handled {r r' : Except String (Outcome Bool)} (h : Together p p' r r') :
    Together p p' (r >>= fun result => match result with
      | (sd, .error e) => pure (sd.handleVoteError cfg vote e)
      | (sd, .ok added) => pure (sd, .ok added)) (r' >>= fun result => match result with
      | (sd, .error e) => pure (sd.handleVoteError cfg vote e)
      | (sd, .ok added) => pure (sd, .ok added)) := by
  cases h with
  | error e => exact .error e
  | ok ha =>
    rename_i result
    obtain ⟨hp, hb, rfl⟩ := ha
    cases result with
    | ok added => exact .ok ⟨hp, hb, rfl⟩
    | error e =>
      simp only [bind, Except.bind]
      unfold handleVoteError
      split
      · split
        · exact .ok ⟨hp, hb, rfl⟩
        · split <;> exact .ok ⟨hp, hb, rfl⟩
      · exact .ok ⟨hp, hb, rfl⟩

lemma addVote_together (h : Altered p p' sd sd') (hbe : Below cfg sd ref) (peerID : String) (fromReplay : Bool) :
    Together p p' (sd.addVote W cfg ref peerID fromReplay) (sd'.addVote W cfg ref peerID fromReplay) := by
  have ht := h
  obtain ⟨hp, hb, rfl⟩ := h
  unfold addVote
  by_cases hh : ref.vote.height ≠ sd.height ∨ sd.validators.hasPublicKeys = false
  · rw [if_pos hh, if_pos hh]
    exact .ok ⟨hp, hb, rfl⟩
  rw [if_neg hh, if_neg hh]
  by_cases hi : ref.vote.validatorIndex < 0 ∨ sd.validators.size ≤ ref.vote.validatorIndex
  · rw [if_pos hi, if_pos hi]
    exact .ok ⟨hp, hb, rfl⟩
  rw [if_neg hi, if_neg hi]
  cases hty : ref.vote.type with
  | prevote => exact (addToVoteSet_together ht hbe (.inl hty) _).handled
  | precommit => exact (addPrecommit_together ht hbe hty).handled
  | _ => exact .ok ⟨hp, hb, rfl⟩

/-! ### Block parts -/

lemma correctedProposal_eq (sd : StateData) (hr : Relays p p') (hp : sd.proposal = some p) (block : Block) :
    correctedProposal { sd with proposal := some p' } block = sd.correctedProposal block := by
  unfold correctedProposal
  simp only [hp, Option.bind_some]
  rw [hr.hash, hr.partSetHeader]
  obtain ⟨hh, hro, hpo, ht, hs, -, -⟩ := hr
  obtain ⟨height', round', polRound', blockID', timestamp', signature', coreHeight'⟩ := p'
  cases hh
  cases hro
  cases hpo
  cases ht
  cases hs
  rfl

lemma addProposalBlockPart_together (W : World) (cfg : Config) (hr : Relays p p') (h : Altered p p' sd sd')
    (height : ℤ) (part : Part Bytes) :
    sd.addProposalBlockPart W cfg height part = sd'.addProposalBlockPart W cfg height part ∨
      (Together p p' (sd.addProposalBlockPart W cfg height part) (sd'.addProposalBlockPart W cfg height part) ∧
        ∀ sd₁ added, sd.addProposalBlockPart W cfg height part = .ok (sd₁, .ok added) →
          added = true → sd₁.proposalBlockParts.any (·.isComplete) = false) := by
  obtain ⟨hp, hb, rfl⟩ := h
  unfold addProposalBlockPart
  cases hpa : sd.proposalBlockParts with
  | none =>
    refine .inr ⟨.ok ⟨hp, hb, by rw [hpa]⟩, ?_⟩
    rintro sd₁ added ⟨⟩ ⟨⟩
  | some parts =>
    dsimp only
    by_cases hg : sd.height ≠ height ∨ W.partProofAllowed = false
    · rw [if_pos hg, if_pos hg]
      refine .inr ⟨.ok ⟨hp, hb, by rw [hpa]⟩, ?_⟩
      rintro sd₁ added ⟨⟩ ⟨⟩
    rw [if_neg hg, if_neg hg]
    rcases ha : parts.addPart cfg.C.merkle part with ⟨parts', (e | msg) | added⟩
    · refine .inr ⟨.ok ⟨hp, hb, by rw [hpa]⟩, ?_⟩
      rintro sd₁ added ⟨⟩
    · exact .inl rfl
    dsimp only
    by_cases hbi : sd.state.maxBytes < (parts'.byteSize : ℤ)
    · rw [if_pos hbi, if_pos hbi]
      refine .inr ⟨.ok ⟨hp, hb, rfl⟩, ?_⟩
      rintro sd₁ added ⟨⟩
    rw [if_neg hbi, if_neg hbi]
    by_cases hu : added = false ∨ parts'.isComplete = false
    · rw [if_pos hu, if_pos hu]
      refine .inr ⟨.ok ⟨hp, hb, rfl⟩, ?_⟩
      rintro sd₁ _ ⟨⟩ rfl
      simpa using hu
    rw [if_neg hu, if_neg hu]
    cases hd : cfg.decode (readParts parts') with
    | none =>
      refine .inr ⟨.ok ⟨hp, hb, rfl⟩, ?_⟩
      rintro sd₁ added ⟨⟩
    | some block =>
      -- the altered fields are taken from the block
      have hc := correctedProposal_eq { sd with proposalBlockParts := some parts' } hr hp block
      dsimp only at hc ⊢
      rw [hc]
      exact .inl rfl

/-! ### Runs -/

/-- What leaves two nodes waiting for the block of one proposal alike: proposals, block parts, claims of peers, and
votes as long as they are few. -/
def Quiet (cfg : Config) (sd : StateData) : Event → Prop
  | .proposal .. | .blockPart .. | .peerMaj23 .. => True
  | .vote msg _ _ => Below cfg sd msg.ref
  | .commit .. | .timeout _ | .txsAvailable => False

def Alike (p p' : ProposalProto) (sd sd' : StateData) : Prop := sd' = sd ∨ Altered p p' sd sd'

def AlikeNodes (p p' : ProposalProto) (node node' : Option StateData) : Prop := Option.Rel (Alike p p') node node'

lemma AlikeNodes.refl (p p' : ProposalProto) (node : Option StateData) : AlikeNodes p p' node node := by
  cases node with
  | none => exact .none
  | some sd => exact .some (.inl rfl)

lemma AlikeNodes.of_together {r r' : Except String (Outcome α)} (h : Together p p' r r') :
    AlikeNodes p p' (r.toOption.map fst) (r'.toOption.map fst) := by
  cases h with
  | ok h => exact .some (.inr h)
  | error e => exact .none

lemma toOption_bind_fst (r : Except String (Outcome α)) :
    (r >>= fun result => (pure result.1 : Except String StateData)).toOption = r.toOption.map fst := by
  cases r <;> rfl

lemma addBlockPart_alike (W : World) (cfg : Config) (hr : Relays p p') (h : Altered p p' sd sd') (height : ℤ)
    (part : Part Bytes) :
    AlikeNodes p p' ((sd.addBlockPart W cfg height part).toOption.map fst)
      ((sd'.addBlockPart W cfg height part).toOption.map fst) := by
  have hco : sd'.commit = sd.commit := by rw [h.eq]
  unfold addBlockPart
  rw [hco]
  rcases addProposalBlockPart_together W cfg hr h height part with hs | ⟨ht, hu⟩
  · rw [hs]
    exact .refl ..
  generalize sd.addProposalBlockPart W cfg height part = r at ht hu ⊢
  generalize sd'.addProposalBlockPart W cfg height part = r' at ht ⊢
  cases ht with
  | error e => exact .none
  | @ok sd₁ sd₁' result ha =>
    cases result with
    | error e => exact .some (.inr ha)
    | ok added =>
      -- nothing follows from a part that does not complete the block
      have hn : ¬ (added = true ∧ sd₁.proposalBlockParts.any (·.isComplete) = true) := by
        rintro ⟨had, hc⟩
        rw [hu sd₁ added rfl had] at hc
        cases hc
      have hp : sd₁'.proposalBlockParts = sd₁.proposalBlockParts := by rw [ha.eq]
      simp only [bind, Except.bind]
      rw [if_neg (fun h => hn ⟨h.1, h.2.2⟩), if_neg (fun h => hn ⟨h.1, hp ▸ h.2.2⟩)]
      exact .some (.inr ha)

lemma turn_alike {input : World × Event} (hr : Relays p p') (h : AlikeNodes p p' node node')
    (hq : ∀ sd ∈ node, Quiet cfg sd input.2) : AlikeNodes p p' (turn cfg node input) (turn cfg node' input) := by
  obtain ⟨W, event⟩ := input
  cases h with
  | none => exact .none
  | some h =>
    rename_i sd sd'
    rcases h with rfl | h
    · exact .refl ..
    have hq := hq sd rfl
    show AlikeNodes p p' (sd.handle W cfg event).toOption (sd'.handle W cfg event).toOption
    cases event with
    | proposal proposal peerID fromReplay =>
      -- there is a proposal already
      have hse : ∀ sd : StateData, sd.proposal.isSome → ∀ budget, sd.setProposal W cfg proposal budget = .ok (sd, .ok ()) := by
        intro sd hs budget
        unfold setProposal
        rw [if_pos (.inl hs)]
        rfl
      have hs : sd.proposal.isSome := by rw [h.proposal]; rfl
      have hs' : sd'.proposal.isSome := by rw [h.eq]; rfl
      simp only [handle, hse sd hs, hse sd' hs']
      cases logMessage W peerID fromReplay with
      | error e => exact .none
      | ok _ => exact .some (.inr h)
    | blockPart height part peerID fromReplay =>
      simp only [handle]
      cases logMessage W peerID fromReplay with
      | error e => exact .none
      | ok _ =>
        have ha := addBlockPart_alike W cfg hr h height part
        rw [← toOption_bind_fst, ← toOption_bind_fst] at ha
        exact ha
    | vote msg peerID fromReplay =>
      simp only [handle]
      cases logMessage W peerID fromReplay with
      | error e => exact .none
      | ok _ =>
        have ha := AlikeNodes.of_together (addVote_together (W := W) h hq peerID fromReplay)
        rw [← toOption_bind_fst, ← toOption_bind_fst] at ha
        exact ha
    | peerMaj23 height round type peerID blockID =>
      obtain ⟨hp, hb, rfl⟩ := h
      exact .some (.inr ⟨hp, hb, rfl⟩)
    | commit | timeout | txsAvailable => exact absurd hq id

def staysQuiet (cfg : Config) (node : Option StateData) (input : World × Event) : Prop :=
  ∀ sd ∈ node, Quiet cfg sd input.2

lemma run_alike {inputs : List (World × Event)} (hr : Relays p p')
    (h : AlikeNodes p p' node node') (hq : Admitted (turn cfg) (staysQuiet cfg) node inputs) :
    AlikeNodes p p' (run (turn cfg) node inputs) (run (turn cfg) node' inputs) := by
  induction inputs generalizing node node' with
  | nil => exact h
  | cons input rest ih => exact ih (turn_alike hr h hq.1) hq.2

def Accepts (W : World) (cfg : Config) (sd : StateData) (p : ProposalProto) (budget : Option VerificationBudget) : Prop :=
  sd.proposal = none ∧ ∃ r ∈ (sd.setProposal W cfg p budget).toOption, r.2.isOk = true ∧ r.1.proposal = some p

instance (W : World) (cfg : Config) (sd : StateData) (p : ProposalProto) (budget : Option VerificationBudget) :
    Decidable (sd.Accepts W cfg p budget) := by
  unfold Accepts
  infer_instance

lemma Accepts.spec (h : sd.Accepts W cfg p budget) :
    sd.checkProposal p = .ok () ∧ sd.setProposal W cfg p budget = .ok ({ sd with
      proposal := some p
      proposalBlockParts := sd.proposalBlockParts.getD
        (.newFromHeader p.blockID.partSetHeader.total p.blockID.partSetHeader.hash) }, .ok ()) := by
  obtain ⟨hn, ⟨sd₁, result⟩, hs, hok, hso⟩ := h
  cases result with
  | error e => cases hok
  | ok _ =>
  have hs := Go.toOption_eq_some.mp hs
  have hk : ¬ (Except.ok (sd, .ok ()) : Except String (Outcome Unit)) = .ok (sd₁, .ok ()) := by
    rintro ⟨⟩
    rw [hn] at hso
    cases hso
  have hs' := hs
  unfold setProposal at hs
  split at hs
  · exact absurd hs hk
  split at hs
  · exact absurd hs hk
  split at hs
  · cases hs
  next hc =>
  refine ⟨hc, ?_⟩
  obtain ⟨verified, -, hs⟩ := Go.of_bind hs
  cases verified with
  | error e => cases hs
  | ok _ =>
    cases hs
    exact hs'

lemma accepts_alike (hsn : sd.view.Sane) (hr : Relays p p')
    (h : sd.Accepts W cfg p budget) (h' : sd.Accepts W cfg p' budget) :
    ∃ sd₁ sd₁', sd.setProposal W cfg p budget = .ok (sd₁, .ok ()) ∧
      sd.setProposal W cfg p' budget = .ok (sd₁', .ok ()) ∧ Alike p p' sd₁ sd₁' := by
  obtain ⟨hch, hse⟩ := h.spec
  obtain ⟨hc', hs'⟩ := h'.spec
  refine ⟨_, _, hse, hs', ?_⟩
  cases hb : sd.proposalBlock with
  | none =>
    refine .inr ⟨rfl, rfl, ?_⟩
    rw [hr.partSetHeader]
  | some block =>
    -- both versions say what the block says
    obtain ⟨parts, hp⟩ : ∃ parts, sd.proposalBlockParts = some parts := by
      refine Option.isSome_iff_exists.mp (hsn.held_parts ?_)
      simp [view, hb]
    have hsa : ∀ q, sd.checkProposal q = .ok () → q.blockID = blockIDOf sd.proposalBlock sd.proposalBlockParts ∧
        q.coreChainLockedHeight = block.coreChainLockedHeight := by
      intro q hq
      unfold checkProposal at hq
      rw [hb, hp] at hq ⊢
      split at hq
      · cases hq
      split at hq
      · cases hq
      dsimp only at hq
      split at hq
      · cases hq
      next hid =>
      split at hq
      · cases hq
      · next hc => exact ⟨(not_not.mp hid).symm, (not_not.mp hc).symm⟩
    have hsm : p' = p := by
      obtain ⟨hid, hc⟩ := hsa p hch
      obtain ⟨hi', hco'⟩ := hsa p' hc'
      obtain ⟨hh, hro, hpo, ht, hs, -, -⟩ := hr
      obtain ⟨height, round, polRound, blockID, timestamp, signature, core⟩ := p
      obtain ⟨height', round', polRound', blockID', timestamp', signature', core'⟩ := p'
      dsimp only at *
      rw [hh, hro, hpo, ht, hs, hid, hi', hc, hco']
    rw [hsm]
    exact .inl rfl

def SameVotes (node node' : Option StateData) (height round : ℤ) : Prop :=
  node.map (fun sd => (sd.votesAsked .prevote height round, sd.votesAsked .precommit height round)) =
    node'.map (fun sd => (sd.votesAsked .prevote height round, sd.votesAsked .precommit height round))

instance (node node' : Option StateData) (height round : ℤ) : Decidable (SameVotes node node' height round) := by
  unfold SameVotes
  infer_instance

lemma AlikeNodes.sameVotes (h : AlikeNodes p p' node node') (height round : ℤ) : SameVotes node node' height round := by
  cases h with
  | none => rfl
  | some h =>
    rcases h with rfl | h
    · rfl
    obtain ⟨-, -, rfl⟩ := h
    rfl

/-- **A relay cannot sway a vote** as long as nothing but proposals, block parts, claims of peers and few votes comes
between the proposal and the end of its block. -/
theorem relay_cannot_sway (cfg : Config) (state : ChainState) (lastCommit : Option Commit) (hstarts : Starts state)
    (before between after : List (World × Event)) (W : World) (p p' : ProposalProto) (peerID : String)
    (fromReplay : Bool) (hrelays : Relays p p')
    (haccepts : ∀ sd ∈ reached cfg state lastCommit before, sd.Accepts W cfg p (W.peerBudget peerID fromReplay) ∧
      sd.Accepts W cfg p' (W.peerBudget peerID fromReplay))
    (hquiet : Admitted (turn cfg) (staysQuiet cfg)
      (reached cfg state lastCommit (before ++ [(W, .proposal p peerID fromReplay)])) between)
    (hcomplete : after = [] ∨
      ∀ sd ∈ reached cfg state lastCommit (before ++ (W, .proposal p peerID fromReplay) :: between),
        sd.proposalBlock.isSome) :
    SameVotes (reached cfg state lastCommit (before ++ (W, .proposal p peerID fromReplay) :: (between ++ after)))
      (reached cfg state lastCommit (before ++ (W, .proposal p' peerID fromReplay) :: (between ++ after)))
      p.height p.round := by
  have hr : ∀ q rest, reached cfg state lastCommit (before ++ (W, .proposal q peerID fromReplay) :: rest) =
      run (turn cfg) (turn cfg (reached cfg state lastCommit before) (W, .proposal q peerID fromReplay)) rest := by
    intro q rest
    unfold reached
    rw [run_append, run_cons]
  -- the proposal leaves the node alike
  have hse : AlikeNodes p p' (turn cfg (reached cfg state lastCommit before) (W, .proposal p peerID fromReplay))
      (turn cfg (reached cfg state lastCommit before) (W, .proposal p' peerID fromReplay)) := by
    cases hsd : reached cfg state lastCommit before with
    | none => exact .none
    | some sd =>
      obtain ⟨hp, hp'⟩ := haccepts sd hsd
      obtain ⟨sd₁, sd₁', hse, hs', ha⟩ := accepts_alike (sane_run hstarts before hsd) hrelays hp hp'
      show AlikeNodes p p' (sd.handle W cfg (.proposal p peerID fromReplay)).toOption
        (sd.handle W cfg (.proposal p' peerID fromReplay)).toOption
      simp only [handle, hse, hs']
      cases logMessage W peerID fromReplay with
      | error e => exact .none
      | ok _ => exact .some ha
  rw [hr p []] at hquiet
  have hb := run_alike hrelays hse hquiet
  rw [hr, hr, run_append, run_append]
  rcases hcomplete with rfl | hcomplete
  · exact hb.sameVotes ..
  -- with the block the nodes are the same, and stay so
  rw [hr] at hcomplete
  have hsa : run (turn cfg) (turn cfg (reached cfg state lastCommit before) (W, .proposal p' peerID fromReplay))
      between = run (turn cfg) (turn cfg (reached cfg state lastCommit before) (W, .proposal p peerID fromReplay))
      between := by
    generalize hn : run (turn cfg) (turn cfg (reached cfg state lastCommit before)
      (W, .proposal p peerID fromReplay)) between = node at hb hcomplete ⊢
    generalize run (turn cfg) (turn cfg (reached cfg state lastCommit before)
      (W, .proposal p' peerID fromReplay)) between = node' at hb ⊢
    cases hb with
    | none => rfl
    | some h =>
      rcases h with rfl | h
      · rfl
      have hs := hcomplete _ rfl
      rw [h.block] at hs
      cases hs
  rw [hsa]
  rfl

def withStateID (p : ProposalProto) (stateID : Bytes) : ProposalProto :=
  { p with blockID := { p.blockID with stateID := stateID } }

lemma relays_withStateID (p : ProposalProto) (stateID : Bytes) : Relays p (withStateID p stateID) :=
  ⟨rfl, rfl, rfl, rfl, rfl, rfl, rfl⟩

def relayedProposal : ProposalProto := withStateID (lockProposal 0 (-1)) (List.replicate hashSize 7)

def otherPrevotes : List (World × Event) :=
  [voteEvent .prevote 0 1 lockID, voteEvent .prevote 0 2 lockID, voteEvent .prevote 0 3 lockID].map (lockWorld, ·)

def proposeStep : List (World × Event) := [(lockWorld, .timeout ⟨1, 0, .newHeight⟩)]

/-- The block comes before the prevotes, and both versions of the proposal lead to the same votes. -/
theorem block_first_same_votes :
    SameVotes (reached lockConfig lockState none (proposeStep ++ (lockWorld, .proposal (lockProposal 0 (-1)) "peer" false) ::
        ([(lockWorld, .blockPart 1 lockPart "peer" false)] ++ otherPrevotes)))
      (reached lockConfig lockState none (proposeStep ++ (lockWorld, .proposal relayedProposal "peer" false) ::
        ([(lockWorld, .blockPart 1 lockPart "peer" false)] ++ otherPrevotes))) (lockProposal 0 (-1)).height
      (lockProposal 0 (-1)).round :=
  relay_cannot_sway lockConfig lockState none ⟨by decide, by decide⟩ proposeStep
    [(lockWorld, .blockPart 1 lockPart "peer" false)] otherPrevotes lockWorld (lockProposal 0 (-1)) relayedProposal "peer"
    false (relays_withStateID ..) (by decide +kernel) ⟨fun _ _ => trivial, trivial⟩ (.inr (by decide +kernel))

def votesAfterPolka (p : ProposalProto) : Option (List BlockID × List BlockID) :=
  (reached lockConfig lockState none (proposeStep ++ (lockWorld, .proposal p "peer" false) :: otherPrevotes ++
    [(lockWorld, .blockPart 1 lockPart "peer" false), (lockWorld, .timeout ⟨1, 0, .propose⟩)])).map fun sd =>
      ((sd.votesAsked .prevote 1 0).map (·.blockID), (sd.votesAsked .precommit 1 0).map (·.blockID))

/-- The majority of prevotes comes before the block. It drops the altered proposal, and the node votes for nil where
it would have voted for the block. -/
theorem relay_sways_vote :
    Relays (lockProposal 0 (-1)) relayedProposal ∧
    (∀ sd ∈ reached lockConfig lockState none proposeStep, sd.Accepts lockWorld lockConfig (lockProposal 0 (-1)) none ∧
      sd.Accepts lockWorld lockConfig relayedProposal none) ∧
    votesAfterPolka (lockProposal 0 (-1)) = some ([lockID], [lockID]) ∧
    votesAfterPolka relayedProposal = some ([.nil], []) :=
  ⟨relays_withStateID .., by decide +kernel, by decide +kernel, by decide +kernel⟩

end StateData

end Tenderdash
