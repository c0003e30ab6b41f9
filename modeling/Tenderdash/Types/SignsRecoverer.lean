import Tenderdash.Types.Vote

/-!
Collecting the signature shares of a set of votes and recovering the threshold signatures of the
block and of the vote extensions from them.

Every vote contributes its block signature. Extension shares are taken only from the voters the
caller names; the first of them that carries recoverable extensions fixes the vector of extensions,
and the others must carry as many.
-/

namespace Tenderdash

open Lib Go List

abbrev Shares := List (Bytes × Bytes)

def Shares.addThresholdSignature (shares : Shares) (proTxHash sig : Bytes) : Go String Shares := do
  failIf (proTxHash.length ≠ proTxHashSize)
    s!"invalid validator proTxHash length: got {proTxHash.length}, want {proTxHashSize}"
  failIf (sig.length ≠ signatureSize) s!"invalid threshold signature length: got {sig.length}, want {signatureSize}"
  return shares.filter (·.1 ≠ proTxHash) ++ [(proTxHash, sig)]

def Shares.thresholdRecover (C : Crypto) (shares : Shares) : Go String Bytes := do
  failIf (shares = []) "vote extension does not have any signatures for threshold-recovering"
  C.recoverThresholdSignature (shares.map (·.2)) (shares.map (·.1))

/-- The state of a recovery. The option that selects votes by their number of extensions is
deprecated and has no caller. -/
structure SignsRecoverer where
  blockSigs : List Bytes
  validatorProTxHashes : List Bytes
  voteExtensions : List (VoteExtension × Shares)
  canonicalVoteExtVoters : Option (List Bytes)
  quorumReached : Bool
  deriving DecidableEq, Repr

namespace SignsRecoverer

def addShares (proTxHash : Bytes) :
    List (VoteExtension × Shares) → List VoteExtension → Go String (List (VoteExtension × Shares))
  | (ext, shares) :: rest, received :: exts => do
    let shares' ← shares.addThresholdSignature proTxHash received.proto.signature
    let rest' ← addShares proTxHash rest exts
    return (ext, shares') :: rest'
  | rest, _ => .ok rest

def wantsShares (r : SignsRecoverer) (vote : Vote) : Bool :=
  match r.canonicalVoteExtVoters with
  | some voters => vote.validatorProTxHash ∈ voters
  | none => true

def addVoteExtensionSigs (r : SignsRecoverer) (vote : Vote) : Go String SignsRecoverer :=
  if r.wantsShares vote = false ∨ vote.voteExtensions = [] then .ok r
  else if vote.type ≠ .precommit ∨ vote.blockID.isNil then
    Go.fail "only non-nil precommits can have vote extensions"
  else
    if vote.recoverable = [] then .ok r
    else
      let current :=
        if r.voteExtensions = [] then vote.recoverable.map (·, []) else r.voteExtensions
      if vote.recoverable.length ≠ current.length then
        Go.fail "received vote extensions with different length"
      else do
        let extensions ← addShares vote.validatorProTxHash current vote.recoverable
        return { r with voteExtensions := extensions }

/-- `addVoteSigs` for a vote that is not nil. -/
def addVoteSigs (r : SignsRecoverer) (vote : Vote) : Go String SignsRecoverer :=
  addVoteExtensionSigs { r with
    blockSigs := r.blockSigs ++ [vote.blockSignature]
    validatorProTxHashes := r.validatorProTxHashes ++ [vote.validatorProTxHash] } vote

/-- The loop of `init` over the votes that are not nil. -/
def addVotes (r : SignsRecoverer) : List Vote → Go String SignsRecoverer
  | [] => .ok r
  | vote :: votes => do (← r.addVoteSigs vote).addVotes votes

/-- `NewSignsRecoverer`. -/
def new (votes : List (Option Vote)) (quorumReached : Bool) (voters : Option (List Bytes)) : Go String SignsRecoverer :=
  addVotes ⟨[], [], [], voters, quorumReached⟩ (votes.filterMap id)

/-- The block's signature, and those of the extensions if the quorum is for a block. -/
def recover (C : Crypto) (r : SignsRecoverer) : Go String QuorumSigns := do
  let blockSign ← C.recoverThresholdSignature r.blockSigs r.validatorProTxHashes
  let signatures ← (if r.quorumReached then r.voteExtensions.mapM fun ext => ext.2.thresholdRecover C else .ok [])
  return ⟨blockSign, signatures⟩

/-- The extensions with the recovered signatures. -/
def getVoteExtensions (r : SignsRecoverer) (signs : QuorumSigns) : Go String (List VoteExtension) :=
  if signs.voteExtensionSignatures.length ≠ r.voteExtensions.length then
    Go.crash "count of threshold vote extension signatures doesn't match recoverable vote extensions"
  else .ok (List.zipWith (fun ext sig => ext.1.setSignature sig) r.voteExtensions signs.voteExtensionSignatures)

/-! ### What a recovery collects

The votes whose shares are wanted agree on the digests of their extensions: the `j`-th extension of
each is an item for the `j`-th digest, with a good signature for it. -/

section Collect

variable {Item : VoteExtension → Bytes → Prop} {Good : Vote → Bytes → Bytes → Prop}
  {digests : List Bytes}

structure Contributes (Item : VoteExtension → Bytes → Prop) (Good : Vote → Bytes → Bytes → Prop)
    (digests : List Bytes) (m : Vote) : Prop where
  proTxHash_length : m.validatorProTxHash.length = proTxHashSize
  shares : List.Forall₂ (fun ext digest => Item ext digest ∧
    ext.proto.signature.length = signatureSize ∧ Good m digest ext.proto.signature)
    m.recoverable digests
  precommit : m.voteExtensions ≠ [] → m.type = .precommit ∧ m.blockID.isNil = false

structure Collected (Item : VoteExtension → Bytes → Prop) (Good : Vote → Bytes → Bytes → Prop)
    (ms : List Vote) (entry : VoteExtension × Shares) (digest : Bytes) : Prop where
  item : Item entry.1 digest
  voters : entry.2.map (·.1) = ms.map (·.validatorProTxHash)
  good : ∀ share ∈ entry.2, ∃ m ∈ ms, share.1 = m.validatorProTxHash ∧ Good m digest share.2

lemma addThresholdSignature_new {shares : Shares} {proTxHash sig : Bytes} (hh : proTxHash.length = proTxHashSize)
    (hs : sig.length = signatureSize) (hn : proTxHash ∉ shares.map (·.1)) :
    shares.addThresholdSignature proTxHash sig = .ok (shares ++ [(proTxHash, sig)]) := by
  have hk : shares.filter (·.1 ≠ proTxHash) = shares := by
    rw [filter_eq_self]
    intro share hm
    have : share.1 ≠ proTxHash := fun heq => hn (heq ▸ mem_map_of_mem hm)
    simpa using this
  rw [Shares.addThresholdSignature, bind_eq_ok]
  refine ⟨(), by simp [hh], bind_eq_ok.mpr ⟨(), by simp [hs], ?_⟩⟩
  rw [hk]
  rfl

variable {ms : List Vote} {entries : List (VoteExtension × Shares)} {voters : List Bytes} {quorumReached : Bool}
  {r : SignsRecoverer} {SigOk : Bytes → Bytes → Prop} {C : Crypto} {m : Vote}

lemma addShares_spec
    (hh : m.validatorProTxHash.length = proTxHashSize)
    (hn : m.validatorProTxHash ∉ ms.map (·.validatorProTxHash)) {exts : List VoteExtension}
    (hex : List.Forall₂ (fun ext digest => Item ext digest ∧
      ext.proto.signature.length = signatureSize ∧ Good m digest ext.proto.signature) exts digests)
    (h : List.Forall₂ (Collected Item Good ms) entries digests) :
    ∃ entries', addShares m.validatorProTxHash entries exts = .ok entries' ∧
      List.Forall₂ (Collected Item Good (ms ++ [m])) entries' digests := by
  induction h generalizing exts with
  | nil =>
    cases hex
    exact ⟨[], rfl, .nil⟩
  | @cons entry digest entries digests he _ ih =>
    obtain ⟨ext, rest, ⟨-, hsi, hgo⟩, hr, rfl⟩ := forall₂_cons_right_iff.mp hex
    obtain ⟨entries', ha, he'⟩ := ih hr
    obtain ⟨e, shares⟩ := entry
    have hs := addThresholdSignature_new hh hsi (by rw [he.voters]; exact hn)
    refine ⟨(e, shares ++ [(m.validatorProTxHash, ext.proto.signature)]) :: entries', ?_, .cons ⟨he.item, ?_, ?_⟩ he'⟩
    · exact bind_eq_ok.mpr ⟨_, hs, bind_eq_ok.mpr ⟨_, ha, rfl⟩⟩
    · rw [map_append, map_append, he.voters]
      rfl
    intro share hm
    rcases mem_append.mp hm with hm | hm
    · obtain ⟨m', hm', hp, hg⟩ := he.good share hm
      exact ⟨m', mem_append_left _ hm', hp, hg⟩
    rw [mem_singleton] at hm
    exact ⟨m, by simp, by rw [hm], by rw [hm]; exact hgo⟩

structure CollectedFrom (Item : VoteExtension → Bytes → Prop) (Good : Vote → Bytes → Bytes → Prop)
    (digests : List Bytes) (voters : List Bytes) (quorumReached : Bool) (done : List Vote)
    (r : SignsRecoverer) : Prop where
  blockSigs : r.blockSigs = done.map (·.blockSignature)
  hashes : r.validatorProTxHashes = done.map (·.validatorProTxHash)
  wanted : r.canonicalVoteExtVoters = some voters
  reached : r.quorumReached = quorumReached
  entries : (done.filter (·.validatorProTxHash ∈ voters) = [] ∧ r.voteExtensions = []) ∨
    List.Forall₂ (Collected Item Good (done.filter (·.validatorProTxHash ∈ voters)))
      r.voteExtensions digests

lemma CollectedFrom.addVoteSigs {done : List Vote} (h : CollectedFrom Item Good digests voters quorumReached done r) (hm : m.validatorProTxHash ∈ voters → Contributes Item Good digests m)
    (hnw : m.validatorProTxHash ∉ done.map (·.validatorProTxHash)) :
    ∃ r', r.addVoteSigs m = .ok r' ∧ CollectedFrom Item Good digests voters quorumReached (done ++ [m]) r' := by
  have hb : r.blockSigs ++ [m.blockSignature] = (done ++ [m]).map (·.blockSignature) := by
    rw [h.blockSigs, map_append]
    rfl
  have hh : r.validatorProTxHashes ++ [m.validatorProTxHash] = (done ++ [m]).map (·.validatorProTxHash) := by
    rw [h.hashes, map_append]
    rfl
  unfold SignsRecoverer.addVoteSigs addVoteExtensionSigs
  simp only [wantsShares, h.wanted, decide_eq_false_iff_not]
  by_cases hw : m.validatorProTxHash ∈ voters
  · -- the vote's shares are wanted
    have hc := hm hw
    have hme : (done ++ [m]).filter (·.validatorProTxHash ∈ voters) =
        done.filter (·.validatorProTxHash ∈ voters) ++ [m] := by simp [filter_append, hw]
    by_cases hr : m.recoverable = []
    · -- no recoverable extension, so there is no digest either
      have hd : digests = [] := by
        have := hc.shares
        rw [hr] at this
        exact forall₂_nil_left_iff.mp this
      have hn : r.voteExtensions = [] := by
        rcases h.entries with ⟨-, hn⟩ | he
        · exact hn
        rw [hd] at he
        exact forall₂_nil_right_iff.mp he
      have he : List.Forall₂ (Collected Item Good ((done ++ [m]).filter
          (·.validatorProTxHash ∈ voters))) r.voteExtensions digests := by
        rw [hn, hd]
        exact .nil
      by_cases hex : m.voteExtensions = []
      · rw [if_pos (.inr hex)]
        exact ⟨_, rfl, hb, hh, rfl, h.reached, .inr he⟩
      obtain ⟨ht, hni⟩ := hc.precommit hex
      rw [if_neg (by simp [hw, hex]), if_neg (by simp [ht, hni]), if_pos hr]
      exact ⟨_, rfl, hb, hh, rfl, h.reached, .inr he⟩
    · have hex : m.voteExtensions ≠ [] := by
        intro hni
        exact hr (by rw [Vote.recoverable, hni]; rfl)
      have hd : digests ≠ [] := by
        rintro rfl
        exact hr (forall₂_nil_right_iff.mp hc.shares)
      obtain ⟨ht, hni⟩ := hc.precommit hex
      rw [if_neg (by simp [hw, hex]), if_neg (by simp [ht, hni]), if_neg hr]
      -- the first contributing vote fixes the extensions
      have hcu : List.Forall₂ (Collected Item Good (done.filter (·.validatorProTxHash ∈ voters)))
          (if r.voteExtensions = [] then m.recoverable.map (·, []) else r.voteExtensions)
          digests := by
        rcases h.entries with ⟨hmem, hn⟩ | he
        · rw [if_pos hn, hmem, forall₂_map_left_iff]
          exact hc.shares.imp fun ext digest het => ⟨het.1, rfl, by simp⟩
        have hne : r.voteExtensions ≠ [] := by
          intro hn
          rw [hn] at he
          exact hd (forall₂_nil_left_iff.mp he)
        rw [if_neg hne]
        exact he
      have hl : m.recoverable.length =
          (if r.voteExtensions = [] then m.recoverable.map (·, []) else r.voteExtensions).length := by
        rw [hcu.length_eq, hc.shares.length_eq]
      have hn' : m.validatorProTxHash ∉ (done.filter (·.validatorProTxHash ∈ voters)).map (·.validatorProTxHash) := by
        intro hmem
        obtain ⟨v, hv, heq⟩ := mem_map.mp hmem
        exact hnw (mem_map.mpr ⟨v, mem_of_mem_filter hv, heq⟩)
      obtain ⟨entries, ha, he⟩ := addShares_spec hc.proTxHash_length hn' hc.shares hcu
      rw [if_neg (not_not.mpr hl)]
      refine ⟨_, bind_eq_ok.mpr ⟨entries, ha, rfl⟩, hb, hh, rfl, h.reached, .inr ?_⟩
      rw [hme]
      exact he
  · -- the vote contributes its block signature only
    have hme : (done ++ [m]).filter (·.validatorProTxHash ∈ voters) = done.filter (·.validatorProTxHash ∈ voters) := by
      simp [filter_append, hw]
    rw [if_pos (.inl hw)]
    exact ⟨_, rfl, hb, hh, rfl, h.reached, by rw [hme]; exact h.entries⟩

lemma CollectedFrom.addVotes {done votes : List Vote} (h : CollectedFrom Item Good digests voters quorumReached done r)
    (hv : ∀ v ∈ votes, v.validatorProTxHash ∈ voters → Contributes Item Good digests v)
    (hn : ((done ++ votes).map (·.validatorProTxHash)).Nodup) :
    ∃ r', r.addVotes votes = .ok r' ∧ CollectedFrom Item Good digests voters quorumReached (done ++ votes) r' := by
  induction votes generalizing done r with
  | nil => exact ⟨r, rfl, by simpa using h⟩
  | cons v votes ih =>
    have ha : done ++ v :: votes = (done ++ [v]) ++ votes := by simp
    have hne : v.validatorProTxHash ∉ done.map (·.validatorProTxHash) := by
      rw [map_append, nodup_append] at hn
      intro hm
      exact hn.2.2 _ hm _ (by simp) rfl
    obtain ⟨r₁, hr₁, h₁⟩ := h.addVoteSigs (hv v mem_cons_self) hne
    rw [ha] at hn ⊢
    obtain ⟨r₂, hr₂, h₂⟩ := ih h₁ (fun w hw => hv w (mem_cons_of_mem _ hw)) hn
    exact ⟨r₂, bind_eq_ok.mpr ⟨r₁, hr₁, hr₂⟩, h₂⟩

theorem new_spec {votes : List (Option Vote)} (quorumReached : Bool)
    (hv : ∀ v ∈ votes.filterMap id, v.validatorProTxHash ∈ voters → Contributes Item Good digests v)
    (hn : ((votes.filterMap id).map (·.validatorProTxHash)).Nodup) :
    ∃ r, new votes quorumReached (some voters) = .ok r ∧
      CollectedFrom Item Good digests voters quorumReached (votes.filterMap id) r := by
  have hs : CollectedFrom Item Good digests voters quorumReached []
      ⟨[], [], [], some voters, quorumReached⟩ := ⟨rfl, rfl, rfl, rfl, .inl ⟨rfl, rfl⟩⟩
  exact hs.addVotes hv hn

lemma mapM_thresholdRecover (hms : ms ≠ [])
    (he : List.Forall₂ (Collected Item Good ms) entries digests)
    (hr : ∀ entry digest, Collected Item Good ms entry digest → ∃ sig,
      C.recoverThresholdSignature (entry.2.map (·.2)) (entry.2.map (·.1)) = .ok sig ∧ SigOk digest sig) :
    ∃ sigs, entries.mapM (fun ext => ext.2.thresholdRecover C) = .ok sigs ∧ List.Forall₂ SigOk digests sigs := by
  induction he with
  | nil => exact ⟨[], rfl, .nil⟩
  | @cons entry digest entries digests hen _ ih =>
    obtain ⟨sigs, hsi, hok⟩ := ih
    obtain ⟨sig, hsg, hs⟩ := hr entry digest hen
    have hne : entry.2 ≠ [] := by
      intro hn
      have := hen.voters
      rw [hn] at this
      exact hms (map_eq_nil_iff.mp this.symm)
    refine ⟨sig :: sigs, ?_, .cons hs hok⟩
    rw [mapM_cons, bind_eq_ok]
    refine ⟨sig, ?_, bind_eq_ok.mpr ⟨sigs, hsi, rfl⟩⟩
    exact bind_eq_ok.mpr ⟨(), by simp [hne], hsg⟩

lemma zipWith_setSignature (hi : ∀ ext digest sig, Item ext digest → Item (ext.setSignature sig) digest)
    (he : List.Forall₂ (Collected Item Good ms) entries digests) {sigs : List Bytes}
    (hs : List.Forall₂ SigOk digests sigs) :
    List.Forall₂ (fun ext digest => Item ext digest ∧ SigOk digest ext.proto.signature)
      (List.zipWith (fun ext sig => ext.1.setSignature sig) entries sigs) digests := by
  induction he generalizing sigs with
  | nil => exact .nil
  | @cons entry digest entries digests hen _ ih =>
    obtain ⟨sig, rest, hsi, hr, rfl⟩ := forall₂_cons_left_iff.mp hs
    exact .cons ⟨hi _ _ _ hen.item, hsi⟩ (ih hr)

theorem CollectedFrom.recover
    {votes : List Vote} {blockSign : Bytes}
    (h : CollectedFrom Item Good digests voters quorumReached votes r)
    (hms : votes.filter (·.validatorProTxHash ∈ voters) ≠ [])
    (hi : ∀ ext digest sig, Item ext digest → Item (ext.setSignature sig) digest)
    (hr : quorumReached = false → digests = [])
    (hb : C.recoverThresholdSignature (votes.map (·.blockSignature)) (votes.map (·.validatorProTxHash)) = .ok blockSign)
    (hre : ∀ entry digest,
      Collected Item Good (votes.filter (·.validatorProTxHash ∈ voters)) entry digest → ∃ sig,
        C.recoverThresholdSignature (entry.2.map (·.2)) (entry.2.map (·.1)) = .ok sig ∧ SigOk digest sig) :
    ∃ signs exts, r.recover C = .ok signs ∧ r.getVoteExtensions signs = .ok exts ∧
      signs.blockSign = blockSign ∧
      List.Forall₂ (fun ext digest => Item ext digest ∧ SigOk digest ext.proto.signature) exts digests := by
  have he := h.entries.resolve_left fun hn => hms hn.1
  obtain ⟨sigs, hs, hok⟩ := mapM_thresholdRecover hms he hre
  have ha : (if r.quorumReached then r.voteExtensions.mapM fun ext => ext.2.thresholdRecover C
      else .ok []) = .ok sigs := by
    cases hq : quorumReached with
    | true => rw [h.reached, hq, if_pos rfl, hs]
    | false =>
      have hd := hr hq
      rw [hd] at hok
      rw [h.reached, hq, if_neg (by simp), forall₂_nil_left_iff.mp hok]
  refine ⟨⟨blockSign, sigs⟩, _, ?_, ?_, rfl, zipWith_setSignature hi he hok⟩
  · unfold SignsRecoverer.recover
    rw [h.blockSigs, h.hashes]
    exact bind_eq_ok.mpr ⟨blockSign, hb, bind_eq_ok.mpr ⟨sigs, ha, rfl⟩⟩
  unfold getVoteExtensions
  rw [if_neg (not_not.mpr (by rw [he.length_eq, hok.length_eq]))]

end Collect

end SignsRecoverer

end Tenderdash
