import Tenderdash.Types.Vote

/-!
Evidence that the signatures of one vote were verified, and the check a vote set makes before it
accepts such evidence in place of a verification.

The evidence names the vote by its address and its content by the digests and signatures that went
into the check. The vote behind the address, the key's bytes and every slice reachable from them may
have been rewritten in between, so nothing is assumed about the vote offered with the evidence.
-/

namespace Tenderdash

open Lib Go List

/-! ### What a verification establishes -/

namespace QuorumSignData

variable {C : Crypto} {key : PubKey}

lemma verifyVoteExtensionsFrom_eq_ok {i : ℕ} {items : List SignItem} {sigs : List Bytes}
    (hl : items.length = sigs.length) :
    verifyVoteExtensionsFrom C key i items sigs = .ok () ↔
      List.Forall₂ (fun item sig => item.verifySignature C key sig = true) items sigs := by
  induction items generalizing i sigs with
  | nil =>
    cases sigs with
    | nil => simp [verifyVoteExtensionsFrom]
    | cons sig sigs => simp at hl
  | cons item items ih =>
    cases sigs with
    | nil => simp at hl
    | cons sig sigs =>
      rw [verifyVoteExtensionsFrom, bind_eq_ok, forall₂_cons]
      simp [ih (by simpa using hl)]

lemma charge_none (before : List ℕ) (cost : ℕ) : charge none before cost = .ok () := rfl

variable {signs : QuorumSigns} {q : QuorumSignData}

lemma verify_eq_ok_iff :
    q.verify C key signs none = .ok () ↔
      q.block.verifySignature C key signs.blockSign = true ∧
      List.Forall₂ (fun item sig => item.verifySignature C key sig = true)
        q.voteExtensionSignItems signs.voteExtensionSignatures := by
  simp only [verify, verifyVoteExtensions, verifyBlock, validateVoteExtensionCount, charge_none,
    ite_self, bind_eq_ok, failIf_eq_ok, Bool.not_eq_false, ne_eq, not_not, exists_const,
    true_and]
  constructor
  · rintro ⟨hb, hl, -, he⟩
    exact ⟨hb, (verifyVoteExtensionsFrom_eq_ok hl).mp he⟩
  rintro ⟨hb, he⟩
  have hl := he.length_eq
  exact ⟨hb, hl, hl, (verifyVoteExtensionsFrom_eq_ok hl).mpr he⟩

lemma verify_none_of_verify {budget : Option VerificationBudget}
    (h : q.verify C key signs budget = .ok ()) : q.verify C key signs none = .ok () := by
  obtain ⟨_, _, h⟩ := of_bind h
  obtain ⟨_, hb, h⟩ := of_bind h
  obtain ⟨_, hc, h⟩ := of_bind h
  obtain ⟨_, _, h⟩ := of_bind h
  simp only [verify, charge_none, ite_self, bind_eq_ok, exists_const, true_and]
  exact ⟨_, hb, _, hc, h⟩

lemma verifyVoteExtensionsFrom_returns (i : ℕ) (items : List SignItem) (sigs : List Bytes) :
    Go.Returns (verifyVoteExtensionsFrom C key i items sigs) := by
  induction items generalizing i sigs with
  | nil => exact returns_ok ()
  | cons item items ih =>
    cases sigs with
    | nil => exact returns_ok ()
    | cons sig sigs => exact returns_check fun _ _ => ih _ _

lemma verify_returns (q : QuorumSignData) (signs : QuorumSigns)
    (budget : Option VerificationBudget) : Go.Returns (q.verify C key signs budget) := by
  have hc : ∀ before cost, Go.Returns (charge budget before cost) := by
    intro before cost
    cases budget <;> simp [charge]
  refine returns_bind (hc _ _) fun _ _ => returns_check fun _ _ =>
    returns_check fun _ _ => returns_bind ?_ fun _ _ =>
      returns_check fun _ _ => verifyVoteExtensionsFrom_returns _ _ _
  split
  · exact hc _ _
  · exact returns_ok ()

end QuorumSignData

namespace Vote

variable {C : Crypto} {v : Vote} {chainID : String} {quorumType : LLMQType}
  {quorumHash proTxHash : Bytes} {pubKey : Option PubKey} {budget : Option VerificationBudget}
  {signData : QuorumSignData}

lemma pubKey_of_verifyBasic {key : PubKey} (h : v.verifyBasic proTxHash pubKey = .ok key) : pubKey = some key := by
  obtain ⟨_, _, h⟩ := of_bind h
  cases pubKey with
  | none => cases h
  | some k =>
    simp only [bind_eq_ok] at h
    obtain ⟨_, _, _, _, h⟩ := h
    cases h
    rfl

lemma verifyReportingSigns_spec
    (h : v.verifyReportingSigns C chainID quorumType quorumHash pubKey proTxHash budget = .ok (signData, signs)) :
    ∃ key, pubKey = some key ∧ signData.verify C key signs budget = .ok () ∧
      signs = v.makeQuorumSigns ∧
      makeVerifyQuorumSigns C chainID quorumType quorumHash v.toProto = .ok signData ∧
      v.verifyBasic proTxHash pubKey = .ok key := by
  obtain ⟨data, hd, h⟩ := of_bind h
  obtain ⟨key, hb, h⟩ := of_bind h
  obtain ⟨_, hv, h⟩ := of_bind h
  cases h
  exact ⟨key, pubKey_of_verifyBasic hb, hv, rfl, mapErr_eq_ok.mp hd, hb⟩

lemma verify_of_signData {key : PubKey}
    (hd : makeVerifyQuorumSigns C chainID quorumType quorumHash v.toProto = .ok signData)
    (hb : v.verifyBasic proTxHash pubKey = .ok key) (hv : signData.verify C key v.makeQuorumSigns budget = .ok ()) :
    v.verify C chainID quorumType quorumHash pubKey proTxHash budget = .ok () := by
  simp only [verify, verifyReportingSigns, bind_eq_ok, mapErr_eq_ok]
  exact ⟨_, ⟨signData, hd, key, hb, (), hv, rfl⟩, rfl⟩

lemma verify_spec (h : v.verify C chainID quorumType quorumHash pubKey proTxHash budget = .ok ()) :
    ∃ signData key, pubKey = some key ∧
      makeVerifyQuorumSigns C chainID quorumType quorumHash v.toProto = .ok signData ∧
      v.verifyBasic proTxHash pubKey = .ok key ∧
      signData.verify C key v.makeQuorumSigns none = .ok () := by
  obtain ⟨⟨signData, signs⟩, hs, -⟩ := of_bind h
  obtain ⟨key, hk, hv, rfl, hd, hb⟩ := verifyReportingSigns_spec hs
  exact ⟨signData, key, hk, hd, hb, QuorumSignData.verify_none_of_verify hv⟩

lemma verifyBasic_returns (v : Vote) (proTxHash : Bytes) (pubKey : Option PubKey) :
    Go.Returns (v.verifyBasic proTxHash pubKey) := by
  refine returns_check fun _ _ => ?_
  cases pubKey with
  | none => exact returns_fail _
  | some key =>
    exact returns_check fun _ _ =>
      returns_check fun _ _ => returns_ok _

lemma verify_returns (hq : quorumHash.length = quorumHashSize) (ht : 0 ≤ quorumType ∧ quorumType ≤ 255) :
    Go.Returns (v.verify C chainID quorumType quorumHash pubKey proTxHash budget) := by
  refine returns_bind (returns_bind (returns_mapErr.mpr ?_) fun _ _ =>
    returns_bind (v.verifyBasic_returns _ _) fun _ _ =>
      returns_bind (QuorumSignData.verify_returns _ _ _) fun _ _ => returns_ok _) fun _ _ =>
        returns_ok _
  exact returns_check fun _ _ => makeQuorumSigns_returns hq ht _

end Vote

/-! ### Evidence -/

/-- A pointer to a vote that is not nil, and what it points to when it is read. -/
structure VoteRef where
  addr : ℕ
  vote : Vote
  deriving DecidableEq, Repr

/-- Evidence of one verification. The zero value names no vote. -/
structure VoteVerification where
  vote : Option ℕ
  chainID : String
  quorumType : LLMQType
  quorumHash : Bytes
  proTxHash : Bytes
  pubKeyType : KeyType
  pubKeyBytes : Bytes
  signHashes : List Bytes
  signatures : List Bytes
  deriving DecidableEq, Repr

/-- The digests a signature check runs on and the signatures it checks. -/
def signedContent (signData : QuorumSignData) (signs : QuorumSigns) : List Bytes × List Bytes :=
  (signData.block.signHash :: signData.voteExtensionSignItems.map (·.signHash),
    signs.blockSign :: signs.voteExtensionSignatures)

def Verifies (C : Crypto) (keyType : KeyType) (keyBytes : Bytes) (content : List Bytes × List Bytes) : Prop :=
  List.Forall₂ (fun digest sig => C.verifySignatureDigest keyType keyBytes digest sig = true) content.1 content.2

lemma QuorumSignData.verify_eq_ok_iff_verifies {C : Crypto} {key : PubKey} {q : QuorumSignData} :
    q.verify C key signs none = .ok () ↔ Verifies C key.keyType key.bytes (signedContent q signs) := by
  rw [verify_eq_ok_iff, Verifies, signedContent, forall₂_cons, forall₂_map_left_iff]
  rfl

def verifyVoteSignatures (C : Crypto) (vote : Option VoteRef) (chainID : String)
    (quorumType : LLMQType) (quorumHash : Bytes) (pubKey : Option PubKey) (proTxHash : Bytes)
    (budget : Option VerificationBudget) : Go VoteError VoteVerification :=
  match vote with
  | none => Go.fail .voteNil
  | some ref => do
    let (signData, signs) ← ref.vote.verifyReportingSigns C chainID quorumType quorumHash pubKey proTxHash budget
    match pubKey with
    | none => Go.crash "nil pointer dereference"
    | some key => return {
        vote := some ref.addr
        chainID := chainID
        quorumType := quorumType
        quorumHash := quorumHash
        proTxHash := proTxHash
        pubKeyType := key.keyType
        pubKeyBytes := key.bytes
        signHashes := (signedContent signData signs).1
        signatures := (signedContent signData signs).2 }

namespace VoteVerification

def matchesKey (v : VoteVerification) : Option PubKey → Bool
  | none => false
  | some key => key.keyType = v.pubKeyType ∧ key.bytes = v.pubKeyBytes

def checkMatches (C : Crypto) (v : VoteVerification) (ref : VoteRef) (chainID : String) (quorumType : LLMQType)
    (quorumHash : Bytes) (pubKey : Option PubKey) (proTxHash : Bytes) : Go VoteError Unit := do
  failIf (v.vote = none) (.verificationMismatch "nothing was verified")
  failIf (v.vote ≠ some ref.addr) (.verificationMismatch "a different vote was verified")
  failIf (v.chainID ≠ chainID) (.verificationMismatch "verified for another chain")
  failIf (v.quorumType ≠ quorumType) (.verificationMismatch "verified for another quorum type")
  failIf (v.quorumHash ≠ quorumHash) (.verificationMismatch "verified for another quorum")
  failIf (v.matchesKey pubKey = false) (.verificationMismatch "verified against a different validator public key")
  failIf (v.proTxHash ≠ proTxHash) (.verificationMismatch "verified for another validator")
  let _ ← (ref.vote.verifyBasic proTxHash pubKey).mapErr fun _ =>
    .verificationMismatch "the vote's shape"
  let signData ← (makeVerifyQuorumSigns C chainID quorumType quorumHash ref.vote.toProto).mapErr
    fun _ => .verificationMismatch "the vote no longer yields signing data"
  let content := signedContent signData ref.vote.makeQuorumSigns
  failIf (v.signHashes ≠ content.1) (.verificationMismatch "the vote's signed content is not what was verified")
  failIf (v.signatures ≠ content.2)
    (.verificationMismatch "the vote no longer carries the signatures that were verified")

variable {C : Crypto} {v : VoteVerification} {chainID : String} {quorumType : LLMQType} {quorumHash proTxHash : Bytes}
  {pubKey : Option PubKey} {ref : VoteRef}

lemma checkMatches_returns
    (hq : quorumHash.length = quorumHashSize) (ht : 0 ≤ quorumType ∧ quorumType ≤ 255) :
    Go.Returns (v.checkMatches C ref chainID quorumType quorumHash pubKey proTxHash) := by
  iterate 7 refine returns_check fun _ _ => ?_
  refine returns_bind (returns_mapErr.mpr (Vote.verifyBasic_returns _ _ _)) fun _ _ =>
    returns_bind (returns_mapErr.mpr ?_) fun _ _ =>
      returns_check fun _ _ => returns_failIf _ _
  exact returns_check fun _ _ => makeQuorumSigns_returns hq ht _

lemma verifies_of_verifyVoteSignatures {vote : Option VoteRef} {budget : Option VerificationBudget}
    (h : verifyVoteSignatures C vote chainID quorumType quorumHash pubKey proTxHash budget = .ok v) :
    Verifies C v.pubKeyType v.pubKeyBytes (v.signHashes, v.signatures) := by
  cases vote with
  | none => cases h
  | some ref =>
    obtain ⟨⟨signData, signs⟩, hs, h⟩ := of_bind h
    obtain ⟨key, hk, hv, -⟩ := Vote.verifyReportingSigns_spec hs
    rw [hk] at h
    cases h
    exact QuorumSignData.verify_eq_ok_iff_verifies.mp (QuorumSignData.verify_none_of_verify hv)

/-- **Evidence that matches a vote is as good as verifying it**: the vote behind the pointer may have
changed since, but its digests, its signatures and the key are the ones that were checked. -/
theorem verify_of_checkMatches (hv : Verifies C v.pubKeyType v.pubKeyBytes (v.signHashes, v.signatures))
    (h : v.checkMatches C ref chainID quorumType quorumHash pubKey proTxHash = .ok ()) :
    ref.vote.verify C chainID quorumType quorumHash pubKey proTxHash none = .ok () := by
  simp only [checkMatches, bind_eq_ok, failIf_eq_ok, mapErr_eq_ok, ne_eq, not_not, Bool.not_eq_false, exists_const] at h
  obtain ⟨-, -, -, -, -, hk, -, key, hb, signData, hd, hh, hs⟩ := h
  have hp := Vote.pubKey_of_verifyBasic hb
  rw [hp] at hk
  obtain ⟨ht, hby⟩ : key.keyType = v.pubKeyType ∧ key.bytes = v.pubKeyBytes := by simpa [matchesKey] using hk
  have hve : signData.verify C key ref.vote.makeQuorumSigns none = .ok () := by
    rw [QuorumSignData.verify_eq_ok_iff_verifies, ht, hby]
    rwa [hh, hs] at hv
  exact Vote.verify_of_signData hd hb hve

end VoteVerification

end Tenderdash
