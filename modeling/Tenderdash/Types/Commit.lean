import Tenderdash.Types.ValidatorSet
import Tenderdash.Types.VoteVerification

/-!
Commits, their verification under the threshold key of a validator set, and the proof of an earlier
verification that spares a later one.
-/

namespace Tenderdash

open Lib Go ValidatorSet QuorumSignData

/-- One comparison of `SameVoteExtensionShape`. An unset sign request ID equals an empty one. -/
def sameShape : Option VoteExtensionProto → Option VoteExtensionProto → Bool
  | none, none => true
  | some x, some y => x.type = y.type ∧ x.extension = y.extension ∧ x.signRequestId.getD [] = y.signRequestId.getD []
  | _, _ => false

def sameVoteExtensionShape (a b : List (Option VoteExtensionProto)) : Bool :=
  a.length = b.length ∧ (a.zip b).all fun (x, y) => sameShape x y

structure Commit where
  height : ℤ
  round : ℤ
  blockID : BlockID
  quorumHash : Bytes
  thresholdBlockSignature : Bytes
  thresholdVoteExtensions : List (Option VoteExtensionProto)
  deriving DecidableEq, Repr

inductive CommitError where
  | validatorSetNil
  | commitNil
  | invalidHeight (expected actual : ℤ)
  | wrongBlockID
  | signData (msg : String)
  | invalidQuorumHash (expected actual : Bytes)
  | budgetExhausted
  | extensionCountMismatch (extensions signatures : ℕ)
  | invalidSignature (why : VoteError)
  | proofMismatch (why : String)
  deriving DecidableEq, Repr

namespace Commit

/-- The vote the commit stands for, without a signer. -/
def getCanonicalVote (commit : Commit) : Go String Vote := do
  let extensions ← voteExtensionsFromProto commit.thresholdVoteExtensions
  return ⟨.precommit, commit.height, commit.round, commit.blockID, [], 0, [], extensions⟩

/-- The loop over the extensions of `ValidateBasic`, from index `i` on. -/
def validateExtensionsFrom : ℕ → List (Option VoteExtensionProto) → Go String Unit
  | _, [] => .ok ()
  | i, none :: _ => Go.fail s!"nil vote extension at index {i}"
  | i, some ext :: rest => do
    let _ ← (voteExtensionFromProto ext).mapErr (s!"vote extension {i}: " ++ ·)
    validateExtensionsFrom (i + 1) rest

def validateBasic (commit : Commit) : Go String Unit := do
  failIf (commit.height < 0) "negative Height"
  failIf (commit.round < 0) "negative Round"
  (if 1 ≤ commit.height then do
    failIf commit.blockID.isNil "commit cannot be for nil block"
    commit.blockID.validateBasic.mapErr ("wrong BlockID: " ++ ·)
    failIf (commit.thresholdBlockSignature.length ≠ signatureSize)
      s!"block threshold signature is wrong size (wanted: {signatureSize}, received: {commit.thresholdBlockSignature.length})"
  else .ok ())
  validateExtensionsFrom 0 commit.thresholdVoteExtensions

lemma validateBasic_spec {commit : Commit} (h : commit.validateBasic = .ok ()) :
    0 ≤ commit.round ∧ (1 ≤ commit.height → commit.blockID.isNil = false) := by
  unfold validateBasic at h
  simp only [bind_eq_ok, failIf_eq_ok, not_lt] at h
  obtain ⟨_, -, _, hr, _, hb, -⟩ := h
  refine ⟨hr, fun hh => ?_⟩
  rw [if_pos hh] at hb
  simp only [bind_eq_ok, failIf_eq_ok, Bool.not_eq_true] at hb
  obtain ⟨_, hn, -⟩ := hb
  exact hn

def extensionSignatures : List (Option VoteExtensionProto) → Go CommitError (List Bytes)
  | [] => .ok []
  | none :: _ => Go.crash "nil pointer dereference"
  | some ext :: rest => return ext.signature :: (← extensionSignatures rest)

/-- `NewQuorumSignsFromCommit`. -/
def quorumSigns (commit : Commit) : Go CommitError QuorumSigns :=
  return ⟨commit.thresholdBlockSignature, ← extensionSignatures commit.thresholdVoteExtensions⟩

end Commit

namespace ValidatorSet

variable (C : Crypto) (vals : ValidatorSet) (chainID : String) (blockID : BlockID) (height : ℤ) (commit : Commit)

def commitSignData : Go CommitError QuorumSignData := do
  failIf (height ≠ commit.height) (.invalidHeight height commit.height)
  failIf (blockID ≠ commit.blockID) .wrongBlockID
  let vote ← commit.getCanonicalVote.mapErr .signData
  let signData ← (makeVerifyQuorumSigns C chainID vals.quorumType vals.quorumHash vote.toProto).mapErr .signData
  failIf (vals.quorumHash ≠ commit.quorumHash) (.invalidQuorumHash vals.quorumHash commit.quorumHash)
  return signData

/-- How a failed signature check is reported: only a forged signature gets the typed error. -/
def commitError : VoteError → CommitError
  | .budgetExhausted => .budgetExhausted
  | .extensionCountMismatch n m => .extensionCountMismatch n m
  | e => .invalidSignature e

/-- `verifyCommitReportingSigns`, with the type and bytes of the key that was used. -/
def verifyCommitReportingSigns (budget : Option VerificationBudget) :
    Go CommitError (PubKey × QuorumSignData × QuorumSigns) := do
  let signData ← vals.commitSignData C chainID blockID height commit
  let signs ← commit.quorumSigns
  match vals.thresholdPublicKey with
  | none =>
    (charge budget [] 1).mapErr commitError
    Go.crash "nil pointer dereference"
  | some key =>
    (signData.verify C key signs budget).mapErr commitError
    return (key, signData, signs)

/-- `verifyCommit`, which is `VerifyCommit` without a budget. A nil validator set or commit is
dereferenced. -/
def verifyCommit (vals : Option ValidatorSet) (chainID : String) (blockID : BlockID) (height : ℤ)
    (commit : Option Commit) (budget : Option VerificationBudget) : Go CommitError Unit :=
  match vals, commit with
  | some vals, some commit => do
    let _ ← vals.verifyCommitReportingSigns C chainID blockID height commit budget
    return ()
  | _, _ => Go.crash "nil pointer dereference"

end ValidatorSet

/-! ### Proofs of verification -/

structure CommitProof where
  chainID : String
  height : ℤ
  blockID : BlockID
  quorumType : LLMQType
  quorumHash : Bytes
  thresholdKeyType : KeyType
  thresholdKeyBytes : Bytes
  signHashes : List Bytes
  signatures : List Bytes
  deriving DecidableEq, Repr

structure VerifiedCommit where
  commit : Option Commit
  proof : Option CommitProof
  deriving DecidableEq, Repr

def verifyCommitSignatures (C : Crypto) (vals : Option ValidatorSet) (chainID : String) (blockID : BlockID) (height : ℤ)
    (commit : Option Commit) (budget : Option VerificationBudget) : Go CommitError VerifiedCommit :=
  match vals, commit with
  | none, _ => Go.fail .validatorSetNil
  | _, none => Go.fail .commitNil
  | some vals, some commit => do
    let (key, signData, signs) ← vals.verifyCommitReportingSigns C chainID blockID height commit budget
    return {
      commit := some commit
      proof := some {
        chainID := chainID
        height := height
        blockID := blockID
        quorumType := vals.quorumType
        quorumHash := vals.quorumHash
        thresholdKeyType := key.keyType
        thresholdKeyBytes := key.bytes
        signHashes := (signedContent signData signs).1
        signatures := (signedContent signData signs).2 } }

namespace CommitProof

def matchesKey (p : CommitProof) : Option PubKey → Bool
  | none => false
  | some key => key.keyType = p.thresholdKeyType ∧ key.bytes = p.thresholdKeyBytes

/-- `checkMatches` for a proof, a validator set and a commit that are not nil. -/
def checkMatches (C : Crypto) (p : CommitProof) (chainID : String) (vals : ValidatorSet)
    (blockID : BlockID) (height : ℤ) (commit : Commit) : Go CommitError Unit := do
  failIf (p.signHashes = []) (.proofMismatch "nothing was verified")
  failIf (p.chainID ≠ chainID) (.proofMismatch "verified for another chain")
  failIf (p.height ≠ height) (.proofMismatch "verified for another height")
  failIf (p.blockID ≠ blockID) (.proofMismatch "verified for another block")
  failIf (p.quorumType ≠ vals.quorumType) (.proofMismatch "verified for another quorum type")
  failIf (p.quorumHash ≠ vals.quorumHash) (.proofMismatch "verified for another quorum")
  failIf (p.matchesKey vals.thresholdPublicKey = false)
    (.proofMismatch "verified against a different threshold public key")
  let signData ← (vals.commitSignData C chainID blockID height commit).mapErr fun _ =>
    .proofMismatch "the commit no longer passes verification's preliminary checks"
  let signs ← commit.quorumSigns
  failIf (p.signHashes ≠ (signedContent signData signs).1)
    (.proofMismatch "the commit's signed content is not what was verified")
  failIf (p.signatures ≠ (signedContent signData signs).2)
    (.proofMismatch "the commit no longer carries the signatures that were verified")

end CommitProof

/-- The test of `VerifyCommitUnlessVerified` for whether the proof covers the call. -/
def VerifiedCommit.covers (C : Crypto) (verified : VerifiedCommit) (chainID : String) (vals : Option ValidatorSet)
    (blockID : BlockID) (height : ℤ) (commit : Option Commit) : Go CommitError Unit :=
  match verified.proof, vals, commit with
  | none, _, _ => Go.fail (.proofMismatch "nothing was verified")
  | _, none, _ => Go.fail (.proofMismatch "no validator set to verify against")
  | _, _, none => Go.fail (.proofMismatch "no commit to verify")
  | some p, some vals, some commit => p.checkMatches C chainID vals blockID height commit

/-- Whether the verification was skipped, and its error; or the message of a panic. -/
def verifyCommitUnlessVerified (C : Crypto) (vals : Option ValidatorSet) (chainID : String) (blockID : BlockID)
    (height : ℤ) (commit : Option Commit) (verified : VerifiedCommit) : Except String (Bool × Option CommitError) :=
  match verified.covers C chainID vals blockID height commit with
  | .ok () => .ok (true, none)
  | .error (.panicked msg) => .error msg
  | .error (.err _) =>
    match ValidatorSet.verifyCommit C vals chainID blockID height commit none with
    | .ok () => .ok (false, none)
    | .error (.panicked msg) => .error msg
    | .error (.err e) => .ok (false, some e)

/-! ### What a proof establishes -/

variable {C : Crypto} {chainID : String} {blockID : BlockID} {height : ℤ}

lemma ValidatorSet.verifyCommit_eq_ok_iff {vals : ValidatorSet} {commit : Commit} :
    verifyCommit C (some vals) chainID blockID height (some commit) none = .ok () ↔
      ∃ signData signs key, vals.commitSignData C chainID blockID height commit = .ok signData ∧
        commit.quorumSigns = .ok signs ∧ vals.thresholdPublicKey = some key ∧
        Verifies C key.keyType key.bytes (signedContent signData signs) := by
  simp only [verifyCommit, verifyCommitReportingSigns, bind_eq_ok]
  constructor
  · rintro ⟨_, ⟨signData, hd, signs, hs, h⟩, -⟩
    cases hk : vals.thresholdPublicKey with
    | none =>
      rw [hk] at h
      obtain ⟨_, -, h⟩ := of_bind h
      cases h
    | some key =>
      rw [hk] at h
      obtain ⟨_, hve, -⟩ := of_bind h
      exact ⟨signData, signs, key, hd, hs, rfl, verify_eq_ok_iff_verifies.mp (mapErr_eq_ok.mp hve)⟩
  · rintro ⟨signData, signs, key, hd, hs, hk, hv⟩
    refine ⟨(key, signData, signs), ⟨signData, hd, signs, hs, ?_⟩, rfl⟩
    rw [hk]
    exact bind_eq_ok.mpr ⟨(), mapErr_eq_ok.mpr (verify_eq_ok_iff_verifies.mpr hv), rfl⟩

lemma CommitProof.verifies_of_verifyCommitSignatures {vals : Option ValidatorSet} {commit : Option Commit}
    {budget : Option VerificationBudget} {verified : VerifiedCommit}
    (h : verifyCommitSignatures C vals chainID blockID height commit budget = .ok verified) :
    ∃ p, verified.proof = some p ∧ Verifies C p.thresholdKeyType p.thresholdKeyBytes (p.signHashes, p.signatures) := by
  cases vals with
  | none => cases h
  | some vals =>
    cases commit with
    | none => cases h
    | some commit =>
      obtain ⟨⟨key, signData, signs⟩, hr, h⟩ := of_bind h
      cases h
      refine ⟨_, rfl, ?_⟩
      simp only [verifyCommitReportingSigns, bind_eq_ok] at hr
      obtain ⟨_, _, _, _, hr⟩ := hr
      split at hr
      · obtain ⟨_, -, hr⟩ := of_bind hr
        cases hr
      obtain ⟨_, hv, hr⟩ := of_bind hr
      cases hr
      exact verify_eq_ok_iff_verifies.mp (verify_none_of_verify (mapErr_eq_ok.mp hv))

lemma CommitProof.verifyCommit_of_checkMatches {p : CommitProof} {vals : ValidatorSet} {commit : Commit}
    (hp : Verifies C p.thresholdKeyType p.thresholdKeyBytes (p.signHashes, p.signatures))
    (h : p.checkMatches C chainID vals blockID height commit = .ok ()) :
    verifyCommit C (some vals) chainID blockID height (some commit) none = .ok () := by
  simp only [checkMatches, bind_eq_ok, failIf_eq_ok, mapErr_eq_ok, ne_eq, not_not, Bool.not_eq_false, exists_const] at h
  obtain ⟨-, -, -, -, -, -, hk, signData, hd, signs, hs, hh, hsi⟩ := h
  cases hpu : vals.thresholdPublicKey with
  | none =>
    rw [hpu] at hk
    cases hk
  | some key =>
    rw [hpu] at hk
    obtain ⟨ht, hb⟩ : key.keyType = p.thresholdKeyType ∧ key.bytes = p.thresholdKeyBytes := by
      simpa [matchesKey] using hk
    refine verifyCommit_eq_ok_iff.mpr ⟨signData, signs, key, hd, hs, hpu, ?_⟩
    rw [ht, hb]
    rwa [hh, hsi] at hp

/-- **A proof is as strong as verification.** Whatever validator set, block and commit a minted proof
is offered for, if the verification is skipped then it would have succeeded. -/
theorem verifyCommit_of_skipped (C : Crypto) (mintVals : Option ValidatorSet) (mintChainID : String)
    (mintBlockID : BlockID) (mintHeight : ℤ) (mintCommit : Option Commit) (budget : Option VerificationBudget)
    (verified : VerifiedCommit)
    (hmint : verifyCommitSignatures C mintVals mintChainID mintBlockID mintHeight mintCommit budget = .ok verified)
    (vals : Option ValidatorSet) (chainID : String) (blockID : BlockID) (height : ℤ) (commit : Option Commit)
    (err : Option CommitError)
    (h : verifyCommitUnlessVerified C vals chainID blockID height commit verified = .ok (true, err)) :
    err = none ∧ ValidatorSet.verifyCommit C vals chainID blockID height commit none = .ok () := by
  obtain ⟨p, hp, hv⟩ := CommitProof.verifies_of_verifyCommitSignatures hmint
  unfold verifyCommitUnlessVerified at h
  split at h
  · next hc =>
    cases h
    refine ⟨rfl, ?_⟩
    unfold VerifiedCommit.covers at hc
    simp only [hp] at hc
    cases vals with
    | none => cases hc
    | some vals =>
      cases commit with
      | none => cases hc
      | some commit => exact CommitProof.verifyCommit_of_checkMatches hv hc
  · cases h
  · -- a verification that was made does not report that it was skipped
    split at h <;> cases h

def sampleCommit (blockID : BlockID) : Commit :=
  let vote : Vote := ⟨.precommit, 1, 0, blockID, [], 0, [], []⟩
  let sig := match makeBlockSignItem Crypto.sample "chain" vote.toProto 100 (sampleValidators 1).quorumHash with
    | .ok item => List.replicate pubKeySize 1 ++ item.signHash
    | .error _ => []
  ⟨1, 0, blockID, (sampleValidators 1).quorumHash, sig, []⟩

def sampleVerifiedCommit : VerifiedCommit :=
  match verifyCommitSignatures Crypto.sample (some (sampleValidators 2)) "chain" (sampleBlockID 1) 1
      (some (sampleCommit (sampleBlockID 1))) none with
  | .ok verified => verified
  | .error _ => ⟨none, none⟩

/-- The proof covers another set with the same quorum and threshold key. -/
theorem skipped_commit_verifies :
    verifyCommitUnlessVerified Crypto.sample (some (sampleValidators 3)) "chain" (sampleBlockID 1) 1
        (some (sampleCommit (sampleBlockID 1))) sampleVerifiedCommit = .ok (true, none) ∧
      ValidatorSet.verifyCommit Crypto.sample (some (sampleValidators 3)) "chain" (sampleBlockID 1) 1
        (some (sampleCommit (sampleBlockID 1))) none = .ok () := by
  have hs : verifyCommitUnlessVerified Crypto.sample (some (sampleValidators 3)) "chain"
      (sampleBlockID 1) 1 (some (sampleCommit (sampleBlockID 1))) sampleVerifiedCommit =
        .ok (true, none) := by decide +kernel
  exact ⟨hs, (verifyCommit_of_skipped Crypto.sample (some (sampleValidators 2)) "chain"
    (sampleBlockID 1) 1 (some (sampleCommit (sampleBlockID 1))) none sampleVerifiedCommit
    (by decide +kernel) _ _ _ _ _ _ hs).2⟩

end Tenderdash
