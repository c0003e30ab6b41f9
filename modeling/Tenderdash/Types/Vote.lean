import Tenderdash.Types.SignItem

/-!
Votes, the data a vote's signatures cover, and the verification of those signatures.

The digests of a vote are computed from its protobuf form, whose extensions are converted again, so
that their Go types follow the type fields of the messages. The signatures are read from the vote
itself, whose extensions are filtered by their Go types. A verification compares the two lists.
-/

namespace Tenderdash

open Lib Go VoteExtension

structure Vote where
  type : SignedMsgType
  height : ℤ
  round : ℤ
  blockID : BlockID
  validatorProTxHash : Bytes
  validatorIndex : ℤ
  blockSignature : Bytes
  voteExtensions : List VoteExtension
  deriving DecidableEq, Repr

structure VoteProto where
  type : SignedMsgType
  height : ℤ
  round : ℤ
  blockID : BlockID
  validatorProTxHash : Bytes
  validatorIndex : ℤ
  blockSignature : Bytes
  voteExtensions : List (Option VoteExtensionProto)
  deriving DecidableEq, Repr

def Vote.toProto (v : Vote) : VoteProto where
  type := v.type
  height := v.height
  round := v.round
  blockID := v.blockID
  validatorProTxHash := v.validatorProTxHash
  validatorIndex := v.validatorIndex
  blockSignature := v.blockSignature
  voteExtensions := v.voteExtensions.map fun ext => some ext.proto

variable (C : Crypto) (chainID : String) (quorumType : LLMQType) (quorumHash : Bytes) {d : QuorumSignData}
  {t : LLMQType}

/-- `Vote.SignBytes`: the fixed-size encoding of the canonical vote. -/
def VoteProto.signBytes (v : VoteProto) : Bytes :=
  let ids :=
    match v.blockID.canonical with
    | some canonical => C.checksum (Wire.delimited canonical) ++ v.blockID.stateID
    | none => C.checksum [] ++ C.checksum []
  Wire.leBytes 4 v.type.code ++ Wire.leBytes 8 v.height ++ Wire.leBytes 8 v.round ++ ids ++ chainID.toUTF8.data.toList

/-! ### Sign data of a vote -/

def maxVoteExtensions : ℕ := 32

structure QuorumSignData where
  block : SignItem
  voteExtensionSignItems : List SignItem
  deriving DecidableEq, Repr

structure QuorumSigns where
  blockSign : Bytes
  voteExtensionSignatures : List Bytes
  deriving DecidableEq, Repr

def signItems (C : Crypto) (chainID : String) (quorumType : LLMQType) (quorumHash : Bytes)
    (height round : ℤ) : List VoteExtension → Go String (List SignItem)
  | [] => .ok []
  | ext :: exts => return (← ext.signItem C chainID height round quorumType quorumHash) ::
      (← signItems C chainID quorumType quorumHash height round exts)

def makeBlockSignItem (v : VoteProto) (quorumType : LLMQType) (quorumHash : Bytes) : Go String SignItem :=
  SignItem.new C quorumType quorumHash (heightRoundRequestID C "dpbvote" v.height v.round) (v.signBytes C chainID)

def makeQuorumSigns (v : VoteProto) : Go String QuorumSignData := do
  let extensions ← voteExtensionsFromProto v.voteExtensions
  let block ← makeBlockSignItem C chainID v quorumType quorumHash
  let items ← signItems C chainID quorumType quorumHash v.height v.round
    (extensions.filter VoteExtension.isThresholdRecoverable)
  return ⟨block, items⟩

lemma SignItem.new_msg {C : Crypto} {q r m : Bytes} {item : SignItem}
    (h : SignItem.new C t q r m = .ok item) : item.msg = m := by
  obtain ⟨_, _, h⟩ := of_bind h
  cases h
  rfl

lemma makeQuorumSigns_msg {C : Crypto} {chainID : String} {q : Bytes} {v : VoteProto} (h : makeQuorumSigns C chainID t q v = .ok d) : d.block.msg = v.signBytes C chainID := by
  obtain ⟨exts, _, h⟩ := of_bind h
  obtain ⟨block, hb, h⟩ := of_bind h
  obtain ⟨items, _, h⟩ := of_bind h
  cases h
  exact SignItem.new_msg hb

def makeVerifyQuorumSigns (v : VoteProto) : Go String QuorumSignData := do
  failIf (maxVoteExtensions < v.voteExtensions.length)
    s!"too many vote extensions: {v.voteExtensions.length} (max {maxVoteExtensions})"
  makeQuorumSigns C chainID quorumType quorumHash v

section SignData

variable {C : Crypto} {chainID : String} {quorumType : LLMQType} {quorumHash : Bytes} {exts : List VoteExtension}

lemma signItems_eq_ok {height round : ℤ} {items : List SignItem} :
    signItems C chainID quorumType quorumHash height round exts = .ok items ↔
      List.Forall₂ (fun ext item =>
        ext.signItem C chainID height round quorumType quorumHash = .ok item) exts items := by
  induction exts generalizing items with
  | nil => cases items <;> simp [signItems]
  | cons ext exts ih =>
    rw [signItems, bind_eq_ok, List.forall₂_cons_left_iff]
    constructor
    · rintro ⟨item, hi, h⟩
      obtain ⟨rest, hr, h⟩ := of_bind h
      cases h
      exact ⟨item, rest, hi, ih.mp hr, rfl⟩
    rintro ⟨item, rest, hi, hr, rfl⟩
    exact ⟨item, hi, bind_eq_ok.mpr ⟨rest, ih.mpr hr, rfl⟩⟩

lemma makeBlockSignItem_congr {v w : VoteProto} (hty : v.type = w.type) (hh : v.height = w.height)
    (hr : v.round = w.round) (hb : v.blockID = w.blockID) :
    makeBlockSignItem C chainID v quorumType quorumHash = makeBlockSignItem C chainID w quorumType quorumHash := by
  simp only [makeBlockSignItem, VoteProto.signBytes, hty, hh, hr, hb]

lemma makeQuorumSigns_eq_ok {v : VoteProto}
    (he : voteExtensionsFromProto v.voteExtensions = .ok exts) :
    makeQuorumSigns C chainID quorumType quorumHash v = .ok d ↔
      makeBlockSignItem C chainID v quorumType quorumHash = .ok d.block ∧
        List.Forall₂ (fun ext item =>
          ext.signItem C chainID v.height v.round quorumType quorumHash = .ok item)
          (exts.filter isThresholdRecoverable) d.voteExtensionSignItems := by
  rw [makeQuorumSigns, he, bind_eq_ok]
  constructor
  · rintro ⟨_, hok, h⟩
    cases hok
    obtain ⟨block, hb, h⟩ := of_bind h
    obtain ⟨items, hi, h⟩ := of_bind h
    cases h
    exact ⟨hb, signItems_eq_ok.mp hi⟩
  · rintro ⟨hb, hi⟩
    exact ⟨exts, rfl, bind_eq_ok.mpr ⟨d.block, hb,
      bind_eq_ok.mpr ⟨d.voteExtensionSignItems, signItems_eq_ok.mpr hi, rfl⟩⟩⟩

variable (hq : quorumHash.length = quorumHashSize) (ht : 0 ≤ quorumType ∧ quorumType ≤ 255)
include hq ht

lemma signItems_returns (height round : ℤ) (exts : List VoteExtension) :
    Go.Returns (signItems C chainID quorumType quorumHash height round exts) := by
  induction exts with
  | nil => exact returns_ok []
  | cons ext exts ih =>
    exact returns_bind (signItem_returns C chainID height round hq ht ext)
      fun _ _ => returns_bind ih fun _ _ => returns_ok _

lemma makeQuorumSigns_returns (v : VoteProto) : Go.Returns (makeQuorumSigns C chainID quorumType quorumHash v) := by
  have hb : ∃ item, makeBlockSignItem C chainID v quorumType quorumHash = .ok item :=
    SignItem.new_eq_ok C hq ht (by simp [heightRoundRequestID])
  obtain ⟨item, hi⟩ := hb
  refine returns_bind (voteExtensionsFromProto_returns _) fun exts _ => ?_
  refine returns_bind (hi ▸ returns_ok item) fun _ _ => ?_
  exact returns_bind (signItems_returns hq ht _ _ _) fun _ _ => returns_ok _

end SignData

/-- The big-endian bytes of a number, without leading zeros; none for zero. -/
def bigBytes (n : ℕ) : Bytes := (Nat.digits 256 n).reverse.map UInt8.ofNat

/-- `VoteExtensions.Fingerprint`: the first six bytes of a digest of all types and contents. -/
def fingerprint (exts : List VoteExtension) : Bytes :=
  if exts = [] then List.replicate 6 0
  else (C.checksum (exts.flatMap fun ext =>
    bigBytes ext.proto.type.code.natAbs ++ ext.proto.extension)).take 6

def Vote.recoverable (v : Vote) : List VoteExtension :=
  v.voteExtensions.filter VoteExtension.isThresholdRecoverable

def Vote.makeQuorumSigns (v : Vote) : QuorumSigns where
  blockSign := v.blockSignature
  voteExtensionSignatures := v.recoverable.map (·.proto.signature)

/-! ### Verification -/

inductive VoteError where
  | voteNil
  | invalidValidatorIndex
  | invalidValidatorProTxHash
  | unexpectedStep
  | missingValidatorPubKey
  | invalidValidatorPubKeySize
  | invalidExtension
  | invalidBlockSignature
  | extensionCountMismatch (extensions signatures : ℕ)
  | extensionSignatureInvalid (index : ℕ)
  | budgetExhausted
  | signData (msg : String)
  | verificationMismatch (why : String)
  | nonDeterministicSignature
  | invalidVoteSignature (why : VoteError)
  | extensionIdentity (msg : String)
  | conflictingVotes (voteA voteB : Vote)
  | gotVoteFromUnwantedRound
  deriving DecidableEq, Repr

/-- A verification budget: whether a cost is allowed, given the costs this verification has been
charged before. -/
abbrev VerificationBudget := List ℕ → ℕ → Bool

def charge (budget : Option VerificationBudget) (before : List ℕ) (cost : ℕ) : Go VoteError Unit :=
  match budget with
  | none => .ok ()
  | some allow => failIf (allow before cost = false) .budgetExhausted

namespace QuorumSignData

variable (q : QuorumSignData) (key : PubKey) (signs : QuorumSigns)

def verifyBlock : Go VoteError Unit :=
  failIf (q.block.verifySignature C key signs.blockSign = false) .invalidBlockSignature

def validateVoteExtensionCount : Go VoteError Unit :=
  failIf (q.voteExtensionSignItems.length ≠ signs.voteExtensionSignatures.length)
    (.extensionCountMismatch q.voteExtensionSignItems.length signs.voteExtensionSignatures.length)

/-- The loop of `VerifyVoteExtensions`, from index `i` on. -/
def verifyVoteExtensionsFrom (C : Crypto) (key : PubKey) : ℕ → List SignItem → List Bytes → Go VoteError Unit
  | i, item :: items, sig :: sigs => do
    failIf (item.verifySignature C key sig = false) (.extensionSignatureInvalid i)
    verifyVoteExtensionsFrom C key (i + 1) items sigs
  | _, _, _ => .ok ()

def verifyVoteExtensions : Go VoteError Unit := do
  q.validateVoteExtensionCount signs
  verifyVoteExtensionsFrom C key 0 q.voteExtensionSignItems signs.voteExtensionSignatures

def verify (budget : Option VerificationBudget) : Go VoteError Unit := do
  charge budget [] 1
  q.verifyBlock C key signs
  q.validateVoteExtensionCount signs
  (if 0 < q.voteExtensionSignItems.length then charge budget [1] q.voteExtensionSignItems.length else .ok ())
  q.verifyVoteExtensions C key signs

end QuorumSignData

namespace Vote

variable (v : Vote)

/-- `Vote.verifyBasic`; a nil key is `none`. -/
def verifyBasic (proTxHash : Bytes) (pubKey : Option PubKey) : Go VoteError PubKey := do
  failIf (proTxHash ≠ v.validatorProTxHash) .invalidValidatorProTxHash
  match pubKey with
  | none => Go.fail .missingValidatorPubKey
  | some key =>
    failIf (key.bytes.length ≠ pubKeySize) .invalidValidatorPubKeySize
    failIf (v.type ≠ .precommit ∧ 0 < v.voteExtensions.length) .invalidExtension
    return key

def verifyReportingSigns (chainID : String) (quorumType : LLMQType) (quorumHash : Bytes) (pubKey : Option PubKey)
    (proTxHash : Bytes) (budget : Option VerificationBudget) : Go VoteError (QuorumSignData × QuorumSigns) := do
  let signData ← (makeVerifyQuorumSigns C chainID quorumType quorumHash v.toProto).mapErr .signData
  let key ← v.verifyBasic proTxHash pubKey
  signData.verify C key v.makeQuorumSigns budget
  return (signData, v.makeQuorumSigns)

/-- `Vote.Verify`, and `Vote.VerifyWithBudget` when a budget is given. -/
def verify (chainID : String) (quorumType : LLMQType) (quorumHash : Bytes)
    (pubKey : Option PubKey) (proTxHash : Bytes) (budget : Option VerificationBudget) : Go VoteError Unit := do
  let _ ← v.verifyReportingSigns C chainID quorumType quorumHash pubKey proTxHash budget
  return ()

def validateBasic : Go String Unit := do
  failIf (isVoteTypeValid v.type = false) "invalid Type"
  failIf (v.height < 0) "negative Height"
  failIf (v.round < 0) "negative Round"
  v.blockID.validateBasic.mapErr ("wrong BlockID: " ++ ·)
  failIf (v.blockID.isNil = false ∧ v.blockID.isComplete = false) "blockID must be either empty or complete"
  failIf (v.validatorProTxHash.length ≠ hashSize) s!"expected ValidatorProTxHash size to be {hashSize} bytes"
  failIf (v.validatorIndex < 0) "negative ValidatorIndex"
  failIf (v.blockSignature.length = 0) "block signature is missing"
  failIf (signatureSize < v.blockSignature.length) s!"block signature is too big (max: {signatureSize})"
  failIf ((v.type ≠ .precommit ∨ v.blockID.isNil) ∧ v.voteExtensions ≠ []) "unexpected vote extensions"
  if v.type = .precommit ∧ v.blockID.isNil = false then
    v.voteExtensions.forM VoteExtension.validate

structure Valid (v : Vote) : Prop where
  total_le : v.blockID.partSetHeader.total ≤ maxBlockPartsCount
  block : v.blockID.isNil ∨ v.blockID.isComplete
  proTxHash_length : v.validatorProTxHash.length = proTxHashSize
  bare : v.type ≠ .precommit ∨ v.blockID.isNil → v.voteExtensions = []
  extensions : ∀ ext ∈ v.voteExtensions, ext.validate = .ok ()

lemma valid_of_validateBasic {v : Vote} (h : v.validateBasic = .ok ()) : v.Valid := by
  unfold validateBasic at h
  simp only [bind_eq_ok, failIf_eq_ok, mapErr_eq_ok, not_and, ne_eq, not_not, Bool.not_eq_false, exists_const] at h
  obtain ⟨-, -, -, _, hbi, hc, hh, -, -, -, hba, he⟩ := h
  simp only [BlockID.validateBasic, PartSetHeader.validateBasic, bind_eq_ok, failIf_eq_ok,
    mapErr_eq_ok, not_lt, exists_const] at hbi
  obtain ⟨_, -, _, ⟨hto, -⟩, -⟩ := hbi
  refine ⟨hto, ?_, hh, hba, ?_⟩
  · cases hni : v.blockID.isNil with
    | true => exact .inl rfl
    | false => exact .inr (hc hni)
  intro ext hex
  split at he
  · exact forM_eq_ok.mp he ext hex
  next hb =>
  have hn : v.voteExtensions = [] := by
    apply hba
    by_contra hco
    simp only [not_or, not_not, Bool.not_eq_true] at hco
    exact hb hco
  rw [hn] at hex
  cases hex

end Vote

end Tenderdash
