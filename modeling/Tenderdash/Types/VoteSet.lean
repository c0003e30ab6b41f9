import Tenderdash.Lib.Run
import Tenderdash.Types.Commit
import Tenderdash.Types.SignsRecoverer

/-!
Vote sets: the votes of one height, round and type, the canonical list with one vote of every
validator seen, the votes recorded for each block, and the majority with its recovered threshold
signatures.

A call returns the new vote set with the results of the Go function, or the message of a panic. Go
maps are functions where only lookups are made, and lists of pairs where the code iterates over the
map or asks for its size.
-/

namespace Tenderdash

open Lib Go List

/-! ### Votes for one block -/

/-- Votes for one block whose recoverable extensions are the same. -/
structure VoteExtensionGroup where
  power : ℤ
  representative : Vote
  voters : List Bytes
  deriving DecidableEq, Repr

structure BlockVotes where
  peerMaj23 : Bool
  bitArray : List Bool
  votes : List (Option Vote)
  sum : ℤ
  voteExtensionGroups : List (Bytes × VoteExtensionGroup)
  deriving DecidableEq, Repr

namespace BlockVotes

/-- `newBlockVotes`. -/
def new (peerMaj23 : Bool) (numValidators : ℕ) : BlockVotes :=
  ⟨peerMaj23, List.replicate numValidators false, List.replicate numValidators none, 0, []⟩

def getByIndex (bv : BlockVotes) (index : ℤ) : Option Vote := slot bv.votes index.toNat

def groupPower (bv : BlockVotes) (identity : Bytes) : ℤ :=
  ((bv.voteExtensionGroups.lookup identity).map (·.power)).getD 0

def joinGroup (identity : Bytes) (vote : Vote) (votingPower : ℤ) :
    List (Bytes × VoteExtensionGroup) → List (Bytes × VoteExtensionGroup) :=
  upsert identity fun
    | none => ⟨votingPower, vote, [vote.validatorProTxHash]⟩
    | some group => { group with power := group.power + votingPower, voters := vote.validatorProTxHash :: group.voters }

/-- `blockVotes.addVerifiedVote`, with whether the vote's group reached the recovery threshold. -/
def addVerifiedVote (bv : BlockVotes) (vote : Vote) (identity : Bytes)
    (votingPower recoveryThreshold : ℤ) : BlockVotes × Bool :=
  match bv.getByIndex vote.validatorIndex with
  | some _ => (bv, false)
  | none =>
    let previousPower := bv.groupPower identity
    ({ bv with
        bitArray := bv.bitArray.set vote.validatorIndex.toNat true
        votes := bv.votes.set vote.validatorIndex.toNat (some vote)
        sum := bv.sum + votingPower
        voteExtensionGroups := joinGroup identity vote votingPower bv.voteExtensionGroups },
      previousPower < recoveryThreshold ∧ recoveryThreshold ≤ previousPower + votingPower)

lemma addVerifiedVote_of_free {bv bv' : BlockVotes} {vote : Vote} {identity : Bytes}
    {power threshold : ℤ} {reached : Bool} (hf : slot bv.votes vote.validatorIndex.toNat = none)
    (h : bv.addVerifiedVote vote identity power threshold = (bv', reached)) :
    bv' = { bv with bitArray := bv.bitArray.set vote.validatorIndex.toNat true
                    votes := bv.votes.set vote.validatorIndex.toNat (some vote)
                    sum := bv.sum + power
                    voteExtensionGroups := joinGroup identity vote power bv.voteExtensionGroups } ∧
      (reached = true ↔ bv.groupPower identity < threshold ∧ threshold ≤ bv.groupPower identity + power) := by
  simp only [addVerifiedVote, getByIndex, hf, Prod.mk.injEq] at h
  obtain ⟨rfl, rfl⟩ := h
  simp

/-- The loop body of `canonicalVoteExtensionGroup`. -/
def selectGroup (threshold : ℤ) (canonical : Option (Bytes × VoteExtensionGroup))
    (entry : Bytes × VoteExtensionGroup) : Option (Bytes × VoteExtensionGroup) :=
  if threshold ≤ entry.2.power ∧ canonical.all (fun best => entry.1 < best.1) then some entry
  else canonical

/-- Of the groups that reach the threshold, the one with the smallest identity. -/
def canonicalVoteExtensionGroup (threshold : ℤ) (bv : BlockVotes) : Option (Bytes × VoteExtensionGroup) :=
  bv.voteExtensionGroups.foldl (selectGroup threshold) none

variable {groups : List (Bytes × VoteExtensionGroup)} {best : Option (Bytes × VoteExtensionGroup)}
  {entry : Bytes × VoteExtensionGroup} {threshold : ℤ}

lemma foldl_selectGroup_eq_some
    (h : groups.foldl (selectGroup threshold) best = some entry) :
    best = some entry ∨ (entry ∈ groups ∧ threshold ≤ entry.2.power) := by
  induction groups generalizing best with
  | nil => exact .inl h
  | cons e groups ih =>
    rcases ih h with hb | ⟨hm, hp⟩
    · unfold selectGroup at hb
      split at hb
      · next hr =>
        cases hb
        exact .inr ⟨mem_cons_self, hr.1⟩
      · exact .inl hb
    · exact .inr ⟨mem_cons_of_mem _ hm, hp⟩

lemma isSome_foldl_selectGroup (hp : threshold ≤ entry.2.power)
    (h : best.isSome ∨ entry ∈ groups) : (groups.foldl (selectGroup threshold) best).isSome := by
  induction groups generalizing best with
  | nil => exact h.resolve_right (by simp)
  | cons e groups ih =>
    refine ih ?_
    unfold selectGroup
    rcases h with hb | hin
    · left
      split
      · rfl
      · exact hb
    rcases mem_cons.mp hin with rfl | hin
    · left
      cases best with
      | none => simp [hp]
      | some best => split <;> rfl
    · exact .inr hin

end BlockVotes

/-! ### Vote sets -/

structure Maj23Info where
  blockID : BlockID
  height : ℤ
  round : ℤ
  deriving DecidableEq, Repr

def maxPeerMaj23s : ℕ := 4096

/-- A vote set. A threshold signature that is nil is empty here. -/
structure VoteSet where
  chainID : String
  height : ℤ
  round : ℤ
  signedMsgType : SignedMsgType
  valSet : ValidatorSet
  votesBitArray : List Bool
  votes : List (Option Vote)
  sum : ℤ
  maj23 : Option BlockID
  votesByBlock : Bytes → Option BlockVotes
  peerMaj23s : List (String × Maj23Info)
  thresholdBlockSig : Bytes
  thresholdVoteExtSigs : List VoteExtension

namespace VoteSet

/-- What `NewVoteSet` builds. For height 0 and for a validator set without public keys it panics
instead. -/
def new (chainID : String) (height round : ℤ) (signedMsgType : SignedMsgType) (valSet : ValidatorSet) : VoteSet where
  chainID := chainID
  height := height
  round := round
  signedMsgType := signedMsgType
  valSet := valSet
  votesBitArray := List.replicate valSet.size false
  votes := List.replicate valSet.size none
  sum := 0
  maj23 := none
  votesByBlock := fun _ => none
  peerMaj23s := []
  thresholdBlockSig := []
  thresholdVoteExtSigs := []

variable (C : Crypto) (vs : VoteSet)

/-- The vote of a validator for a block, if it is known. -/
def getVote (valIndex : ℤ) (blockKey : Bytes) : Option Vote :=
  match slot vs.votes valIndex.toNat with
  | some existing =>
    if existing.blockID.key = blockKey then some existing
    else (vs.votesByBlock blockKey).bind (·.getByIndex valIndex)
  | none => (vs.votesByBlock blockKey).bind (·.getByIndex valIndex)

/-- The bytes of `voteExtensionIdentity`: the type and the sign hash of every extension. -/
def identityBytes : List VoteExtension → List SignItem → Go String Bytes
  | ext :: exts, item :: items => do
    failIf (ext.proto.type.code < 0 ∨ 2 ^ 32 ≤ ext.proto.type.code) "invalid vote-extension type"
    let rest ← identityBytes exts items
    return Wire.beBytes 4 ext.proto.type.code ++ item.signHash ++ rest
  | _, _ => .ok []

def voteExtensionIdentity (vote : Vote) : Go String Bytes := do
  let items ← signItems C vs.chainID vs.valSet.quorumType vs.valSet.quorumHash vote.height vote.round vote.recoverable
  identityBytes vote.recoverable items

/-! ### Threshold recovery -/

def makeQuorumSigns : QuorumSigns :=
  ⟨vs.thresholdBlockSig, vs.thresholdVoteExtSigs.map (·.proto.signature)⟩

def isQuorumReached : Bool := vs.maj23.any (·.hash ≠ [])

/-- `recoverThresholdSigns`, with the representative of the canonical extensions. -/
def recoverThresholdSigns (bv : BlockVotes) : Go String (VoteSet × Vote) :=
  match bv.canonicalVoteExtensionGroup vs.valSet.quorumTypeThresholdVotingPower with
  | none =>
    Go.fail "no vote-extension vector is backed by the recovery threshold voting power"
  | some (_, group) => do
    let recoverer ← SignsRecoverer.new bv.votes vs.isQuorumReached (some group.voters)
    let signs ← recoverer.recover C
    let extensions ← recoverer.getVoteExtensions signs
    return ({ vs with thresholdBlockSig := signs.blockSign, thresholdVoteExtSigs := extensions }, group.representative)

/-- With a single validator its own signatures are taken over and nothing is verified. -/
def recoverThresholdSignsAndVerify (bv : BlockVotes) : Go String VoteSet :=
  match bv.votes with
  | [] => .ok vs
  | [none] => Go.crash "nil pointer dereference"
  | [some vote] => .ok { vs with
      thresholdBlockSig := vote.blockSignature
      thresholdVoteExtSigs := vote.recoverable }
  | _ => do
    let (vs', canonicalVote) ← vs.recoverThresholdSigns C bv
    let signData ← Tenderdash.makeQuorumSigns C vs.chainID vs.valSet.quorumType
      vs.valSet.quorumHash canonicalVote.toProto
    match vs.valSet.thresholdPublicKey with
    | none => Go.crash "nil pointer dereference"
    | some key =>
      (signData.verify C key vs'.makeQuorumSigns none).mapErr fun _ => "invalid threshold signature"
      return vs'

/-! ### Adding a vote -/

def setCanonical (vote : Vote) : VoteSet :=
  { vs with votes := vs.votes.set vote.validatorIndex.toNat (some vote)
            votesBitArray := vs.votesBitArray.set vote.validatorIndex.toNat true }

/-- The canonical list's part of `addVerifiedVote`, with the conflicting vote if there is one. -/
def recordCanonical (vote : Vote) (votingPower : ℤ) : Except String (VoteSet × Option Vote) :=
  match slot vs.votes vote.validatorIndex.toNat with
  | some existing =>
    if existing.blockID = vote.blockID then .error "addVerifiedVote does not expect duplicate votes"
    else if vs.maj23.map BlockID.key = some vote.blockID.key then
      .ok (vs.setCanonical vote, some existing)
    else .ok (vs, some existing)
  | none => .ok ({ vs.setCanonical vote with sum := vs.sum + votingPower }, none)

/-- The votes a vote for the block is to be added to. A conflicting vote is added only for a block
that a peer claims a majority for. -/
def trackedVotes (blockKey : Bytes) (conflicting : Option Vote) : Option BlockVotes :=
  match vs.votesByBlock blockKey with
  | some bv => if conflicting.isSome ∧ bv.peerMaj23 = false then none else some bv
  | none => if conflicting.isSome then none else some (BlockVotes.new false vs.valSet.size)

def publish (bv : BlockVotes) : VoteSet :=
  { vs with votes := overlay vs.votes bv.votes }

/-- The block becomes the majority. For precommits this needs the recovery of the threshold
signatures, and is undone if that fails. -/
def tryFinalize (blockID : BlockID) (bv : BlockVotes) : Except String VoteSet :=
  let tentative := { vs with maj23 := some blockID }
  if vs.signedMsgType = .precommit then
    match tentative.recoverThresholdSignsAndVerify C bv with
    | .ok recovered => .ok (recovered.publish bv)
    | .error (.err _) =>
      .ok { vs with maj23 := none, thresholdBlockSig := [], thresholdVoteExtSigs := [] }
    | .error (.panicked msg) => .error msg
  else .ok (tentative.publish bv)

def setVotes (blockKey : Bytes) (bv : BlockVotes) : VoteSet :=
  { vs with votesByBlock := Function.update vs.votesByBlock blockKey (some bv) }

@[simp] lemma setVotes_self (vs : VoteSet) (blockKey : Bytes) (bv : BlockVotes) :
    (vs.setVotes blockKey bv).votesByBlock blockKey = some bv := by simp [setVotes]

lemma setVotes_of_ne (vs : VoteSet) {blockKey key : Bytes} (bv : BlockVotes) (h : key ≠ blockKey) :
    (vs.setVotes blockKey bv).votesByBlock key = vs.votesByBlock key := by simp [setVotes, h]

lemma setVotes_cases {vs : VoteSet} {blockKey key : Bytes} {bv bw : BlockVotes}
    (h : (vs.setVotes blockKey bv).votesByBlock key = some bw) :
    (key = blockKey ∧ bw = bv) ∨ (key ≠ blockKey ∧ vs.votesByBlock key = some bw) := by
  by_cases hk : key = blockKey
  · subst hk
    rw [setVotes_self] at h
    exact .inl ⟨rfl, (Option.some.inj h).symm⟩
  rw [setVotes_of_ne vs bv hk] at h
  exact .inr ⟨hk, h⟩

def votesFor (blockKey : Bytes) : BlockVotes :=
  (vs.votesByBlock blockKey).getD (BlockVotes.new false vs.valSet.size)

@[elab_as_elim] lemma votesFor_induction {vs : VoteSet} {blockKey : Bytes} {motive : BlockVotes → Prop}
    (h : ∀ bv, vs.votesByBlock blockKey = some bv → motive bv) (hn : motive (BlockVotes.new false vs.valSet.size)) :
    motive (vs.votesFor blockKey) := by
  unfold votesFor
  cases hbv : vs.votesByBlock blockKey with
  | some bv => exact h bv hbv
  | none => exact hn

lemma setVotes_keeps (vs : VoteSet) {blockKey key : Bytes} {bv bw : BlockVotes} {R : BlockVotes → BlockVotes → Prop}
    (hr : ∀ bw, R bw bw) (hR : R (vs.votesFor blockKey) bv) (h : vs.votesByBlock key = some bw) :
    ∃ bw', (vs.setVotes blockKey bv).votesByBlock key = some bw' ∧ R bw bw' := by
  by_cases hk : key = blockKey
  · subst hk
    rw [votesFor, h] at hR
    exact ⟨bv, setVotes_self .., hR⟩
  · exact ⟨bw, by rw [setVotes_of_ne vs bv hk, h], hr bw⟩

abbrev relist (votes : List (Option Vote)) (marks : List Bool) (sum : ℤ) : VoteSet :=
  { vs with votes := votes, votesBitArray := marks, sum := sum }

/-- The majority is still open and the block's votes, by this vote, reached the quorum's power or one
of their groups the recovery threshold. -/
def attempts (bv bv' : BlockVotes) (groupReached : Bool) : Bool :=
  let quorum := vs.valSet.quorumVotingThresholdPower
  vs.maj23 = none ∧ quorum ≤ bv'.sum ∧ ((bv.sum < quorum ∧ quorum ≤ bv'.sum) ∨ groupReached = true)

/-- Whether the vote was added, and the conflicting vote. -/
def addVerifiedVote (vote : Vote) (identity : Bytes)
    (votingPower : ℤ) : Except String (VoteSet × Bool × Option Vote) := do
  let (vs₁, conflicting) ← vs.recordCanonical vote votingPower
  match vs₁.trackedVotes vote.blockID.key conflicting with
  | none => return (vs₁, false, conflicting)
  | some bv =>
    let added := bv.addVerifiedVote vote identity votingPower vs.valSet.quorumTypeThresholdVotingPower
    let vs₂ := vs₁.setVotes vote.blockID.key added.1
    let vs₃ ← (if vs.attempts bv added.1 added.2 then vs₂.tryFinalize C vote.blockID added.1 else .ok vs₂)
    return (vs₃, true, conflicting)

/-- How the signatures of a vote are to be checked: by verifying them, charged to a budget if there
is one, or on the evidence of an earlier verification. -/
inductive VoteCheck where
  | verify (budget : Option VerificationBudget)
  | verified (evidence : VoteVerification)

/-- The signature check of `addVote`. -/
def checkSignatures (ref : VoteRef) (val : Validator) : VoteCheck → Go VoteError Unit
  | .verify budget =>
    (ref.vote.verify C vs.chainID vs.valSet.quorumType vs.valSet.quorumHash val.pubKey
      val.proTxHash budget).mapErr fun e =>
        if e = .budgetExhausted then e else .invalidVoteSignature e
  | .verified evidence =>
    evidence.checkMatches C ref vs.chainID vs.valSet.quorumType vs.valSet.quorumHash val.pubKey val.proTxHash

/-- The checks of `addVote`. A new vote gets its extension identity and voting power, a known one
nothing. -/
def checkVote (ref : VoteRef) (check : VoteCheck) : Go VoteError (Option (Bytes × ℤ)) := do
  let vote := ref.vote
  failIf (vote.validatorIndex < 0) .invalidValidatorIndex
  failIf (vote.validatorProTxHash.length = 0) .invalidValidatorProTxHash
  failIf (vote.height ≠ vs.height ∨ vote.round ≠ vs.round ∨ vote.type ≠ vs.signedMsgType) .unexpectedStep
  match vs.valSet.getByIndex vote.validatorIndex with
  | none => Go.fail .invalidValidatorIndex
  | some val =>
    failIf (vote.validatorProTxHash ≠ val.proTxHash) .invalidValidatorProTxHash
    match vs.getVote vote.validatorIndex vote.blockID.key with
    | some existing =>
      failIf (existing.blockSignature ≠ vote.blockSignature) .nonDeterministicSignature
      return none
    | none =>
      vs.checkSignatures C ref val check
      let identity ← (if vs.signedMsgType = .precommit then
          (vs.voteExtensionIdentity C vote).mapErr .extensionIdentity
        else .ok [])
      return some (identity, val.votingPower)

/-- The new vote set, whether the vote was added, and the error. -/
def addVote (vote : Option VoteRef) (check : VoteCheck) : Except String (VoteSet × Bool × Option VoteError) :=
  match vote with
  | none => .ok (vs, false, some .voteNil)
  | some ref =>
    match vs.checkVote C ref check with
    | .error (.err e) => .ok (vs, false, some e)
    | .error (.panicked msg) => .error msg
    | .ok none => .ok (vs, false, none)
    | .ok (some (identity, votingPower)) => do
      let (vs', added, conflicting) ← vs.addVerifiedVote C ref.vote identity votingPower
      match conflicting with
      | some existing => return (vs', added, some (.conflictingVotes existing ref.vote))
      | none =>
        if added then return (vs', true, none)
        else .error "Expected to add non-conflicting vote"

/-! ### Claims of peers -/

inductive PeerMaj23Error where
  | heightMismatch
  | conflictingBlockID
  deriving DecidableEq, Repr

def setPeerMaj23 (peerID : String) (blockID : BlockID) (height round : ℤ) : VoteSet × Option PeerMaj23Error :=
  if vs.height ≠ height then (vs, some .heightMismatch)
  else
    match vs.peerMaj23s.lookup peerID with
    | some existing =>
      if existing.blockID = blockID then (vs, none) else (vs, some .conflictingBlockID)
    | none =>
      if maxPeerMaj23s ≤ vs.peerMaj23s.length then (vs, none)
      else
        let vs' := { vs with peerMaj23s := (peerID, ⟨blockID, height, round⟩) :: vs.peerMaj23s }
        let bv := match vs.votesByBlock blockID.key with
          | some bv => { bv with peerMaj23 := true }
          | none => BlockVotes.new true vs.valSet.size
        (vs'.setVotes blockID.key bv, none)

/-! ### The commit -/

/-- `NewCommit` with the signatures of the commit: one for each recoverable extension, or a panic. -/
def newCommit (height round : ℤ) (blockID : BlockID) (voteExtensions : List VoteExtension)
    (signs : QuorumSigns) (quorumHash : Bytes) : Except String Commit :=
  let extensions := voteExtensions.filter VoteExtension.isThresholdRecoverable
  if signs.voteExtensionSignatures.length ≠ extensions.length then
    .error "count of threshold vote extension signatures doesn't match vote extensions in commit"
  else .ok ⟨height, round, blockID, quorumHash, signs.blockSign,
    List.zipWith (fun ext sig => some (ext.setSignature sig).proto) extensions signs.voteExtensionSignatures⟩

def makeCommit : Except String Commit :=
  if vs.signedMsgType ≠ .precommit then
    .error "Cannot MakeCommit() unless VoteSet.Type is PrecommitType"
  else match vs.maj23 with
    | none => .error "Cannot MakeCommit() unless a blockhash has +2/3"
    | some blockID =>
      if vs.thresholdBlockSig = [] then
        .error "Cannot MakeCommit() unless a thresholdBlockSig has been created"
      else newCommit vs.height vs.round blockID vs.thresholdVoteExtSigs vs.makeQuorumSigns vs.valSet.quorumHash

/-! ### Calls -/

/-- The calls that change a vote set: `AddVote`, `AddVoteWithVerificationBudget` and
`AddVerifiedVote`, which differ in the check, and `SetPeerMaj23`. -/
inductive Call where
  | addVote (vote : Option VoteRef) (check : VoteCheck)
  | setPeerMaj23 (peerID : String) (blockID : BlockID) (height round : ℤ)

/-- The vote set after a call. A panic ends the process, so no run goes on after one. -/
def call : Call → VoteSet
  | .addVote vote check =>
    match vs.addVote C vote check with
    | .ok (vs', _) => vs'
    | .error _ => vs
  | .setPeerMaj23 peerID blockID height round => (vs.setPeerMaj23 peerID blockID height round).1

def returns : Call → Bool
  | .addVote vote check => (vs.addVote C vote check).isOk
  | .setPeerMaj23 .. => true

/-! ### What the calls can do -/

section Cases

variable {C : Crypto} {vs vs' : VoteSet} {vote : Vote}

variable {blockKey : Bytes} {check : VoteCheck} {power : ℤ} {added : Bool} {err : Option VoteError}
  {conflicting : Option Vote} {bv : BlockVotes} {identity : Bytes} {ref : VoteRef}

lemma getVote_eq_none {valIndex : ℤ} (h : vs.getVote valIndex blockKey = none) :
    (∀ w, slot vs.votes valIndex.toNat = some w → w.blockID.key ≠ blockKey) ∧
      slot (vs.votesFor blockKey).votes valIndex.toNat = none := by
  unfold getVote at h
  have hf : ((vs.votesByBlock blockKey).bind fun bv => bv.getByIndex valIndex) = none →
      slot (vs.votesFor blockKey).votes valIndex.toNat = none := by
    intro h
    exact votesFor_induction (fun bv hbv => by simpa [hbv, BlockVotes.getByIndex] using h) (by simp [BlockVotes.new])
  cases hs : slot vs.votes valIndex.toNat with
  | none =>
    simp only [hs] at h
    exact ⟨nofun, hf h⟩
  | some existing =>
    simp only [hs] at h
    split at h
    · cases h
    next hk => exact ⟨fun w hw => (by cases hw; exact hk), hf h⟩

structure Accepts (C : Crypto) (vs : VoteSet) (ref : VoteRef) (check : VoteCheck)
    (val : Validator) (identity : Bytes) : Prop where
  index_nonneg : 0 ≤ ref.vote.validatorIndex
  validator : vs.valSet.validators[ref.vote.validatorIndex.toNat]? = some val
  height_eq : ref.vote.height = vs.height
  round_eq : ref.vote.round = vs.round
  type_eq : ref.vote.type = vs.signedMsgType
  proTxHash_eq : ref.vote.validatorProTxHash = val.proTxHash
  unknown : vs.getVote ref.vote.validatorIndex ref.vote.blockID.key = none
  checked : vs.checkSignatures C ref val check = .ok ()
  identity_eq : if vs.signedMsgType = .precommit then
    vs.voteExtensionIdentity C ref.vote = .ok identity else identity = []

lemma accepts_of_checkVote
    (h : vs.checkVote C ref check = .ok (some (identity, power))) :
    ∃ val, power = val.votingPower ∧ Accepts C vs ref check val identity := by
  obtain ⟨_, hi, h⟩ := of_bind h
  obtain ⟨_, _, h⟩ := of_bind h
  obtain ⟨_, hs, h⟩ := of_bind h
  simp only [failIf_eq_ok, not_or, not_not, ne_eq] at hs
  cases hv : vs.valSet.getByIndex ref.vote.validatorIndex with
  | none => simp [hv, fail] at h
  | some val =>
    rw [hv] at h
    obtain ⟨_, hh, h⟩ := of_bind h
    cases hk : vs.getVote ref.vote.validatorIndex ref.vote.blockID.key with
    | some existing =>
      rw [hk] at h
      obtain ⟨_, _, h⟩ := of_bind h
      cases h
    | none =>
      rw [hk] at h
      obtain ⟨_, hc, h⟩ := of_bind h
      obtain ⟨id, hid, h⟩ := of_bind h
      cases h
      obtain ⟨hn, hg⟩ := ValidatorSet.getByIndex_eq_some.mp hv
      refine ⟨val, rfl, hn, hg, hs.1, hs.2.1, hs.2.2, by simpa using hh, hk, hc, ?_⟩
      split at hid
      · next ht => simpa [ht] using hid
      · next ht => simpa [ht, eq_comm] using hid

/-- **What adding a vote can do**: nothing, or hand an accepted vote to `addVerifiedVote`. -/
lemma addVote_cases {vote : Option VoteRef} (h : vs.addVote C vote check = .ok (vs', added, err)) :
    (vs' = vs ∧ added = false) ∨
      ∃ ref val identity conflicting, vote = some ref ∧ Accepts C vs ref check val identity ∧
        vs.addVerifiedVote C ref.vote identity val.votingPower = .ok (vs', added, conflicting) ∧
        err = conflicting.map (.conflictingVotes · ref.vote) := by
  unfold addVote at h
  cases vote with
  | none => cases h; exact .inl ⟨rfl, rfl⟩
  | some ref =>
    rcases hc : vs.checkVote C ref check with (e | msg) | (_ | ⟨identity, power⟩)
    · simp only [hc] at h; cases h; exact .inl ⟨rfl, rfl⟩
    · simp only [hc] at h; cases h
    · simp only [hc] at h; cases h; exact .inl ⟨rfl, rfl⟩
    simp only [hc] at h
    obtain ⟨⟨vs₁, added₁, conflicting⟩, ha, h⟩ := of_bind h
    obtain ⟨val, rfl, hac⟩ := accepts_of_checkVote hc
    refine .inr ⟨ref, val, identity, conflicting, rfl, hac, ?_⟩
    cases conflicting with
    | some existing => cases h; exact ⟨ha, rfl⟩
    | none =>
      cases added₁ with
      | true => cases h; exact ⟨ha, rfl⟩
      | false => cases h

section

variable (h : vs.recordCanonical vote power = .ok (vs', conflicting))

include h

lemma recordCanonical_cases :
    (slot vs.votes vote.validatorIndex.toNat = none ∧ conflicting = none ∧
        vs' = { vs.setCanonical vote with sum := vs.sum + power }) ∨
      ∃ existing, slot vs.votes vote.validatorIndex.toNat = some existing ∧
        conflicting = some existing ∧
        ((vs.maj23.map BlockID.key = some vote.blockID.key ∧ vs' = vs.setCanonical vote) ∨
          (vs.maj23.map BlockID.key ≠ some vote.blockID.key ∧ vs' = vs)) := by
  unfold recordCanonical at h
  cases hs : slot vs.votes vote.validatorIndex.toNat with
  | none => simp only [hs] at h; cases h; exact .inl ⟨rfl, rfl, rfl⟩
  | some existing =>
    simp only [hs] at h
    refine .inr ⟨existing, rfl, ?_⟩
    split at h
    · cases h
    split at h
    · next hk => cases h; exact ⟨rfl, .inl ⟨hk, rfl⟩⟩
    · next hk => cases h; exact ⟨rfl, .inr ⟨hk, rfl⟩⟩

lemma recordCanonical_frame :
    ∃ votes marks sum, vs' = vs.relist votes marks sum := by
  obtain ⟨-, -, rfl⟩ | ⟨-, -, -, ⟨-, rfl⟩ | ⟨-, rfl⟩⟩ := recordCanonical_cases h
  · exact ⟨_, _, _, rfl⟩
  · exact ⟨_, _, vs.sum, rfl⟩
  · exact ⟨vs'.votes, vs'.votesBitArray, vs'.sum, rfl⟩

end

lemma trackedVotes_cases (vs : VoteSet) (blockKey : Bytes) (conflicting : Option Vote) :
    vs.trackedVotes blockKey conflicting = none ∧ conflicting.isSome ∨
      vs.trackedVotes blockKey conflicting = some (vs.votesFor blockKey) := by
  unfold trackedVotes votesFor
  cases vs.votesByBlock blockKey <;> cases conflicting <;> simp

lemma addVerifiedVote_cases
    (h : vs.addVerifiedVote C vote identity power = .ok (vs', added, conflicting)) :
    ∃ votes marks sum, vs.recordCanonical vote power = .ok (vs.relist votes marks sum, conflicting) ∧
      ((conflicting.isSome ∧ vs' = vs.relist votes marks sum ∧ added = false) ∨
        ∃ bv reached, added = true ∧ (vs.votesFor vote.blockID.key).addVerifiedVote vote identity power
            vs.valSet.quorumTypeThresholdVotingPower = (bv, reached) ∧
          ((vs.attempts (vs.votesFor vote.blockID.key) bv reached = true ∧
              ((vs.relist votes marks sum).setVotes vote.blockID.key bv).tryFinalize C vote.blockID bv = .ok vs') ∨
            vs' = (vs.relist votes marks sum).setVotes vote.blockID.key bv)) := by
  obtain ⟨⟨vs₁, conf⟩, hr, h⟩ := of_bind h
  obtain ⟨votes, marks, sum, rfl⟩ := recordCanonical_frame hr
  obtain ⟨hbv, hc⟩ | hbv := trackedVotes_cases (vs.relist votes marks sum) vote.blockID.key conf
  · simp only [hbv] at h
    cases h
    exact ⟨_, _, _, hr, .inl ⟨hc, rfl, rfl⟩⟩
  · simp only [hbv] at h
    obtain ⟨vs₃, hf, h⟩ := of_bind h
    cases h
    refine ⟨_, _, _, hr, .inr ⟨_, _, rfl, rfl, ?_⟩⟩
    split at hf
    · next ha => exact .inl ⟨ha, hf⟩
    · cases hf
      exact .inr rfl

lemma recoverThresholdSignsAndVerify_frame (h : vs.recoverThresholdSignsAndVerify C bv = .ok vs') :
    vs' = { vs with thresholdBlockSig := vs'.thresholdBlockSig, thresholdVoteExtSigs := vs'.thresholdVoteExtSigs } := by
  unfold recoverThresholdSignsAndVerify at h
  split at h
  · cases h; rfl
  · cases h
  · cases h; rfl
  obtain ⟨⟨vs₁, canonicalVote⟩, hr, h⟩ := of_bind h
  obtain ⟨signData, _, h⟩ := of_bind h
  have hf : vs₁ = { vs with thresholdBlockSig := vs₁.thresholdBlockSig
                            thresholdVoteExtSigs := vs₁.thresholdVoteExtSigs } := by
    unfold recoverThresholdSigns at hr
    split at hr
    · cases hr
    obtain ⟨_, _, hr⟩ := of_bind hr
    obtain ⟨_, _, hr⟩ := of_bind hr
    obtain ⟨_, _, hr⟩ := of_bind hr
    cases hr
    rfl
  split at h
  · cases h
  obtain ⟨_, _, h⟩ := of_bind h
  cases h
  exact hf

lemma tryFinalize_cases {blockID : BlockID} (h : vs.tryFinalize C blockID bv = .ok vs') :
    (∃ sig exts, vs' = { vs with maj23 := some blockID, thresholdBlockSig := sig
                                 thresholdVoteExtSigs := exts }.publish bv ∧
        (vs.signedMsgType = .precommit →
          { vs with maj23 := some blockID }.recoverThresholdSignsAndVerify C bv =
            .ok { vs with maj23 := some blockID, thresholdBlockSig := sig, thresholdVoteExtSigs := exts })) ∨
      (vs.signedMsgType = .precommit ∧
        (∃ e, { vs with maj23 := some blockID }.recoverThresholdSignsAndVerify C bv = .error (.err e)) ∧
        vs' = { vs with maj23 := none, thresholdBlockSig := [], thresholdVoteExtSigs := [] }) := by
  unfold tryFinalize at h
  dsimp only at h
  split at h
  · next ht =>
    split at h
    · next recovered hr =>
      cases h
      have hf := recoverThresholdSignsAndVerify_frame hr
      refine .inl ⟨recovered.thresholdBlockSig, recovered.thresholdVoteExtSigs, ?_, fun _ => ?_⟩
      · rw [hf]
      · rw [hr]; exact congrArg _ hf
    · next e hr => cases h; exact .inr ⟨ht, ⟨e, hr⟩, rfl⟩
    · cases h
  · next ht =>
    cases h
    exact .inl ⟨vs.thresholdBlockSig, vs.thresholdVoteExtSigs, rfl, fun hp => absurd hp ht⟩

lemma setPeerMaj23_cases (vs : VoteSet) (peerID : String) (blockID : BlockID) (height round : ℤ) :
    (vs.setPeerMaj23 peerID blockID height round).1 = vs ∨
      ∃ claims, (vs.setPeerMaj23 peerID blockID height round).1 =
        { vs with peerMaj23s := claims }.setVotes blockID.key { vs.votesFor blockID.key with peerMaj23 := true } := by
  unfold setPeerMaj23 votesFor
  split
  · exact .inl rfl
  split
  · split <;> exact .inl rfl
  split
  · exact .inl rfl
  refine .inr ⟨(peerID, ⟨blockID, height, round⟩) :: vs.peerMaj23s, ?_⟩
  cases vs.votesByBlock blockID.key <;> rfl

lemma addVote_maj23 (h : vs.addVote C (some ref) check = .ok (vs', added, err)) :
    vs'.maj23 = vs.maj23 ∨ vs.maj23 = none ∧ ∀ blockID, vs'.maj23 = some blockID → blockID = ref.vote.blockID := by
  obtain ⟨rfl, -⟩ | ⟨ref', val, identity, conflicting, hr, -, had, -⟩ := addVote_cases h
  · exact .inl rfl
  cases hr
  obtain ⟨votes, marks, sum, -, ⟨-, rfl, -⟩ | ⟨bv, reached, -, -, ⟨ha, hf⟩ | rfl⟩⟩ := addVerifiedVote_cases had
  · exact .inl rfl
  · simp only [attempts, Bool.decide_and, Bool.and_eq_true, decide_eq_true_eq] at ha
    refine .inr ⟨ha.1, fun blockID hm => ?_⟩
    obtain ⟨sig, exts, rfl, -⟩ | ⟨-, -, rfl⟩ := tryFinalize_cases hf
    · exact (Option.some.inj hm).symm
    · cases hm
  · exact .inl rfl

lemma setPeerMaj23_maj23 (vs : VoteSet) (peerID : String) (blockID : BlockID) (height round : ℤ) :
    (vs.setPeerMaj23 peerID blockID height round).1.maj23 = vs.maj23 := by
  obtain h | ⟨claims, h⟩ := setPeerMaj23_cases vs peerID blockID height round
  · rw [h]
  rw [h]
  rfl

end Cases

/-! ### Sample data -/

def sampleVote (type : SignedMsgType) (i : ℕ) (blockID : BlockID) : VoteRef :=
  let vote : Vote := ⟨type, 1, 0, blockID, (sampleValidator i).proTxHash, i, [], []⟩
  let sig := match makeBlockSignItem Crypto.sample "chain" vote.toProto 100 (sampleValidators 1).quorumHash with
    | .ok item => List.replicate pubKeySize (UInt8.ofNat (i + 1)) ++ item.signHash
    | .error _ => []
  ⟨i, { vote with blockSignature := sig }⟩

/-! ### Adding a vote on evidence -/

section Evidence

variable {C : Crypto} {vs vs' : VoteSet}

lemma checkVote_of_checkSignatures {ref : VoteRef} {check check' : VoteCheck} {result : Option (Bytes × ℤ)}
    (h : vs.checkVote C ref check = .ok result)
    (hc : ∀ val, vs.checkSignatures C ref val check = .ok () → vs.checkSignatures C ref val check' = .ok ()) :
    vs.checkVote C ref check' = .ok result := by
  obtain ⟨_, hi, h⟩ := of_bind h
  obtain ⟨_, he, h⟩ := of_bind h
  obtain ⟨_, hst, h⟩ := of_bind h
  refine bind_eq_ok.mpr ⟨_, hi, bind_eq_ok.mpr ⟨_, he, bind_eq_ok.mpr ⟨_, hst, ?_⟩⟩⟩
  split at h
  · cases h
  next val hv =>
  obtain ⟨_, hh, h⟩ := of_bind h
  refine bind_eq_ok.mpr ⟨_, hh, ?_⟩
  split at h
  · exact h
  obtain ⟨_, hs, h⟩ := of_bind h
  exact bind_eq_ok.mpr ⟨_, hc val hs, h⟩

/-- **Evidence is as strong as verification.** Evidence minted for any vote under any parameters, and
a vote set, a vote and a key that may have been rewritten since: if the vote set accepts the vote on
the evidence without error, then adding the vote with a verification of its signatures gives the same
results and the same vote set. -/
theorem addVote_of_evidence (C : Crypto) (minted : Option VoteRef) (chainID : String) (quorumType : LLMQType)
    (quorumHash proTxHash : Bytes) (pubKey : Option PubKey) (budget : Option VerificationBudget)
    (evidence : VoteVerification)
    (hmint : verifyVoteSignatures C minted chainID quorumType quorumHash pubKey proTxHash budget = .ok evidence)
    (vs vs' : VoteSet) (vote : Option VoteRef) (added : Bool)
    (h : vs.addVote C vote (.verified evidence) = .ok (vs', added, none)) :
    vs.addVote C vote (.verify none) = .ok (vs', added, none) := by
  have hv := VoteVerification.verifies_of_verifyVoteSignatures hmint
  cases vote with
  | none => cases h
  | some ref =>
    unfold addVote at h ⊢
    cases hc : vs.checkVote C ref (.verified evidence) with
    | error e =>
      rcases e with e | msg
      · simp [hc] at h
      · simp [hc] at h
    | ok result =>
      have hc' : vs.checkVote C ref (.verify none) = .ok result := by
        refine checkVote_of_checkSignatures hc fun val hm => ?_
        exact mapErr_eq_ok.mpr (VoteVerification.verify_of_checkMatches hv hm)
      simp only [hc] at h
      simp only [hc']
      exact h

def sampleEvidence : VoteVerification :=
  match verifyVoteSignatures Crypto.sample (some (sampleVote .precommit 0 (sampleBlockID 1))) "chain"
      100 (sampleValidators 2).quorumHash (sampleValidator 0).pubKey (sampleValidator 0).proTxHash
      none with
  | .ok evidence => evidence
  | .error _ => ⟨none, "", 0, [], [], 0, [], [], []⟩

def rewrittenVote : VoteRef :=
  let ref := sampleVote .precommit 0 (sampleBlockID 1)
  { ref with vote := { ref.vote with voteExtensions := [⟨.generic, ⟨.default, [1], [], none⟩⟩] } }

/-- The rewritten vote is still what the evidence is about. -/
theorem rewritten_vote_added : ∃ vs',
    (new "chain" 1 0 .precommit (sampleValidators 2)).addVote Crypto.sample (some rewrittenVote)
      (.verify none) = .ok (vs', true, none) := by
  have hm : verifyVoteSignatures Crypto.sample (some (sampleVote .precommit 0 (sampleBlockID 1)))
      "chain" 100 (sampleValidators 2).quorumHash (sampleValidator 0).pubKey
      (sampleValidator 0).proTxHash none = .ok sampleEvidence := by decide +kernel
  cases ha : (new "chain" 1 0 .precommit (sampleValidators 2)).addVote Crypto.sample
      (some rewrittenVote) (.verified sampleEvidence) with
  | error msg =>
    have hok : ((new "chain" 1 0 .precommit (sampleValidators 2)).addVote Crypto.sample
      (some rewrittenVote) (.verified sampleEvidence)).isOk = true := by decide +kernel
    rw [ha] at hok
    cases hok
  | ok result =>
    have hr : ((new "chain" 1 0 .precommit (sampleValidators 2)).addVote Crypto.sample
      (some rewrittenVote) (.verified sampleEvidence)).map (·.2) = .ok (true, none) := by
        decide +kernel
    rw [ha] at hr
    obtain ⟨vs', added, err⟩ := result
    cases hr
    exact ⟨vs', addVote_of_evidence _ _ _ _ _ _ _ _ _ hm _ _ _ _ ha⟩

end Evidence

end VoteSet

end Tenderdash
