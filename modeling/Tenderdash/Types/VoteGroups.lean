import Tenderdash.Types.VoteSet

/-!
The votes recorded for one block, seen as groups of signature shares.

Validated votes for one block sign the same block digest, and votes of one group the same extension
digests. With as many shares as the quorum type asks for, threshold recovery succeeds and yields a
commit that verifies: `Bucket.recoverThresholdSignsAndVerify`.

What is assumed of the cryptography is named: signatures that verify have full length
(`Crypto.SizedSignatures`), and enough valid shares of distinct validators recover a signature that
verifies under the threshold key (`Crypto.RecoversThreshold`).
-/

namespace Tenderdash

open Lib Go List VoteExtension

/-- Signatures that verify have the length of a BLS signature, which the verification of BLS keys
asks for. -/
def Crypto.SizedSignatures (C : Crypto) : Prop :=
  ∀ key digest sig, PubKey.verifySignatureDigest C key digest sig = true → sig.length = signatureSize

def ValidatorSet.Signs (C : Crypto) (vals : ValidatorSet) (proTxHash digest sig : Bytes) : Prop :=
  ∃ val ∈ vals.validators, val.proTxHash = proTxHash ∧ ∃ key, val.pubKey = some key ∧
    key.verifySignatureDigest C digest sig = true

/-- At least the threshold number of valid shares of distinct validators over one digest recover a
signature that verifies the digest under the threshold key. -/
def Crypto.RecoversThreshold (C : Crypto) (vals : ValidatorSet) : Prop :=
  ∀ (digest : Bytes) (shares : List (Bytes × Bytes)), (shares.map (·.1)).Nodup →
    vals.quorumTypeThresholdCount ≤ shares.length →
    (∀ share ∈ shares, vals.Signs C share.1 digest share.2) →
    ∃ sig key, C.recoverThresholdSignature (shares.map (·.2)) (shares.map (·.1)) = .ok sig ∧
      vals.thresholdPublicKey = some key ∧ key.verifySignatureDigest C digest sig = true

/-- What `NewValidatorSet` and `ValidateBasic` ensure of a set, with the default voting power for
every validator. -/
structure ValidatorSet.WellFormed (vals : ValidatorSet) : Prop where
  nodup : (vals.validators.map (·.proTxHash)).Nodup
  power : ∀ val ∈ vals.validators, val.votingPower = defaultDashVotingPower
  quorumHash_length : vals.quorumHash.length = quorumHashSize
  quorumType_byte : 0 ≤ vals.quorumType ∧ vals.quorumType ≤ 255
  single : ∀ val, vals.validators = [val] → vals.thresholdPublicKey = val.pubKey

structure Ballot where
  chainID : String
  height : ℤ
  round : ℤ
  type : SignedMsgType
  vals : ValidatorSet

def VoteSet.ballot (vs : VoteSet) : Ballot :=
  ⟨vs.chainID, vs.height, vs.round, vs.signedMsgType, vs.valSet⟩

namespace Ballot

def signItems (C : Crypto) (b : Ballot) (v : Vote) : Go String (List SignItem) :=
  Tenderdash.signItems C b.chainID b.vals.quorumType b.vals.quorumHash v.height v.round v.recoverable

/-- The identity of a vote's recoverable extensions; prevotes have none. -/
def identity (C : Crypto) (b : Ballot) (v : Vote) : Bytes :=
  if b.type = .precommit then
    match b.signItems C v >>= VoteSet.identityBytes v.recoverable with
    | .ok identity => identity
    | .error _ => []
  else []

def digests (C : Crypto) (b : Ballot) (v : Vote) : List Bytes :=
  match b.signItems C v with
  | .ok items => items.map (·.signHash)
  | .error _ => []

structure ValidVote (C : Crypto) (b : Ballot) (i : ℕ) (v : Vote) : Prop where
  index_eq : v.validatorIndex = i
  height_eq : v.height = b.height
  round_eq : v.round = b.round
  type_eq : v.type = b.type
  valid : v.Valid
  decoded : ∀ ext ∈ v.voteExtensions, ext.Decoded
  signed : ∃ val key d, b.vals.validators[i]? = some val ∧
    v.validatorProTxHash = val.proTxHash ∧ val.pubKey = some key ∧
    makeVerifyQuorumSigns C b.chainID b.vals.quorumType b.vals.quorumHash v.toProto = .ok d ∧
    d.verify C key v.makeQuorumSigns none = .ok ()
  identity_ok : b.type = .precommit →
    (b.signItems C v >>= VoteSet.identityBytes v.recoverable) = .ok (b.identity C v)

end Ballot

/-! ### Digests -/

def Ballot.IsItem (C : Crypto) (b : Ballot) (ext : VoteExtension) (digest : Bytes) : Prop :=
  ext.isThresholdRecoverable = true ∧ ext.Decoded ∧
    ∃ item, ext.signItem C b.chainID b.height b.round b.vals.quorumType b.vals.quorumHash =
      .ok item ∧ item.signHash = digest

variable {ext : VoteExtension}

lemma VoteExtension.Decoded.setSignature (h : ext.Decoded) (sig : Bytes) : (ext.setSignature sig).Decoded := by
  unfold Decoded voteExtensionFromProto at h ⊢
  obtain ⟨kind, type, extension, signature, id⟩ := ext
  simp only [setSignature] at h ⊢
  cases type <;> simp_all [fail]

lemma Ballot.IsItem.setSignature {C : Crypto} {b : Ballot} {digest : Bytes}
    (h : b.IsItem C ext digest) (sig : Bytes) : b.IsItem C (ext.setSignature sig) digest := by
  obtain ⟨hr, hd, item, hi, hh⟩ := h
  exact ⟨hr, hd.setSignature sig, item, by rw [signItem_setSignature, hi], hh⟩

lemma VoteSet.identityBytes_injective {exts exts' : List VoteExtension} {items items' : List SignItem}
    {identity : Bytes} (hl : exts.length = items.length) (hl' : exts'.length = items'.length)
    (hh : ∀ item ∈ items, item.signHash.length = hashSize)
    (hh' : ∀ item ∈ items', item.signHash.length = hashSize) (h : identityBytes exts items = .ok identity)
    (h' : identityBytes exts' items' = .ok identity) : items.map (·.signHash) = items'.map (·.signHash) := by
  induction exts generalizing exts' items items' identity with
  | nil =>
    obtain rfl : items = [] := length_eq_zero_iff.mp hl.symm
    cases h
    cases exts' with
    | nil =>
      obtain rfl : items' = [] := length_eq_zero_iff.mp hl'.symm
      rfl
    | cons ext' exts' =>
      cases items' with
      | nil => simp at hl'
      | cons item' items' =>
        obtain ⟨_, -, h'⟩ := of_bind h'
        obtain ⟨_, -, h'⟩ := of_bind h'
        have := congrArg length (Except.ok.inj h')
        simp at this
  | cons ext exts ih =>
    cases items with
    | nil => simp at hl
    | cons item items =>
      obtain ⟨_, -, h⟩ := of_bind h
      obtain ⟨rest, hr, h⟩ := of_bind h
      have hid : identity = Wire.beBytes 4 ext.proto.type.code ++ item.signHash ++ rest := (Except.ok.inj h).symm
      subst hid
      cases exts' with
      | nil =>
        have hz := congrArg length (Except.ok.inj h')
        simp at hz
        omega
      | cons ext' exts' =>
        cases items' with
        | nil => simp at hl'
        | cons item' items' =>
          obtain ⟨_, -, h'⟩ := of_bind h'
          obtain ⟨rest', hr', h'⟩ := of_bind h'
          obtain ⟨hf, ht⟩ := append_inj (Except.ok.inj h') (by
            simp [hh item mem_cons_self, hh' item' mem_cons_self])
          obtain ⟨-, hit⟩ := append_inj hf (by simp)
          subst ht
          have hih := ih (by simpa using hl) (by simpa using hl')
            (fun i hi => hh i (mem_cons_of_mem _ hi))
            (fun i hi => hh' i (mem_cons_of_mem _ hi)) hr hr'
          simp [hit, hih]

namespace Ballot.ValidVote

variable {C : Crypto} {b : Ballot} {i j : ℕ} {v w : Vote}

lemma signData (h : b.ValidVote C i v) :
    ∃ d, makeQuorumSigns C b.chainID b.vals.quorumType b.vals.quorumHash v.toProto = .ok d ∧
      makeBlockSignItem C b.chainID v.toProto b.vals.quorumType b.vals.quorumHash = .ok d.block ∧
      b.signItems C v = .ok d.voteExtensionSignItems ∧
      b.vals.Signs C v.validatorProTxHash d.block.signHash v.blockSignature ∧
      List.Forall₂ (fun item ext => b.vals.Signs C v.validatorProTxHash item.signHash
        ext.proto.signature) d.voteExtensionSignItems v.recoverable ∧
      v.voteExtensions.length ≤ maxVoteExtensions := by
  obtain ⟨val, key, d, hva, hh, hk, hd, hv⟩ := h.signed
  obtain ⟨_, hc, hd⟩ := of_bind hd
  have he : voteExtensionsFromProto v.toProto.voteExtensions = .ok v.voteExtensions :=
    voteExtensionsFromProto_map h.decoded
  obtain ⟨hb, hi⟩ := (makeQuorumSigns_eq_ok he).mp hd
  obtain ⟨hsi, hs⟩ := QuorumSignData.verify_eq_ok_iff.mp hv
  have hm : val ∈ b.vals.validators := mem_of_getElem? hva
  refine ⟨d, hd, hb, signItems_eq_ok.mpr hi, ⟨val, hm, hh.symm, key, hk, hsi⟩, ?_, ?_⟩
  · have := forall₂_map_right_iff.mp hs
    exact this.imp fun item ext hex => ⟨val, hm, hh.symm, key, hk, hex⟩
  · simpa [Vote.toProto] using hc

lemma contributes (h : b.ValidVote C i v) (hsi : C.SizedSignatures) :
    SignsRecoverer.Contributes (b.IsItem C)
      (fun m digest sig => b.vals.Signs C m.validatorProTxHash digest sig) (b.digests C v) v := by
  obtain ⟨d, -, -, hi, -, hs, -⟩ := h.signData
  generalize d.voteExtensionSignItems = items at hi hs
  refine ⟨h.valid.proTxHash_length, ?_, fun hex => ?_⟩
  · rw [digests, hi, forall₂_map_right_iff]
    have ha := signItems_eq_ok.mp hi
    have hm : ∀ ext ∈ v.recoverable, ext.isThresholdRecoverable = true ∧ ext.Decoded := by
      intro ext het
      obtain ⟨hin, hr⟩ := mem_filter.mp het
      exact ⟨hr, h.decoded ext hin⟩
    rw [h.height_eq, h.round_eq] at ha
    clear hi
    revert ha hs hm
    generalize v.recoverable = exts
    intro hs ha hm
    induction ha with
    | nil => exact .nil
    | @cons ext item exts items hit _ ih =>
      obtain ⟨hsg, hre⟩ := forall₂_cons.mp hs
      obtain ⟨val, hva, hh, key, hk, hv⟩ := hsg
      obtain ⟨hr, hd⟩ := hm ext mem_cons_self
      exact .cons ⟨⟨hr, hd, item, hit, rfl⟩, hsi key _ _ hv,
        val, hva, hh, key, hk, hv⟩
        (ih hre fun e he => hm e (mem_cons_of_mem _ he))
  · constructor
    · by_contra hne
      exact hex (h.valid.bare (.inl hne))
    · by_contra hne
      exact hex (h.valid.bare (.inr (by simpa using hne)))

lemma digests_eq (hv : b.ValidVote C i v) (hw : b.ValidVote C j w) (ht : b.type = .precommit)
    (hid : b.identity C v = b.identity C w) : b.digests C v = b.digests C w := by
  obtain ⟨d, -, -, hi, -⟩ := hv.signData
  obtain ⟨d', -, -, hi', -⟩ := hw.signData
  have hi₁ := hv.identity_ok ht
  have hi₂ := hw.identity_ok ht
  rw [hi] at hi₁
  rw [hi', ← hid] at hi₂
  have ha := signItems_eq_ok.mp hi
  have ha' := signItems_eq_ok.mp hi'
  have hl : ∀ {exts : List VoteExtension} {its : List SignItem} {hgt rnd : ℤ},
      List.Forall₂ (fun ext item => ext.signItem C b.chainID hgt rnd b.vals.quorumType
        b.vals.quorumHash = .ok item) exts its → ∀ item ∈ its, item.signHash.length = hashSize := by
    intro exts its hgt rnd h item hm
    obtain ⟨k, hk⟩ := mem_iff_getElem?.mp hm
    obtain ⟨hlt, -⟩ := List.getElem?_eq_some_iff.mp hk
    have hg := h.get (h.length_eq ▸ hlt) hlt
    rw [← (List.getElem?_eq_some_iff.mp hk).2]
    exact signItem_signHash_length hg
  simp only [digests, hi, hi']
  exact VoteSet.identityBytes_injective ha.length_eq ha'.length_eq (hl ha) (hl ha') hi₁ hi₂

lemma index_unique (hva : b.vals.WellFormed) (hv : b.ValidVote C i v) (hw : b.ValidVote C j w)
    (h : v.validatorProTxHash = w.validatorProTxHash) : i = j := by
  obtain ⟨val, -, -, hvl, hh, -⟩ := hv.signed
  obtain ⟨val', -, -, hv', hh', -⟩ := hw.signed
  obtain ⟨hi, rfl⟩ := List.getElem?_eq_some_iff.mp hvl
  obtain ⟨hj, rfl⟩ := List.getElem?_eq_some_iff.mp hv'
  have hi' : i < (b.vals.validators.map (·.proTxHash)).length := by simpa using hi
  have hj' : j < (b.vals.validators.map (·.proTxHash)).length := by simpa using hj
  have heq : (b.vals.validators.map (·.proTxHash))[i] = (b.vals.validators.map (·.proTxHash))[j] := by
    rw [getElem_map, getElem_map, ← hh, ← hh', h]
  exact hva.nodup.getElem_inj_iff.mp heq

end Ballot.ValidVote

/-! ### Groups -/

structure Bucket (C : Crypto) (b : Ballot) (key : Bytes) (bv : BlockVotes) : Prop where
  tallied : Tallied b.vals.powers bv.bitArray bv.votes bv.sum
  votes : ∀ (i : ℕ) (v : Vote), slot bv.votes i = some v →
    b.ValidVote C i v ∧ v.blockID.key = key
  nodup : (bv.voteExtensionGroups.map (·.1)).Nodup
  power : ∀ id, bv.groupPower id =
    tally (fun v => b.identity C v = id) b.vals.powers bv.votes
  has_group : ∀ (i : ℕ) (v : Vote), slot bv.votes i = some v →
    ∃ group, bv.voteExtensionGroups.lookup (b.identity C v) = some group
  representative : ∀ id group, bv.voteExtensionGroups.lookup id = some group →
    ∃ i, slot bv.votes i = some group.representative ∧ b.identity C group.representative = id
  voters_sound : ∀ id group, bv.voteExtensionGroups.lookup id = some group →
    ∀ proTxHash ∈ group.voters, ∃ i v, slot bv.votes i = some v ∧
      v.validatorProTxHash = proTxHash ∧ b.identity C v = id
  voters_complete : ∀ id group, bv.voteExtensionGroups.lookup id = some group →
    ∀ (i : ℕ) (v : Vote), slot bv.votes i = some v → b.identity C v = id →
      v.validatorProTxHash ∈ group.voters

namespace Bucket

variable {C : Crypto} {b : Ballot} {key : Bytes} {bv bv' : BlockVotes} {vote : Vote}

lemma new (C : Crypto) (b : Ballot) (key : Bytes) (peerMaj23 : Bool) :
    Bucket C b key (BlockVotes.new peerMaj23 b.vals.size) where
  tallied := by
    rw [← b.vals.powers_length]
    exact Tallied.empty b.vals.powers
  votes := by intro i v h; simp [BlockVotes.new] at h
  nodup := by simp [BlockVotes.new]
  power := by intro id; simp [BlockVotes.new, BlockVotes.groupPower]
  has_group := by intro i v h; simp [BlockVotes.new] at h
  representative := by intro id group h; simp [BlockVotes.new] at h
  voters_sound := by intro id group h; simp [BlockVotes.new] at h
  voters_complete := by intro id group h; simp [BlockVotes.new] at h

lemma claim (h : Bucket C b key bv) : Bucket C b key { bv with peerMaj23 := true } :=
  { h with }

lemma groupPower_joinGroup (bv : BlockVotes) (identity : Bytes) (vote : Vote) (power : ℤ) (id : Bytes)
    {bv' : BlockVotes} (h : bv'.voteExtensionGroups = BlockVotes.joinGroup identity vote power bv.voteExtensionGroups)
    : bv'.groupPower id = bv.groupPower id + if identity = id then power else 0 := by
  unfold BlockVotes.groupPower
  rw [h, BlockVotes.joinGroup]
  by_cases hid : identity = id
  · subst hid
    rw [lookup_upsert_self]
    cases bv.voteExtensionGroups.lookup identity <;> simp
  rw [lookup_upsert_of_ne _ _ (symm hid)]
  simp [hid]

lemma add (h : Bucket C b key bv) {i : ℕ} {val : Validator} {threshold : ℤ} {reached : Bool}
    (hva : b.vals.validators[i]? = some val) (hvo : b.ValidVote C i vote) (hke : vote.blockID.key = key)
    (hf : slot bv.votes i = none)
    (ha : bv.addVerifiedVote vote (b.identity C vote) val.votingPower threshold = (bv', reached)) :
    Bucket C b key bv' := by
  have hpo := ValidatorSet.powers_getElem? hva
  have hi : i < bv.votes.length := by
    rw [h.tallied.length_eq]
    exact (List.getElem?_eq_some_iff.mp hpo).1
  have hin : vote.validatorIndex.toNat = i := by rw [hvo.index_eq]; rfl
  obtain ⟨rfl, -⟩ := BlockVotes.addVerifiedVote_of_free (hin ▸ hf) ha
  rw [hin] at ha ⊢
  -- a recorded vote is the new one or was recorded before
  have hs : ∀ (j : ℕ) (v : Vote), slot (bv.votes.set i (some vote)) j = some v →
      (j = i ∧ v = vote) ∨ slot bv.votes j = some v := fun j v => slot_set_cases
  have hk : ∀ (j : ℕ) (v : Vote), slot bv.votes j = some v →
      slot (bv.votes.set i (some vote)) j = some v := fun j v => slot_set_of_free hf
  have hse := slot_set_self hi vote
  -- a group of the new list is one of the old list, or the group of the vote
  have hgr : ∀ id group, (BlockVotes.joinGroup (b.identity C vote) vote val.votingPower
      bv.voteExtensionGroups).lookup id = some group →
      (id ≠ b.identity C vote ∧ bv.voteExtensionGroups.lookup id = some group) ∨
      (id = b.identity C vote ∧ bv.voteExtensionGroups.lookup id = none ∧
        group = ⟨val.votingPower, vote, [vote.validatorProTxHash]⟩) ∨
      (id = b.identity C vote ∧ ∃ old, bv.voteExtensionGroups.lookup id = some old ∧
        group = { old with power := old.power + val.votingPower, voters := vote.validatorProTxHash :: old.voters }) := by
    intro id group hg
    rw [BlockVotes.joinGroup] at hg
    by_cases hid : id = b.identity C vote
    · subst hid
      rw [lookup_upsert_self] at hg
      cases ho : bv.voteExtensionGroups.lookup (b.identity C vote) with
      | none =>
        rw [ho] at hg
        exact .inr (.inl ⟨rfl, rfl, (Option.some.inj hg).symm⟩)
      | some old =>
        rw [ho] at hg
        exact .inr (.inr ⟨rfl, old, rfl, (Option.some.inj hg).symm⟩)
    · rw [lookup_upsert_of_ne _ _ hid] at hg
      exact .inl ⟨hid, hg⟩
  refine ⟨h.tallied.fill vote hpo hf, ?_, nodup_upsert h.nodup, ?_, ?_, ?_, ?_, ?_⟩
  · intro j v hv
    rcases hs j v hv with ⟨rfl, rfl⟩ | hv
    · exact ⟨hvo, hke⟩
    · exact h.votes j v hv
  · intro id
    rw [groupPower_joinGroup bv (b.identity C vote) vote val.votingPower id rfl, h.power id, tally_set _ vote hpo hi hf]
    simp
  · intro j v hv
    rw [BlockVotes.joinGroup]
    by_cases hid : b.identity C v = b.identity C vote
    · rw [hid]
      exact ⟨_, lookup_upsert_self ..⟩
    rcases hs j v hv with ⟨rfl, rfl⟩ | hv
    · exact absurd rfl hid
    obtain ⟨group, hg⟩ := h.has_group j v hv
    exact ⟨group, by rw [lookup_upsert_of_ne _ _ hid, hg]⟩
  · intro id group hg
    rcases hgr id group hg with ⟨-, hg⟩ | ⟨rfl, -, rfl⟩ | ⟨rfl, old, ho, rfl⟩
    · obtain ⟨j, hj, hid⟩ := h.representative id group hg
      exact ⟨j, hk j _ hj, hid⟩
    · exact ⟨i, hse, rfl⟩
    obtain ⟨j, hj, hid⟩ := h.representative _ old ho
    exact ⟨j, hk j _ hj, hid⟩
  · intro id group hg p hp
    rcases hgr id group hg with ⟨-, hg⟩ | ⟨rfl, -, rfl⟩ | ⟨rfl, old, ho, rfl⟩
    · obtain ⟨j, v, hv, hh, hid⟩ := h.voters_sound id group hg p hp
      exact ⟨j, v, hk j v hv, hh, hid⟩
    · rw [mem_singleton] at hp
      exact ⟨i, vote, hse, hp.symm, rfl⟩
    rcases mem_cons.mp hp with rfl | hp
    · exact ⟨i, vote, hse, rfl, rfl⟩
    obtain ⟨j, v, hv, hh, hid⟩ := h.voters_sound _ old ho p hp
    exact ⟨j, v, hk j v hv, hh, hid⟩
  · intro id group hg j v hv hid
    rcases hgr id group hg with ⟨hne, hg⟩ | ⟨rfl, hno, rfl⟩ | ⟨rfl, old, ho, rfl⟩
    · rcases hs j v hv with ⟨rfl, rfl⟩ | hv
      · exact absurd hid.symm hne
      · exact h.voters_complete id group hg j v hv hid
    · rcases hs j v hv with ⟨rfl, rfl⟩ | hv
      · exact mem_singleton.mpr rfl
      · -- without a group, no vote with the identity was recorded
        obtain ⟨group, hg⟩ := h.has_group j v hv
        rw [hid, hno] at hg
        cases hg
    · rcases hs j v hv with ⟨rfl, rfl⟩ | hv
      · exact mem_cons_self
      · exact mem_cons_of_mem _ (h.voters_complete _ old ho j v hv hid)

end Bucket

/-! ### Recovery -/

def Ballot.canonicalVote (b : Ballot) (blockID : BlockID) (exts : List VoteExtension) : Vote :=
  ⟨.precommit, b.height, b.round, blockID, [], 0, [], exts⟩

structure Ballot.Certifies (C : Crypto) (b : Ballot) (blockID : BlockID) (sig : Bytes)
    (exts : List VoteExtension) : Prop where
  sig_ne : sig ≠ []
  count_le : exts.length ≤ maxVoteExtensions
  signed : ∃ key block digests, b.vals.thresholdPublicKey = some key ∧
    makeBlockSignItem C b.chainID (b.canonicalVote blockID exts).toProto b.vals.quorumType
      b.vals.quorumHash = .ok block ∧
    key.verifySignatureDigest C block.signHash sig = true ∧
    List.Forall₂ (fun ext digest => b.IsItem C ext digest ∧
      key.verifySignatureDigest C digest ext.proto.signature = true) exts digests

def BlockVotes.recorded (bv : BlockVotes) : List Vote := bv.votes.filterMap id

namespace Bucket

variable {C : Crypto} {b : Ballot} {bv : BlockVotes} {blockID : BlockID}

variable {key : Bytes} {i : ℕ}

section

variable (h : Bucket C b key bv)

include h

lemma blockID_eq {j : ℕ} {v w : Vote}
    (hv : slot bv.votes i = some v) (hw : slot bv.votes j = some w) : v.blockID = w.blockID := by
  obtain ⟨hv, hvk⟩ := h.votes i v hv
  obtain ⟨hw, hwk⟩ := h.votes j w hw
  have hb : maxBlockPartsCount < 2 ^ 64 := by decide
  exact BlockID.key_injective hv.valid.block hw.valid.block (hv.valid.total_le.trans_lt hb)
    (hw.valid.total_le.trans_lt hb) (hvk.trans hwk.symm)

lemma blockDigest (ht : b.type = .precommit) {v : Vote} (hv : slot bv.votes i = some v) (exts : List VoteExtension) :
    ∃ block, makeBlockSignItem C b.chainID (b.canonicalVote v.blockID exts).toProto
        b.vals.quorumType b.vals.quorumHash = .ok block ∧
      ∀ w ∈ bv.recorded,
        makeBlockSignItem C b.chainID w.toProto b.vals.quorumType b.vals.quorumHash = .ok block ∧
        b.vals.Signs C w.validatorProTxHash block.signHash w.blockSignature := by
  have hc : ∀ (j : ℕ) (w : Vote), slot bv.votes j = some w →
      makeBlockSignItem C b.chainID w.toProto b.vals.quorumType b.vals.quorumHash =
        makeBlockSignItem C b.chainID (b.canonicalVote v.blockID exts).toProto b.vals.quorumType b.vals.quorumHash := by
    intro j w hw
    obtain ⟨hva, -⟩ := h.votes j w hw
    have hbi : w.blockID = v.blockID := h.blockID_eq hw hv
    exact makeBlockSignItem_congr (hva.type_eq.trans ht) hva.height_eq hva.round_eq hbi
  obtain ⟨d, -, hb, -⟩ := (h.votes i v hv).1.signData
  refine ⟨d.block, by rw [← hc i v hv, hb], fun w hw => ?_⟩
  obtain ⟨j, hj⟩ := mem_filterMap_iff_slot.mp hw
  obtain ⟨d', -, hb', -, hs, -⟩ := (h.votes j w hj).1.signData
  have heq : d'.block = d.block := by
    rw [hc j w hj, ← hc i v hv, hb] at hb'
    exact (Except.ok.inj hb').symm
  exact heq ▸ ⟨hb', hs⟩

lemma nodup_proTxHash (hva : b.vals.WellFormed) : (bv.recorded.map (·.validatorProTxHash)).Nodup := by
  refine hva.nodup.sublist (map_filterMap_sublist fun i v hv => ?_)
  obtain ⟨val, -, -, hvl, hh, -⟩ := (h.votes i v hv).1.signed
  rw [getElem?_map, hvl, hh]
  rfl

lemma selectedGroup (hva : b.vals.WellFormed)
    (hg : ∃ identity, b.vals.quorumTypeThresholdVotingPower ≤
      tally (fun v => b.identity C v = identity) b.vals.powers bv.votes) :
    ∃ identity group, bv.canonicalVoteExtensionGroup b.vals.quorumTypeThresholdVotingPower =
        some (identity, group) ∧ bv.voteExtensionGroups.lookup identity = some group ∧
      (∀ v ∈ bv.recorded, v.validatorProTxHash ∈ group.voters ↔ b.identity C v = identity) ∧
      b.vals.quorumTypeThresholdCount ≤ (bv.recorded.filter (·.validatorProTxHash ∈ group.voters)).length := by
  have hpo := b.vals.quorumTypeThresholdVotingPower_pos
  -- some group reaches the threshold
  obtain ⟨id₀, hi₀⟩ := hg
  rw [← h.power id₀] at hi₀
  have hso : ∃ group, bv.voteExtensionGroups.lookup id₀ = some group ∧
      b.vals.quorumTypeThresholdVotingPower ≤ group.power := by
    unfold BlockVotes.groupPower at hi₀
    cases hl : bv.voteExtensionGroups.lookup id₀ with
    | none =>
      rw [hl] at hi₀
      simp at hi₀
      omega
    | some group => exact ⟨group, rfl, by simpa [hl] using hi₀⟩
  obtain ⟨group₀, hl₀, hp₀⟩ := hso
  have hr : b.vals.quorumTypeThresholdVotingPower ≤ (id₀, group₀).2.power := hp₀
  have hs : (bv.canonicalVoteExtensionGroup b.vals.quorumTypeThresholdVotingPower).isSome :=
    BlockVotes.isSome_foldl_selectGroup hr (.inr (mem_of_lookup hl₀))
  obtain ⟨⟨identity, group⟩, hc⟩ := Option.isSome_iff_exists.mp hs
  obtain ⟨hm, hp⟩ := (BlockVotes.foldl_selectGroup_eq_some hc).resolve_left (by simp)
  have hlo := lookup_of_mem h.nodup hm
  have hvo : ∀ v ∈ bv.recorded, v.validatorProTxHash ∈ group.voters ↔ b.identity C v = identity := by
    intro v hv
    obtain ⟨i, hi⟩ := mem_filterMap_iff_slot.mp hv
    constructor
    · intro hin
      obtain ⟨j, w, hj, hh, hid⟩ := h.voters_sound _ _ hlo _ hin
      have hij := (h.votes j w hj).1.index_unique hva (h.votes i v hi).1 hh
      subst hij
      rw [hi] at hj
      cases hj
      exact hid
    · exact h.voters_complete _ _ hlo i v hi
  refine ⟨identity, group, hc, hlo, hvo, ?_⟩
  -- the group's power counts its votes
  have hws : ∀ w ∈ b.vals.powers, w = defaultDashVotingPower := by
    intro w hw
    obtain ⟨val, hvl, rfl⟩ := mem_map.mp hw
    exact hva.power val hvl
  have hco := tally_eq_length (fun v => decide (b.identity C v = identity)) hws h.tallied.length_eq
  have hf : bv.recorded.filter (·.validatorProTxHash ∈ group.voters) =
      bv.recorded.filter fun v => decide (b.identity C v = identity) :=
    filter_congr fun v hv => by simp [hvo v hv]
  have hgp : bv.groupPower identity = group.power := by simp [BlockVotes.groupPower, hlo]
  rw [← h.power, hgp] at hco
  rw [hf]
  rw [hco] at hp
  unfold ValidatorSet.quorumTypeThresholdVotingPower defaultDashVotingPower at hp
  unfold BlockVotes.recorded
  omega

lemma recoverSigns (hvl : b.vals.WellFormed) (hsz : C.SizedSignatures) (hre : C.RecoversThreshold b.vals)
    (ht : b.type = .precommit) {rep : Vote} (hrp : slot bv.votes i = some rep) {voters : List Bytes}
    (hvo : ∀ v ∈ bv.recorded, v.validatorProTxHash ∈ voters ↔ b.identity C v = b.identity C rep)
    (hco : b.vals.quorumTypeThresholdCount ≤ (bv.recorded.filter (·.validatorProTxHash ∈ voters)).length)
    (quorumReached : Bool) (hrc : quorumReached = false → b.digests C rep = []) :
    ∃ r signs exts key block, SignsRecoverer.new bv.votes quorumReached (some voters) = .ok r ∧
      r.recover C = .ok signs ∧ r.getVoteExtensions signs = .ok exts ∧
      b.vals.thresholdPublicKey = some key ∧
      makeBlockSignItem C b.chainID rep.toProto b.vals.quorumType b.vals.quorumHash = .ok block ∧
      key.verifySignatureDigest C block.signHash signs.blockSign = true ∧
      List.Forall₂ (fun ext digest => b.IsItem C ext digest ∧
        key.verifySignatureDigest C digest ext.proto.signature = true) exts (b.digests C rep) := by
  have hrv := (h.votes i rep hrp).1
  have hn := h.nodup_proTxHash hvl
  have hrm : rep ∈ bv.recorded := mem_filterMap_iff_slot.mpr ⟨i, hrp⟩
  have hp := b.vals.quorumTypeThresholdCount_pos
  -- the voters contribute shares for the representative's digests
  have hcn : ∀ v ∈ bv.votes.filterMap id, v.validatorProTxHash ∈ voters →
      SignsRecoverer.Contributes (b.IsItem C)
        (fun m => b.vals.Signs C m.validatorProTxHash)
        (b.digests C rep) v := by
    intro v hv hin
    obtain ⟨j, hj⟩ := mem_filterMap_iff_slot.mp hv
    have hva := (h.votes j v hj).1
    rw [← hva.digests_eq hrv ht ((hvo v hv).mp hin)]
    exact hva.contributes hsz
  obtain ⟨r, hr, hc⟩ := SignsRecoverer.new_spec quorumReached hcn hn
  -- the block's signature, from the shares of all recorded votes
  obtain ⟨block, -, hb⟩ := h.blockDigest ht hrp []
  have ha : b.vals.quorumTypeThresholdCount ≤ bv.recorded.length := hco.trans (length_filter_le ..)
  obtain ⟨blockSign, key, hbs, hk, hve⟩ := hre block.signHash
    (bv.recorded.map fun v => (v.validatorProTxHash, v.blockSignature))
    (by rw [map_map]; exact hn) (by simpa using ha)
    (by
      intro share hs
      obtain ⟨v, hv, rfl⟩ := mem_map.mp hs
      exact (hb v hv).2)
  rw [map_map, map_map] at hbs
  -- the signature of an extension, from the shares of the group
  have hms : bv.recorded.filter (·.validatorProTxHash ∈ voters) ≠ [] := by
    intro hni
    rw [hni] at hco
    simp at hco
    omega
  have het : ∀ entry digest, SignsRecoverer.Collected (b.IsItem C)
      (fun m => b.vals.Signs C m.validatorProTxHash)
      (bv.recorded.filter (·.validatorProTxHash ∈ voters)) entry digest → ∃ sig,
        C.recoverThresholdSignature (entry.2.map (·.2)) (entry.2.map (·.1)) = .ok sig ∧
          key.verifySignatureDigest C digest sig = true := by
    intro entry digest he
    have hn' : (entry.2.map (·.1)).Nodup := by
      rw [he.voters]
      exact hn.sublist (filter_sublist.map _)
    have hl : b.vals.quorumTypeThresholdCount ≤ entry.2.length := by
      have := congrArg length he.voters
      rw [length_map, length_map] at this
      omega
    obtain ⟨sig, key', hsg, hk', hv'⟩ := hre digest entry.2 hn' hl (by
      intro share hs
      obtain ⟨m, -, hm, hsi⟩ := he.good share hs
      rw [hm]
      exact hsi)
    rw [hk] at hk'
    cases hk'
    exact ⟨sig, hsg, hv'⟩
  obtain ⟨signs, exts, hsi, hex, rfl, hf⟩ := hc.recover hms (fun ext digest sig hi => hi.setSignature sig) hrc hbs het
  exact ⟨r, signs, exts, key, block, hr, hsi, hex, hk, (hb rep hrm).1, hve, hf⟩

end

/-- **Recovery succeeds on a group that reaches the threshold**, and the recovered signatures make a
commit that verifies. -/
theorem recoverThresholdSignsAndVerify {vs : VoteSet} (h : Bucket C vs.ballot key bv)
    (hva : vs.valSet.WellFormed) (hs : C.SizedSignatures)
    (hre : C.RecoversThreshold vs.valSet) (ht : vs.signedMsgType = .precommit)
    (hm : vs.maj23 = some blockID) {j : ℕ} (hvt : slot bv.votes j = some vote)
    (hbi : vote.blockID = blockID) (hln : 2 ≤ bv.votes.length)
    (hg : ∃ identity, vs.valSet.quorumTypeThresholdVotingPower ≤
      tally (fun v => vs.ballot.identity C v = identity) vs.valSet.powers bv.votes) :
    ∃ sig exts, vs.recoverThresholdSignsAndVerify C bv =
        .ok { vs with thresholdBlockSig := sig, thresholdVoteExtSigs := exts } ∧
      vs.ballot.Certifies C blockID sig exts := by
  obtain ⟨identity, group, hca, hl, hvo, hct⟩ := h.selectedGroup hva hg
  obtain ⟨i, hrp, hid⟩ := h.representative identity group hl
  subst hid
  have hv := (h.votes i _ hrp).1
  have hrb : group.representative.blockID = blockID := (h.blockID_eq hrp hvt).trans hbi
  -- a majority for nil has no extensions to recover
  have hrc : vs.isQuorumReached = false → vs.ballot.digests C group.representative = [] := by
    intro hnt
    have hn : blockID.isNil = true := by
      rw [← hrb]
      rcases hv.valid.block with hn | hco
      · exact hn
      rw [hrb] at hco
      simp only [VoteSet.isQuorumReached, hm, Option.any_some, decide_eq_false_iff_not, not_not] at hnt
      simp [BlockID.isComplete, hnt, hashSize] at hco
    have hno := hv.valid.bare (.inr (by rw [hrb]; exact hn))
    simp [Ballot.digests, Ballot.signItems, Vote.recoverable, hno, signItems]
  obtain ⟨r, signs, exts, pubKey, block, hr, hsi, he, hk, hb, hve, hf⟩ :=
    h.recoverSigns hva hs hre ht hrp hvo hct vs.isQuorumReached hrc
  obtain ⟨d, hda, hb', hit, -, -, hma⟩ := hv.signData
  have hd : vs.ballot.digests C group.representative = d.voteExtensionSignItems.map (·.signHash) := by
    rw [Ballot.digests, hit]
  rw [hb] at hb'
  have hdb : d.block = block := (Except.ok.inj hb').symm
  have hrr : vs.recoverThresholdSigns C bv =
      .ok ({ vs with thresholdBlockSig := signs.blockSign, thresholdVoteExtSigs := exts }, group.representative) := by
    unfold VoteSet.recoverThresholdSigns
    rw [show vs.valSet.quorumTypeThresholdVotingPower = vs.ballot.vals.quorumTypeThresholdVotingPower from rfl, hca]
    exact bind_eq_ok.mpr ⟨r, hr, bind_eq_ok.mpr ⟨signs, hsi, bind_eq_ok.mpr ⟨exts, he, rfl⟩⟩⟩
  have hch : d.verify C pubKey ⟨signs.blockSign, exts.map (·.proto.signature)⟩ none = .ok () := by
    refine QuorumSignData.verify_eq_ok_iff.mpr ⟨by rw [hdb]; exact hve, ?_⟩
    rw [hd, forall₂_map_right_iff] at hf
    rw [forall₂_map_right_iff]
    exact hf.flip.imp fun item ext hex => hex.2
  refine ⟨signs.blockSign, exts, ?_, ?_, ?_, pubKey, block, _, hk, ?_, hve, hf⟩
  · unfold VoteSet.recoverThresholdSignsAndVerify
    split
    · next hn => simp [hn] at hln
    · next ho => simp [ho] at hln
    · next ho => simp [ho] at hln
    refine bind_eq_ok.mpr ⟨_, hrr, bind_eq_ok.mpr ⟨d, hda, ?_⟩⟩
    rw [show vs.valSet.thresholdPublicKey = some pubKey from hk]
    exact bind_eq_ok.mpr ⟨(), mapErr_eq_ok.mpr hch, rfl⟩
  · intro hn
    have := hs pubKey _ _ hve
    rw [hn] at this
    simp [signatureSize] at this
  · have hle : exts.length ≤ group.representative.recoverable.length := by
      have hc := (hv.contributes hs).shares.length_eq
      rw [hf.length_eq, ← hc]
    exact hle.trans ((length_filter_le ..).trans hma)
  · have hcn : makeBlockSignItem C vs.ballot.chainID
        (vs.ballot.canonicalVote blockID exts).toProto vs.ballot.vals.quorumType
        vs.ballot.vals.quorumHash = makeBlockSignItem C vs.ballot.chainID
        group.representative.toProto vs.ballot.vals.quorumType vs.ballot.vals.quorumHash :=
      makeBlockSignItem_congr (hv.type_eq.trans ht).symm hv.height_eq.symm hv.round_eq.symm hrb.symm
    rw [hcn, hb]

end Bucket

end Tenderdash
