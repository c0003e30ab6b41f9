import Tenderdash.Types.VoteSet

/-!
The vote sets of one height: a pair for every round up to the round after the node's own, and for up
to two more rounds that a validator sends votes for.

What an operation can do is said once, by `HeightVoteSet.Evolves`: every vote set it leaves behind
comes from the one of the same round and type, or from a new one.
-/

namespace Tenderdash

open Lib Go Option Function

/-! ### What a vote set says -/

variable (vs : Option VoteSet) (rvs : RoundVoteSet)

/-- A nil vote set has none. -/
def twoThirdsMajority : Option BlockID := vs.bind (·.maj23)

def hasTwoThirdsMajority : Bool := (twoThirdsMajority vs).isSome

def hasTwoThirdsAny : Bool :=
  vs.any fun vs => vs.valSet.quorumVotingThresholdPower ≤ vs.sum

/-- The vote sets of a round. They are nil when the validators' public keys are not known. -/
structure RoundVoteSet where
  prevotes : Option VoteSet
  precommits : Option VoteSet

/-- The vote set of a type. It is asked for prevotes and precommits only: for any other type the
source panics. -/
def RoundVoteSet.get : SignedMsgType → Option VoteSet
  | .prevote => rvs.prevotes
  | .precommit => rvs.precommits
  | _ => none

def RoundVoteSet.set (type : SignedMsgType) (vs : VoteSet) : RoundVoteSet :=
  match type with
  | .prevote => { rvs with prevotes := some vs }
  | .precommit => { rvs with precommits := some vs }
  | _ => rvs

/-- `HeightVoteSet`, with the catch-up rounds by the hash of the validator. -/
structure HeightVoteSet where
  chainID : String
  height : ℤ
  valSet : ValidatorSet
  round : ℤ
  roundVoteSets : ℤ → Option RoundVoteSet
  peerCatchupRounds : Bytes → List ℤ

namespace HeightVoteSet

variable (C : Crypto) (hvs : HeightVoteSet) (round : ℤ) (type : SignedMsgType)

def getVoteSet : Option VoteSet :=
  (hvs.roundVoteSets round).bind (·.get type)

def prevotes : Option VoteSet := hvs.getVoteSet round .prevote

def precommits : Option VoteSet := hvs.getVoteSet round .precommit

/-- The pair of vote sets `addRound` makes. -/
def newRound : RoundVoteSet :=
  if hvs.valSet.hasPublicKeys then
    ⟨some (VoteSet.new hvs.chainID hvs.height round .prevote hvs.valSet),
      some (VoteSet.new hvs.chainID hvs.height round .precommit hvs.valSet)⟩
  else ⟨none, none⟩

/-- `addRound`. `NewVoteSet` panics for height 0. -/
def addRound (hvs : HeightVoteSet) (round : ℤ) : Except String HeightVoteSet :=
  if (hvs.roundVoteSets round).isSome then .error "addRound() for an existing round"
  else if hvs.valSet.hasPublicKeys ∧ hvs.height = 0 then
    .error "Cannot make VoteSet for height == 0, doesn't make sense."
  else .ok { hvs with
    roundVoteSets := Function.update hvs.roundVoteSets round (some (hvs.newRound round)) }

/-- The loop of `SetRound`, over `n` rounds. -/
def addRounds : ℕ → ℤ → HeightVoteSet → Except String HeightVoteSet
  | 0, _, hvs => .ok hvs
  | n + 1, r, hvs => do
    let hvs ← (if (hvs.roundVoteSets r).isSome then .ok hvs else hvs.addRound r)
    addRounds n (r + 1) hvs

/-- The loop starts one below the current round, which for round 0 is round -1. -/
def setRound : Except String HeightVoteSet :=
  let newRound := hvs.round - 1
  if hvs.round ≠ 0 ∧ round < newRound then .error "SetRound() must increment hvs.round"
  else do
    let hvs ← addRounds (round - newRound + 1).toNat newRound hvs
    return { hvs with round := round }

/-- `NewHeightVoteSet` and `Reset`. -/
def new (chainID : String) (height : ℤ) (valSet : ValidatorSet) : Except String HeightVoteSet :=
  addRound ⟨chainID, height, valSet, 0, fun _ => none, fun _ => []⟩ 0

def setVoteSet (vs : VoteSet) : HeightVoteSet :=
  match hvs.roundVoteSets round with
  | some rvs =>
    { hvs with roundVoteSets := Function.update hvs.roundVoteSets round (some (rvs.set type vs)) }
  | none => hvs

def checkVoteClaim (vote : Vote) : Option VoteError :=
  if vote.validatorIndex < 0 then some .invalidValidatorIndex
  else if vote.validatorProTxHash.length = 0 then some .invalidValidatorProTxHash
  else if vote.height ≠ hvs.height then some .unexpectedStep
  else match hvs.valSet.getByIndex vote.validatorIndex with
    | none => some .invalidValidatorIndex
    | some val =>
      if vote.validatorProTxHash ≠ val.proTxHash then some .invalidValidatorProTxHash else none

/-- A round that is opened for the vote is closed again if the vote is not admitted. -/
def addVote (ref : VoteRef) (check : VoteSet.VoteCheck) : Except String (HeightVoteSet × Bool × Option VoteError) :=
  let vote := ref.vote
  if hvs.valSet.hasPublicKeys = false ∨ isVoteTypeValid vote.type = false then .ok (hvs, false, none)
  else match hvs.getVoteSet vote.round vote.type with
    | some vs => do
      let (vs', added, err) ← vs.addVote C (some ref) check
      return (hvs.setVoteSet vote.round vote.type vs', added, err)
    | none =>
      match hvs.checkVoteClaim vote with
      | some err => .ok (hvs, false, some err)
      | none =>
        let rounds := hvs.peerCatchupRounds vote.validatorProTxHash
        if 2 ≤ rounds.length then .ok (hvs, false, some .gotVoteFromUnwantedRound)
        else do
          let opened ← hvs.addRound vote.round
          match opened.getVoteSet vote.round vote.type with
          | none => .error "nil pointer dereference"
          | some vs =>
            let (vs', added, err) ← vs.addVote C (some ref) check
            if added then
              return ({ opened.setVoteSet vote.round vote.type vs' with
                peerCatchupRounds := Function.update hvs.peerCatchupRounds vote.validatorProTxHash
                  (rounds ++ [vote.round]) }, true, err)
            else return (hvs, false, err)

inductive SetPeerMaj23Error where
  | invalidVoteType
  | voteSet (why : VoteSet.PeerMaj23Error)
  deriving DecidableEq, Repr

def setPeerMaj23 (height round : ℤ) (type : SignedMsgType) (peerID : String)
    (blockID : BlockID) : HeightVoteSet × Option SetPeerMaj23Error :=
  if isVoteTypeValid type = false then (hvs, some .invalidVoteType)
  else match hvs.getVoteSet round type with
    | none => (hvs, none)
    | some vs =>
      let (vs', err) := vs.setPeerMaj23 peerID blockID height round
      (hvs.setVoteSet round type vs', err.map .voteSet)

/-- The loop of `POLInfo`, over the rounds below `n`. -/
def polInfoFrom (hvs : HeightVoteSet) : ℕ → ℤ × BlockID
  | 0 => (-1, .nil)
  | n + 1 =>
    match twoThirdsMajority (hvs.prevotes n) with
    | some blockID => (n, blockID)
    | none => hvs.polInfoFrom n

/-- The last round with a majority of prevotes, and its block. -/
def polInfo : ℤ × BlockID := hvs.polInfoFrom (hvs.round + 1).toNat

/-! ### What the operations can do -/

/-- Every vote set of `hvs'` comes, by `rel`, from the one of `hvs` with its round and type or from a
new one, and every one of `hvs` has a successor in `hvs'`. -/
structure Evolves (rel : ℤ → SignedMsgType → VoteSet → VoteSet → Prop) (hvs hvs' : HeightVoteSet) :
    Prop where
  kept : ∀ r t vs, hvs.getVoteSet r t = some vs →
    ∃ vs', hvs'.getVoteSet r t = some vs' ∧ rel r t vs vs'
  comes : ∀ r t vs', hvs'.getVoteSet r t = some vs' → ∃ vs, rel r t vs vs' ∧
    (hvs.getVoteSet r t = some vs ∨
      hvs.getVoteSet r t = none ∧ vs = VoteSet.new hvs.chainID hvs.height r t hvs.valSet)
  chainID_eq : hvs'.chainID = hvs.chainID
  height_eq : hvs'.height = hvs.height
  valSet_eq : hvs'.valSet = hvs.valSet

section Evolves

variable {rel : ℤ → SignedMsgType → VoteSet → VoteSet → Prop} {hvs hvs' hvs'' : HeightVoteSet} {valSet : ValidatorSet}
  {r : ℤ} {t : SignedMsgType} {chainID : String} {height : ℤ}

lemma Evolves.refl (hr : ∀ r t vs, rel r t vs vs) (hvs : HeightVoteSet) : Evolves rel hvs hvs :=
  ⟨fun r t vs h => ⟨vs, h, hr r t vs⟩, fun r t vs h => ⟨vs, hr r t vs, .inl h⟩, rfl, rfl, rfl⟩

lemma Evolves.imp {rel' : ℤ → SignedMsgType → VoteSet → VoteSet → Prop} (h : Evolves rel hvs hvs')
    (hi : ∀ r t vs vs', rel r t vs vs' → rel' r t vs vs') : Evolves rel' hvs hvs' := by
  refine ⟨fun r t vs hg => ?_, fun r t vs' hg => ?_, h.chainID_eq, h.height_eq, h.valSet_eq⟩
  · obtain ⟨vs', hg', hs⟩ := h.kept r t vs hg
    exact ⟨vs', hg', hi r t vs vs' hs⟩
  obtain ⟨vs, hs, hf⟩ := h.comes r t vs' hg
  exact ⟨vs, hi r t vs vs' hs, hf⟩

lemma Evolves.trans {rel₁ rel₂ : ℤ → SignedMsgType → VoteSet → VoteSet → Prop} (hr₁ : ∀ r t vs, rel₁ r t vs vs)
    (ht : ∀ {r t a b c}, rel₁ r t a b → rel₂ r t b c → rel r t a c) (h : Evolves rel₁ hvs hvs')
    (h' : Evolves rel₂ hvs' hvs'') : Evolves rel hvs hvs'' := by
  refine ⟨fun r t vs hvs => ?_, fun r t vs'' hvs'' => ?_, h'.chainID_eq.trans h.chainID_eq,
    h'.height_eq.trans h.height_eq, h'.valSet_eq.trans h.valSet_eq⟩
  · obtain ⟨vs', hvs', hr⟩ := h.kept r t vs hvs
    obtain ⟨vs'', hvs'', hr'⟩ := h'.kept r t vs' hvs'
    exact ⟨vs'', hvs'', ht hr hr'⟩
  obtain ⟨vs', hr', hf'⟩ := h'.comes r t vs'' hvs''
  rcases hf' with hvs' | ⟨hn', rfl⟩
  · obtain ⟨vs, hr, hf⟩ := h.comes r t vs' hvs'
    exact ⟨vs, ht hr hr', hf⟩
  refine ⟨_, ht (hr₁ r t _) hr', .inr ⟨?_, by rw [h.chainID_eq, h.height_eq, h.valSet_eq]⟩⟩
  cases ho : hvs.getVoteSet r t with
  | none => rfl
  | some vs =>
    obtain ⟨vs', hvs', -⟩ := h.kept r t vs ho
    rw [hn'] at hvs'
    cases hvs'

def Same (_ : ℤ) (_ : SignedMsgType) (vs vs' : VoteSet) : Prop := vs' = vs

lemma Same.refl (r : ℤ) (t : SignedMsgType) (vs : VoteSet) : Same r t vs vs := rfl

lemma Evolves.of_same (h : Evolves Same hvs hvs') (h' : Evolves rel hvs' hvs'') : Evolves rel hvs hvs'' := by
  refine trans Same.refl ?_ h h'
  rintro r t a b c rfl hbc
  exact hbc

lemma Evolves.frame (h : Evolves rel hvs hvs') (round : ℤ) (rounds : Bytes → List ℤ) :
    Evolves rel hvs { hvs' with round := round, peerCatchupRounds := rounds } :=
  ⟨h.kept, h.comes, h.chainID_eq, h.height_eq, h.valSet_eq⟩

lemma getVoteSet_setVoteSet_self {round : ℤ} {type : SignedMsgType} {vs : VoteSet}
    (hg : hvs.getVoteSet round type = some vs) (vs' : VoteSet) :
    (hvs.setVoteSet round type vs').getVoteSet round type = some vs' := by
  obtain ⟨rvs, hr, hs⟩ := bind_eq_some_iff.mp hg
  simp only [setVoteSet, hr, getVoteSet, update_self, bind_some]
  cases type <;> first | rfl | cases hs

lemma evolves_setVoteSet (hre : ∀ r t vs, rel r t vs vs) {round : ℤ} {type : SignedMsgType}
    {vs vs' : VoteSet} (hg : hvs.getVoteSet round type = some vs) (hst : rel round type vs vs') :
    Evolves rel hvs (hvs.setVoteSet round type vs') := by
  obtain ⟨rvs, hrv, hsu⟩ := bind_eq_some_iff.mp hg
  have hs := getVoteSet_setVoteSet_self hg vs'
  have ho : ∀ r t, (r, t) ≠ (round, type) → (hvs.setVoteSet round type vs').getVoteSet r t = hvs.getVoteSet r t := by
    intro r t hne
    simp only [setVoteSet, hrv, getVoteSet]
    by_cases hr : r = round
    · subst hr
      have ht : t ≠ type := fun h => hne (by rw [h])
      rw [update_self, hrv]
      cases t <;> cases type <;> first | rfl | exact absurd rfl ht
    · rw [update_of_ne hr]
  refine ⟨fun r t ws hws => ?_, fun r t ws' hw' => ?_, ?_, ?_, ?_⟩
  · by_cases hrt : (r, t) = (round, type)
    · obtain ⟨rfl, rfl⟩ := Prod.mk.injEq .. ▸ hrt
      rw [hg] at hws
      cases hws
      exact ⟨vs', hs, hst⟩
    · exact ⟨ws, by rw [ho r t hrt, hws], hre r t ws⟩
  · by_cases hrt : (r, t) = (round, type)
    · obtain ⟨rfl, rfl⟩ := Prod.mk.injEq .. ▸ hrt
      rw [hs] at hw'
      cases hw'
      exact ⟨vs, hst, .inl hg⟩
    · exact ⟨ws', hre r t ws', .inl (by rw [← ho r t hrt, hw'])⟩
  all_goals simp only [setVoteSet, hrv]

lemma evolves_addRound (hre : ∀ r t vs, rel r t vs vs) {round : ℤ}
    (h : hvs.addRound round = .ok hvs') : Evolves rel hvs hvs' := by
  unfold addRound at h
  split at h
  · cases h
  next hn =>
  rw [not_isSome_iff_eq_none] at hn
  split at h
  · cases h
  cases h
  refine ⟨fun r t vs hg => ?_, fun r t vs' hg => ?_, rfl, rfl, rfl⟩
  · have hr : r ≠ round := by
      rintro rfl
      simp [getVoteSet, hn] at hg
    refine ⟨vs, ?_, hre r t vs⟩
    rw [← hg]
    simp only [getVoteSet, update_of_ne hr]
  · by_cases hr : r = round
    · subst hr
      refine ⟨vs', hre r t vs', .inr ⟨by simp [getVoteSet, hn], ?_⟩⟩
      simp only [getVoteSet, update_self, bind_some, newRound] at hg
      split at hg
      · cases t <;> simp_all [RoundVoteSet.get]
      · cases t <;> simp_all [RoundVoteSet.get]
    · refine ⟨vs', hre r t vs', .inl ?_⟩
      rw [← hg]
      simp only [getVoteSet, update_of_ne hr]

lemma evolves_new (h : new chainID height valSet = .ok hvs) :
    Evolves Same ⟨chainID, height, valSet, 0, fun _ => none, fun _ => []⟩ hvs :=
  evolves_addRound Same.refl h

lemma evolves_addRounds (hr : ∀ r t vs, rel r t vs vs) (ht : ∀ {r t a b c}, rel r t a b → rel r t b c → rel r t a c)
    {n : ℕ} (h : addRounds n r hvs = .ok hvs') : Evolves rel hvs hvs' := by
  induction n generalizing r hvs with
  | zero =>
    cases h
    exact Evolves.refl hr _
  | succ n ih =>
    obtain ⟨next, hn, h⟩ := of_bind h
    refine Evolves.trans hr ht ?_ (ih h)
    split at hn
    · cases hn
      exact Evolves.refl hr _
    · exact evolves_addRound hr hn

lemma evolves_setRound {round : ℤ} (h : hvs.setRound round = .ok hvs') : Evolves Same hvs hvs' := by
  unfold setRound at h
  dsimp only at h
  split at h
  · cases h
  obtain ⟨next, hn, h⟩ := of_bind h
  cases h
  have ha : Evolves Same hvs next := evolves_addRounds Same.refl (fun hab hbc => Eq.trans hbc hab) hn
  exact ha.frame round next.peerCatchupRounds

def AddsTo (C : Crypto) (ref : VoteRef) (check : VoteSet.VoteCheck) (added : Bool)
    (err : Option VoteError) (r : ℤ) (t : SignedMsgType) (vs vs' : VoteSet) : Prop :=
  vs' = vs ∨ (r = ref.vote.round ∧ t = ref.vote.type ∧ vs.addVote C (some ref) check = .ok (vs', added, err))

lemma evolves_addVote {C : Crypto} {ref : VoteRef} {check : VoteSet.VoteCheck} {added : Bool} {err : Option VoteError}
    (h : hvs.addVote C ref check = .ok (hvs', added, err)) : Evolves (AddsTo C ref check added err) hvs hvs' := by
  have hr : ∀ r t vs, AddsTo C ref check added err r t vs vs := fun _ _ _ => .inl rfl
  unfold addVote at h
  dsimp only at h
  split at h
  · cases h
    exact Evolves.refl hr hvs
  split at h
  · next vs hg =>
    obtain ⟨⟨vs', added', err'⟩, ha, h⟩ := of_bind h
    cases h
    exact evolves_setVoteSet hr hg (.inr ⟨rfl, rfl, ha⟩)
  split at h
  · cases h
    exact Evolves.refl hr hvs
  split at h
  · cases h
    exact Evolves.refl hr hvs
  · obtain ⟨opened, ho, h⟩ := of_bind h
    split at h
    · cases h
    next vs hg =>
    obtain ⟨⟨vs', added', err'⟩, ha, h⟩ := of_bind h
    dsimp only at h
    split at h
    · next had =>
      cases h
      rw [had] at ha
      have hop : Evolves Same hvs opened := evolves_addRound Same.refl ho
      have hs := evolves_setVoteSet hr hg (.inr ⟨rfl, rfl, ha⟩)
      exact (hop.of_same hs).frame ..
    · cases h
      exact Evolves.refl hr hvs

def ClaimsFor (peerID : String) (blockID : BlockID) (height : ℤ) (r : ℤ) (_ : SignedMsgType)
    (vs vs' : VoteSet) : Prop :=
  vs' = vs ∨ vs' = (vs.setPeerMaj23 peerID blockID height r).1

lemma evolves_setPeerMaj23 (hvs : HeightVoteSet) (height round : ℤ) (type : SignedMsgType) (peerID : String)
    (blockID : BlockID) :
    Evolves (ClaimsFor peerID blockID height) hvs (hvs.setPeerMaj23 height round type peerID blockID).1 := by
  have hr : ∀ r t vs, ClaimsFor peerID blockID height r t vs vs := fun _ _ _ => .inl rfl
  unfold setPeerMaj23
  split
  · exact Evolves.refl hr hvs
  split
  · exact Evolves.refl hr hvs
  · next vs hg => exact evolves_setVoteSet hr hg (.inr rfl)

lemma Evolves.majority_eq (h : Evolves rel hvs hvs')
    (hr : ∀ vs vs', rel r t vs vs' → vs'.maj23 = vs.maj23) :
    twoThirdsMajority (hvs'.getVoteSet r t) = twoThirdsMajority (hvs.getVoteSet r t) := by
  cases hg : hvs.getVoteSet r t with
  | some vs =>
    obtain ⟨vs', hg', hs⟩ := h.kept r t vs hg
    simp [twoThirdsMajority, hg', hr vs vs' hs]
  | none =>
    cases hg' : hvs'.getVoteSet r t with
    | none => rfl
    | some vs' =>
      obtain ⟨vs, hs, hf⟩ := h.comes r t vs' hg'
      rw [hg] at hf
      obtain ⟨-, rfl⟩ := hf.resolve_left nofun
      simp [twoThirdsMajority, hr _ vs' hs, VoteSet.new]

lemma majority_new (h : new chainID height valSet = .ok hvs)
    (r : ℤ) (t : SignedMsgType) : twoThirdsMajority (hvs.getVoteSet r t) = none :=
  (evolves_new h).majority_eq fun vs vs' hs => by rw [show vs' = vs from hs]

lemma not_majority_new {B : BlockID} (h : new chainID height valSet = .ok hvs)
    (hm : twoThirdsMajority (hvs.getVoteSet r t) = some B) : False := by
  rw [majority_new h] at hm
  cases hm

lemma Evolves.majority_mono (h : Evolves rel hvs hvs') {blockID : BlockID}
    (hr : ∀ vs vs', rel r t vs vs' → vs.maj23 = some blockID → vs'.maj23 = some blockID)
    (hm : twoThirdsMajority (hvs.getVoteSet r t) = some blockID) :
    twoThirdsMajority (hvs'.getVoteSet r t) = some blockID := by
  obtain ⟨vs, hg, hvs⟩ := bind_eq_some_iff.mp hm
  obtain ⟨vs', hg', hs⟩ := h.kept r t vs hg
  exact bind_eq_some_iff.mpr ⟨vs', hg', hr vs vs' hs hvs⟩

end Evolves

end HeightVoteSet

end Tenderdash
