import Mathlib.Data.Prod.Lex
import Tenderdash.Types.Vote
import Tenderdash.Types.Proposal

/-!
The file-backed private validator. A request to sign is checked against the last-sign state, the
triple of height, round and step it signed last together with the bytes and the signature. A
request for a later triple is signed, recorded in memory and written to the state file; one for the
same triple and the same bytes is answered with the remembered signature; every other request is
refused.

Each public method is split here where the source writes: the check that ends in a decision, and
the record of a fresh signature. The methods of the source are the two run one after the other.
-/

namespace Tenderdash.Privval

open Lib Go

/-! ### The last-sign state -/

def stepNone : ℤ := 0
def stepPropose : ℤ := 1
def stepPrevote : ℤ := 2
def stepPrecommit : ℤ := 3

/-- Height, round and step of a signature, ordered lexicographically. -/
abbrev HRS := ℤ ×ₗ ℤ ×ₗ ℤ

def mkHRS (height round step : ℤ) : HRS := toLex (height, toLex (round, step))

lemma mkHRS_lt {h r s h' r' s' : ℤ} : mkHRS h r s < mkHRS h' r' s' ↔ h < h' ∨ h = h' ∧ (r < r' ∨ r = r' ∧ s < s') := by
  simp [mkHRS, Prod.Lex.toLex_lt_toLex]

/-- `FilePVLastSignState`. The two slices are told apart from nil. -/
structure LastSignState where
  height : ℤ
  round : ℤ
  step : ℤ
  blockSignature : Option Bytes
  blockSignBytes : Option Bytes
  deriving DecidableEq, Repr

namespace LastSignState

variable (lss : LastSignState) {h r s : ℤ}

def hrs : HRS := mkHRS lss.height lss.round lss.step

/-- Whether the remembered signature is to be reused. -/
def checkHRS (height round step : ℤ) : Go String Bool :=
  if height < lss.height then
    Go.fail s!"height regression. Got {height}, last height {lss.height}"
  else if lss.height = height then
    if round < lss.round then
      Go.fail s!"round regression at height {height}. Got {round}, last round {lss.round}"
    else if lss.round = round then
      if step < lss.step then
        Go.fail s!"step regression at height {height} round {round}. Got {step}, last step {lss.step}"
      else if lss.step = step then
        match lss.blockSignBytes, lss.blockSignature with
        | some _, some _ => .ok true
        | some _, none => Go.crash "pv: BlockID Signature is nil but BlockSignBytes is not!"
        | none, _ => Go.fail "no SignBytes found"
      else .ok false
    else .ok false
  else .ok false

/-- An empty slice is left out of the state file and read back as nil. -/
def omitEmpty : Option Bytes → Option Bytes
  | some [] => none
  | b => b

/-- What the state file holds after `Save`, and what a restart loads. -/
def toFile : LastSignState :=
  { lss with
    blockSignature := omitEmpty lss.blockSignature
    blockSignBytes := omitEmpty lss.blockSignBytes }

@[simp] lemma toFile_hrs : lss.toFile.hrs = lss.hrs := rfl

@[simp] lemma omitEmpty_getD (b : Bytes) : (omitEmpty (some b)).getD [] = b := by
  cases b <;> rfl

lemma omitEmpty_idem (b : Option Bytes) : omitEmpty (omitEmpty b) = omitEmpty b := by
  rcases b with _ | _ | ⟨x, xs⟩ <;> rfl

@[simp] lemma toFile_toFile : lss.toFile.toFile = lss.toFile := by simp [toFile, omitEmpty_idem]

lemma lt_of_checkHRS_false {lss : LastSignState} (hc : lss.checkHRS h r s = .ok false) : lss.hrs < mkHRS h r s := by
  unfold checkHRS at hc
  unfold hrs
  rw [mkHRS_lt]
  split_ifs at hc
  · cases hc
  · cases hc
  · cases hc
  · split at hc <;> cases hc
  -- the three ways to be later: in the step, in the round, in the height
  all_goals omega

lemma eq_of_checkHRS_true {lss : LastSignState} (hc : lss.checkHRS h r s = .ok true) :
    lss.hrs = mkHRS h r s ∧ ∃ b, lss.blockSignBytes = some b := by
  unfold checkHRS at hc
  split_ifs at hc with _ hh _ hr _ hs
  · cases hc
  · cases hc
  · cases hc
  · refine ⟨by unfold hrs; rw [hh, hr, hs], ?_⟩
    cases hb : lss.blockSignBytes with
    | some b => exact ⟨b, rfl⟩
    | none => simp [hb, fail] at hc
  all_goals cases hc

end LastSignState

/-! ### Requests -/

def voteToStep : SignedMsgType → Go String ℤ
  | .prevote => .ok stepPrevote
  | .precommit => .ok stepPrecommit
  | t => Go.fail s!"unknown vote type: {t.code}"

inductive Request where
  | vote (chainID : String) (quorumType : LLMQType) (quorumHash : Bytes) (vote : VoteProto)
  | proposal (chainID : String) (quorumType : LLMQType) (quorumHash : Bytes)
      (proposal : ProposalProto)
  deriving DecidableEq, Repr

namespace Request

def step : Request → ℤ
  | .vote _ _ _ v =>
    match v.type with
    | .prevote => stepPrevote
    | .precommit => stepPrecommit
    | _ => stepNone
  | .proposal .. => stepPropose

def hrs : Request → HRS
  | req@(.vote _ _ _ v) => mkHRS v.height v.round req.step
  | req@(.proposal _ _ _ p) => mkHRS p.height p.round req.step

def signBytes (C : Crypto) : Request → Bytes
  | .vote chainID _ _ v => v.signBytes C chainID
  | .proposal chainID _ _ p =>
    match p.signBytes chainID with
    | .ok bz => bz
    | .error _ => []

end Request

inductive Reply where
  | vote (vote : VoteProto)
  | proposal (signID : Bytes) (proposal : ProposalProto)
  deriving DecidableEq, Repr

structure FilePV where
  privateKeys : List (Bytes × Bytes)
  lastSignState : LastSignState
  file : LastSignState
  deriving DecidableEq, Repr

structure Signs where
  signature : Bytes
  extSigns : List Bytes
  signID : Bytes
  deriving DecidableEq, Repr

structure FreshSign extends Signs where
  height : ℤ
  round : ℤ
  step : ℤ
  signBytes : Bytes
  deriving DecidableEq, Repr

def FreshSign.lastSignState (f : FreshSign) : LastSignState :=
  ⟨f.height, f.round, f.step, some f.signature, some f.signBytes⟩

inductive Decision where
  /-- Hand back the message with what is remembered. -/
  | reuse (signs : Signs)
  /-- Record a new signature, then hand back the message with it. -/
  | sign (fresh : FreshSign)
  deriving DecidableEq, Repr

namespace FilePV

variable (C : Crypto) (pv : FilePV) (chainID : String) (quorumType : LLMQType) (quorumHash : Bytes)

/-- The error lists the first eight characters of every known quorum hash, which panics on a shorter one. -/
def getPrivateKey : Go String Bytes :=
  match pv.privateKeys.lookup quorumHash with
  | some key => .ok key
  | none =>
    if pv.privateKeys.any fun k => k.1.length < 4 then Go.crash "slice bounds out of range"
    else Go.fail "no private key for quorum hash"

def signExtensions (privKey : Bytes) (vote : VoteProto) (items : List SignItem) : Go String (List Bytes) :=
  if vote.type = .precommit then items.mapM fun item => C.signDigest privKey item.signHash
  else if 0 < vote.voteExtensions.length then
    Go.fail "unexpected vote extension - extensions are only allowed in precommits"
  else .ok []

/-- `signVote` up to the point where it records or hands back a signature. -/
def checkVote (vote : VoteProto) : Go String Decision := do
  let step ← voteToStep vote.type
  let sameHRS ← pv.lastSignState.checkHRS vote.height vote.round step
  let quorumSigns ← makeQuorumSigns C chainID quorumType quorumHash vote
  let privKey ← pv.getPrivateKey quorumHash
  let extSigns ← signExtensions C privKey vote quorumSigns.voteExtensionSignItems
  if sameHRS then
    if quorumSigns.block.msg = pv.lastSignState.blockSignBytes.getD [] then
      return .reuse ⟨pv.lastSignState.blockSignature.getD [], extSigns, []⟩
    else Go.fail "conflicting data"
  else
    let sigBlock ← C.signDigest privKey quorumSigns.block.signHash
    return .sign ⟨⟨sigBlock, extSigns, []⟩, vote.height, vote.round, step, quorumSigns.block.msg⟩

/-- `signProposal` up to the same point. A proposal that is signed again is handed back with the
remembered sign bytes in place of the signature. -/
def checkProposal (proposal : ProposalProto) : Go String Decision := do
  let sameHRS ← pv.lastSignState.checkHRS proposal.height proposal.round stepPropose
  let blockSignID ← proposal.signID C chainID quorumType quorumHash
  let blockSignBytes ← proposal.signBytes chainID
  if sameHRS then
    if blockSignBytes ≠ pv.lastSignState.blockSignBytes.getD [] then Go.fail "conflicting data"
    else return .reuse ⟨pv.lastSignState.blockSignBytes.getD [], [], blockSignID⟩
  else
    let privKey ← pv.getPrivateKey quorumHash
    let blockSig ← C.signDigest privKey blockSignID
    return .sign ⟨⟨blockSig, [], blockSignID⟩, proposal.height, proposal.round, stepPropose, blockSignBytes⟩

def check : Request → Go String Decision
  | .vote chainID quorumType quorumHash vote => pv.checkVote C chainID quorumType quorumHash vote
  | .proposal chainID quorumType quorumHash proposal =>
    pv.checkProposal C chainID quorumType quorumHash proposal

def reuses (req : Request) : Bool :=
  match pv.check C req with
  | .ok (.reuse _) => true
  | _ => false

/-- The state in memory changes first, and stays changed when the write fails. -/
def saveSigned (saveOk : Bool) (f : FreshSign) : FilePV × Go String Unit :=
  if saveOk then
    ({ pv with lastSignState := f.lastSignState, file := f.lastSignState.toFile }, .ok ())
  else ({ pv with lastSignState := f.lastSignState }, Go.fail "write failed")

/-- `fillProtoVoteExtensionSigns`: every extension takes the signature at its own index, whichever
extension that signature was made for. -/
def fillExtensionSigns : List (Option VoteExtensionProto) → List Bytes → Go String (List (Option VoteExtensionProto))
  | [], _ => .ok []
  | none :: _, _ => Go.crash "nil pointer dereference"
  | some _ :: _, [] => Go.crash "index out of range"
  | some ext :: exts, sig :: sigs =>
    return some { ext with signature := sig } :: (← fillExtensionSigns exts sigs)

def handBack (req : Request) (signs : Signs) : Go String Reply :=
  match req with
  | .vote _ _ _ vote => do
    let exts ← fillExtensionSigns vote.voteExtensions signs.extSigns
    return .vote { vote with blockSignature := signs.signature, voteExtensions := exts }
  | .proposal _ _ _ proposal =>
    return .proposal signs.signID { proposal with signature := signs.signature }

/-- `SignVote` and `SignProposal`; `saveOk` says whether the write of the state file succeeds. -/
def sign (saveOk : Bool) (req : Request) : FilePV × Go String Reply :=
  match pv.check C req with
  | .error e => (pv, .error e)
  | .ok (.reuse signs) => (pv, handBack req signs)
  | .ok (.sign f) =>
    match pv.saveSigned saveOk f with
    | (pv', .error e) => (pv', .error e)
    | (pv', .ok ()) => (pv', handBack req f.toSigns)

/-! ### What a check has established -/

section Check

variable {C : Crypto} {pv : FilePV} {req : Request} {saveOk : Bool}

def Established (C : Crypto) (pv : FilePV) (req : Request) : Decision → Prop
  | .sign f => pv.lastSignState.checkHRS f.height f.round f.step = .ok false ∧ f.lastSignState.hrs = req.hrs ∧
      f.signBytes = req.signBytes C
  | .reuse _ => pv.lastSignState.hrs = req.hrs ∧ pv.lastSignState.blockSignBytes = some (req.signBytes C)

lemma established {decision : Decision} (hc : pv.check C req = .ok decision) : pv.Established C req decision := by
  cases req with
  | vote chainID t q v =>
    simp only [check, checkVote, bind_eq_ok] at hc
    obtain ⟨step, hst, same, hs, signs, hsi, key, -, extSigns, -, hc⟩ := hc
    have hh : mkHRS v.height v.round step = Request.hrs (.vote chainID t q v) := by
      unfold Request.hrs Request.step
      unfold voteToStep at hst
      split at hst <;> simp_all [fail]
    cases same with
    | true =>
      obtain ⟨hl, b, hb⟩ := LastSignState.eq_of_checkHRS_true hs
      rw [if_pos rfl] at hc
      split_ifs at hc with heq <;> cases hc
      rw [hb, Option.getD_some] at heq
      exact ⟨hl.trans hh, by rw [hb, ← heq, makeQuorumSigns_msg hsi]; rfl⟩
    | false =>
      obtain ⟨sigBlock, -, hc⟩ := of_bind hc
      cases hc
      exact ⟨hs, hh, makeQuorumSigns_msg hsi⟩
  | proposal chainID t q p =>
    simp only [check, checkProposal, bind_eq_ok] at hc
    obtain ⟨same, hs, blockSignID, -, bz, hbz, hc⟩ := hc
    cases same with
    | true =>
      obtain ⟨hl, b, hb⟩ := LastSignState.eq_of_checkHRS_true hs
      rw [if_pos rfl] at hc
      split_ifs at hc with heq <;> cases hc
      rw [hb, Option.getD_some, ne_eq, not_not] at heq
      exact ⟨hl, by simp [Request.signBytes, hbz, hb, heq]⟩
    | false =>
      obtain ⟨key, -, hc⟩ := of_bind hc
      obtain ⟨blockSig, -, hc⟩ := of_bind hc
      cases hc
      exact ⟨hs, rfl, by simp [Request.signBytes, hbz]⟩

/-! ### What a call does -/

lemma sign_of_error {e : Fault String} (hc : pv.check C req = .error e) : pv.sign C saveOk req = (pv, .error e) := by
  simp only [sign, hc]

lemma sign_of_reuse {signs : Signs} (hc : pv.check C req = .ok (.reuse signs)) :
    pv.sign C saveOk req = (pv, handBack req signs) := by simp only [sign, hc]

lemma sign_of_sign {f : FreshSign} (hc : pv.check C req = .ok (.sign f)) :
    pv.sign C saveOk req = ((pv.saveSigned saveOk f).1,
      if saveOk then handBack req f.toSigns else Go.fail "write failed") := by
  simp only [sign, hc, saveSigned]
  cases saveOk <;> rfl

end Check

/-- `LoadFilePV` after a crash: the state file is all that is left. -/
def reload (pv : FilePV) : FilePV := { pv with lastSignState := pv.file }

end FilePV

end Tenderdash.Privval
