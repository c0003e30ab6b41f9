import Tenderdash.Types.Commit

/-!
What a node keeps about commits it cannot apply yet: the commits peers sent while another one is
parked, and, for every block and round at which a commit was rejected, the extensions the application
expects.
-/

namespace Tenderdash

open Lib List Function

/-! ### Candidates -/

/-- `commitKey`, with the extension vector in place of its digest. -/
structure CommitKey where
  height : ℤ
  round : ℤ
  blockID : Bytes
  extensions : List (Option VoteExtensionProto)
  deriving DecidableEq, Repr

def newCommitKey (commit : Commit) : CommitKey where
  height := commit.height
  round := commit.round
  blockID := commit.blockID.key
  extensions := commit.thresholdVoteExtensions

/-- The empty peer ID stands for this node. -/
structure CommitCandidate where
  commit : Commit
  key : CommitKey
  peerID : String
  fromReplay : Bool
  deriving DecidableEq, Repr

structure CommitCandidates where
  height : ℤ
  candidates : List CommitCandidate
  deriving DecidableEq, Repr

namespace CommitCandidates

def resetUnless (c : CommitCandidates) (height : ℤ) : CommitCandidates :=
  if c.height ≠ height then ⟨height, []⟩ else c

def retainable (connected : String → Bool) (candidate : CommitCandidate) : Bool :=
  candidate.fromReplay ∨ candidate.peerID = "" ∨ connected candidate.peerID

def place (candidate : CommitCandidate) : List CommitCandidate → List CommitCandidate
  | [] => [candidate]
  | other :: rest =>
    if other.peerID = candidate.peerID then candidate :: rest else other :: place candidate rest

def add (c : CommitCandidates) (connected : String → Bool) (height : ℤ) (commit : Commit)
    (peerID : String) (fromReplay : Bool) : CommitCandidates :=
  let c := c.resetUnless height
  let kept := c.candidates.filter fun other =>
    other.peerID = peerID ∨ retainable connected other
  { c with candidates := place ⟨commit, newCommitKey commit, peerID, fromReplay⟩ kept }

def holds (c : CommitCandidates) (height : ℤ) (peerID : String) (key : CommitKey) : Bool :=
  c.height = height ∧ c.candidates.any fun other => other.peerID = peerID ∧ other.key = key

/-- `take`, with the candidates that were taken. -/
def take (c : CommitCandidates) (height : ℤ) : CommitCandidates × List CommitCandidate :=
  let c := c.resetUnless height
  ({ c with candidates := [] }, c.candidates)

variable {other : CommitCandidate} {c : CommitCandidates} {height : ℤ}

lemma mem_place {candidate : CommitCandidate} {kept : List CommitCandidate}
    (h : other ∈ place candidate kept) : other = candidate ∨ other ∈ kept := by
  induction kept with
  | nil => exact .inl (mem_singleton.mp h)
  | cons first rest ih =>
    unfold place at h
    split at h
    · rcases mem_cons.mp h with rfl | hm
      · exact .inl rfl
      · exact .inr (mem_cons_of_mem _ hm)
    rcases mem_cons.mp h with rfl | hm
    · exact .inr mem_cons_self
    · exact (ih hm).imp_right (mem_cons_of_mem _)

lemma mem_resetUnless (h : other ∈ (c.resetUnless height).candidates) : c.height = height ∧ other ∈ c.candidates := by
  unfold resetUnless at h
  split at h
  · cases h
  · next heq => exact ⟨not_not.mp heq, h⟩

lemma resetUnless_height (c : CommitCandidates) (height : ℤ) : (c.resetUnless height).height = height := by
  unfold resetUnless
  split
  · rfl
  · next heq => exact not_not.mp heq

lemma mem_add {connected : String → Bool} {commit : Commit} {peerID : String} {fromReplay : Bool}
    (h : other ∈ (c.add connected height commit peerID fromReplay).candidates) :
    other.commit = commit ∨ (c.height = height ∧ other ∈ c.candidates) := by
  rcases mem_place h with rfl | hm
  · exact .inl rfl
  · exact .inr (mem_resetUnless (mem_filter.mp hm).1)

lemma mem_take (h : other ∈ (c.take height).2) : c.height = height ∧ other ∈ c.candidates := mem_resetUnless h

end CommitCandidates

/-! ### Expectations -/

structure CommitExpectation where
  extensions : List (Option VoteExtensionProto)
  rejected : Bool
  deriving DecidableEq, Repr

/-- `commitExpectation.matches`. -/
def CommitExpectation.fits (exp : CommitExpectation) (commit : Commit) : Bool :=
  sameVoteExtensionShape commit.thresholdVoteExtensions exp.extensions

/-- `commitExpectations`, by round and block key. -/
structure CommitExpectations where
  height : ℤ
  byRound : ℤ × Bytes → Option CommitExpectation

namespace CommitExpectations

/-- `commitRoundBlock`. -/
def roundBlock (commit : Commit) : ℤ × Bytes := (commit.round, commit.blockID.key)

variable (e : CommitExpectations) (commit : Commit)

def lookup : Option CommitExpectation :=
  if commit.height ≠ e.height then none else e.byRound (roundBlock commit)

def store (exp : CommitExpectation) : CommitExpectations :=
  { e with byRound := update e.byRound (roundBlock commit) (some exp) }

/-- Expectations of another height are dropped first. -/
def learn (extensions : List (Option VoteExtensionProto)) : CommitExpectations :=
  let e := if commit.height ≠ e.height then ⟨commit.height, fun _ => none⟩ else e
  e.store commit ⟨extensions, false⟩

end CommitExpectations

end Tenderdash
