import Tenderdash.Types.Header

/-!
Selection of the proposer, for the two consensus versions.

Both selectors walk around the validator set: the proposer of a round is the base index, that of
round 0, advanced by the round (`Selector.getProposer_eq`), whatever was asked before at the height. They
differ in how the base index is found from the last block. Version 1 advances the proposer named in the
header. Version 0 first takes back the round in which the block was committed, and that round is the
node's own. After a change of the quorum version 0 looks up the second validator, which a set of one does
not have.
-/

namespace Tenderdash.SelectProposer

open Lib Go Int ValidatorSet

structure BlockStore where
  base : ℤ
  loadBlockMeta : ℤ → Option BlockMeta

structure Rotation where
  vals : ValidatorSet
  proposerIndex : ℤ

namespace Rotation

variable (r : Rotation)

def proposer : Option Validator := r.vals.getByIndex r.proposerIndex

def setProposer (proTxHash : Bytes) : Go String Rotation :=
  let index := r.vals.indexByProTxHash proTxHash
  if index < 0 then Go.fail "proposer not found in validator set"
  else .ok { r with proposerIndex := index }

/-- The source adds the size of the set until the index is not negative, and takes the remainder. -/
def incProposerIndex (times : ℤ) : Rotation :=
  { r with proposerIndex := (r.proposerIndex + times) % r.vals.size }

end Rotation

/-- Arithmetic on rounds is 32 bits wide. -/
def int32 (x : ℤ) : ℤ := (x + 2 ^ 31) % 2 ^ 32 - 2 ^ 31

inductive Version where
  | height
  | heightRound
  deriving DecidableEq, Repr

/-- `heightProposerSelector` and `heightRoundProposerSelector`; the first does not use the round. -/
structure Selector where
  version : Version
  rotation : Rotation
  height : ℤ
  round : ℤ

namespace Selector

variable (C : Crypto)

/-- `proposerFromStore` of the height selector: proposer and increment. -/
def heightTarget (vals : ValidatorSet) (height : ℤ) (bs : BlockStore) : Go String (Bytes × ℤ) :=
  match bs.loadBlockMeta height with
  | some blockMeta =>
    if blockMeta.header.validatorsHash ≠ vals.hash C then
      Go.fail s!"validator set hash mismatch at height {height}"
    else .ok (blockMeta.header.proposerProTxHash, -blockMeta.round)
  | none =>
    match bs.loadBlockMeta (height - 1) with
    | none => Go.fail s!"could not find block meta for previous height {height - 1}"
    | some blockMeta =>
      if blockMeta.header.validatorsHash = vals.hash C then
        .ok (blockMeta.header.proposerProTxHash, 1 - blockMeta.round)
      else match vals.getByIndex 1 with
        | some val => .ok (val.proTxHash, 0)
        | none => Go.crash "nil pointer dereference"

/-- `proposerFromStore` of the height-round selector: proposer and increment. -/
def heightRoundTarget (vals : ValidatorSet) (height round : ℤ) (bs : BlockStore) : Go String (Bytes × ℤ) :=
  match bs.loadBlockMeta height with
  | some blockMeta =>
    if blockMeta.header.validatorsHash ≠ vals.hash C then
      Go.fail s!"validators hash mismatch at height {height}"
    else .ok (blockMeta.header.proposerProTxHash, int32 (round - blockMeta.round))
  | none =>
    match bs.loadBlockMeta (height - 1) with
    | none => Go.fail s!"could not find block meta for previous height {height - 1}"
    | some blockMeta =>
      if blockMeta.header.validatorsHash = vals.hash C then
        .ok (blockMeta.header.proposerProTxHash, int32 (1 + round))
      else match vals.getByIndex 0 with
        | some val => .ok (val.proTxHash, round)
        | none => Go.crash "nil pointer dereference"

def target (version : Version) (vals : ValidatorSet) (height round : ℤ) (bs : BlockStore) : Go String (Bytes × ℤ) :=
  match version with
  | .height => heightTarget C vals height bs
  | .heightRound => heightRoundTarget C vals height round bs

def proposerFromStore (s : Selector) (height round : ℤ) (bs : Option BlockStore) : Go String Selector :=
  match bs with
  | none => Go.fail "block store is nil"
  | some bs =>
    if height = 0 ∨ height = 1 then
      -- the first blocks are proposed by the first validator
      match s.rotation.vals.getByIndex 0 with
      | none => Go.crash "index out of range"
      | some val => do
        let rotation ← (s.rotation.setProposer val.proTxHash).mapErr ("could not determine proposer: " ++ ·)
        .ok { s with rotation := rotation }
    else do
      let found ← target C s.version s.rotation.vals height round bs
      let rotation ← (s.rotation.setProposer found.1).mapErr ("could not set proposer: " ++ ·)
      .ok { s with rotation := if found.2 = 0 then rotation else rotation.incProposerIndex found.2 }

/-- `NewHeightProposerSelector` and `NewHeightRoundProposerSelector`. -/
def new (version : Version) (vset : Rotation) (currentHeight currentRound : ℤ)
    (bs : Option BlockStore) : Go String Selector :=
  if vset.vals.size = 0 then Go.fail "empty validator set"
  else
    let s : Selector := ⟨version, vset, currentHeight, currentRound⟩
    match bs with
    | none => .ok s
    | some store =>
      if 0 < store.base ∧ store.base ≤ currentHeight then
        (s.proposerFromStore C currentHeight currentRound bs).mapErr ("could not initialize proposer: " ++ ·)
      else .ok s

/-- The height selector does not look at rounds. -/
def updateScores (s : Selector) (newHeight newRound : ℤ) (bs : Option BlockStore) : Go String Selector :=
  let heightDiff := newHeight - s.height
  if heightDiff = 0 then
    match s.version with
    | .height => .ok s
    | .heightRound =>
      let roundDiff := int32 (newRound - s.round)
      if roundDiff = 0 then .ok s
      else .ok { s with rotation := s.rotation.incProposerIndex roundDiff, round := newRound }
  else if heightDiff < 0 then Go.fail s!"cannot go back in height: {s.height} -> {newHeight}"
  else if 1 < heightDiff then
    if bs.all fun store => s.height < store.base then
      Go.fail s!"cannot jump more than one height without data in block store: {s.height} -> {newHeight}"
    else do
      let s ← (s.proposerFromStore C newHeight newRound bs).mapErr ("could not determine proposer: " ++ ·)
      .ok { s with height := newHeight, round := newRound }
  else
    let times := match s.version with
      | .height => 1
      | .heightRound => heightDiff + newRound
    .ok { s with rotation := s.rotation.incProposerIndex times, height := newHeight, round := newRound }

def updateHeightRound (s : Selector) (newHeight round : ℤ) (bs : Option BlockStore) :
    Go String Selector := s.updateScores C newHeight round bs

/-- The height selector advances a copy of the set to the round. -/
def getProposer (s : Selector) (height round : ℤ) (bs : Option BlockStore) :
    Go String (Selector × Option Validator) := do
  let s ← s.updateScores C height round bs
  match s.version with
  | .height =>
    .ok (s, if round = 0 then s.rotation.proposer else (s.rotation.incProposerIndex round).proposer)
  | .heightRound => .ok (s, s.rotation.proposer)

inductive Call where
  | updateHeightRound (round : ℤ)
  | getProposer (round : ℤ)
  deriving DecidableEq, Repr

def Call.round : Call → ℤ
  | .updateHeightRound round => round
  | .getProposer round => round

def call (bs : Option BlockStore) (height : ℤ) (s : Selector) : Call → Selector
  | .updateHeightRound round => (s.updateHeightRound C height round bs).toOption.getD s
  | .getProposer round => ((s.getProposer C height round bs).toOption.map (·.1)).getD s

/-! ### The rounds of one height -/

variable {C : Crypto}

structure Based (vals : ValidatorSet) (height base : ℤ) (s : Selector) : Prop where
  vals_eq : s.rotation.vals = vals
  height_eq : s.height = height
  round_mem : 0 ≤ s.round ∧ s.round < 2 ^ 31
  index_eq : s.rotation.proposerIndex =
    (base + match s.version with | .height => 0 | .heightRound => s.round) % vals.size

lemma int32_sub {a b : ℤ} (ha : 0 ≤ a ∧ a < 2 ^ 31) (hb : 0 ≤ b ∧ b < 2 ^ 31) : int32 (a - b) = a - b := by
  unfold int32
  omega

variable {vals : ValidatorSet} {height base round : ℤ} {s : Selector}

lemma Based.updateScores (h : Based vals height base s) (hr : 0 ≤ round ∧ round < 2 ^ 31) (bs : Option BlockStore) :
    ∃ s', s.updateScores C height round bs = .ok s' ∧ Based vals height base s' ∧
      s'.version = s.version ∧ (s.version = .heightRound → s'.round = round) := by
  obtain ⟨version, ⟨vals', index⟩, height', old⟩ := s
  obtain ⟨rfl, rfl, ho, hi⟩ := h
  dsimp only at ho hi
  unfold updateScores
  cases version with
  | height => exact ⟨_, by simp, ⟨rfl, rfl, ho, hi⟩, rfl, by simp⟩
  | heightRound =>
    rw [int32_sub hr ho, sub_self, if_pos rfl]
    by_cases hs : round - old = 0
    · rw [if_pos hs]
      exact ⟨_, rfl, ⟨rfl, rfl, ho, hi⟩, rfl, fun _ => by dsimp only; omega⟩
    rw [if_neg hs]
    refine ⟨_, rfl, ⟨rfl, rfl, hr, ?_⟩, rfl, fun _ => rfl⟩
    change (index + (round - old)) % vals'.size = (base + round) % vals'.size
    rw [hi, emod_add_emod]
    congr 1
    ring

/-- **The proposer of a round** is found by advancing the base index by the round, whatever the selector
was asked before. -/
lemma Based.getProposer (h : Based vals height base s) (hr : 0 ≤ round ∧ round < 2 ^ 31) (bs : Option BlockStore) :
    ∃ s', s.getProposer C height round bs = .ok (s', vals.getByIndex ((base + round) % vals.size)) ∧
      Based vals height base s' := by
  obtain ⟨s', hs', hb, hv, hat⟩ := h.updateScores (C := C) hr bs
  refine ⟨s', ?_, hb⟩
  unfold Selector.getProposer
  rw [hs']
  have hi := hb.index_eq
  have hva := hb.vals_eq
  obtain ⟨version, ⟨vals', index⟩, height', at'⟩ := s'
  dsimp only at hva hi hat hv
  subst hva
  cases version with
  | height =>
    by_cases hz : round = 0
    · subst hz
      simp [bind, Except.bind, Rotation.proposer, hi]
    · simp [bind, Except.bind, Rotation.proposer, Rotation.incProposerIndex, hi, hz]
  | heightRound =>
    rw [hat hv.symm] at hi
    simp [bind, Except.bind, Rotation.proposer, hi]

lemma Based.calls (bs : Option BlockStore) {calls : List Call} (hc : ∀ c ∈ calls, 0 ≤ c.round ∧ c.round < 2 ^ 31)
    (h : Based vals height base s) : Based vals height base (calls.foldl (call C bs height) s) := by
  induction calls generalizing s with
  | nil => exact h
  | cons c rest ih =>
    refine ih (fun c' hc' => hc c' (List.mem_cons_of_mem _ hc')) ?_
    have hr := hc c List.mem_cons_self
    cases c with
    | updateHeightRound round =>
      obtain ⟨s', hs', hb, _⟩ := h.updateScores (C := C) hr bs
      have : s.updateScores C height round bs = .ok s' := hs'
      simpa [call, updateHeightRound, this, Except.toOption] using hb
    | getProposer round =>
      obtain ⟨s', hs', hb⟩ := h.getProposer (C := C) hr bs
      have : s.getProposer C height round bs = .ok (s', _) := hs'
      simpa [call, this, Except.toOption] using hb

/-! ### The base index of the next height -/

variable (C)

def named (version : Version) (vset : Rotation) (height : ℤ) (bs : BlockStore) (calls : List Call)
    (round : ℤ) : Go String (Option Validator) := do
  let s ← new C version vset height 0 (some bs)
  let r ← (calls.foldl (call C (some bs) height) s).getProposer C height round (some bs)
  .ok r.2

def storeIndex (version : Version) (vals : ValidatorSet) (height round : ℤ) (bs : BlockStore) : Go String ℤ :=
  if height = 0 ∨ height = 1 then .ok 0
  else do
    let found ← target C version vals height round bs
    if vals.indexByProTxHash found.1 < 0 then
      Go.fail ("could not set proposer: " ++ "proposer not found in validator set")
    else .ok ((vals.indexByProTxHash found.1 + found.2) % vals.size)

variable {C} {version : Version} {bs : BlockStore}

lemma indexByProTxHash_lt (vals : ValidatorSet) (hsize : 0 < vals.size) (proTxHash : Bytes) :
    vals.indexByProTxHash proTxHash < vals.size := by
  unfold indexByProTxHash
  split
  · next index h =>
    obtain ⟨hlt, _⟩ := List.findIdx?_eq_some_iff_getElem.mp h
    exact_mod_cast hlt
  · omega

lemma setProposer_eq_ok {r r' : Rotation} {proTxHash : Bytes} (h : r.setProposer proTxHash = .ok r') :
    0 ≤ r.vals.indexByProTxHash proTxHash ∧ r' = ⟨r.vals, r.vals.indexByProTxHash proTxHash⟩ := by
  unfold Rotation.setProposer at h
  dsimp only at h
  split_ifs at h with hn
  · cases h
  cases h
  exact ⟨not_lt.mp hn, rfl⟩

lemma indexByProTxHash_eq {i : ℕ} {val : Validator} (h : vals.validators[i]? = some val)
    (hf : ∀ j < i, ∀ w, vals.validators[j]? = some w → w.proTxHash ≠ val.proTxHash) :
    vals.indexByProTxHash val.proTxHash = i := by
  obtain ⟨hlt, rfl⟩ := List.getElem?_eq_some_iff.mp h
  have hfi : vals.validators.findIdx? (fun w => w.proTxHash = vals.validators[i].proTxHash) = some i :=
    List.findIdx?_eq_some_iff_getElem.mpr ⟨hlt, by simp, fun j hj =>
      by simpa using hf j hj _ (List.getElem?_eq_getElem (hj.trans hlt))⟩
  simp [indexByProTxHash, hfi]

lemma proposerFromStore_eq (hsize : 0 < s.rotation.vals.size) (bs : BlockStore) :
    s.proposerFromStore C height round (some bs) = (storeIndex C s.version s.rotation.vals height round bs).map
      fun index => { s with rotation := ⟨s.rotation.vals, index⟩ } := by
  unfold proposerFromStore storeIndex
  dsimp only
  split_ifs with hf
  · have hg : s.rotation.vals.validators[0]? = some (s.rotation.vals.validators[0]) := List.getElem?_eq_getElem hsize
    rw [getByIndex_eq_some.mpr ⟨le_rfl, hg⟩]
    have hi := indexByProTxHash_eq hg fun j hj => by omega
    simp only [Rotation.setProposer, hi]
    rfl
  · cases target C s.version s.rotation.vals height round bs with
    | error e => rfl
    | ok found =>
      simp only [bind, Except.bind, Rotation.setProposer]
      by_cases hn : s.rotation.vals.indexByProTxHash found.1 < 0
      · simp only [if_pos hn]
        rfl
      simp only [if_neg hn]
      by_cases hz : found.2 = 0
      · have hlt := indexByProTxHash_lt s.rotation.vals hsize found.1
        simp only [hz, add_zero, emod_eq_of_lt (not_lt.mp hn) hlt]
        rfl
      · simp only [if_neg hz]
        rfl

lemma storeIndex_mem (hsize : 0 < vals.size) {index : ℤ} (h : storeIndex C version vals height round bs = .ok index) :
    0 ≤ index ∧ index < vals.size := by
  unfold storeIndex at h
  split_ifs at h
  · cases h
    exact ⟨le_rfl, by exact_mod_cast hsize⟩
  obtain ⟨found, -, h⟩ := of_bind h
  split_ifs at h
  · cases h
  cases h
  exact ⟨emod_nonneg _ (by omega), emod_lt_of_pos _ (by exact_mod_cast hsize)⟩

lemma new_eq (vset : Rotation) (hsize : 0 < vset.vals.size) :
    new C version vset height round (some bs) =
      if 0 < bs.base ∧ bs.base ≤ height then
        ((storeIndex C version vset.vals height round bs).mapErr ("could not initialize proposer: " ++ ·)).map
          fun index => ⟨version, ⟨vset.vals, index⟩, height, round⟩
      else .ok ⟨version, vset, height, round⟩ := by
  unfold new
  rw [if_neg hsize.ne']
  dsimp only
  split_ifs
  · rw [proposerFromStore_eq hsize]
    rcases storeIndex C version vset.vals height round bs with (e | msg) | index <;> rfl
  · rfl

lemma named_eq {vset : Rotation} {calls : List Call} (hi : 0 ≤ vset.proposerIndex ∧ vset.proposerIndex < vset.vals.size)
    (hc : ∀ c ∈ calls, 0 ≤ c.round ∧ c.round < 2 ^ 31) (hr : 0 ≤ round ∧ round < 2 ^ 31) :
    named C version vset height bs calls round =
      if 0 < bs.base ∧ bs.base ≤ height then
        ((storeIndex C version vset.vals height 0 bs).mapErr ("could not initialize proposer: " ++ ·)).map
          fun index => vset.vals.getByIndex ((index + round) % vset.vals.size)
      else .ok (vset.vals.getByIndex ((vset.proposerIndex + round) % vset.vals.size)) := by
  have hsize : 0 < vset.vals.size := by omega
  have hs : ∀ index : ℤ, 0 ≤ index ∧ index < vset.vals.size →
      ((calls.foldl (call C (some bs) height) ⟨version, ⟨vset.vals, index⟩, height, 0⟩).getProposer C height round
        (some bs) >>= fun r => .ok r.2) = .ok (vset.vals.getByIndex ((index + round) % vset.vals.size)) := by
    intro index hm
    have hb : Based vset.vals height index ⟨version, ⟨vset.vals, index⟩, height, 0⟩ := by
      refine ⟨rfl, rfl, by dsimp only; omega, ?_⟩
      cases version <;> simp [emod_eq_of_lt hm.1 hm.2]
    obtain ⟨s', hs', -⟩ := (hb.calls (C := C) (some bs) hc).getProposer (C := C) hr (some bs)
    rw [hs']
    rfl
  unfold named
  rw [new_eq vset hsize]
  split_ifs
  · rcases hst : storeIndex C version vset.vals height 0 bs with (e | msg) | index
    · rfl
    · rfl
    · exact hs index (storeIndex_mem hsize hst)
  · exact hs _ hi

/-! ### Two nodes -/

structure SameHeaders (a b : BlockStore) : Prop where
  base : 0 < a.base ↔ 0 < b.base
  header : ∀ height, (a.loadBlockMeta height).map (·.header) = (b.loadBlockMeta height).map (·.header)

structure EndsBefore (bs : BlockStore) (height : ℤ) : Prop where
  base_le : bs.base ≤ height
  missing : bs.loadBlockMeta height = none

variable (C) in
/-- The commits that two nodes saw for the previous block do not matter: the height selector takes back
the same number of steps on both, and after a change of the quorum there is a second validator. -/
def roundsMatch (version : Version) (vals : ValidatorSet) (height : ℤ) (a b : BlockStore) : Bool :=
  match version with
  | .heightRound => true
  | .height =>
    height = 0 || height = 1 || a.base ≤ 0 ||
      match a.loadBlockMeta (height - 1), b.loadBlockMeta (height - 1) with
      | some metaA, some metaB =>
        if metaA.header.validatorsHash = vals.hash C then
          vals.indexByProTxHash metaA.header.proposerProTxHash < 0 || (metaA.round - metaB.round) % vals.size = 0
        else 2 ≤ vals.size
      | _, _ => true

section Agreement

variable {a b : BlockStore}

lemma SameHeaders.cases (h : SameHeaders a b) (height : ℤ) :
    (a.loadBlockMeta height = none ∧ b.loadBlockMeta height = none) ∨
      ∃ metaA metaB, a.loadBlockMeta height = some metaA ∧ b.loadBlockMeta height = some metaB ∧
        metaA.header = metaB.header := by
  have hh := h.header height
  cases ha : a.loadBlockMeta height with
  | none =>
    cases hb : b.loadBlockMeta height with
    | none => exact .inl ⟨rfl, rfl⟩
    | some metaB => rw [ha, hb] at hh; cases hh
  | some metaA =>
    cases hb : b.loadBlockMeta height with
    | none => rw [ha, hb] at hh; cases hh
    | some metaB =>
      rw [ha, hb] at hh
      exact .inr ⟨metaA, metaB, rfl, rfl, Option.some.inj hh⟩

lemma getByIndex_injective (hnodup : (vals.validators.map (·.proTxHash)).Nodup) {i j : ℤ} (hi : 0 ≤ i ∧ i < vals.size)
    (hj : 0 ≤ j ∧ j < vals.size) (h : vals.getByIndex i = vals.getByIndex j) : i = j := by
  have hi' : i.toNat < vals.validators.length := by unfold size at hi; omega
  have hj' : j.toNat < vals.validators.length := by unfold size at hj; omega
  have hn : ¬i < 0 ∧ ¬j < 0 := by omega
  simp only [getByIndex, hn.1, hn.2, if_false, List.getElem?_eq_getElem hi',
    List.getElem?_eq_getElem hj', Option.some.injEq] at h
  have hpt : (vals.validators.map (·.proTxHash))[i.toNat]? = (vals.validators.map (·.proTxHash))[j.toNat]? := by
    rw [List.getElem?_map, List.getElem?_map, List.getElem?_eq_getElem hi', List.getElem?_eq_getElem hj', h]
  have := (List.getElem?_inj (by simpa using hi') hnodup).mp hpt
  omega

section

variable (hsize : 0 < vals.size) (hnodup : (vals.validators.map (·.proTxHash)).Nodup)

include hsize hnodup

/-- **The base index of the next height**: the proposer of the previous block is advanced; after a change of
the quorum the height selector starts at the second validator. -/
lemma storeIndex_next (hbs : EndsBefore bs height) (hl : ¬(height = 0 ∨ height = 1)) {blockMeta : BlockMeta}
    (hp : bs.loadBlockMeta (height - 1) = some blockMeta) :
    storeIndex C version vals height 0 bs =
      if blockMeta.header.validatorsHash = vals.hash C then
        if vals.indexByProTxHash blockMeta.header.proposerProTxHash < 0 then
          Go.fail ("could not set proposer: " ++ "proposer not found in validator set")
        else .ok ((vals.indexByProTxHash blockMeta.header.proposerProTxHash +
          match version with | .height => 1 - blockMeta.round | .heightRound => (1 : ℤ)) % vals.size)
      else match version with
        | .heightRound => .ok 0
        | .height => if 2 ≤ vals.size then .ok 1 else Go.crash "nil pointer dereference" := by
  have hg : ∀ i : ℕ, (hi : i < vals.validators.length) → vals.getByIndex i = some vals.validators[i] ∧
      vals.indexByProTxHash vals.validators[i].proTxHash = i := by
    intro i hi
    refine ⟨by simp [getByIndex, hi], indexByProTxHash_eq (List.getElem?_eq_getElem hi) fun j hj w hw heq => ?_⟩
    have hm : (vals.validators.map (·.proTxHash))[j]? = (vals.validators.map (·.proTxHash))[i]? := by simp [hw, heq, hi]
    exact hj.ne ((List.getElem?_inj (by simpa using hj.trans hi) hnodup).mp hm)
  unfold storeIndex
  rw [if_neg hl]
  cases version with
  | height =>
    simp only [target, heightTarget, hbs.missing, hp]
    split_ifs with hh hn ht
    · simp [bind, Except.bind, hn]
    · simp [bind, Except.bind, hn]
    · obtain ⟨hv, hin⟩ := hg 1 ht
      rw [Nat.cast_one] at hv hin
      simp only [hv, bind, Except.bind, hin]
      rw [if_neg (by decide), add_zero, emod_eq_of_lt (by decide) (by omega)]
    · have hle : vals.validators.length = 1 := by unfold size at ht hsize; omega
      simp [getByIndex, hle, Go.crash, bind, Except.bind]
  | heightRound =>
    simp only [target, heightRoundTarget, hbs.missing, hp]
    split_ifs with hh hn
    · simp [bind, Except.bind, hn]
    · simp [bind, Except.bind, hn, int32]
    · obtain ⟨hv, hin⟩ := hg 0 hsize
      rw [Nat.cast_zero] at hv hin
      simp [hv, bind, Except.bind, hin]

lemma storeIndex_of_roundsMatch (hs : SameHeaders a b) (ha : EndsBefore a height) (hb : EndsBefore b height)
    (hba : 0 < a.base) (h : roundsMatch C version vals height a b = true) :
    storeIndex C version vals height 0 a = storeIndex C version vals height 0 b ∧
      ∀ msg, storeIndex C version vals height 0 a ≠ .error (.panicked msg) := by
  by_cases hf : height = 0 ∨ height = 1
  · simp [storeIndex, hf]
  rcases hs.cases (height - 1) with ⟨hA, hB⟩ | ⟨metaA, metaB, hA, hB, hh⟩
  · -- the previous block is not stored
    cases version <;>
      simp [storeIndex, hf, target, heightTarget, heightRoundTarget, ha.missing, hb.missing, hA, hB, fail, bind,
        Except.bind]
  rw [storeIndex_next hsize hnodup ha hf hA, storeIndex_next hsize hnodup hb hf hB, ← hh]
  have hb' : ¬a.base ≤ 0 := by omega
  cases version with
  | heightRound => split_ifs <;> simp [fail]
  | height =>
    simp only [roundsMatch, not_or.mp hf, hA, hB, hb', decide_false, Bool.false_or] at h
    split_ifs at h ⊢ with hha hn ht
    · simp [fail]
    · simp only [hn, decide_false, Bool.false_or, decide_eq_true_eq] at h
      refine ⟨congrArg Except.ok (Int.ModEq.eq (modEq_iff_dvd.mpr ?_)), by simp⟩
      convert dvd_of_emod_eq_zero h using 1
      ring
    · simp
    · exact absurd (of_decide_eq_true h) ht

lemma storeIndex_of_not_roundsMatch (hs : SameHeaders a b) (ha : EndsBefore a height) (hb : EndsBefore b height)
    (h : roundsMatch C version vals height a b = false) : 0 < a.base ∧
      ((∃ i j : ℤ, i ≠ j ∧ storeIndex C version vals height 0 a = .ok i ∧ storeIndex C version vals height 0 b = .ok j) ∨
        ∃ msg, storeIndex C version vals height 0 a = .error (.panicked msg)) := by
  cases version with
  | heightRound => cases h
  | height =>
    simp only [roundsMatch, Bool.or_eq_false_iff, decide_eq_false_iff_not] at h
    obtain ⟨⟨⟨hz, ho⟩, hba⟩, h⟩ := h
    have hf : ¬(height = 0 ∨ height = 1) := by omega
    refine ⟨by omega, ?_⟩
    rcases hs.cases (height - 1) with ⟨hA, hB⟩ | ⟨metaA, metaB, hA, hB, hh⟩
    · simp [hA] at h
    rw [storeIndex_next hsize hnodup ha hf hA, storeIndex_next hsize hnodup hb hf hB, ← hh]
    simp only [hA, hB] at h
    split_ifs at h ⊢ with hha hn ht
    · simp [hn] at h
    · -- the two nodes take back different numbers of steps
      simp only [hn, decide_false, Bool.false_or, decide_eq_false_iff_not] at h
      refine .inl ⟨_, _, fun heq => h (emod_eq_zero_of_dvd ?_), rfl, rfl⟩
      convert modEq_iff_dvd.mp (show Int.ModEq _ _ _ from heq) using 1
      ring
    · simp [ht] at h
    · -- a set of one validator has no second one
      exact .inr ⟨_, rfl⟩

end

end Agreement

/-- **Agreement on the proposer.** Two nodes with the same headers that build a selector for the next
height name the same proposer for every round, whatever they asked before, and neither panics, exactly
if the rounds of the commits they saw match where the selector uses them. -/
theorem proposers_agree_iff (C : Crypto) (version : Version) (vals : ValidatorSet)
    (hnodup : (vals.validators.map (·.proTxHash)).Nodup) (height indexA indexB : ℤ)
    (hindexA : 0 ≤ indexA ∧ indexA < vals.size) (hindexB : 0 ≤ indexB ∧ indexB < vals.size)
    (a b : BlockStore) (hsame : SameHeaders a b) (ha : EndsBefore a height) (hb : EndsBefore b height)
    (hstart : a.base ≤ 0 → indexA = indexB) :
    (∀ callsA callsB : List Call, (∀ c ∈ callsA, 0 ≤ c.round ∧ c.round < 2 ^ 31) →
      (∀ c ∈ callsB, 0 ≤ c.round ∧ c.round < 2 ^ 31) → ∀ round, 0 ≤ round ∧ round < 2 ^ 31 →
        named C version ⟨vals, indexA⟩ height a callsA round = named C version ⟨vals, indexB⟩ height b callsB round ∧
        ∀ msg, named C version ⟨vals, indexA⟩ height a callsA round ≠ .error (.panicked msg)) ↔
      roundsMatch C version vals height a b = true := by
  have hsize : 0 < vals.size := by omega
  constructor
  · intro hag
    by_contra hno
    obtain ⟨heq, hr⟩ := hag [] [] (by simp) (by simp) 0 (by norm_num)
    obtain ⟨hba, hc⟩ := storeIndex_of_not_roundsMatch hsize hnodup hsame ha hb (by simpa using hno)
    rw [named_eq hindexA (by simp) (by norm_num), if_pos ⟨hba, ha.base_le⟩] at heq hr
    rw [named_eq hindexB (by simp) (by norm_num), if_pos ⟨hsame.base.mp hba, hb.base_le⟩] at heq
    obtain ⟨i, j, hne, hA, hB⟩ | ⟨msg, hp⟩ := hc
    · have hi := storeIndex_mem hsize hA
      have hj := storeIndex_mem hsize hB
      rw [hA, hB] at heq
      have hv := Except.ok.inj heq
      simp only [add_zero, Int.emod_eq_of_lt hi.1 hi.2, Int.emod_eq_of_lt hj.1 hj.2] at hv
      exact hne (getByIndex_injective hnodup hi hj hv)
    rw [hp] at hr
    exact hr msg rfl
  · intro hma callsA callsB hca hcb round hro
    rw [named_eq hindexA hca hro, named_eq hindexB hcb hro]
    by_cases hba : 0 < a.base
    · rw [if_pos ⟨hba, ha.base_le⟩, if_pos ⟨hsame.base.mp hba, hb.base_le⟩]
      obtain ⟨heq, hr⟩ := storeIndex_of_roundsMatch hsize hnodup hsame ha hb hba hma
      refine ⟨by rw [heq], fun msg hm => ?_⟩
      rcases hA : storeIndex C version vals height 0 a with (e | m) | index <;> rw [hA] at hm <;> cases hm
      exact hr msg hA
    · -- nothing is stored
      have hbb : ¬0 < b.base := fun hpo => hba (hsame.base.mpr hpo)
      rw [if_neg fun h => hba h.1, if_neg fun h => hbb h.1, hstart (not_lt.mp hba)]
      exact ⟨rfl, fun msg hm => by cases hm⟩

/-! ### Sample stores -/

def sampleStore (round : ℤ) : BlockStore where
  base := 1
  loadBlockMeta height :=
    if height = 1 then some ⟨sampleBlockID 1, 0, sampleHeader 1 (sampleValidators 4), 0, round, false⟩
    else none

lemma sampleStore_same (r r' : ℤ) : SameHeaders (sampleStore r) (sampleStore r') where
  base := Iff.rfl
  header height := by by_cases h : height = 1 <;> simp [sampleStore, h]

lemma sampleStore_endsBefore (r : ℤ) : EndsBefore (sampleStore r) 2 :=
  ⟨show (1 : ℤ) ≤ 2 by decide, rfl⟩

/-- The commits of the first block that two nodes saw are of rounds 0 and 1. -/
theorem proposers_differ_with_rounds :
    named Crypto.sample .height ⟨sampleValidators 4, 0⟩ 2 (sampleStore 0) [] 0 = .ok (some (sampleValidator 1)) ∧
    named Crypto.sample .height ⟨sampleValidators 4, 0⟩ 2 (sampleStore 1) [] 0 = .ok (some (sampleValidator 0)) := by
  decide +kernel

theorem proposers_agree_in_version_one :
    named Crypto.sample .heightRound ⟨sampleValidators 4, 0⟩ 2 (sampleStore 0) [.getProposer 3] 1 =
      named Crypto.sample .heightRound ⟨sampleValidators 4, 0⟩ 2 (sampleStore 1) [] 1 :=
  ((proposers_agree_iff Crypto.sample .heightRound (sampleValidators 4) (by decide) 2 0 0 (by decide)
    (by decide) (sampleStore 0) (sampleStore 1) (sampleStore_same 0 1) (sampleStore_endsBefore 0)
    (sampleStore_endsBefore 1) (fun _ => rfl)).mpr rfl [.getProposer 3] [] (by decide) (by decide) 1
    (by decide)).1

end Selector

end Tenderdash.SelectProposer
