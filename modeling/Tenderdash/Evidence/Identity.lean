import Mathlib
import Tenderdash.Evidence.Pool

/-!
The identity of an accusation, by which a pool recognises evidence that it holds in another encoding: the digest of a
text with the height, round and type, the accused validator and the keys of the two blocks. Keys are made without
separators, but tell block IDs apart as votes carry them.
-/

namespace Tenderdash.Evidence

open Lib Go Int

lemma key_eq_iff {a b : BlockID} (ha : a.validateBasic = .ok ()) (hb : b.validateBasic = .ok ())
    (hac : a.isNil ∨ a.isComplete) (hbc : b.isNil ∨ b.isComplete) : a.key = b.key ↔ a = b := by
  have ht : ∀ {c : BlockID}, c.validateBasic = .ok () → c.partSetHeader.total < 2 ^ 64 := by
    intro c hc
    simp only [BlockID.validateBasic, PartSetHeader.validateBasic, bind_eq_ok, failIf_eq_ok, mapErr_eq_ok, not_lt] at hc
    obtain ⟨_, -, _, ⟨_, hle, -⟩, -⟩ := hc
    exact hle.trans_lt (by decide)
  exact ⟨BlockID.key_injective hac hbc (ht ha) (ht hb), fun h => by rw [h]⟩

/-! ### The text -/

/-- A digit of the format `%X`. -/
def hexDigit (n : ℕ) : Char := Char.ofNat (if n < 10 then 48 + n else 55 + n)

/-- The format `%X` of bytes. -/
def hexUpper (b : Bytes) : List Char := b.flatMap fun x => [hexDigit (x.toNat / 16), hexDigit (x.toNat % 16)]

lemma hexDigit_inj {m n : ℕ} (hm : m < 16) (hn : n < 16) (h : hexDigit m = hexDigit n) : m = n := by
  have ha : ∀ i j : Fin 16, hexDigit i = hexDigit j → i = j := by decide
  exact congrArg Fin.val (ha ⟨m, hm⟩ ⟨n, hn⟩ h)

lemma hexUpper_inj : ∀ {a b : Bytes}, hexUpper a = hexUpper b → a = b
  | [], [], _ => rfl
  | [], _ :: _, h => by cases h
  | _ :: _, [], h => by cases h
  | x :: a, y :: b, h => by
    obtain ⟨hh, h⟩ := List.cons.inj h
    obtain ⟨hl, hr⟩ := List.cons.inj h
    have hx := x.toNat_lt
    have hy := y.toNat_lt
    have hh := hexDigit_inj (by omega) (by omega) hh
    have hl := hexDigit_inj (by omega) (by omega) hl
    rw [hexUpper_inj hr, UInt8.toNat_inj.mp (by omega : x.toNat = y.toNat)]

lemma slash_notMem_hexUpper (b : Bytes) : '/' ∉ hexUpper b := by
  have ha : ∀ i : Fin 16, '/' ≠ hexDigit i := by decide
  intro hm
  obtain ⟨x, -, hx⟩ := List.mem_flatMap.mp hm
  have := x.toNat_lt
  rcases List.mem_pair.mp hx with h | h
  · exact ha ⟨x.toNat / 16, by omega⟩ h
  · exact ha ⟨x.toNat % 16, by omega⟩ h

lemma slash_notMem_repr (n : ℤ) : '/' ∉ n.repr.toList := by
  have hd : ∀ m : ℕ, '/' ∉ Nat.toDigits 10 m := fun m hm =>
    absurd (Nat.isDigit_of_mem_toDigits (by decide) (by decide) hm) (by decide)
  rw [repr_eq_if]
  split <;> simp [hd, Nat.repr_eq_ofList_toDigits]

namespace DuplicateVoteEvidence

variable (ev : DuplicateVoteEvidence)

def validateBasic : Go String Unit := do
  ev.voteA.validateBasic.mapErr ("invalid VoteA: " ++ ·)
  ev.voteB.validateBasic.mapErr ("invalid VoteB: " ++ ·)
  failIf (¬ev.voteA.blockID.key < ev.voteB.blockID.key) "duplicate votes in invalid order"

def fields : List (List Char) :=
  let first := ev.voteA.blockID.key
  let second := ev.voteB.blockID.key
  let ordered := if second < first then (second, first) else (first, second)
  [ev.voteA.height.repr.toList, ev.voteA.round.repr.toList, ev.voteA.type.code.repr.toList,
    hexUpper ev.voteA.validatorProTxHash, hexUpper ordered.1, hexUpper ordered.2]

/-- The text that `evidenceIdentity` digests. -/
def allegation : Bytes := (String.ofList (['/'].intercalate ev.fields)).toUTF8.data.toList

/-- Who is accused of what: the blocks count in either order. -/
def accusation : Bytes × ℤ × ℤ × SignedMsgType × Sym2 BlockID :=
  (ev.voteA.validatorProTxHash, ev.voteA.height, ev.voteA.round, ev.voteA.type, s(ev.voteA.blockID, ev.voteB.blockID))

variable {ev} {a b : DuplicateVoteEvidence}

lemma allegation_inj : a.allegation = b.allegation ↔ a.fields = b.fields := by
  have hs : ∀ ev : DuplicateVoteEvidence, ∀ l ∈ ev.fields, '/' ∉ l := by
    simp [fields, slash_notMem_repr, slash_notMem_hexUpper]
  refine ⟨fun h => ?_, fun h => by rw [allegation, h, allegation]⟩
  have ht := String.ofList_inj.mp (String.toByteArray_inj.mp (ByteArray.ext (Array.toList_inj.mp h)))
  rw [← List.splitOn_intercalate '/' (hs a) nofun, ht, List.splitOn_intercalate '/' (hs b) nofun]

lemma sorted_of_validateBasic (h : ev.validateBasic = .ok ()) : ev.voteA.validateBasic = .ok () ∧
    ev.voteB.validateBasic = .ok () ∧ ev.voteA.blockID.key < ev.voteB.blockID.key := by
  simp only [validateBasic, bind_eq_ok, failIf_eq_ok, mapErr_eq_ok, not_not] at h
  obtain ⟨_, hA, _, hB, hlt⟩ := h
  exact ⟨hA, hB, hlt⟩

lemma vote_validateBasic {v : Vote} (h : v.validateBasic = .ok ()) : (v.type = .prevote ∨ v.type = .precommit) ∧
    v.blockID.validateBasic = .ok () ∧ (v.blockID.isNil ∨ v.blockID.isComplete) := by
  have hb := (Vote.valid_of_validateBasic h).block
  simp only [Vote.validateBasic, bind_eq_ok, failIf_eq_ok, mapErr_eq_ok] at h
  obtain ⟨_, ht, _, -, _, -, _, hv, -⟩ := h
  refine ⟨?_, hv, hb⟩
  cases h : v.type <;> simp_all [isVoteTypeValid]

lemma allegation_eq_iff (ha : a.validateBasic = .ok ()) (hb : b.validateBasic = .ok ()) :
    a.allegation = b.allegation ↔ a.accusation = b.accusation := by
  obtain ⟨haA, haB, ha⟩ := sorted_of_validateBasic ha
  obtain ⟨hbA, hbB, hb⟩ := sorted_of_validateBasic hb
  obtain ⟨hat, hav, hac⟩ := vote_validateBasic haA
  obtain ⟨hbt, hbv, hbc⟩ := vote_validateBasic hbA
  obtain ⟨-, hav', ha'⟩ := vote_validateBasic haB
  obtain ⟨-, hbv', hb'⟩ := vote_validateBasic hbB
  simp only [allegation_inj, fields, if_neg (List.lt_asymm ha), if_neg (List.lt_asymm hb), accusation, Prod.mk.injEq,
    Sym2.eq_iff, List.cons.injEq, and_true]
  constructor
  · rintro ⟨hh, hr, ht, hpt, hf, hs⟩
    refine ⟨hexUpper_inj hpt, repr_inj.mp (String.toList_inj.mp hh),
      repr_inj.mp (String.toList_inj.mp hr), ?_,
      .inl ⟨(key_eq_iff hav hbv hac hbc).mp (hexUpper_inj hf), (key_eq_iff hav' hbv' ha' hb').mp (hexUpper_inj hs)⟩⟩
    have hc := repr_inj.mp (String.toList_inj.mp ht)
    rcases hat with h | h <;> rcases hbt with h' | h' <;> simp_all [SignedMsgType.code]
  rintro ⟨hpt, hh, hr, ht, ⟨hf, hs⟩ | ⟨hf, hs⟩⟩
  · rw [hpt, hh, hr, ht, hf, hs]
    exact ⟨rfl, rfl, rfl, rfl, rfl, rfl⟩
  · -- both pairs are in the order of the keys
    rw [hf, hs] at ha
    exact absurd ha (List.lt_asymm hb)

end DuplicateVoteEvidence

/-- `evidenceIdentity`, for evidence that has both votes. -/
def evidenceIdentity (C : Crypto) (ev : DuplicateVoteEvidence) : Bytes := C.checksum ev.allegation

/-- **Keys and identities.** The key of a block ID that passes `ValidateBasic` and is nil or complete tells it apart.
Evidence that passes `ValidateBasic` has the identity of other such evidence exactly if both accuse one validator of one
pair of blocks at one height, round and type, or if the digest collides. And the order of its votes does not matter. -/
theorem evidenceIdentity_eq_iff (C : Crypto) :
    (∀ a b : BlockID, a.validateBasic = .ok () → b.validateBasic = .ok () → a.isNil ∨ a.isComplete →
      b.isNil ∨ b.isComplete → (a.key = b.key ↔ a = b)) ∧
    (∀ a b : DuplicateVoteEvidence, a.validateBasic = .ok () → b.validateBasic = .ok () →
      (evidenceIdentity C a = evidenceIdentity C b ↔ a.accusation = b.accusation ∨
        (a.allegation ≠ b.allegation ∧ C.checksum a.allegation = C.checksum b.allegation))) ∧
    ∀ ev : DuplicateVoteEvidence, ev.validateBasic = .ok () → ev.voteB.validatorProTxHash = ev.voteA.validatorProTxHash →
      ev.voteB.height = ev.voteA.height → ev.voteB.round = ev.voteA.round → ev.voteB.type = ev.voteA.type →
      evidenceIdentity C { ev with voteA := ev.voteB, voteB := ev.voteA } = evidenceIdentity C ev := by
  refine ⟨fun a b ha hb => key_eq_iff ha hb, fun a b ha hb => ?_, fun ev hev hpt hh hr ht => ?_⟩
  · rw [← DuplicateVoteEvidence.allegation_eq_iff ha hb]
    unfold evidenceIdentity
    by_cases heq : a.allegation = b.allegation <;> simp [heq]
  · obtain ⟨-, -, hlt⟩ := DuplicateVoteEvidence.sorted_of_validateBasic hev
    refine congrArg C.checksum (DuplicateVoteEvidence.allegation_inj.mpr ?_)
    simp only [DuplicateVoteEvidence.fields, if_pos hlt, if_neg (List.lt_asymm hlt), hpt, hh, hr, ht]

end Tenderdash.Evidence
