import Tenderdash.Lib.Go
import Tenderdash.Lib.Run
import Tenderdash.Lib.Table
import Tenderdash.Lib.Wire

/-!
The light store: the light blocks by height, and a counter of 16 bits for their number, in the database and in memory.

Every save counts up and every deletion counts down, whether or not there was a light block at the height.
-/

namespace Tenderdash.Light

open Lib List Table

/-- A light block: its height, and what converting it to its wire form returns. -/
structure LightBlock where
  height : ℤ
  marshal : Go String Bytes
  inRange : height < 2 ^ 63

/-- The entries of the database. The size is empty in a new one. -/
structure DB where
  lightBlocks : Table ℤ Bytes
  size : Bytes

/-- `dbs`. -/
structure Store where
  db : DB
  size : UInt16

def marshalSize (size : UInt16) : Bytes := Wire.leBytes 2 size.toNat

def unmarshalSize (bz : Bytes) : UInt16 := .ofNat (Wire.leUint (bz.take 2))

namespace Store

def new (db : DB) : Store := ⟨db, if 0 < db.size.length then unmarshalSize db.size else 0⟩

def write (lightBlocks : Table ℤ Bytes) (size : UInt16) : Store := ⟨⟨lightBlocks, marshalSize size⟩, size⟩

variable (s : Store)

def saveLightBlock (lb : LightBlock) : Go String Store :=
  if lb.height ≤ 0 then Go.crash "negative or zero height"
  else lb.marshal.map fun bz => write (s.db.lightBlocks.set lb.height bz) (s.size + 1)

def deleteLightBlock (height : ℤ) : Go String Store :=
  if height ≤ 0 then Go.crash "negative or zero height"
  else .ok (write (s.db.lightBlocks.erase [height]) (s.size - 1))

/-- The iterator goes over all heights. -/
def batchDelete (numToPrune : UInt16) : Table ℤ Bytes :=
  s.db.lightBlocks.erase ((s.db.lightBlocks.first numToPrune.toNat 1 (2 ^ 63)).map (·.1))

def prune (size : UInt16) : Store :=
  if s.size ≤ size then s else write (s.batchDelete (s.size - size)) size

/-! ### Runs -/

inductive Op where
  | saveLightBlock (lb : LightBlock)
  | deleteLightBlock (height : ℤ)
  | prune (size : UInt16)
  | reopen

/-- An operation. One that fails or panics changes nothing. -/
def step : Op → Store
  | .saveLightBlock lb => (s.saveLightBlock lb).toOption.getD s
  | .deleteLightBlock height => (s.deleteLightBlock height).toOption.getD s
  | .prune size => s.prune size
  | .reopen => new s.db

def empty : Store := new ⟨[], []⟩

def Agrees : Prop := s.size.toNat = s.db.lightBlocks.length % 2 ^ 16

structure Sized (s : Store) : Prop where
  sorted : s.db.lightBlocks.Sorted
  size : s.Agrees
  prune : s.db.lightBlocks.length < 2 ^ 16 → ∀ n : UInt16,
    (s.prune n).db.lightBlocks = s.db.lightBlocks.drop (s.db.lightBlocks.length - n.toNat)

def Counted : Op → Prop
  | .saveLightBlock lb => (s.saveLightBlock lb).isOk → lb.height ∉ s.db.lightBlocks.map (·.1)
  | .deleteLightBlock height => 0 < height → height ∈ s.db.lightBlocks.map (·.1)
  | _ => True

/-! ### What an operation does -/

structure Filed (s : Store) : Prop where
  sorted : s.db.lightBlocks.Sorted
  inRange : ∀ e ∈ s.db.lightBlocks, 1 ≤ e.1 ∧ e.1 < 2 ^ 63
  reopened : new s.db = s

variable {s : Store} {t : Table ℤ Bytes}

lemma filed_write (hs : t.Sorted) (hr : ∀ e ∈ t, 1 ≤ e.1 ∧ e.1 < 2 ^ 63) (size : UInt16) : Filed (write t size) := by
  have hsi : unmarshalSize (marshalSize size) = size := by
    have hlt := size.toNat_lt
    rw [unmarshalSize, marshalSize, take_of_length_le (by simp), Wire.leUint_leBytes (by omega), UInt16.ofNat_toNat]
  have hl : 0 < (marshalSize size).length := by simp [marshalSize]
  exact ⟨hs, hr, by simp only [new, write, hsi, hl, if_true]⟩

lemma length_erase (h : t.Sorted) (k : ℤ) : (t.erase [k]).length + (if k ∈ t.map (·.1) then 1 else 0) = t.length := by
  have hk : (t.erase [k]).map (·.1) = (t.map (·.1)).erase k := by
    rw [h.nodup.erase_eq_filter, filter_map]
    simp [erase, Function.comp_def]
    rfl
  have hl := congrArg length hk
  rw [length_map, List.length_erase, length_map] at hl
  split_ifs at hl ⊢ with hm
  · have := length_pos_of_mem hm
    rw [length_map] at this
    omega
  · exact hl

lemma length_set (h : t.Sorted) (k : ℤ) (bz : Bytes) :
    (t.set k bz).length + (if k ∈ t.map (·.1) then 1 else 0) = t.length + 1 := by
  have hs := (set_perm t k bz).length_eq
  have he : (t.filter fun e => e.1 ≠ k) = t.erase [k] := by simp [erase]
  rw [he, length_cons] at hs
  have := length_erase h k
  omega

lemma Filed.prune_eq (h : Filed s) (n : UInt16) :
    s.prune n = if s.size.toNat ≤ n.toNat then s else write (s.db.lightBlocks.drop (s.size.toNat - n.toNat)) n := by
  unfold prune
  split
  · next hle => rw [if_pos (UInt16.le_iff_toNat_le.mp hle)]
  next hle =>
  have ha : ∀ k, s.db.lightBlocks.first k 1 (2 ^ 63) = s.db.lightBlocks.take k := fun k => by
    rw [first, filter_eq_self.mpr fun e he => decide_eq_true (h.inRange e he)]
  rw [if_neg (fun hl' => hle (UInt16.le_iff_toNat_le.mpr hl')), batchDelete, ha, erase_take h.sorted,
    UInt16.toNat_sub_of_le _ _ (UInt16.le_of_lt (UInt16.not_le.mp hle))]

lemma Filed.step (h : Filed s) (hs : s.Agrees) (op : Op) : Filed (s.step op) ∧ ((s.step op).Agrees ↔ s.Counted op) := by
  unfold Store.step Counted
  cases op with
  | saveLightBlock lb =>
    dsimp only
    cases hsa : s.saveLightBlock lb with
    | error e => exact ⟨h, iff_of_true hs nofun⟩
    | ok s' =>
      unfold saveLightBlock at hsa
      split at hsa
      · cases hsa
      obtain ⟨bz, -, rfl⟩ := Go.map_eq_ok.mp hsa
      refine ⟨filed_write (h.sorted.set ..) (fun e he => ?_) _, ?_⟩
      · rcases mem_set he with rfl | he
        · exact ⟨by omega, lb.inRange⟩
        · exact h.inRange e he
      have hl := length_set h.sorted lb.height bz
      have ho : (s.size + 1).toNat = (s.size.toNat + 1) % 2 ^ 16 := UInt16.toNat_add ..
      unfold Agrees at hs
      change (s.size + 1).toNat = (s.db.lightBlocks.set lb.height bz).length % 2 ^ 16 ↔ (true = true → _)
      rw [forall_prop_of_true rfl]
      split_ifs at hl with hm
      · exact iff_of_false (by omega) (not_not.mpr hm)
      · exact iff_of_true (by omega) hm
  | deleteLightBlock height =>
    unfold deleteLightBlock
    dsimp only
    by_cases hp : height ≤ 0
    · rw [if_pos hp]
      exact ⟨h, iff_of_true hs fun hlt => absurd hlt (not_lt.mpr hp)⟩
    rw [if_neg hp, forall_prop_of_true (not_le.mp hp)]
    refine ⟨filed_write (h.sorted.sublist filter_sublist) (fun e he => h.inRange e (mem_of_mem_filter he)) _, ?_⟩
    have hl := length_erase h.sorted height
    have ho : (s.size - 1).toNat = (2 ^ 16 - 1 + s.size.toNat) % 2 ^ 16 := UInt16.toNat_sub ..
    unfold Agrees at hs
    change (s.size - 1).toNat = (s.db.lightBlocks.erase [height]).length % 2 ^ 16 ↔ _
    split_ifs at hl with hm
    · exact iff_of_true (by omega) hm
    · exact iff_of_false (by omega) hm
  | prune n =>
    dsimp only
    rw [h.prune_eq n]
    split
    · exact ⟨h, iff_of_true hs trivial⟩
    refine ⟨filed_write (h.sorted.sublist (drop_sublist ..)) (fun e he => h.inRange e (mem_of_mem_drop he)) _, ?_⟩
    unfold Agrees at hs ⊢
    refine iff_of_true ?_ trivial
    simp only [write, length_drop]
    omega
  | reopen =>
    rw [h.reopened]
    exact ⟨h, iff_of_true hs trivial⟩

lemma Filed.sized (h : Filed s) (hs : s.Agrees) : s.Sized := by
  refine ⟨h.sorted, hs, fun hlt n => ?_⟩
  rw [Agrees, Nat.mod_eq_of_lt hlt] at hs
  rw [h.prune_eq n, ← hs]
  split
  · next hle => rw [Nat.sub_eq_zero_of_le hle, drop_zero]
  · rfl

end Store

end Tenderdash.Light
