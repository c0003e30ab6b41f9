import Mathlib.Tactic

/-!
Byte strings and the wire formats built on them: little- and big-endian integers of a fixed width,
and the protocol-buffers encoding of messages whose zero-valued fields are left out.
-/

namespace Lib

abbrev Bytes := List UInt8

instance : LawfulBEq Bytes := inferInstanceAs (LawfulBEq (List UInt8))

namespace Wire

variable (w : ℕ)

/-- The `w` low bytes of an integer in two's complement, least significant first. -/
def leBytes (v : ℤ) : Bytes :=
  (List.range w).map fun k => UInt8.ofNat ((v / 256 ^ k) % 256).toNat

def beBytes (v : ℤ) : Bytes := (leBytes w v).reverse

@[simp] lemma leBytes_length (v : ℤ) : (leBytes w v).length = w := by simp [leBytes]

@[simp] lemma beBytes_length (v : ℤ) : (beBytes w v).length = w := by simp [beBytes]

def leUint (b : Bytes) : ℕ := b.foldr (fun x n => x.toNat + 256 * n) 0

lemma leUint_leBytes {w n : ℕ} (hn : n < 256 ^ w) : leUint (leBytes w n) = n := by
  induction w generalizing n with
  | zero =>
    simp only [pow_zero, Nat.lt_one_iff] at hn
    simp [leBytes, leUint, hn]
  | succ w ih =>
    have hc : leBytes (w + 1) n = UInt8.ofNat (n % 256) :: leBytes w (n / 256 : ℕ) := by
      rw [leBytes, List.range_succ_eq_map, List.map_cons, List.map_map, leBytes]
      congr 1
      · simp [Int.toNat_emod]
      refine List.map_congr_left fun k _ => ?_
      simp [pow_succ', Int.ediv_ediv_of_nonneg]
    have hr := ih (n := n / 256) (by rw [pow_succ] at hn; omega)
    rw [hc, leUint, List.foldr_cons, ← leUint, hr, UInt8.toNat_ofNat']
    omega

/-- A base-128 varint of at most `fuel` bytes. -/
def uvarintAux : ℕ → ℕ → Bytes
  | 0, _ => []
  | fuel + 1, n =>
    if n < 128 then [UInt8.ofNat n] else UInt8.ofNat (n % 128 + 128) :: uvarintAux fuel (n / 128)

def uvarint (n : ℕ) : Bytes := uvarintAux 10 n

lemma uvarintAux_injective {fuel n m : ℕ} (hn : n < 128 ^ fuel) (hm : m < 128 ^ fuel)
    (h : uvarintAux fuel n = uvarintAux fuel m) : n = m := by
  induction fuel generalizing n m with
  | zero => omega
  | succ fuel ih =>
    have hby : ∀ a b : ℕ, a < 256 → b < 256 → UInt8.ofNat a = UInt8.ofNat b → a = b := by
      intro a b ha hb hab
      have := congrArg UInt8.toNat hab
      simpa [Nat.mod_eq_of_lt ha, Nat.mod_eq_of_lt hb] using this
    unfold uvarintAux at h
    split at h <;> split at h
    · exact hby n m (by omega) (by omega) (List.cons.inj h).1
    · -- a last byte is below 128, a byte with a successor is not
      have := hby n _ (by omega) (by omega) (List.cons.inj h).1
      omega
    · have := hby _ m (by omega) (by omega) (List.cons.inj h).1
      omega
    have hl := hby _ _ (by omega) (by omega) (List.cons.inj h).1
    have hh := ih (by omega) (by omega) (List.cons.inj h).2
    omega

lemma uvarint_injective {n m : ℕ} (hn : n < 2 ^ 64) (hm : m < 2 ^ 64) (h : uvarint n = uvarint m) : n = m :=
  uvarintAux_injective (by omega) (by omega) h

/-- A signed value as the unsigned 64-bit value it is encoded as. -/
def toUint64 (v : ℤ) : ℕ := (v % 2 ^ 64).toNat

variable (field : ℕ) (b : Bytes)

def varintField (v : ℤ) : Bytes :=
  if v = 0 then [] else uvarint (field * 8) ++ uvarint (toUint64 v)

lemma varintField_injective {field : ℕ} {v w : ℕ} (hv : v < 2 ^ 64) (hw : w < 2 ^ 64) (hv0 : 0 < v)
    (hw0 : 0 < w) (h : varintField field v = varintField field w) : v = w := by
  rw [varintField, varintField, if_neg (by omega), if_neg (by omega)] at h
  have := uvarint_injective (by unfold toUint64; omega) (by unfold toUint64; omega) (List.append_cancel_left h)
  unfold toUint64 at this
  omega

def fixed64Field (v : ℤ) : Bytes :=
  if v = 0 then [] else uvarint (field * 8 + 1) ++ leBytes 8 v

def messageField : Bytes :=
  uvarint (field * 8 + 2) ++ uvarint b.length ++ b

def bytesField : Bytes := if b = [] then [] else messageField field b

def delimited : Bytes := uvarint b.length ++ b

end Wire

end Lib
