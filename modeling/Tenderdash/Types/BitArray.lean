import Mathlib.Tactic

/-!
Bit arrays, kept in words of 64 bits. The last word has bits beyond the size of the array. `getIndex`
never shows them, but whole words are copied from one array to another, so they can come into sight in a
longer array.
-/

namespace Tenderdash

open List Bool

def numElems (bits : ℕ) : ℕ := (bits + 63) / 64

/-- A bit array of the `bits` library: as many words as its bits need, which each of its constructors
allocates. -/
structure BitArray where
  bits : ℕ
  elems : List UInt64
  length_elems : elems.length = numElems bits
  deriving DecidableEq

namespace BitArray

/-! ### Operations -/

def empty : BitArray := ⟨0, [], rfl⟩

/-- Nil for no bits. -/
def newBitArray (bits : ℕ) : Option BitArray :=
  if bits = 0 then none else some ⟨bits, List.replicate (numElems bits) 0, length_replicate⟩

/-- `Size`, of a pointer that may be nil. -/
def size : Option BitArray → ℕ
  | none => 0
  | some bA => bA.bits

def wordBit (elems : List UInt64) (i : ℕ) : Bool :=
  match elems[i / 64]? with
  | none => false
  | some w => w.toBitVec.getLsbD (i % 64)

def getIndex (bA : BitArray) (i : ℕ) : Bool := i < bA.bits ∧ wordBit bA.elems i

/-- The words of `setIndex` with a true bit. -/
def setWord (elems : List UInt64) (i : ℕ) : List UInt64 :=
  elems.modify (i / 64) fun w => UInt64.ofBitVec (w.toBitVec ||| BitVec.twoPow 64 (i % 64))

/-- `SetIndex(i, true)`: nothing and false outside of the array. -/
def setIndex (bA : BitArray) (i : ℤ) : Option BitArray :=
  if i < 0 ∨ (bA.bits : ℤ) ≤ i then none
  else some ⟨bA.bits, setWord bA.elems i.toNat, by simp [setWord, bA.length_elems]⟩

variable (f : UInt64 → UInt64 → UInt64) (xs ys : List UInt64)

/-- The words of one array, changed by those of another as far as these go. -/
def mergeWords : List UInt64 :=
  List.zipWith f xs ys ++ xs.drop ys.length

lemma length_mergeWords : (mergeWords f xs ys).length = xs.length := by
  rw [mergeWords, length_append, length_zipWith, length_drop]
  omega

def sub (bA o : BitArray) : BitArray :=
  ⟨bA.bits, mergeWords (fun x y => x &&& ~~~y) bA.elems o.elems, (length_mergeWords _ _ _).trans bA.length_elems⟩

/-- The words of `o` beyond those of `bA` are left out. -/
def or (bA o : BitArray) : BitArray :=
  ⟨max bA.bits o.bits,
    mergeWords (fun x y => x ||| y) bA.elems o.elems ++
      List.replicate (numElems (max bA.bits o.bits) - bA.elems.length) 0, by
    have hle : numElems bA.bits ≤ numElems (max bA.bits o.bits) :=
      Nat.div_le_div_right (by omega)
    rw [length_append, length_mergeWords, length_replicate, bA.length_elems]
    omega⟩

/-- Copies the words of `o`. -/
def update (bA o : BitArray) : BitArray :=
  ⟨bA.bits, mergeWords (fun _ y => y) bA.elems o.elems, (length_mergeWords _ _ _).trans bA.length_elems⟩

/-! ### What the operations do to single bits -/

variable {bA o : BitArray} {i : ℕ}

lemma eq_empty (h : bA.bits = 0) : bA = empty := by
  obtain ⟨bits, elems, hl⟩ := bA
  cases h
  obtain rfl : elems = [] := length_eq_zero_iff.mp hl
  rfl

lemma wordBit_of_getIndex (h : bA.getIndex i = true) : wordBit bA.elems i = true := by
  simp only [getIndex, decide_and, decide_eq_true, and_eq_true] at h
  exact h.2

lemma lt_of_getIndex (h : bA.getIndex i = true) : i < bA.bits := by
  simp only [getIndex, decide_and, and_eq_true, decide_eq_true_eq] at h
  exact h.1

lemma getIndex_of_wordBit (hi : i < bA.bits) (h : wordBit bA.elems i = true) : bA.getIndex i = true := by
  simp [getIndex, hi, h]

@[simp] lemma wordBit_replicate (n i : ℕ) : wordBit (replicate n 0) i = false := by
  unfold wordBit
  rw [getElem?_replicate]
  split
  · rfl
  next w hw =>
  split at hw
  · cases hw
    simp
  · cases hw

@[simp] lemma wordBit_append_replicate (xs : List UInt64) (n i : ℕ) :
    wordBit (xs ++ replicate n 0) i = wordBit xs i := by
  unfold wordBit
  by_cases hlt : i / 64 < xs.length
  · rw [getElem?_append_left hlt]
  rw [getElem?_append_right (not_lt.mp hlt), getElem?_eq_none (not_lt.mp hlt), getElem?_replicate]
  by_cases hin : i / 64 - xs.length < n
  · simp [hin]
  · simp [hin]

lemma getIndex_newBitArray {n : ℕ} (h : newBitArray n = some bA) : bA.getIndex i = false := by
  unfold newBitArray at h
  split at h
  · cases h
  cases h
  simp [getIndex]

lemma getElem?_mergeWords (f : UInt64 → UInt64 → UInt64) (xs ys : List UInt64) (k : ℕ) :
    (mergeWords f xs ys)[k]? =
      match xs[k]?, ys[k]? with
      | some x, some y => some (f x y)
      | some x, none => some x
      | none, _ => none := by
  unfold mergeWords
  induction xs generalizing ys k with
  | nil => simp
  | cons x xs ih =>
    cases ys with
    | nil => cases h : (x :: xs)[k]? <;> simp [h]
    | cons y ys =>
      cases k with
      | zero => simp
      | succ k => simpa using ih ys k

lemma wordBit_mergeWords {f : UInt64 → UInt64 → UInt64} {xs ys : List UInt64}
    (h : wordBit (mergeWords f xs ys) i = true) :
    (∃ x y, xs[i / 64]? = some x ∧ ys[i / 64]? = some y ∧ (f x y).toBitVec.getLsbD (i % 64) = true) ∨
      wordBit xs i = true := by
  unfold wordBit at h
  rw [getElem?_mergeWords] at h
  cases hx : xs[i / 64]? with
  | none => simp [hx] at h
  | some x =>
    cases hy : ys[i / 64]? with
    | none =>
      simp only [hx, hy] at h
      right
      unfold wordBit
      rw [hx]
      exact h
    | some y =>
      simp only [hx, hy] at h
      exact .inl ⟨x, y, rfl, rfl, h⟩

lemma wordBit_of_getElem? {elems : List UInt64} {w : UInt64} (hw : elems[i / 64]? = some w)
    (h : w.toBitVec.getLsbD (i % 64) = true) : wordBit elems i = true := by
  unfold wordBit
  rw [hw]
  exact h

lemma wordBit_sub (h : wordBit (bA.sub o).elems i = true) : wordBit bA.elems i = true := by
  rcases wordBit_mergeWords h with ⟨x, y, hx, -, hb⟩ | h
  · refine wordBit_of_getElem? hx ?_
    simp only [UInt64.toBitVec_and, BitVec.getLsbD_and, and_eq_true] at hb
    exact hb.1
  · exact h

lemma wordBit_or (h : wordBit (bA.or o).elems i = true) : wordBit bA.elems i = true ∨ wordBit o.elems i = true := by
  have hm : wordBit (mergeWords (fun x y => x ||| y) bA.elems o.elems) i = true := by
    rw [← h]
    exact (wordBit_append_replicate _ _ i).symm
  rcases wordBit_mergeWords hm with ⟨x, y, hx, hy, hb⟩ | h
  · simp only [UInt64.toBitVec_or, BitVec.getLsbD_or, or_eq_true] at hb
    exact hb.imp (wordBit_of_getElem? hx) (wordBit_of_getElem? hy)
  · exact .inl h

lemma wordBit_update (h : wordBit (bA.update o).elems i = true) :
    wordBit o.elems i = true ∨ wordBit bA.elems i = true := by
  rcases wordBit_mergeWords h with ⟨x, y, -, hy, hb⟩ | h
  · exact .inl (wordBit_of_getElem? hy hb)
  · exact .inr h

lemma getIndex_setIndex {bA' : BitArray} {i : ℤ} {j : ℕ} (h : bA.setIndex i = some bA')
    (hj : bA'.getIndex j = true) : (j : ℤ) = i ∨ bA.getIndex j = true := by
  unfold setIndex at h
  split at h
  · cases h
  next hr =>
  cases h
  have hlt := lt_of_getIndex hj
  have hwo := wordBit_of_getIndex hj
  by_cases hij : j = i.toNat
  · exact .inl (by omega)
  refine .inr (getIndex_of_wordBit hlt ?_)
  unfold setWord wordBit at hwo
  unfold wordBit
  rw [getElem?_modify] at hwo
  cases hw : bA.elems[j / 64]? with
  | none => simp [hw] at hwo
  | some w =>
    by_cases hk : i.toNat / 64 = j / 64
    · -- the bit is in the word that changed, at another place
      have hm : i.toNat % 64 ≠ j % 64 := by omega
      simpa [hw, hk, BitVec.getLsbD_twoPow, hm] using hwo
    · simpa [hw, hk] using hwo

end BitArray

end Tenderdash
