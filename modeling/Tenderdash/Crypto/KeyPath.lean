import Tenderdash.Evidence.Identity

/-!
The key paths of `crypto/merkle`. Each key is printed behind a slash, in a URL encoding, or as hexadecimal digits behind
`x:`. The colon stands for itself in a URL, so that a key may be printed with `x:` in front there, too, and is then
decoded from the digits that it is taken to have.
-/

namespace Tenderdash.KeyPath

open Lib Go Evidence List

inductive KeyEncoding where
  | url
  | hex

structure Key where
  name : Bytes
  enc : KeyEncoding

def unreserved (c : Char) : Bool := c.isAlphanum || c ∈ ['-', '_', '.', '~', '$', '&', '+', '=', ':', '@']

/-- `PathEscape`. -/
def pathEscape (b : Bytes) : List Char :=
  b.flatMap fun x =>
    let c := Char.ofNat x.toNat
    if unreserved c then [c] else '%' :: hexUpper [x]

def Key.string (key : Key) : List Char :=
  match key.enc with
  | .url => pathEscape key.name
  | .hex => 'x' :: ':' :: hexUpper key.name

/-- `KeyPath.String`. -/
def string (path : List Key) : List Char := path.flatMap ('/' :: ·.string)

def fromHexChar (why : String) (c : Char) : Go String ℕ :=
  if '0' ≤ c ∧ c ≤ '9' then .ok (c.toNat - 48)
  else if 'a' ≤ c ∧ c ≤ 'f' then .ok (c.toNat - 87)
  else if 'A' ≤ c ∧ c ≤ 'F' then .ok (c.toNat - 55)
  else fail why

/-- `hex.DecodeString`. -/
def decodeString : List Char → Go String Bytes
  | [] => .ok []
  | [c] => do
    let _ ← fromHexChar "encoding/hex: invalid byte" c
    fail "encoding/hex: odd length hex string"
  | h :: l :: s => do
    let high ← fromHexChar "encoding/hex: invalid byte" h
    let low ← fromHexChar "encoding/hex: invalid byte" l
    return .ofNat (16 * high + low) :: (← decodeString s)

/-- `PathUnescape`. -/
def pathUnescape : List Char → Go String Bytes
  | [] => .ok []
  | '%' :: h :: l :: s => do
    let high ← fromHexChar "invalid URL escape" h
    let low ← fromHexChar "invalid URL escape" l
    return .ofNat (16 * high + low) :: (← pathUnescape s)
  | '%' :: _ => fail "invalid URL escape"
  | c :: s => return .ofNat c.toNat :: (← pathUnescape s)

def decodePart (i : ℕ) (part : List Char) : Go String Bytes :=
  let text := String.ofList part
  if ['x', ':'] <+: part then (decodeString (part.drop 2)).mapErr (s!"decoding hex-encoded part #{i}: /{text}: " ++ ·)
  else (pathUnescape part).mapErr (s!"decoding url-encoded part #{i}: /{text}: " ++ ·)

/-- The loop of `KeyPathToKeys`. -/
def decodeParts : ℕ → List (List Char) → Go String (List Bytes)
  | _, [] => .ok []
  | i, part :: parts => return (← decodePart i part) :: (← decodeParts (i + 1) parts)

def keyPathToKeys : List Char → Go String (List Bytes)
  | '/' :: path => decodeParts 0 (path.splitOn '/')
  | _ => fail "key path string must start with a forward slash '/'"

lemma fromHexChar_hexDigit {why : String} {n : ℕ} (hn : n < 16) : fromHexChar why (hexDigit n) = .ok n := by
  interval_cases n <;> rfl

lemma decodeString_hexUpper (b : Bytes) : decodeString (hexUpper b) = .ok b := by
  induction b with
  | nil => rfl
  | cons x b ih =>
    have hx := x.toNat_lt
    rw [hexUpper, flatMap_cons, ← hexUpper, cons_append, cons_append, nil_append, decodeString, ih,
      fromHexChar_hexDigit (by omega), fromHexChar_hexDigit (by omega)]
    simp [bind, Except.bind, pure, Except.pure, Nat.div_add_mod]

lemma pathUnescape_pathEscape (b : Bytes) : pathUnescape (pathEscape b) = .ok b := by
  induction b with
  | nil => rfl
  | cons x b ih =>
    have hx := x.toNat_lt
    rw [pathEscape, flatMap_cons, ← pathEscape]
    dsimp only
    split_ifs with hu
    · have hc : (Char.ofNat x.toNat).toNat = x.toNat := by rw [Char.toNat_ofNat, if_pos (.inl (by omega))]
      have hp : Char.ofNat x.toNat ≠ '%' := fun h => absurd (h ▸ hu) (by decide)
      rw [singleton_append, pathUnescape, ih, hc]
      · simp [bind, Except.bind, pure, Except.pure]
      · exact fun _ _ _ h => absurd h hp
      · exact fun h => absurd h hp
    · rw [hexUpper, flatMap_cons]
      simp only [cons_append, nil_append, flatMap_nil]
      rw [pathUnescape, ih, fromHexChar_hexDigit (by omega), fromHexChar_hexDigit (by omega)]
      simp [bind, Except.bind, pure, Except.pure, Nat.div_add_mod]

lemma of_decodeString {s : List Char} {b : Bytes} (h : decodeString s = .ok b) : s.length = 2 * b.length ∧ '%' ∉ s := by
  have hp : ∀ why n, fromHexChar why '%' ≠ .ok n := by
    intro why n h
    cases h
  fun_induction decodeString s generalizing b with
  | case1 =>
    cases h
    simp
  | case2 =>
    obtain ⟨-, -, h⟩ := of_bind h
    cases h
  | case3 x l s ih =>
    obtain ⟨high, hh, h⟩ := of_bind h
    obtain ⟨low, hl, h⟩ := of_bind h
    obtain ⟨b, hb, h⟩ := of_bind h
    cases h
    obtain ⟨hlen, hm⟩ := ih hb
    grind

lemma length_pathEscape {b : Bytes} (h : '%' ∉ pathEscape b) : (pathEscape b).length = b.length := by
  induction b with
  | nil => rfl
  | cons x b ih =>
    rw [pathEscape, flatMap_cons, ← pathEscape] at h ⊢
    dsimp only at h ⊢
    split_ifs at h ⊢ with hu
    · simpa using ih (by simp_all)
    · simp at h

lemma slash_notMem_string (key : Key) : '/' ∉ key.string := by
  obtain ⟨name, enc⟩ := key
  cases enc with
  | hex => simp [Key.string, slash_notMem_hexUpper]
  | url =>
    intro hm
    obtain ⟨x, -, hx⟩ := mem_flatMap.mp hm
    dsimp only at hx
    split_ifs at hx with hu
    · rw [← mem_singleton.mp hx] at hu
      exact absurd hu (by decide)
    · simp [slash_notMem_hexUpper] at hx

lemma decodePart_string (i : ℕ) (key : Key) :
    decodePart i key.string = .ok key.name ↔ key.enc = .url → ¬ ['x', ':'] <+: pathEscape key.name := by
  obtain ⟨name, enc⟩ := key
  cases enc with
  | hex => simp [decodePart, Key.string, decodeString_hexUpper]
  | url =>
    rw [decodePart]
    by_cases hx : ['x', ':'] <+: pathEscape name
    · obtain ⟨t, ht⟩ := hx
      refine iff_of_false (fun h => ?_) (fun h => h rfl ⟨t, ht⟩)
      rw [if_pos ⟨t, ht⟩, mapErr_eq_ok, Key.string, ← ht] at h
      obtain ⟨hl, hp⟩ := of_decodeString h
      have hlen := length_pathEscape (b := name) (by simpa [← ht] using hp)
      simp [← ht] at hlen hl
      omega
    · simp [Key.string, hx, pathUnescape_pathEscape]

lemma string_eq (key : Key) (path : List Key) :
    string (key :: path) = '/' :: ['/'].intercalate ((key :: path).map (·.string)) := by
  induction path generalizing key with
  | nil => simp [string, intercalate]
  | cons k path ih => rw [string, flatMap_cons, ← string, ih k]; simp [intercalate]

lemma decodeParts_string (i : ℕ) (path : List Key) :
    decodeParts i (path.map (·.string)) = .ok (path.map (·.name)) ↔
      ∀ k ∈ path, k.enc = .url → ¬ ['x', ':'] <+: pathEscape k.name := by
  induction path generalizing i with
  | nil => simp [decodeParts]
  | cons k path ih =>
    rw [forall_mem_cons, ← ih (i + 1), ← decodePart_string i k, map_cons, map_cons, decodeParts]
    cases decodePart i k.string <;> cases decodeParts (i + 1) (path.map (·.string)) <;>
      simp [bind, Except.bind, pure, Except.pure]

/-- **A key path is decoded to its keys** exactly if no key in a URL encoding is printed with `x:` in front. -/
theorem keyPathToKeys_iff (key : Key) (path : List Key) :
    keyPathToKeys (string (key :: path)) = .ok ((key :: path).map (·.name)) ↔
      ∀ k ∈ key :: path, k.enc = .url → ¬ ['x', ':'] <+: pathEscape k.name := by
  have hs : ∀ l ∈ (key :: path).map (·.string), '/' ∉ l := by simp [slash_notMem_string]
  rw [string_eq, keyPathToKeys, splitOn_intercalate '/' hs (by simp)]
  exact decodeParts_string 0 _

/-- The key `x:41` in a URL encoding. -/
theorem key_taken_for_hex :
    keyPathToKeys (string [⟨[120, 58, 52, 49], .url⟩]) ≠ .ok [[120, 58, 52, 49]] := by
  have hd : keyPathToKeys (string [⟨[120, 58, 52, 49], .url⟩]) = .ok [[65]] := rfl
  simp [hd]

end Tenderdash.KeyPath
