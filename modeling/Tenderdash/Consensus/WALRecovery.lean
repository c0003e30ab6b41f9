import Tenderdash.Consensus.WAL

/-!
A log that was cut, and the start that follows. All loops over the log are followed over `frames ms ++ t`,
whole frames and what the cut left of one more: first what `decode` makes of a whole frame and of a torn
one, then each loop by induction over the frames.
-/

namespace Tenderdash.WAL

open Lib List

variable {μ : Type*}

/-- The assumptions about the encoding: what is written can be read back, and it is never empty (the time
is always written). -/
structure Codec.Faithful (C : Codec μ) : Prop where
  unmarshal_marshal : ∀ m, C.unmarshal (C.marshal m) = some m
  marshal_ne_nil : ∀ m, C.marshal m ≠ []

variable (C : Codec μ)

/-- The checksum tells the data from what a cut leaves of it, filled up with zeros, and from nothing. -/
def Codec.Distinguishes (data : Bytes) : Prop :=
  C.crc [] ≠ C.crc data ∧ ∀ n, C.crc (pad data.length (data.take n)) = C.crc data → pad data.length (data.take n) = data

def Codec.Fits (m : TimedWALMessage μ) : Prop := (C.marshal m).length ≤ maxMsgSizeBytes

def frames (ms : List (TimedWALMessage μ)) : Bytes := ms.flatMap (frame C)

section

variable (C : Codec μ)

@[simp] lemma frames_nil : frames C [] = [] := rfl

@[simp] lemma frames_cons (m : TimedWALMessage μ) (ms : List (TimedWALMessage μ)) :
    frames C (m :: ms) = frame C m ++ frames C ms := rfl

@[simp] lemma frames_append (ms ms' : List (TimedWALMessage μ)) :
    frames C (ms ++ ms') = frames C ms ++ frames C ms' := flatMap_append

lemma length_frame (m : TimedWALMessage μ) : (frame C m).length = 8 + (C.marshal m).length := by
  simp only [frame, length_append, length_putUint32]

lemma length_le_frames (ms : List (TimedWALMessage μ)) : ms.length ≤ (frames C ms).length := by
  induction ms with
  | nil => simp
  | cons m ms ih =>
    simp only [frames_cons, length_cons, length_append, length_frame]
    omega

end

/-! ### Writing -/

variable {C : Codec μ} {m : TimedWALMessage μ} {ms : List (TimedWALMessage μ)} {read : Reader} {j fuel : ℕ}
  {t : Bytes}

lemma encode_eq_ok (hm : C.Fits m) : encode C m = .ok (frame C m) := by rw [encode, if_neg (not_lt.mpr hm)]

lemma writeSync_eq_ok (hm : C.Fits m) (log : Bytes) : writeSync C log m = .ok (log ++ frame C m) := by
  rw [writeSync, encode_eq_ok hm]
  rfl

lemma writeAll_eq_ok {log log' : Bytes}
    (h : writeAll C log ms = .ok log') : (∀ m ∈ ms, C.Fits m) ∧ log' = log ++ frames C ms := by
  induction ms generalizing log with
  | nil =>
    cases h
    simp
  | cons m ms ih =>
    by_cases hm : C.Fits m
    · rw [writeAll, foldlM_cons, writeSync_eq_ok hm] at h
      obtain ⟨hms, rfl⟩ := ih h
      refine ⟨?_, by simp⟩
      rintro x (_ | ⟨_, hx⟩)
      · exact hm
      · exact hms x hx
    · rw [writeAll, foldlM_cons, writeSync, encode, if_pos (not_le.mp hm)] at h
      cases h

/-! ### One frame -/

def Reader.Full (read : Reader) : Prop :=
  ∀ n s, 0 < n → n ≤ s.length → read n s = (s.take n, s.drop n, none)

lemma full_groupRead : Reader.Full groupRead := by
  intro n s hp hle
  rw [groupRead, if_neg (by omega), if_pos hle]

lemma full_fileRead : Reader.Full fileRead := by
  intro n s hp hle
  have hne : s ≠ [] := by
    rintro rfl
    simp at hle
    omega
  rw [fileRead, if_neg (by omega), if_neg hne]
  simp [pad, length_take, min_eq_left hle]

lemma Reader.Full.append (hr : read.Full) {b : Bytes} (hb : b ≠ []) (s : Bytes) :
    read b.length (b ++ s) = (b, s, none) := by
  rw [hr _ _ (length_pos_iff.mpr hb) (by simp)]
  simp

lemma Reader.Full.uint32 (hr : read.Full) (n : ℕ) (s : Bytes) : read 4 (putUint32 n ++ s) = (putUint32 n, s, none) := by
  have h := hr.append (b := putUint32 n) (by
    intro hn
    have := length_putUint32 n
    simp [hn] at this) s
  rwa [length_putUint32] at h

lemma crc_lt (C : Codec μ) (data : Bytes) : (C.crc data).toNat < 2 ^ 32 := (C.crc data).toNat_lt

lemma maxMsgSizeBytes_lt : maxMsgSizeBytes < 2 ^ 32 := by decide

lemma decode_header (hr : read.Full) (hm : C.Fits m) (s : Bytes) :
    decode C read (putUint32 (C.crc (C.marshal m)).toNat ++ (putUint32 (C.marshal m).length ++ s)) =
      match read (C.marshal m).length s with
      | (_, s, some err) => (.corrupted (.readData err (C.marshal m).length), s)
      | (data, s, none) => (checkData C (C.crc (C.marshal m)).toNat data, s) := by
  have hl : (C.marshal m).length < 2 ^ 32 := lt_of_le_of_lt hm maxMsgSizeBytes_lt
  rw [decode, hr.uint32]
  dsimp only
  rw [hr.uint32]
  dsimp only
  rcases hd : read (C.marshal m).length s with ⟨data, s, _ | err⟩ <;>
    simp only [getUint32_putUint32 hl, getUint32_putUint32 (crc_lt C _), if_neg (not_lt.mpr hm), hd]

lemma checkData_self (hC : C.Faithful) (m : TimedWALMessage μ) :
    checkData C (C.crc (C.marshal m)).toNat (C.marshal m) = .msg m := by simp [checkData, hC.unmarshal_marshal]

lemma decode_frame (hC : C.Faithful) (hr : read.Full) (hm : C.Fits m) (s : Bytes) :
    decode C read (frame C m ++ s) = (.msg m, s) := by
  have h := decode_header (C := C) hr hm (C.marshal m ++ s)
  rw [hr.append (hC.marshal_ne_nil m)] at h
  simp only [checkData_self hC] at h
  simpa [frame, append_assoc] using h

lemma decode_nil_group (C : Codec μ) : decode C groupRead [] = (.eof, []) := rfl

lemma decode_nil_file (C : Codec μ) : decode C fileRead [] = (.eof, []) := rfl

lemma take_frame (C : Codec μ) (m : TimedWALMessage μ) (hj : 4 ≤ j) :
    (frame C m).take j = putUint32 (C.crc (C.marshal m)).toNat ++
      ((putUint32 (C.marshal m).length).take (j - 4) ++ (C.marshal m).take (j - 8)) := by
  simp only [frame, take_append, length_putUint32, append_assoc]
  rw [take_of_length_le (by simpa using hj)]
  rfl

lemma decode_torn (hm : C.Fits m) (hj : 4 ≤ j) (hc : j < (frame C m).length) :
    ∃ cause, decode C groupRead ((frame C m).take j) = (.corrupted cause, []) := by
  rw [length_frame] at hc
  rw [take_frame C m hj]
  by_cases hl : j < 8
  · -- the cut is in front of the end of the length
    have hn : (C.marshal m).take (j - 8) = [] := by rw [Nat.sub_eq_zero_of_le hl.le, take_zero]
    refine ⟨.readLength .eof, ?_⟩
    rw [hn, append_nil, decode, full_groupRead.uint32]
    dsimp only
    rw [groupRead, if_neg (by omega), if_neg (by simp; omega)]
  · refine ⟨.readData .eof (C.marshal m).length, ?_⟩
    rw [take_of_length_le (by simp; omega), decode_header full_groupRead hm, groupRead,
      if_neg (by omega), if_neg (by simp; omega)]

lemma decode_torn_file (hC : C.Faithful) (hm : C.Fits m)
    (hc : C.Distinguishes (C.marshal m)) (hj : 4 ≤ j) (hcu : j < (frame C m).length) :
    decode C fileRead ((frame C m).take j) = (.msg m, []) ∨
      ∃ cause s, decode C fileRead ((frame C m).take j) = (.corrupted cause, s) := by
  rw [take_frame C m hj]
  have hcn : ∀ data, (C.crc data).toNat = (C.crc (C.marshal m)).toNat →
      C.crc data = C.crc (C.marshal m) := fun data => UInt32.toNat_inj.mp
  by_cases hl : j < 8
  · have hn : (C.marshal m).take (j - 8) = [] := by rw [Nat.sub_eq_zero_of_le hl.le, take_zero]
    right
    rw [hn, append_nil, decode, full_fileRead.uint32]
    dsimp only
    by_cases hf : j = 4
    · subst hf
      exact ⟨.readLength .eof, _, rfl⟩
    have hne : (putUint32 (C.marshal m).length).take (j - 4) ≠ [] := by
      intro hn
      have := congrArg length hn
      simp at this
      omega
    have hd : ((putUint32 (C.marshal m).length).take (j - 4)).drop 4 = [] := by
      rw [drop_eq_nil_iff, length_take]
      simp
    rw [fileRead, if_neg (by omega), if_neg hne, hd]
    dsimp only
    split
    · exact ⟨_, _, rfl⟩
    split
    · exact ⟨_, _, rfl⟩
    rename_i hr
    -- a length of zero bytes: the checksum of nothing is compared
    rw [fileRead] at hr
    split at hr
    · simp only [Prod.mk.injEq] at hr
      obtain ⟨rfl, rfl, -⟩ := hr
      rw [getUint32_putUint32 (crc_lt C _), checkData, if_pos]
      · exact ⟨_, _, rfl⟩
      · exact fun heq => hc.1 (hcn _ heq)
    · simp at hr
  · rw [take_of_length_le (by simp; omega), decode_header full_fileRead hm]
    by_cases hda : (C.marshal m).take (j - 8) = []
    · right
      refine ⟨.readData .eof (C.marshal m).length, [], ?_⟩
      rw [hda, fileRead, if_neg (by have := length_pos_iff.mpr (hC.marshal_ne_nil m); omega), if_pos rfl]
    have hp := length_pos_iff.mpr (hC.marshal_ne_nil m)
    rw [fileRead, if_neg (by omega), if_neg hda]
    have hd : ((C.marshal m).take (j - 8)).drop (C.marshal m).length = [] := by
      rw [drop_eq_nil_iff, length_take]
      omega
    have ht : ((C.marshal m).take (j - 8)).take (C.marshal m).length =
        (C.marshal m).take (j - 8) := take_of_length_le (by rw [length_take]; omega)
    rw [hd, ht]
    dsimp only
    by_cases heq : C.crc (pad (C.marshal m).length ((C.marshal m).take (j - 8))) = C.crc (C.marshal m)
    · left
      rw [hc.2 _ heq, checkData_self hC]
    right
    rw [checkData, if_pos fun hna => heq (hcn _ hna)]
    exact ⟨_, _, rfl⟩

/-! ### The loops -/

section

variable (hC : C.Faithful) (hms : ∀ m ∈ ms, C.Fits m) {cause : Corruption} {env : Env μ}

include hC hms

lemma readAux_frames (hf : ms.length < fuel) : readAux C fuel (frames C ms) = (ms, none) := by
  induction ms generalizing fuel with
  | nil =>
    obtain ⟨fuel, rfl⟩ : ∃ n, fuel = n + 1 := ⟨fuel - 1, by omega⟩
    rw [readAux, frames_nil, decode_nil_group]
  | cons m ms ih =>
    obtain ⟨fuel, rfl⟩ : ∃ n, fuel = n + 1 := ⟨fuel - 1, by omega⟩
    have hr := ih (fun x hx => hms x (mem_cons_of_mem _ hx)) (by simpa using hf : ms.length < fuel)
    rw [readAux, frames_cons, decode_frame hC full_groupRead (hms m mem_cons_self)]
    simp only [hr]

lemma readLog_frames : readLog C (frames C ms) = (ms, none) :=
  readAux_frames hC hms (Nat.lt_succ_of_le (length_le_frames C ms))

def afterMarker (C : Codec μ) (height : ℤ) : List (TimedWALMessage μ) → Option (List (TimedWALMessage μ))
  | [] => none
  | m :: ms => if C.asEndHeight m.msg = some height then some ms else afterMarker C height ms

omit hC hms in
lemma of_afterMarker {height : ℤ} {rest : List (TimedWALMessage μ)} (h : afterMarker C height ms = some rest) :
    rest.length < ms.length ∧ ∀ m ∈ rest, m ∈ ms := by
  induction ms with
  | nil => simp [afterMarker] at h
  | cons x ms ih =>
    rw [afterMarker] at h
    split at h
    · cases h
      exact ⟨Nat.lt_succ_self _, fun m => mem_cons_of_mem _⟩
    obtain ⟨hl, hm⟩ := ih h
    exact ⟨hl.trans (Nat.lt_succ_self _), fun m hr => mem_cons_of_mem _ (hm m hr)⟩

def Barren (C : Codec μ) (t : Bytes) : Prop :=
  decode C groupRead t = (.eof, []) ∨ ∃ cause, decode C groupRead t = (.corrupted cause, [])

omit hC hms in
lemma searchAux_barren (ht : Barren C t) (height : ℤ) (fuel : ℕ) : searchAux C height fuel t = none := by
  have hn : ∀ fuel, searchAux C height fuel [] = none := by
    intro fuel
    cases fuel with
    | zero => rfl
    | succ fuel => rw [searchAux, decode_nil_group]
  cases fuel with
  | zero => rfl
  | succ fuel =>
    rw [searchAux]
    rcases ht with h | ⟨cause, h⟩
    · rw [h]
    rw [h]
    exact hn fuel

lemma searchAux_frames (height : ℤ) (ht : Barren C t) (hf : ms.length < fuel) :
    searchAux C height fuel (frames C ms ++ t) = (afterMarker C height ms).map fun rest => frames C rest ++ t := by
  induction ms generalizing fuel with
  | nil => exact searchAux_barren ht height fuel
  | cons m ms ih =>
    obtain ⟨fuel, rfl⟩ : ∃ n, fuel = n + 1 := ⟨fuel - 1, by omega⟩
    rw [searchAux, frames_cons, append_assoc, decode_frame hC full_groupRead (hms m mem_cons_self), afterMarker]
    dsimp only
    split
    · rfl
    · exact ih (fun x hx => hms x (mem_cons_of_mem _ hx)) (by simpa using hf)

lemma replayAux_frames (env : Env μ) (t : Bytes) (hfu : ms.length < fuel) (past : List (TimedWALMessage μ)) :
    replayAux C env fuel past (frames C ms ++ t) = .failed ∧
        (∀ t' fuel', ms.length < fuel' → replayAux C env fuel' past (frames C ms ++ t') = .failed) ∨
      replayAux C env fuel past (frames C ms ++ t) = replayAux C env (fuel - ms.length) (past ++ ms) t := by
  induction ms generalizing fuel past with
  | nil => simp
  | cons m ms ih =>
    obtain ⟨fuel, rfl⟩ : ∃ n, fuel = n + 1 := ⟨fuel - 1, by omega⟩
    have hs : ∀ t fuel, replayAux C env (fuel + 1) past (frames C (m :: ms) ++ t) =
        if env.fails past m then .failed
        else replayAux C env fuel (past ++ [m]) (frames C ms ++ t) := by
      intro t fuel
      rw [replayAux, frames_cons, append_assoc, decode_frame hC full_groupRead (hms m mem_cons_self)]
    by_cases hf : env.fails past m = true
    · left
      refine ⟨by rw [hs, if_pos hf], fun t' fuel' hf' => ?_⟩
      obtain ⟨fuel', rfl⟩ : ∃ n, fuel' = n + 1 := ⟨fuel' - 1, by omega⟩
      rw [hs, if_pos hf]
    rw [hs, if_neg hf]
    rcases ih (fun x hx => hms x (mem_cons_of_mem _ hx)) (by simpa using hfu) (past ++ [m]) with ⟨hfa, ha⟩ | hr
    · left
      refine ⟨hfa, fun t' fuel' hf' => ?_⟩
      obtain ⟨fuel', rfl⟩ : ∃ n, fuel' = n + 1 := ⟨fuel' - 1, by omega⟩
      rw [hs, if_neg hf]
      exact ha t' fuel' (by simpa using hf')
    · right
      rw [hr]
      simp

lemma catchupReplay_frames (env : Env μ) (ht : Barren C t) :
    catchupReplay C env (frames C ms ++ t) =
      if (afterMarker C env.csHeight ms).isSome then .failed
      else if env.csHeight < env.initialHeight then .failed
      else
        match afterMarker C (if env.csHeight = env.initialHeight then 0 else env.csHeight - 1) ms with
        | none => .failed
        | some rest => replayAux C env ((frames C ms ++ t).length + 1) [] (frames C rest ++ t) := by
  have hf : ms.length < (frames C ms ++ t).length + 1 := by
    have := length_le_frames C ms
    rw [length_append]
    omega
  unfold catchupReplay searchForEndHeight
  dsimp only
  rw [searchAux_frames hC hms _ ht hf, searchAux_frames hC hms _ ht hf, Option.isSome_map]
  cases afterMarker C (if env.csHeight = env.initialHeight then 0 else env.csHeight - 1) ms <;> rfl

omit hC hms in
lemma replayAux_nil (C : Codec μ) (env : Env μ) (fuel : ℕ) (past : List (TimedWALMessage μ)) :
    replayAux C env fuel past [] = .done := by
  cases fuel with
  | zero => rfl
  | succ fuel => rw [replayAux, decode_nil_group]

lemma catchupReplay_whole (env : Env μ) (cause : Corruption) :
    catchupReplay C env (frames C ms) ≠ .corrupted cause := by
  have h := catchupReplay_frames hC hms env (t := []) (.inl (decode_nil_group C))
  rw [append_nil] at h
  rw [h]
  split
  · simp
  split
  · simp
  split
  · simp
  rename_i rest hr
  obtain ⟨hl, hm⟩ := of_afterMarker hr
  have hle := length_le_frames C ms
  rcases replayAux_frames hC (fun m hr => hms m (hm m hr)) env [] (hl.trans_le (hle.trans (Nat.le_succ _))) [] with ⟨hf, -⟩ | hd
  · rw [hf]
    simp
  rw [hd, replayAux_nil]
  simp

lemma catchupReplay_torn (hd : catchupReplay C env (frames C ms) = .done) (ht : decode C groupRead t = (.corrupted cause, [])) :
    catchupReplay C env (frames C ms ++ t) = .corrupted cause := by
  have hw := catchupReplay_frames hC hms env (t := []) (.inl (decode_nil_group C))
  rw [append_nil, hd] at hw
  rw [catchupReplay_frames hC hms env (.inr ⟨cause, ht⟩)]
  split at hw
  · cases hw
  rename_i hne
  rw [if_neg hne]
  split at hw
  · cases hw
  rename_i hh
  rw [if_neg hh]
  split at hw
  · cases hw
  rename_i rest hr
  obtain ⟨hl, hm⟩ := of_afterMarker hr
  have hle := length_le_frames C ms
  have hfu : rest.length < (frames C ms ++ t).length + 1 := by
    rw [length_append]
    omega
  rcases replayAux_frames hC (fun m hr => hms m (hm m hr)) env t hfu [] with ⟨-, ha⟩ | hr'
  · rw [ha [] _ (by omega)] at hw
    cases hw
  obtain ⟨n, hn⟩ : ∃ n, (frames C ms ++ t).length + 1 - rest.length = n + 1 :=
    ⟨(frames C ms ++ t).length - rest.length, by omega⟩
  rw [hr', hn, replayAux, ht]

lemma repairAux_frames (t : Bytes) (hf : ms.length < fuel) (out : Bytes) :
    repairAux C fuel (frames C ms ++ t) out = repairAux C (fuel - ms.length) t (out ++ frames C ms) := by
  induction ms generalizing fuel out with
  | nil => simp
  | cons m ms ih =>
    obtain ⟨fuel, rfl⟩ : ∃ n, fuel = n + 1 := ⟨fuel - 1, by omega⟩
    have hm := hms m mem_cons_self
    rw [repairAux, frames_cons, append_assoc, decode_frame hC full_fileRead hm]
    simp only [writeSync_eq_ok hm]
    change repairAux C fuel (frames C ms ++ t) (out ++ frame C m) = _
    rw [ih (fun x hx => hms x (mem_cons_of_mem _ hx)) (by simpa using hf)]
    simp

lemma repairWalFile_torn (hm : C.Fits m)
    (hc : C.Distinguishes (C.marshal m)) (hj : 4 ≤ j) (hcu : j < (frame C m).length) :
    repairWalFile C (frames C ms ++ (frame C m).take j) = .ok (frames C ms) ∨
      repairWalFile C (frames C ms ++ (frame C m).take j) = .ok (frames C (ms ++ [m])) := by
  have hl := length_le_frames C ms
  have hf : ms.length < (frames C ms ++ (frame C m).take j).length + 1 := by
    rw [length_append]
    omega
  obtain ⟨n, hn⟩ : ∃ n, (frames C ms ++ (frame C m).take j).length + 1 - ms.length = n + 1 + 1 := by
    refine ⟨(frames C ms ++ (frame C m).take j).length - ms.length - 1, ?_⟩
    rw [length_append, length_take]
    omega
  rw [repairWalFile, repairAux_frames hC hms _ hf, hn, repairAux, nil_append]
  rcases decode_torn_file hC hm hc hj hcu with h | ⟨cause, s, h⟩
  · right
    rw [h]
    simp only [writeSync_eq_ok hm]
    change repairAux C (n + 1) [] (frames C ms ++ frame C m) = _
    rw [repairAux, decode_nil_file]
    simp
  · left
    rw [h]

/-! ### The cut -/

/-- Where a cut after `n` bytes falls: behind how many whole frames, and how far into the next one. -/
def cutAt (C : Codec μ) : List (TimedWALMessage μ) → ℕ → ℕ × ℕ
  | [], _ => (0, 0)
  | m :: ms, n =>
    if n < (frame C m).length then (0, n)
    else ((cutAt C ms (n - (frame C m).length)).1 + 1, (cutAt C ms (n - (frame C m).length)).2)

omit hC hms in
lemma take_frames (C : Codec μ) (ms : List (TimedWALMessage μ)) (n : ℕ) :
    (cutAt C ms n).2 = 0 ∧ (frames C ms).take n = frames C (ms.take (cutAt C ms n).1) ∨
      ∃ m, ms[(cutAt C ms n).1]? = some m ∧ 0 < (cutAt C ms n).2 ∧
        (cutAt C ms n).2 < (frame C m).length ∧
        (frames C ms).take n = frames C (ms.take (cutAt C ms n).1) ++ (frame C m).take (cutAt C ms n).2 := by
  induction ms generalizing n with
  | nil => simp [cutAt]
  | cons m ms ih =>
    unfold cutAt
    split
    · rename_i hlt
      rcases eq_zero_or_pos n with rfl | hp
      · simp
      right
      refine ⟨m, rfl, hp, hlt, ?_⟩
      simp [take_append, Nat.sub_eq_zero_of_le hlt.le]
    · rename_i hge
      have ht : (frames C (m :: ms)).take n = frame C m ++ (frames C ms).take (n - (frame C m).length) := by
        rw [frames_cons, take_append, take_of_length_le (not_lt.mp hge)]
      rcases ih (n - (frame C m).length) with ⟨hz, hw⟩ | ⟨x, hx, hp, hlt, hto⟩
      · left
        refine ⟨hz, ?_⟩
        rw [ht, hw, take_succ_cons, frames_cons]
      right
      refine ⟨x, by simpa using hx, hp, hlt, ?_⟩
      rw [ht, hto, take_succ_cons, frames_cons, append_assoc]

/-- The cut does not tear a checksum, and if it tears a frame, then the replay of the frames before gets
to their end. -/
def Repairable (C : Codec μ) (env : Env μ) (ms : List (TimedWALMessage μ)) (n : ℕ) : Prop :=
  (cutAt C ms n).2 = 0 ∨ 4 ≤ (cutAt C ms n).2 ∧ catchupReplay C env (frames C (ms.take (cutAt C ms n).1)) = .done

omit hC hms in
lemma frames_ne_nil (hms : ms ≠ []) : frames C ms ≠ [] := by
  obtain ⟨m, ms, rfl⟩ := exists_cons_of_ne_nil hms
  intro hn
  have := congrArg length hn
  simp [length_frame] at this

lemma onStart_whole (env : Env μ) (hne : ms ≠ []) : onStart C env (frames C ms) = .ok (frames C ms) := by
  have hr := catchupReplay_whole hC hms env
  rw [onStart, openWAL, if_neg (frames_ne_nil hne)]
  cases hc : catchupReplay C env (frames C ms) with
  | corrupted cause => exact absurd hc (hr cause)
  | _ => simp only [Except.mapError, bind, Except.bind, hc]

lemma onStart_torn {log : Bytes} (hne : ms ≠ [])
    (hl : log ≠ []) (hre : catchupReplay C env log = .corrupted cause)
    (hr : repairWalFile C log = .ok (frames C ms)) : onStart C env log = .ok (frames C ms) := by
  have ha := catchupReplay_whole hC hms env
  rw [onStart, openWAL, if_neg hl]
  cases hc : catchupReplay C env (frames C ms) with
  | corrupted cause' => exact absurd hc (ha cause')
  | _ => simp only [Except.mapError, bind, Except.bind, hre, hr, openWAL, if_neg (frames_ne_nil hne), hc]

end

lemma onStart_empty (hC : C.Faithful) (env : Env μ) (hn : C.Fits ⟨env.now, C.endHeight 0⟩) :
    onStart C env [] = .ok (frames C [⟨env.now, C.endHeight 0⟩]) := by
  have hon : ∀ m ∈ [(⟨env.now, C.endHeight 0⟩ : TimedWALMessage μ)], C.Fits m := by simpa using hn
  have hs := onStart_whole hC hon env (by simp)
  have ho : openWAL C env.now [] = .ok (frames C [⟨env.now, C.endHeight 0⟩]) := by
    rw [openWAL, if_pos rfl, writeSync_eq_ok hn]
    simp
  have ho' : openWAL C env.now (frames C [⟨env.now, C.endHeight 0⟩]) = .ok (frames C [⟨env.now, C.endHeight 0⟩]) := by
    rw [openWAL, if_neg (frames_ne_nil (by simp))]
  rw [onStart, ho]
  exact hs

/-- **Searching a log** that was written message by message finds the first end of the height, and what is read from
there on are the messages written after it. -/
theorem search_exact (C : Codec μ) (hC : C.Faithful) (ms : List (TimedWALMessage μ)) (log : Bytes)
    (hw : writeAll C [] ms = .ok log) (height : ℤ) :
    (searchForEndHeight C log height).map (readLog C) = (afterMarker C height ms).map fun rest => (rest, none) := by
  obtain ⟨hms, rfl⟩ := writeAll_eq_ok hw
  have hs := searchAux_frames hC hms height (.inl (decode_nil_group C)) (Nat.lt_succ_of_le (length_le_frames C ms))
  simp only [append_nil] at hs
  rw [nil_append, searchForEndHeight, hs]
  cases ha : afterMarker C height ms with
  | none => rfl
  | some rest => simp [readLog_frames hC fun m hm => hms m ((of_afterMarker ha).2 m hm)]

/-! ### A log with a torn checksum -/

def unary (n : ℕ) (rest : Bytes) : Bytes := List.replicate n 1 ++ 0 :: rest

def readUnary : Bytes → Option (ℕ × Bytes)
  | [] => none
  | x :: s => if x = 0 then some (0, s) else (readUnary s).map fun r => (r.1 + 1, r.2)

lemma readUnary_unary (n : ℕ) (rest : Bytes) : readUnary (unary n rest) = some (n, rest) := by
  induction n with
  | zero => rfl
  | succ n ih =>
    rw [unary] at ih
    rw [unary, replicate_succ, cons_append, readUnary, ih]
    rfl

/-- Messages are numbers, the even ones mark the end of a height; the checksum tells strings of up to
twenty zeros and ones apart. -/
def sampleCodec : Codec ℕ where
  marshal m := unary (Equiv.intEquivNat m.time) (unary m.msg [])
  unmarshal data := do
    let (time, rest) ← readUnary data
    let (msg, _) ← readUnary rest
    return ⟨Equiv.intEquivNat.symm time, msg⟩
  crc data := UInt32.ofNat (data.foldl (fun n x => n * 3 + x.toNat + 1) 0)
  endHeight height := 2 * height.toNat
  asEndHeight msg := if msg % 2 = 0 then some (msg / 2 : ℕ) else none

lemma Codec.distinguishes_of_lt {data : Bytes} (hni : C.crc [] ≠ C.crc data)
    (hc : ∀ n < data.length, C.crc (pad data.length (data.take n)) = C.crc data →
      pad data.length (data.take n) = data) : C.Distinguishes data := by
  refine ⟨hni, fun n h => ?_⟩
  by_cases hn : n < data.length
  · exact hc n hn h
  · simp [take_of_length_le (not_lt.mp hn), pad]

lemma sampleCodec_faithful : sampleCodec.Faithful where
  unmarshal_marshal m := by simp [sampleCodec, readUnary_unary]
  marshal_ne_nil m := by simp [sampleCodec, unary]

def sampleEnv : Env ℕ := ⟨1, 1, 0, fun _ _ => false⟩

def sampleLog : Bytes := frames sampleCodec [⟨0, 0⟩, ⟨0, 1⟩]

theorem sampleLog_search :
    (searchForEndHeight sampleCodec sampleLog 0).map (readLog sampleCodec) = some ([⟨0, 1⟩], none) :=
  search_exact sampleCodec sampleCodec_faithful [⟨0, 0⟩, ⟨0, 1⟩] sampleLog (by decide +kernel) 0

end Tenderdash.WAL
