import Tenderdash.Lib.Wire

/-!
The write-ahead log of the consensus: its frames (`wal.go`), the replay and the repair of a log at start
(`state.go`, `replay.go`). The log is one file, a string of bytes; a crash leaves an initial part of it.

A cut can fall between two frames, inside a checksum, or behind one. The decoder takes the second case
for the end of the log, so that nothing is repaired. In the other cases the start brings the log back to
whole frames, if the replay gets as far as the cut.
-/

namespace Tenderdash.WAL

open Lib List

structure TimedWALMessage (μ : Type*) where
  time : ℤ
  msg : μ
  deriving DecidableEq, Repr

/-- The encoding of the messages `μ` and the checksum. `unmarshal` is `proto.Unmarshal` followed by
`WALFromProto`; `endHeight` and `asEndHeight` are the messages that mark the end of a height. -/
structure Codec (μ : Type*) where
  marshal : TimedWALMessage μ → Bytes
  unmarshal : Bytes → Option (TimedWALMessage μ)
  crc : Bytes → UInt32
  endHeight : ℤ → μ
  asEndHeight : μ → Option ℤ

def maxMsgSizeBytes : ℕ := 1048576 + 24

/-- `binary.BigEndian.PutUint32` -/
def putUint32 (n : ℕ) : Bytes := Wire.beBytes 4 n

/-- `binary.BigEndian.Uint32` -/
def getUint32 (b : Bytes) : ℕ := b.foldl (fun n x => n * 256 + x.toNat) 0

@[simp] lemma length_putUint32 (n : ℕ) : (putUint32 n).length = 4 := by simp [putUint32]

lemma getUint32_putUint32 {n : ℕ} (hn : n < 2 ^ 32) : getUint32 (putUint32 n) = n := by
  simp only [getUint32, putUint32, Wire.beBytes, Wire.leBytes, range_succ, range_zero,
    nil_append, map_cons, map_nil, cons_append, reverse_cons,
    reverse_nil, foldl_cons, foldl_nil, UInt8.toNat_ofNat']
  omega

/-! ### Frames -/

variable {μ : Type*}

variable (C : Codec μ) (log : Bytes) (m : TimedWALMessage μ)

def frame : Bytes :=
  putUint32 (C.crc (C.marshal m)).toNat ++ putUint32 (C.marshal m).length ++ C.marshal m

inductive WriteError where
  | tooBig (length max : ℕ)
  deriving DecidableEq, Repr

/-- `WALEncoder.Encode` -/
def encode : Except WriteError Bytes :=
  if (C.marshal m).length > maxMsgSizeBytes then
    .error (.tooBig (C.marshal m).length maxMsgSizeBytes)
  else .ok (frame C m)

/-- The frame is on the disk when the call returns. -/
def writeSync : Except WriteError Bytes := do
  return log ++ (← encode C m)

def writeAll (ms : List (TimedWALMessage μ)) : Except WriteError Bytes :=
  ms.foldlM (writeSync C) log

/-! ### Reading -/

inductive ReadError where
  | eof
  | emptySlice
  deriving DecidableEq, Repr

/-- A read fills a buffer of the given size: the buffer, what is left, and the error. -/
abbrev Reader := ℕ → Bytes → Bytes × Bytes × Option ReadError

def pad (n : ℕ) (b : Bytes) : Bytes := b ++ List.replicate (n - b.length) 0

/-- `GroupReader.Read`: it reads on until the buffer is full, and an end before that is an error. -/
def groupRead : Reader := fun n s =>
  if n = 0 then ([], s, some .emptySlice)
  else if n ≤ s.length then (s.take n, s.drop n, none)
  else (pad n s, [], some .eof)

/-- `File.Read`: at the end of the file it returns what is left, and an error only if nothing is. -/
def fileRead : Reader := fun n s =>
  if n = 0 then ([], s, none)
  else if s = [] then (pad n [], [], some .eof)
  else (pad n (s.take n), s.drop n, none)

inductive Corruption where
  | readChecksum (err : ReadError)
  | readLength (err : ReadError)
  | lengthExceeded (length max : ℕ)
  | readData (err : ReadError) (wanted : ℕ)
  | checksumMismatch (read actual : ℕ)
  | decodeData
  deriving DecidableEq, Repr

inductive Decoded (μ : Type*) where
  | msg (m : TimedWALMessage μ)
  | eof
  | corrupted (cause : Corruption)

def checkData (crc : ℕ) (data : Bytes) : Decoded μ :=
  if (C.crc data).toNat ≠ crc then .corrupted (.checksumMismatch crc (C.crc data).toNat)
  else
    match C.unmarshal data with
    | none => .corrupted .decodeData
    | some m => .msg m

/-- `WALDecoder.Decode`: what it returns, and what is left to read. -/
def decode (read : Reader) (s : Bytes) : Decoded μ × Bytes :=
  match read 4 s with
  | (_, s, some .eof) => (.eof, s)
  | (_, s, some err) => (.corrupted (.readChecksum err), s)
  | (b, s, none) =>
    let crc := getUint32 b
    match read 4 s with
    | (_, s, some err) => (.corrupted (.readLength err), s)
    | (b, s, none) =>
      let length := getUint32 b
      if length > maxMsgSizeBytes then (.corrupted (.lengthExceeded length maxMsgSizeBytes), s)
      else
        match read length s with
        | (_, s, some err) => (.corrupted (.readData err length), s)
        | (data, s, none) => (checkData C crc data, s)

/-- Decode until the first error; what the error was, or none at the end of the log. `fuel` bounds the
number of messages. -/
def readAux (C : Codec μ) : ℕ → Bytes → List (TimedWALMessage μ) × Option Corruption
  | 0, _ => ([], none)
  | fuel + 1, s =>
    match decode C groupRead s with
    | (.eof, _) => ([], none)
    | (.corrupted cause, _) => ([], some cause)
    | (.msg m, s) => ((m :: (readAux C fuel s).1), (readAux C fuel s).2)

def readLog : List (TimedWALMessage μ) × Option Corruption :=
  readAux C (log.length + 1) log

/-! ### Start -/

/-- The loop of `SearchForEndHeight` with corrupted entries ignored: what stands behind the marker. -/
def searchAux (C : Codec μ) (height : ℤ) : ℕ → Bytes → Option Bytes
  | 0, _ => none
  | fuel + 1, s =>
    match decode C groupRead s with
    | (.eof, _) => none
    | (.corrupted _, s) => searchAux C height fuel s
    | (.msg m, s) => if C.asEndHeight m.msg = some height then some s else searchAux C height fuel s

def searchForEndHeight (height : ℤ) : Option Bytes :=
  searchAux C height (log.length + 1) log

/-- How a replay ends. All errors but data corruption are alike for the caller. -/
inductive Replay where
  | done
  | failed
  | corrupted (cause : Corruption)
  deriving DecidableEq, Repr

/-- The node that starts: its height, the chain's initial height, the time, and whether
`readReplayMessage` fails on a message after the ones before it. -/
structure Env (μ : Type*) where
  csHeight : ℤ
  initialHeight : ℤ
  now : ℤ
  fails : List (TimedWALMessage μ) → TimedWALMessage μ → Bool

/-- The loop of `catchupReplay` over the messages behind the marker. -/
def replayAux (C : Codec μ) (env : Env μ) : ℕ → List (TimedWALMessage μ) → Bytes → Replay
  | 0, _, _ => .done
  | fuel + 1, past, s =>
    match decode C groupRead s with
    | (.eof, _) => .done
    | (.corrupted cause, _) => .corrupted cause
    | (.msg m, s) => if env.fails past m then .failed else replayAux C env fuel (past ++ [m]) s

def catchupReplay (env : Env μ) (log : Bytes) : Replay :=
  if (searchForEndHeight C log env.csHeight).isSome then .failed
  else if env.csHeight < env.initialHeight then .failed
  else
    let endHeight := if env.csHeight = env.initialHeight then 0 else env.csHeight - 1
    match searchForEndHeight C log endHeight with
    | none => .failed
    | some rest => replayAux C env (log.length + 1) [] rest

/-- The loop of `repairWalFile`: decode until the first error and write what was decoded. -/
def repairAux (C : Codec μ) : ℕ → Bytes → Bytes → Except WriteError Bytes
  | 0, _, out => .ok out
  | fuel + 1, s, out =>
    match decode C fileRead s with
    | (.msg m, s) => do repairAux C fuel s (← writeSync C out m)
    | _ => .ok out

def repairWalFile : Except WriteError Bytes :=
  repairAux C (log.length + 1) log []

/-- An empty log gets the marker of height 0. -/
def openWAL (now : ℤ) (log : Bytes) : Except WriteError Bytes :=
  if log = [] then writeSync C log ⟨now, C.endHeight 0⟩ else .ok log

inductive StartError where
  | write (err : WriteError)
  | corrupted (cause : Corruption)
  deriving DecidableEq, Repr

/-- The part of `OnStart` that has to do with the log: replay it, and if its data is corrupted repair it,
once. -/
def onStart (env : Env μ) (log : Bytes) : Except StartError Bytes := do
  let log ← (openWAL C env.now log).mapError .write
  match catchupReplay C env log with
  | .corrupted _ =>
    let repaired ← (repairWalFile C log).mapError .write
    let log ← (openWAL C env.now repaired).mapError .write
    match catchupReplay C env log with
    | .corrupted cause => .error (.corrupted cause)
    | _ => .ok log
  | _ => .ok log

end Tenderdash.WAL
