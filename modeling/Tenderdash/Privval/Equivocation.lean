import Tenderdash.Lib.HighWater
import Tenderdash.Lib.Run
import Tenderdash.Privval.FilePV

/-!
When the validator signs twice. Two machines drive the file-backed private validator: one in which
writes of the state file may fail and the process may crash and reload it, and one in which callers
interleave between the check of a request and the record of its signature, as a read lock lets
them. Both keep the log of what was handed back: the triple and the bytes of each block signature.

Neither machine keeps that log consistent on its own. A write that fails leaves the new state in memory,
where a second request for the same message is answered, and a crash forgets that it was. And two callers
that pass the check before either records both sign.
-/

namespace Tenderdash.Privval

open Lib Run Function FilePV LastSignState

abbrev Release := HRS × Bytes

variable (C : Crypto) (s : ConcState)

def Request.release (req : Request) : Release := (req.hrs, req.signBytes C)

/-! ### Crashes and failing writes -/

structure CrashState where
  pv : FilePV
  released : List Release
  deriving DecidableEq

inductive CrashEvent where
  | request (req : Request) (saveOk : Bool)
  | crash
  deriving DecidableEq, Repr

def crashStep (s : CrashState) : CrashEvent → CrashState
  | .request req saveOk =>
    match s.pv.sign C saveOk req with
    | (pv, .ok _) => ⟨pv, req.release C :: s.released⟩
    | (pv, .error _) => ⟨pv, s.released⟩
  | .crash => ⟨s.pv.reload, s.released⟩

def Started (pv : FilePV) : Prop := pv.lastSignState = pv.file ∧ pv.file.toFile = pv.file

instance (pv : FilePV) : Decidable (Started pv) := by unfold Started; infer_instance

def ReuseSaved (s : CrashState) : CrashEvent → Prop
  | .request req _ => s.pv.reuses C req = true → s.pv.lastSignState.toFile = s.pv.file
  | .crash => True

instance (C : Crypto) (s : CrashState) (e : CrashEvent) : Decidable (ReuseSaved C s e) := by
  cases e <;> unfold ReuseSaved <;> infer_instance

structure CrashInv (s : CrashState) : Prop where
  guards : Guards s.pv.file.hrs (s.pv.file.blockSignBytes.getD []) s.released
  file_le : s.pv.file.hrs ≤ s.pv.lastSignState.hrs
  file_stable : s.pv.file.toFile = s.pv.file

lemma crashStep_request (s : CrashState) (req : Request) (saveOk : Bool) :
    crashStep C s (.request req saveOk) = s ∨
    (∃ signs, s.pv.check C req = .ok (.reuse signs) ∧
      crashStep C s (.request req saveOk) = ⟨s.pv, req.release C :: s.released⟩) ∨
    (∃ lss : LastSignState, s.pv.lastSignState.hrs < lss.hrs ∧ lss.hrs = req.hrs ∧
      lss.blockSignBytes = some (req.signBytes C) ∧
      (crashStep C s (.request req saveOk) = ⟨{ s.pv with lastSignState := lss }, s.released⟩ ∨
        ∃ released, (released = s.released ∨ released = req.release C :: s.released) ∧
          crashStep C s (.request req saveOk) =
            ⟨{ s.pv with lastSignState := lss, file := lss.toFile }, released⟩)) := by
  cases hc : s.pv.check C req with
  | error e =>
    left
    simp only [crashStep, sign_of_error hc]
  | ok d =>
    cases d with
    | reuse signs =>
      simp only [crashStep, sign_of_reuse hc]
      cases hb : handBack req signs with
      | error e => exact .inl rfl
      | ok reply => exact .inr (.inl ⟨signs, rfl, rfl⟩)
    | sign f =>
      obtain ⟨hf, hh, hby⟩ := established hc
      refine .inr (.inr ⟨f.lastSignState, lt_of_checkHRS_false hf, hh, congrArg some hby, ?_⟩)
      simp only [crashStep, sign_of_sign hc]
      cases saveOk with
      | false => exact .inl rfl
      | true =>
        right
        cases hb : handBack req f.toSigns with
        | error e => exact ⟨_, .inl rfl, rfl⟩
        | ok reply => exact ⟨_, .inr rfl, rfl⟩

theorem crashInv_step (s : CrashState) (e : CrashEvent) (h : CrashInv s)
    (hok : ReuseSaved C s e) : CrashInv (crashStep C s e) := by
  cases e with
  | crash =>
    exact ⟨h.guards, le_refl _, h.file_stable⟩
  | request req saveOk =>
    rcases crashStep_request C s req saveOk with
      heq | ⟨signs, hc, heq⟩ | ⟨lss, hlt, hh, hb, heq | ⟨rel, hr, heq⟩⟩
    · rw [heq]
      exact h
    · -- a remembered signature: the file holds the very triple and bytes that are handed back
      obtain ⟨hs, hsb⟩ := established hc
      have hf : s.pv.lastSignState.toFile = s.pv.file := hok (by simp [reuses, hc])
      have hk : s.pv.file.hrs = req.hrs := by rw [← hf, toFile_hrs, hs]
      have hv : s.pv.file.blockSignBytes.getD [] = req.signBytes C := by
        rw [← hf, toFile]
        simp [hsb]
      rw [heq]
      refine ⟨?_, h.file_le, h.file_stable⟩
      have := h.guards.again
      rwa [hk, hv] at this ⊢
    · -- a new signature whose write failed: only memory moves
      rw [heq]
      exact ⟨h.guards, h.file_le.trans hlt.le, h.file_stable⟩
    · -- a new signature in the file
      have hl' : s.pv.file.hrs < lss.hrs := lt_of_le_of_lt h.file_le hlt
      have hv : lss.toFile.blockSignBytes.getD [] = req.signBytes C := by simp [toFile, hb]
      rw [heq]
      refine ⟨?_, le_refl _, lss.toFile_toFile⟩
      rw [hv, toFile_hrs]
      rcases hr with rfl | rfl
      · exact h.guards.raise hl'
      rw [hh] at hl' ⊢
      exact h.guards.advance hl'

/-- In every run of requests, failing writes and crashes that hands back remembered signatures only
while the state file holds them, no two block signatures handed back for one height, round and step
cover different bytes. -/
theorem released_consistent_of_reuse_saved (C : Crypto) (pv : FilePV) (h : Started pv)
    (es : List CrashEvent) (hrun : Admitted (crashStep C) (ReuseSaved C) ⟨pv, []⟩ es) :
    Consistent (run (crashStep C) ⟨pv, []⟩ es).released := by
  have hi : CrashInv ⟨pv, []⟩ := ⟨Guards.nil, by rw [h.1], h.2⟩
  exact (hrun.invariant (crashInv_step C) hi).guards.consistent

def newPV : FilePV where
  privateKeys := [(List.replicate 32 7, [9])]
  lastSignState := ⟨0, 0, stepNone, none, none⟩
  file := ⟨0, 0, stepNone, none, none⟩

def prevoteRequest (blockID : BlockID) : Request :=
  .vote "chain" 100 (List.replicate 32 7) ⟨.prevote, 1, 0, blockID, [], 0, [], []⟩

def someBlock : BlockID := ⟨List.replicate 32 1, ⟨1, List.replicate 32 2⟩, List.replicate 32 3⟩

/-- A prevote signed, asked for again before and after a crash, and refused for another block. -/
theorem released_consistent_of_resigned :
    Started newPV ∧ Consistent (run (crashStep .sample) ⟨newPV, []⟩
      [.request (prevoteRequest .nil) true, .request (prevoteRequest .nil) true, .crash,
        .request (prevoteRequest .nil) true, .request (prevoteRequest someBlock) true]).released :=
  ⟨by decide, released_consistent_of_reuse_saved .sample newPV (by decide) _ (by decide +kernel)⟩

/-- The run of `crash_equivocates`: a prevote for nil whose write fails, the same prevote again, a
crash, and a prevote for a block. -/
def crashSchedule : List CrashEvent :=
  [.request (prevoteRequest .nil) false, .request (prevoteRequest .nil) true, .crash,
    .request (prevoteRequest someBlock) true]

/-- A remembered signature that was never written is handed back, forgotten in a crash, and the
same height, round and step is signed for another block. -/
theorem crash_equivocates :
    Started newPV ∧ ¬ Consistent (run (crashStep .sample) ⟨newPV, []⟩ crashSchedule).released := by
  decide +kernel

/-! ### Interleaved callers -/

structure ConcState where
  pv : FilePV
  pending : ℕ → Option (Request × FreshSign)
  released : List Release

inductive ConcEvent where
  | check (caller : ℕ) (req : Request)
  | record (caller : ℕ) (saveOk : Bool)
  deriving DecidableEq, Repr

def logReply (req : Request) (reply : Go String Reply) (log : List Release) : List Release :=
  if reply.isOk then req.release C :: log else log

/-- One step. A caller makes one request at a time; a remembered signature is handed back by the
check itself. -/
def concStep : ConcEvent → ConcState
  | .check caller req =>
    match s.pending caller, s.pv.check C req with
    | none, .ok (.reuse signs) =>
      { s with released := logReply C req (FilePV.handBack req signs) s.released }
    | none, .ok (.sign f) =>
      { s with pending := Function.update s.pending caller (some (req, f)) }
    | _, _ => s
  | .record caller saveOk =>
    match s.pending caller with
    | some (req, f) =>
      { pv := (s.pv.saveSigned saveOk f).1
        pending := Function.update s.pending caller none
        released :=
          if saveOk then logReply C req (FilePV.handBack req f.toSigns) s.released
          else s.released }
    | none => s

def RecordFresh : ConcEvent → Prop
  | .record caller _ =>
    match s.pending caller with
    | some (_, f) => s.pv.lastSignState.checkHRS f.height f.round f.step = .ok false
    | none => True
  | .check .. => True

instance (s : ConcState) (e : ConcEvent) : Decidable (RecordFresh s e) := by
  cases e <;> unfold RecordFresh <;> dsimp only <;> try split
  all_goals infer_instance

lemma RecordFresh.lt {s : ConcState} {caller : ℕ} {saveOk : Bool} {req : Request} {f : FreshSign}
    (hok : RecordFresh s (.record caller saveOk)) (hp : s.pending caller = some (req, f)) :
    s.pv.lastSignState.hrs < f.lastSignState.hrs := by
  simp only [RecordFresh, hp] at hok
  exact lt_of_checkHRS_false hok

/-- The last-sign state in memory guards the log, and every signature in flight is the one its
request asks for. -/
structure ConcInv (C : Crypto) (s : ConcState) : Prop where
  guards : Guards s.pv.lastSignState.hrs (s.pv.lastSignState.blockSignBytes.getD []) s.released
  pending_signs : ∀ caller req f, s.pending caller = some (req, f) →
    f.lastSignState.hrs = req.hrs ∧ f.signBytes = req.signBytes C

lemma logReply_cases (req : Request) (reply : Go String Reply) (log : List Release) :
    logReply C req reply log = log ∨ logReply C req reply log = req.release C :: log := by
  unfold logReply
  split
  · exact .inr rfl
  · exact .inl rfl

lemma concStep_cases (e : ConcEvent) :
    concStep C s e = s ∨
    (∃ caller req signs, e = .check caller req ∧ s.pv.check C req = .ok (.reuse signs) ∧
      concStep C s e = { s with released := logReply C req (handBack req signs) s.released }) ∨
    (∃ caller req f, e = .check caller req ∧ s.pv.check C req = .ok (.sign f) ∧
      concStep C s e = { s with pending := update s.pending caller (some (req, f)) }) ∨
    (∃ caller saveOk req f log, e = .record caller saveOk ∧ s.pending caller = some (req, f) ∧
      (log = s.released ∨ log = req.release C :: s.released) ∧
      concStep C s e = ⟨(s.pv.saveSigned saveOk f).1, update s.pending caller none, log⟩) := by
  cases e with
  | check caller req =>
    cases hp : s.pending caller with
    | some p => left; simp only [concStep, hp]
    | none =>
      cases hc : s.pv.check C req with
      | error e => left; simp only [concStep, hp, hc]
      | ok d =>
        cases d with
        | reuse signs =>
          exact .inr (.inl ⟨caller, req, signs, rfl, hc, by simp only [concStep, hp, hc]⟩)
        | sign f =>
          exact .inr (.inr (.inl ⟨caller, req, f, rfl, hc, by simp only [concStep, hp, hc]⟩))
  | record caller saveOk =>
    cases hp : s.pending caller with
    | none => left; simp only [concStep, hp]
    | some p =>
      obtain ⟨req, f⟩ := p
      refine .inr (.inr (.inr ⟨caller, saveOk, req, f,
        if saveOk then logReply C req (handBack req f.toSigns) s.released else s.released,
        rfl, hp, ?_, by simp only [concStep, hp]⟩))
      cases saveOk with
      | false => exact .inl rfl
      | true => exact logReply_cases C req ..

lemma saveSigned_lastSignState (pv : FilePV) (saveOk : Bool) (f : FreshSign) :
    (pv.saveSigned saveOk f).1.lastSignState = f.lastSignState := by
  cases saveOk <;> rfl

theorem concInv_step (e : ConcEvent) (h : ConcInv C s) (hok : RecordFresh s e) : ConcInv C (concStep C s e) := by
  rcases concStep_cases C s e with heq | ⟨caller, req, signs, rfl, hc, heq⟩ |
    ⟨caller, req, f, rfl, hc, heq⟩ | ⟨caller, saveOk, req, f, log, rfl, hp, hlo, heq⟩
  · rw [heq]
    exact h
  · -- a remembered signature repeats the mark
    rw [heq]
    refine ⟨?_, h.pending_signs⟩
    obtain ⟨hs, hsb⟩ := established hc
    rcases logReply_cases C req (handBack req signs) s.released with hl | hl <;> rw [hl]
    · exact h.guards
    have := h.guards.again
    rwa [hs, hsb] at this ⊢
  · -- a new signature is in flight and nothing is recorded yet
    rw [heq]
    refine ⟨h.guards, fun c req' f' hf => ?_⟩
    dsimp only at hf
    by_cases hcc : c = caller
    · subst hcc
      rw [update_self] at hf
      cases hf
      exact (established hc).2
    rw [update_of_ne hcc] at hf
    exact h.pending_signs c req' f' hf
  · -- a record: the check still holds, so the mark moves up
    obtain ⟨hh, hb⟩ := h.pending_signs caller req f hp
    have hlt := hok.lt hp
    rw [heq]
    refine ⟨?_, fun c req' f' hf => ?_⟩
    · dsimp only
      rw [saveSigned_lastSignState]
      rcases hlo with rfl | rfl
      · exact h.guards.raise hlt
      have hm : f.lastSignState.blockSignBytes.getD [] = req.signBytes C := hb
      rw [hh] at hlt
      rw [hh, hm]
      exact h.guards.advance hlt
    · dsimp only at hf
      by_cases hcc : c = caller
      · subst hcc
        simp at hf
      rw [update_of_ne hcc] at hf
      exact h.pending_signs c req' f' hf

def ConcState.hrs : HRS := s.pv.lastSignState.hrs

lemma concStep_hrs_le (e : ConcEvent) (hok : RecordFresh s e) : s.hrs ≤ (concStep C s e).hrs := by
  rcases concStep_cases C s e with heq | ⟨_, _, _, _, _, heq⟩ | ⟨_, _, _, _, _, heq⟩ |
    ⟨caller, saveOk, req, f, log, rfl, hp, _, heq⟩
  · rw [heq]
  · rw [heq]; exact le_refl _
  · rw [heq]; exact le_refl _
  rw [heq]
  unfold ConcState.hrs
  rw [saveSigned_lastSignState]
  exact (hok.lt hp).le

def idle (pv : FilePV) : ConcState := ⟨pv, fun _ => none, []⟩

/-- In every interleaving in which each record still passes the check its caller made, no two block
signatures handed back for one height, round and step cover different bytes, and the recorded
triple never goes back. -/
theorem released_consistent_of_record_fresh (C : Crypto) (pv : FilePV) (es fs : List ConcEvent)
    (hrun : Admitted (concStep C) RecordFresh (idle pv) (es ++ fs)) :
    Consistent (run (concStep C) (idle pv) (es ++ fs)).released ∧
      (run (concStep C) (idle pv) es).hrs ≤ (run (concStep C) (idle pv) (es ++ fs)).hrs := by
  have hi : ConcInv C (idle pv) := ⟨Guards.nil, by simp [idle]⟩
  refine ⟨(hrun.invariant (concInv_step C) hi).guards.consistent, ?_⟩
  rw [run_append]
  obtain ⟨_, hfs⟩ := admitted_append.mp hrun
  exact hfs.relation (P := fun _ => True) (R := fun a b => a.hrs ≤ b.hrs) (fun _ => le_refl _)
    le_trans (fun _ _ _ _ => trivial) (fun s e _ => concStep_hrs_le C s e) trivial

/-- Two callers one after the other: the second is answered from memory. -/
theorem released_consistent_of_sequential :
    Consistent (run (concStep .sample) (idle newPV)
      ([.check 0 (prevoteRequest .nil), .record 0 true] ++
        [.check 1 (prevoteRequest .nil), .check 1 (prevoteRequest someBlock)])).released ∧
    (run (concStep .sample) (idle newPV) [.check 0 (prevoteRequest .nil), .record 0 true]).hrs ≤
      (run (concStep .sample) (idle newPV)
        ([.check 0 (prevoteRequest .nil), .record 0 true] ++
          [.check 1 (prevoteRequest .nil), .check 1 (prevoteRequest someBlock)])).hrs :=
  released_consistent_of_record_fresh .sample newPV _ _ (by decide +kernel)

def prevoteAt (height : ℤ) : Request :=
  .vote "chain" 100 (List.replicate 32 7) ⟨.prevote, height, 0, .nil, [], 0, [], []⟩

/-- Two callers check before either records: both sign, for different blocks at one height, round
and step, or for two heights of which the lower is recorded last. -/
theorem interleaved_equivocates :
    ¬ Consistent (run (concStep .sample) (idle newPV)
      [.check 0 (prevoteRequest .nil), .check 1 (prevoteRequest someBlock), .record 0 true, .record 1 true]).released ∧
    (run (concStep .sample) (idle newPV)
      [.check 0 (prevoteAt 1), .check 1 (prevoteAt 2), .record 1 true, .record 0 true]).hrs <
    (run (concStep .sample) (idle newPV) [.check 0 (prevoteAt 1), .check 1 (prevoteAt 2), .record 1 true]).hrs := by
  decide +kernel

end Tenderdash.Privval
