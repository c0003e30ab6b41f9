import Tenderdash.Privval.Equivocation

/-!
What the signature handed back with a message is worth.

A new signature is made over the message's digest with the key of its quorum. A message that is signed
again is recognised by its triple and its sign bytes. A vote is then handed back with the remembered
signature, which is good for the quorum the vote was signed for: the sign bytes do not name it. A
proposal is handed back with the remembered sign bytes in place of the signature
(`resigned_proposal_unsigned`).
-/

namespace Tenderdash.Privval

open Lib Go Run FilePV

def Request.quorum : Request → LLMQType × Bytes
  | .vote _ quorumType quorumHash _ | .proposal _ quorumType quorumHash _ => (quorumType, quorumHash)

def Request.signHash (C : Crypto) : Request → Go String Bytes
  | .vote chainID quorumType quorumHash v => return (← makeBlockSignItem C chainID v quorumType quorumHash).signHash
  | .proposal chainID quorumType quorumHash p => p.signID C chainID quorumType quorumHash

def Request.isVote : Request → Bool
  | .vote .. => true
  | .proposal .. => false

def Reply.signature : Reply → Bytes
  | .vote v => v.blockSignature
  | .proposal _ p => p.signature

def Genuine (C : Crypto) (keys : List (Bytes × Bytes)) (req : Request) (sig : Bytes) : Prop :=
  ∃ key hash, keys.lookup req.quorum.2 = some key ∧ req.signHash C = .ok hash ∧ C.signDigest key hash = .ok sig

def Made (C : Crypto) (pv : FilePV) (req : Request) : Decision → Prop
  | .sign f => Genuine C pv.privateKeys req f.signature
  | .reuse signs => req.isVote = true → signs.signature = pv.lastSignState.blockSignature.getD []

section Call

variable {C : Crypto} {pv : FilePV} {req : Request}

lemma lookup_of_getPrivateKey {q key : Bytes} (h : pv.getPrivateKey q = .ok key) :
    pv.privateKeys.lookup q = some key := by
  unfold getPrivateKey at h
  split at h
  · cases h
    assumption
  · split at h <;> cases h

lemma made {decision : Decision} (hc : pv.check C req = .ok decision) : Made C pv req decision := by
  cases req with
  | vote chainID t q v =>
    simp only [check, checkVote, bind_eq_ok] at hc
    obtain ⟨step, -, same, -, signs, hs, key, hk, extSigns, -, hc⟩ := hc
    cases same with
    | true =>
      rw [if_pos rfl] at hc
      split at hc <;> cases hc
      exact fun _ => rfl
    | false =>
      obtain ⟨sig, hsi, hc⟩ := of_bind hc
      cases hc
      obtain ⟨exts, -, hs⟩ := of_bind hs
      obtain ⟨block, hb, hs⟩ := of_bind hs
      obtain ⟨items, -, hs⟩ := of_bind hs
      cases hs
      exact ⟨key, _, lookup_of_getPrivateKey hk, bind_eq_ok.mpr ⟨block, hb, rfl⟩, hsi⟩
  | proposal chainID t q p =>
    simp only [check, checkProposal, bind_eq_ok] at hc
    obtain ⟨same, -, hash, hh, bz, -, hc⟩ := hc
    cases same with
    | true =>
      rw [if_pos rfl] at hc
      split at hc <;> cases hc
      exact fun hv => by cases hv
    | false =>
      obtain ⟨key, hk, hc⟩ := of_bind hc
      obtain ⟨sig, hsi, hc⟩ := of_bind hc
      cases hc
      exact ⟨key, hash, lookup_of_getPrivateKey hk, hh, hsi⟩

lemma signature_of_handBack {signs : Signs} {reply : Reply} (h : handBack req signs = .ok reply) :
    reply.signature = signs.signature := by
  cases req with
  | vote chainID t q v =>
    obtain ⟨exts, -, h⟩ := of_bind h
    cases h
    rfl
  | proposal chainID t q p =>
    cases h
    rfl

lemma Request.signHash_congr {r : Request} (hv : req.isVote = true) (hr : r.release C = req.release C)
    (hq : r.quorum = req.quorum) : r.signHash C = req.signHash C := by
  obtain ⟨chainID, t, q, v⟩ | _ := req
  · obtain ⟨hh, hb⟩ := Prod.mk.inj hr
    obtain ⟨chainID', t', q', v'⟩ | ⟨chainID', t', q', p⟩ := r
    · simp only [hrs, mkHRS, toLex_inj, Prod.mk.injEq] at hh
      cases hq
      simp only [signBytes] at hb
      simp only [signHash, makeBlockSignItem, hh, hb]
    · -- a proposal is of another step
      simp only [hrs, mkHRS, toLex_inj, Prod.mk.injEq, step] at hh
      revert hh
      split <;> simp [stepPropose, stepPrevote, stepPrecommit, stepNone]
  · cases hv

end Call

/-! ### Runs -/

def Remembers (C : Crypto) (keys : List (Bytes × Bytes)) (es : List CrashEvent) (lss : LastSignState) : Prop :=
  ∀ b, lss.blockSignBytes = some b → ∃ r saveOk, .request r saveOk ∈ es ∧ r.release C = (lss.hrs, b) ∧
    Genuine C keys r (lss.blockSignature.getD [])

structure Remembered (C : Crypto) (keys : List (Bytes × Bytes)) (es : List CrashEvent) (s : CrashState) : Prop where
  keys_eq : s.pv.privateKeys = keys
  memory : Remembers C keys es s.pv.lastSignState
  file : Remembers C keys es s.pv.file

variable {C : Crypto} {keys : List (Bytes × Bytes)} {es : List CrashEvent} {s : CrashState}

lemma Remembers.toFile {f : FreshSign} (h : Remembers C keys es f.lastSignState) :
    Remembers C keys es f.lastSignState.toFile := by
  intro b hb
  obtain ⟨r, saveOk, hm, hr, hg⟩ := h b (by
    simp only [LastSignState.toFile, LastSignState.omitEmpty] at hb
    split at hb
    · cases hb
    · exact hb)
  refine ⟨r, saveOk, hm, hr, ?_⟩
  rw [LastSignState.toFile, FreshSign.lastSignState, LastSignState.omitEmpty_getD]
  exact hg

lemma Remembered.step (h : Remembered C keys es s) {e : CrashEvent} (he : e ∈ es) :
    Remembered C keys es (crashStep C s e) := by
  cases e with
  | crash => exact ⟨h.keys_eq, h.file, h.file⟩
  | request req saveOk =>
    have hpv : (crashStep C s (.request req saveOk)).pv = (s.pv.sign C saveOk req).1 := by
      simp only [crashStep]
      rcases s.pv.sign C saveOk req with ⟨pv', _ | _⟩ <;> rfl
    suffices Remembered C keys es ⟨(s.pv.sign C saveOk req).1, s.released⟩ by
      exact ⟨hpv ▸ this.keys_eq, hpv ▸ this.memory, hpv ▸ this.file⟩
    rcases hc : s.pv.check C req with e | signs | f
    · rw [sign_of_error hc]
      exact h
    · rw [sign_of_reuse hc]
      exact h
    · rw [sign_of_sign hc]
      obtain ⟨-, hh, hby⟩ := established hc
      have hn : Remembers C keys es f.lastSignState := fun b hb =>
        ⟨req, saveOk, he, Prod.ext hh.symm (hby.symm.trans (Option.some.inj hb)), h.keys_eq ▸ made hc⟩
      cases saveOk with
      | true => exact ⟨h.keys_eq, hn, hn.toFile⟩
      | false => exact ⟨h.keys_eq, hn, h.file⟩

/-- **The signature handed back.** After any requests, failing writes and crashes of a validator that had
signed nothing, a message that is handed back carries a signature that the private key of its quorum made
over its digest, and that verifies under the public key; if the message was signed before, this takes
that it is a vote and that it was signed for the same quorum. -/
theorem signature_genuine (C : Crypto) (pv₀ : FilePV) (hmemory : pv₀.lastSignState.blockSignBytes = none)
    (hfile : pv₀.file.blockSignBytes = none) (es : List CrashEvent) (req : Request) (saveOk : Bool) (pv : FilePV)
    (reply : Reply) (hsign : (run (crashStep C) ⟨pv₀, []⟩ es).pv.sign C saveOk req = (pv, .ok reply))
    (hagain : ∀ r ok, .request r ok ∈ es → r.release C = req.release C → req.isVote = true ∧ r.quorum = req.quorum) :
    ∃ key hash, pv₀.privateKeys.lookup req.quorum.2 = some key ∧ req.signHash C = .ok hash ∧
      C.signDigest key hash = .ok reply.signature ∧
      ∀ pub : PubKey, (∀ digest sig, C.signDigest key digest = .ok sig → pub.verifySignatureDigest C digest sig = true) →
        pub.verifySignatureDigest C hash reply.signature = true := by
  have hi : Remembered C pv₀.privateKeys es (run (crashStep C) ⟨pv₀, []⟩ es) :=
    (admitted_of_mem fun _ _ he => he).invariant (fun _ _ h => h.step)
      ⟨rfl, fun b hb => by simp [hmemory] at hb, fun b hb => by simp [hfile] at hb⟩
  have hg : Genuine C pv₀.privateKeys req reply.signature := by
    rcases hc : (run (crashStep C) ⟨pv₀, []⟩ es).pv.check C req with e | signs | f
    · rw [sign_of_error hc] at hsign
      cases hsign
    · rw [sign_of_reuse hc] at hsign
      obtain ⟨hhr, hby⟩ := established hc
      obtain ⟨r, ok, hm, hr, key, hash, hk, hh, hs⟩ := hi.memory _ hby
      rw [hhr] at hr
      obtain ⟨hv, hq⟩ := hagain r ok hm hr
      rw [signature_of_handBack (Prod.mk.inj hsign).2, made hc hv]
      exact ⟨key, hash, hq ▸ hk, Request.signHash_congr hv hr hq ▸ hh, hs⟩
    · rw [sign_of_sign hc] at hsign
      cases saveOk with
      | false => cases hsign
      | true =>
        rw [signature_of_handBack (Prod.mk.inj hsign).2]
        exact hi.keys_eq ▸ made hc
  obtain ⟨key, hash, hk, hh, hs⟩ := hg
  exact ⟨key, hash, hk, hh, hs, fun pub hp => hp hash _ hs⟩

/-- A prevote signed again after a restart. -/
theorem resigned_prevote_genuine :
    ∃ pv reply, (run (crashStep .sample) ⟨newPV, []⟩ [.request (prevoteRequest .nil) true, .crash]).pv.sign .sample true
        (prevoteRequest .nil) = (pv, .ok reply) ∧
      Genuine .sample newPV.privateKeys (prevoteRequest .nil) reply.signature := by
  have hok : ((run (crashStep .sample) ⟨newPV, []⟩ [.request (prevoteRequest .nil) true, .crash]).pv.sign .sample true
      (prevoteRequest .nil)).2.isOk = true := by decide +kernel
  rcases h : (run (crashStep .sample) ⟨newPV, []⟩ [.request (prevoteRequest .nil) true, .crash]).pv.sign .sample true
    (prevoteRequest .nil) with ⟨pv, e | reply⟩
  · rw [h] at hok
    cases hok
  obtain ⟨key, hash, hk, hh, hs, -⟩ := signature_genuine .sample newPV rfl rfl _ _ true pv reply h (by
    rintro r ok hm -
    simp only [List.mem_cons, CrashEvent.request.injEq, reduceCtorEq, List.not_mem_nil, or_self, or_false] at hm
    obtain ⟨rfl, -⟩ := hm
    exact ⟨rfl, rfl⟩)
  exact ⟨pv, reply, rfl, key, hash, hk, hh, hs⟩

def proposalRequest : Request := .proposal "chain" 100 (List.replicate 32 7) ⟨1, 0, -1, someBlock, ⟨0, 0⟩, [], 1⟩

/-- A proposal signed again has its sign bytes in place of the signature. -/
theorem resigned_proposal_unsigned :
    ((newPV.sign .sample true proposalRequest).1.sign .sample true proposalRequest).2.toOption.map Reply.signature =
        some (proposalRequest.signBytes .sample) ∧
      (proposalRequest.signHash .sample >>= Crypto.sample.signDigest [9]) ≠ .ok (proposalRequest.signBytes .sample) := by
  decide +kernel

end Tenderdash.Privval
