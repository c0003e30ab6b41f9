import Tenderdash.Evidence.Bookkeeping

/-!
Evidence that one node proposes, checked by another node on the same chain.

What a pool holds as pending is proven on the chain: it was verified when it was added, or made from
votes that consensus had verified. So another pool on the chain can reject it for two reasons only, and
both occur: it is expired, because a pool prunes one block and one second later than evidence expires, or
it is committed, because verification stores corrected copies of committed evidence too.
-/

namespace Tenderdash.Evidence

open Lib Run List

structure Chain where
  id : String
  time : ℤ → ℤ
  validators : ℤ → ValidatorSet

structure Stores.On (chain : Chain) (stores : Stores) : Prop where
  time : ∀ height t, stores.blockTime height = some t → t = chain.time height
  validators : ∀ height vals, stores.loadValidators height = some vals → vals = chain.validators height

structure PoolState.On (chain : Chain) (state : PoolState) : Prop where
  id : state.chainID = chain.id
  time : state.lastBlockTime = chain.time state.lastBlockHeight
  validators : state.lastValidators = chain.validators state.lastBlockHeight

def Genuine (chain : Chain) (C : Crypto) (votes : Vote × Vote) : Prop :=
  verifyDuplicateVote C ⟨votes.1, votes.2, 0, 0, 0⟩ chain.id (chain.validators votes.1.height) = .ok ()

def Pool.Call.On (chain : Chain) (C : Crypto) : Pool.Call → Prop
  | .addEvidence stores _ => stores.On chain
  | .checkEvidence stores _ => stores.On chain
  | .reportConflictingVotes voteA voteB => Genuine chain C (voteA, voteB)
  | .update stores state _ => stores.On chain ∧ state.On chain
  | .restart state => state.On chain

structure Proven (chain : Chain) (C : Crypto) (ev : DuplicateVoteEvidence) : Prop where
  verified : verifyDuplicateVote C ev chain.id (chain.validators ev.height) = .ok ()
  abci : ∃ val, getByProTxHash (chain.validators ev.height) ev.voteA.validatorProTxHash = some val ∧
    validateABCI ev val (chain.validators ev.height) (chain.time ev.height) = true

section Duplicate

variable {chain : Chain} {C : Crypto}

variable {ev : DuplicateVoteEvidence}

lemma verifyDuplicateVote_eq_ok {chainID : String} {vals : ValidatorSet} :
    verifyDuplicateVote C ev chainID vals = .ok () ↔
      ∃ val, getByProTxHash vals ev.voteA.validatorProTxHash = some val ∧
        (ev.voteA.height = ev.voteB.height ∧ ev.voteA.round = ev.voteB.round ∧ ev.voteA.type = ev.voteB.type) ∧
        ev.voteA.validatorProTxHash = ev.voteB.validatorProTxHash ∧
        ev.voteA.blockID ≠ ev.voteB.blockID ∧
        (∀ key ∈ val.pubKey, verifyVoteSignature C chainID vals key ev.voteA = .ok () ∧
          verifyVoteSignature C chainID vals key ev.voteB = .ok ()) ∧
        (val.pubKey = none → vals.hasPublicKeys = false) := by
  unfold verifyDuplicateVote
  cases getByProTxHash vals ev.voteA.validatorProTxHash with
  | none => simp [Go.fail]
  | some val =>
    cases hk : val.pubKey with
    | none => simp [Go.bind_eq_ok, hk]
    | some key =>
      simp [Go.bind_eq_ok, hk]
      exact fun _ _ _ _ _ _ => ⟨fun hok => hok.choose_spec, fun hok => ⟨(), hok⟩⟩

lemma Genuine.proven {votes : Vote × Vote} (h : Genuine chain C votes)
    (hev : newDuplicateVoteEvidence votes.1 votes.2 (chain.time votes.1.height)
      (chain.validators votes.1.height) = some ev) : Proven chain C ev := by
  obtain ⟨val, hv, ⟨hh, hr, ht⟩, hpt, hb, hs, hk⟩ := verifyDuplicateVote_eq_ok.mp h
  unfold newDuplicateVoteEvidence at hev
  rw [hv] at hev
  obtain rfl := Option.some.inj hev
  split_ifs
  · refine ⟨verifyDuplicateVote_eq_ok.mpr ⟨val, hv, ⟨hh, hr, ht⟩, hpt, hb, hs, hk⟩, val, hv, ?_⟩
    exact decide_eq_true ⟨rfl, rfl, rfl⟩
  have hv' : getByProTxHash (chain.validators votes.2.height) votes.2.validatorProTxHash =
      some val := by rw [← hh, ← hpt, hv]
  rw [hh] at hs hk ⊢
  refine ⟨verifyDuplicateVote_eq_ok.mpr ⟨val, hv', ⟨hh.symm, hr.symm, ht.symm⟩,
    hpt.symm, hb.symm, fun key hke => (hs key hke).symm, hk⟩, val, hv', ?_⟩
  exact decide_eq_true ⟨rfl, rfl, rfl⟩

end Duplicate

namespace Pool

variable {chain : Chain} {codec : Codec} {C : Crypto} {stores : Stores} {pool : Pool}

/-! ### What a pool holds is proven -/

lemma examine_proven (hstores : stores.On chain) (hid : pool.state.chainID = chain.id)
    {r : Option DuplicateVoteEvidence} (h : pool.examine C stores ev = .ok r) : Proven chain C (r.getD ev) := by
  unfold examine at h
  cases ht : stores.blockTime ev.height with
  | none => rw [ht] at h; cases h
  | some evTime =>
    cases hva : stores.loadValidators ev.height with
    | none =>
      rw [ht, hva] at h
      dsimp only at h
      split_ifs at h
    | some vals =>
      obtain rfl := hstores.time _ _ ht
      obtain rfl := hstores.validators _ _ hva
      rw [ht, hva, hid] at h
      dsimp only at h
      split_ifs at h
      split at h
      · cases h
      · cases h
      · cases h
      rename_i val hv hvl
      split_ifs at h with ha <;> obtain rfl := Except.ok.inj h
      · exact ⟨hv, val, hvl, ha⟩
      · exact ⟨hv, val, hvl, decide_eq_true ⟨rfl, rfl, rfl⟩⟩

lemma examine_of_proven (hstores : stores.On chain) (hid : pool.state.chainID = chain.id) (hev : Proven chain C ev)
    (hh : (stores.blockTime ev.height).isSome ∧ (stores.loadValidators ev.height).isSome) :
    pool.examine C stores ev = if pool.isExpired ev then .error .tooOld else .ok none := by
  obtain ⟨t, ht⟩ := Option.isSome_iff_exists.mp hh.1
  obtain ⟨vals, hv⟩ := Option.isSome_iff_exists.mp hh.2
  obtain rfl := hstores.time _ _ ht
  obtain rfl := hstores.validators _ _ hv
  obtain ⟨val, hva, ha⟩ := hev.abci
  have hti : ev.timestamp = chain.time ev.height := (of_decide_eq_true ha).1
  have hag : pool.tooOld ev (chain.time ev.height) = pool.isExpired ev := by
    unfold tooOld isExpired
    rw [hti]
    exact decide_eq_decide.mpr and_comm
  unfold examine
  simp only [ht, hv, hag, hid, hev.verified, hva, ha, if_true]

structure Grounded (chain : Chain) (C : Crypto) (codec : Codec) (pool : Pool) : Prop where
  id : pool.state.chainID = chain.id
  proven : ∀ ev ∈ pool.pending, Proven chain C ev
  nodup : (pool.pending.map codec.key).Nodup
  buffer : ∀ votes ∈ pool.consensusBuffer, Genuine chain C votes

lemma Grounded.ite {p : Prop} [Decidable p] {a b : Pool} (ha : Grounded chain C codec a)
    (hb : Grounded chain C codec b) : Grounded chain C codec (if p then a else b) := by split_ifs <;> assumption

variable {state : PoolState}

section

variable (h : Grounded chain C codec pool)

include h

lemma Grounded.addPendingEvidence
    (hev : Proven chain C ev) : Grounded chain C codec (pool.addPendingEvidence codec ev) := by
  refine ⟨h.id, fun other ho => ?_, nodup_put h.nodup, h.buffer⟩
  rcases mem_put ho with rfl | ho
  · exact hev
  · exact h.proven other ho

lemma Grounded.deletePending (evs : List DuplicateVoteEvidence) :
    Grounded chain C codec (pool.deletePending codec evs) :=
  ⟨h.id, fun ev hev => h.proven ev (mem_filter.mp hev).1, h.nodup.sublist (filter_sublist.map _), h.buffer⟩

lemma Grounded.removeExpiredPendingEvidence : Grounded chain C codec (pool.removeExpiredPendingEvidence codec) := by
  have hk : Grounded chain C codec (if pool.pending.takeWhile pool.isExpired = [] then pool
      else pool.deletePending codec (pool.pending.takeWhile pool.isExpired)) :=
    .ite h (h.deletePending _)
  exact { hk with }

lemma Grounded.loadPendingEvidence : Grounded chain C codec (pool.loadPendingEvidence codec) :=
  have hk := h.removeExpiredPendingEvidence
  { hk with }

section

variable (hstores : stores.On chain)

include hstores

section

variable (ev : DuplicateVoteEvidence)

lemma Grounded.verify : Grounded chain C codec (pool.verify codec C stores ev).1 ∧
      ((pool.verify codec C stores ev).2 = .ok () → Proven chain C ev) := by
  unfold Pool.verify
  rcases hr : pool.examine C stores ev with e | _ | corrected
  · exact ⟨h, fun hok => by cases hok⟩
  · exact ⟨h, fun _ => examine_proven hstores h.id hr⟩
  refine ⟨?_, fun hok => by cases hok⟩
  exact .ite (h.addPendingEvidence (examine_proven hstores h.id hr)) h

lemma Grounded.addEvidence : Grounded chain C codec (pool.addEvidence codec C stores ev).1 := by
  obtain ⟨hn, hp⟩ := h.verify hstores ev
  unfold Pool.addEvidence
  split_ifs
  · exact h
  · exact h
  generalize pool.verify codec C stores ev = r at hn hp ⊢
  obtain ⟨pool', e | _⟩ := r
  · exact hn
  · exact hn.addPendingEvidence (hp rfl)

lemma Grounded.checkOne : Grounded chain C codec (pool.checkOne codec C stores ev).1 := by
  obtain ⟨hn, hp⟩ := h.verify hstores ev
  unfold Pool.checkOne
  split_ifs
  · exact h
  · exact h
  generalize pool.verify codec C stores ev = r at hn hp ⊢
  obtain ⟨pool', e | _⟩ := r
  · exact hn
  · exact .ite (hn.addPendingEvidence (hp rfl)) hn

end

lemma Grounded.checkEvidence (seen : List Bytes) (evs : List DuplicateVoteEvidence) :
    Grounded chain C codec (checkEvidence codec C stores seen evs pool).1 := by
  induction evs generalizing seen pool with
  | nil => exact h
  | cons ev rest ih =>
    have hn := h.checkOne hstores ev
    unfold checkEvidence
    generalize pool.checkOne codec C stores ev = r at hn ⊢
    obtain ⟨pool', e | _⟩ := r
    · exact hn
    split_ifs
    · exact hn
    · exact ih hn _

omit h in
lemma bufferedEvidence_proven (hs : state.On chain) {votes : Vote × Vote}
    (hv : Genuine chain C votes) (h : bufferedEvidence stores state votes = some ev) : Proven chain C ev := by
  unfold bufferedEvidence at h
  split_ifs at h with hl hp
  · rw [hs.time, hs.validators, ← hl] at h
    exact hv.proven h
  split at h
  · rename_i vals time hva ht
    obtain rfl := hstores.time _ _ ht
    obtain rfl := hstores.validators _ _ hva
    exact hv.proven h
  · cases h

lemma Grounded.processConsensusBuffer (hs : state.On chain) :
    Grounded chain C codec (pool.processConsensusBuffer codec stores state) := by
  have hg : Admitted (processVotes codec stores state) (fun _ => Genuine chain C) pool
      pool.consensusBuffer := admitted_of_mem fun _ => h.buffer
  have hd := hg.invariant (P := Grounded chain C codec) (fun pool votes h hv => by
    unfold processVotes
    cases hev : bufferedEvidence stores state votes with
    | none => exact h
    | some ev => exact .ite h (h.addPendingEvidence (bufferedEvidence_proven hstores hs hv hev))) h
  exact { hd with buffer := by simp [Pool.processConsensusBuffer] }

lemma Grounded.update (hs : state.On chain) (evs : List DuplicateVoteEvidence) :
    Grounded chain C codec (pool.update codec stores state evs) := by
  have hc : Grounded chain C codec { pool with committed := evs.map codec.key ++ pool.committed } :=
    { h with }
  have hm : Grounded chain C codec (if evs = [] then pool else pool.markEvidenceAsCommitted codec evs) :=
    .ite h (.ite hc (hc.deletePending _))
  unfold Pool.update
  dsimp only
  generalize (if evs = [] then pool else pool.markEvidenceAsCommitted codec evs) = marked at hm ⊢
  have hd := hm.processConsensusBuffer hstores hs
  split_ifs with hp hz
  · exact h
  · exact ⟨hs.id, hd.proven, hd.nodup, by simp⟩
  · exact ⟨hs.id, hm.proven, hm.nodup, by simp⟩
  generalize marked.processConsensusBuffer codec stores state = done at hd ⊢
  have hn : Grounded chain C codec { done with state := state } := { hd with id := hs.id }
  have hl : Grounded chain C codec
      (if done.pendingLoaded = false then { done with state := state }.loadPendingEvidence codec
      else if pool.state.params.maxBytes = 0 then
        { done with state := state }.removeExpiredPendingEvidence codec
      else { done with state := state }) :=
    .ite hn.loadPendingEvidence (.ite hn.removeExpiredPendingEvidence hn)
  exact .ite hl.removeExpiredPendingEvidence hl

end

omit h in
lemma start_grounded {pending : List DuplicateVoteEvidence} {committed : List (ℤ × Bytes)} (hs : state.On chain)
    (hp : ∀ ev ∈ pending, Proven chain C ev) (hn : (pending.map codec.key).Nodup) :
    Grounded chain C codec (start codec pending committed state) := by
  have hne : Grounded chain C codec ⟨pending, committed, 0, false, false, state, [], 0, 0⟩ := ⟨hs.id, hp, hn, by simp⟩
  exact .ite hne.loadPendingEvidence hne

lemma Grounded.call {c : Call} (hc : c.On chain C) : Grounded chain C codec (pool.call codec C c) := by
  cases c with
  | addEvidence stores ev => exact h.addEvidence hc ev
  | checkEvidence stores evs => exact h.checkEvidence hc [] evs
  | reportConflictingVotes voteA voteB =>
    refine .ite h ⟨h.id, h.proven, h.nodup, fun votes hv => ?_⟩
    rcases mem_append.mp hv with hm | hm
    · exact h.buffer votes hm
    obtain rfl := mem_singleton.mp hm
    exact hc
  | update stores state evs => exact h.update hc.1 hc.2 evs
  | restart state => exact start_grounded hc h.proven h.nodup

end

lemma run_grounded (hs : state.On chain) {calls : List Call} (hc : ∀ c ∈ calls, c.On chain C) :
    Grounded chain C codec (run (call codec C) (start codec [] [] state) calls) := by
  have hon : Admitted (call codec C) (fun _ c => c.On chain C) (start codec [] [] state) calls :=
    admitted_of_mem fun _ => hc
  exact hon.invariant (fun _ _ h => h.call) (start_grounded hs (by simp) (by simp))

/-! ### A proposed list -/

lemma listEvidence_isPrefix (codec : Codec) (maxBytes : ℤ) (rest listed : List DuplicateVoteEvidence) :
    listEvidence codec maxBytes listed rest <+: listed ++ rest := by
  induction rest generalizing listed with
  | nil => exact ⟨[], by simp [listEvidence]⟩
  | cons ev rest ih =>
    unfold listEvidence
    split_ifs
    · exact prefix_append ..
    have h := ih (listed ++ [ev])
    rwa [append_assoc, singleton_append] at h

lemma pendingEvidence_sublist (codec : Codec) (pool : Pool) (maxBytes : ℤ) :
    (pool.pendingEvidence codec maxBytes).Sublist pool.pending := by
  unfold pendingEvidence
  split_ifs
  · exact nil_sublist _
  · exact (listEvidence_isPrefix codec maxBytes pool.pending []).sublist

lemma isPending_addPendingEvidence {other : DuplicateVoteEvidence} (hne : codec.key other ≠ codec.key ev) :
    (pool.addPendingEvidence codec ev).isPending codec other = pool.isPending codec other := by
  rw [Bool.eq_iff_iff, isPending_iff, isPending_iff]
  have hp := (put_perm codec ev pool.pending).map codec.key
  refine (hp.mem_iff (a := codec.key other)).trans ?_
  simp only [map_cons, mem_cons, hne, false_or, mem_map, mem_filter, decide_eq_true_eq]
  constructor
  · rintro ⟨a, ⟨ha, _⟩, hk⟩
    exact ⟨a, ha, hk⟩
  rintro ⟨a, ha, hk⟩
  exact ⟨a, ⟨ha, hk ▸ hne⟩, hk⟩

def acceptable (codec : Codec) (pool : Pool) (ev : DuplicateVoteEvidence) : Bool :=
  pool.isPending codec ev || (!pool.isCommitted codec ev && !pool.isExpired ev)

lemma checkOne_proven (codec : Codec) (hstores : stores.On chain) (hid : pool.state.chainID = chain.id)
    (hev : Proven chain C ev) (hh : (stores.blockTime ev.height).isSome ∧ (stores.loadValidators ev.height).isSome) :
    ∃ pool', (pool' = pool ∨ pool' = pool.addPendingEvidence codec ev) ∧
      pool.checkOne codec C stores ev =
        if pool.acceptable codec ev then (pool', .ok ())
        else (pool, .error (if pool.isCommitted codec ev then .alreadyCommitted else .tooOld)) := by
  have he := examine_of_proven hstores hid hev hh
  unfold checkOne acceptable
  by_cases hp : pool.isPending codec ev = true
  · exact ⟨pool, .inl rfl, by simp [hp]⟩
  by_cases hc : pool.isCommitted codec ev = true
  · exact ⟨pool, .inl rfl, by simp [hp, hc]⟩
  by_cases hex : pool.isExpired ev = true
  · exact ⟨pool, .inl rfl, by simp [hp, hc, hex, verify, he]⟩
  refine ⟨if pool.enabled then pool.addPendingEvidence codec ev else pool, ?_, ?_⟩
  · split_ifs
    · exact .inr rfl
    · exact .inl rfl
  · simp [hp, hc, hex, verify, he]

lemma checkEvidence_proven (hstores : stores.On chain) (hid : pool.state.chainID = chain.id)
    {evs : List DuplicateVoteEvidence} (hp : ∀ ev ∈ evs, Proven chain C ev)
    (hh : ∀ ev ∈ evs, (stores.blockTime ev.height).isSome ∧ (stores.loadValidators ev.height).isSome)
    {seen : List Bytes} (hn : (evs.map codec.hash).Nodup) (hs : ∀ ev ∈ evs, codec.hash ev ∉ seen) :
    (checkEvidence codec C stores seen evs pool).2 = .ok () ↔ ∀ ev ∈ evs, pool.acceptable codec ev = true := by
  induction evs generalizing seen pool with
  | nil => simp [checkEvidence]
  | cons ev rest ih =>
    obtain ⟨hnw, hn⟩ := nodup_cons.mp hn
    obtain ⟨pool', hp', hon⟩ := checkOne_proven codec hstores hid (hp ev mem_cons_self) (hh ev mem_cons_self)
    unfold checkEvidence
    rw [hon, forall_mem_cons]
    by_cases hok : pool.acceptable codec ev = true
    swap
    · simp [hok]
    simp only [hok, if_true, hs ev mem_cons_self, if_false, true_and]
    -- the rest is judged by the pool as it was: its keys are others
    have hsa : ∀ other ∈ rest, pool'.acceptable codec other = pool.acceptable codec other := by
      intro other ho
      rcases hp' with rfl | rfl
      · rfl
      have hne : codec.key other ≠ codec.key ev := fun heq =>
        hnw (mem_map.mpr ⟨other, ho, (Prod.mk.inj heq).2⟩)
      unfold acceptable
      rw [isPending_addPendingEvidence hne]
      rfl
    have hi' : pool'.state.chainID = chain.id := by
      rcases hp' with rfl | rfl <;> exact hid
    rw [ih hi' (fun e he => hp e (mem_cons_of_mem _ he)) (fun e he => hh e (mem_cons_of_mem _ he)) hn ?_]
    · exact forall₂_congr fun other ho => by rw [hsa other ho]
    intro other ho hm
    rcases mem_cons.mp hm with heq | hm
    · exact hnw (mem_map.mpr ⟨other, ho, heq⟩)
    · exact hs other (mem_cons_of_mem _ ho) hm

def sampleChain : Chain := ⟨"chain", fun height => height * 10, fun _ => sampleValidators 2⟩

def stateAt (height : ℤ) : PoolState := ⟨"chain", height, height * 10, ⟨5, 50, 1000⟩, sampleValidators 2⟩

def blocksTo (last : ℕ) : List Call :=
  (List.range (last - 2)).map fun i => .update sampleStores (stateAt (i + 3)) []

lemma sampleStores_on : sampleStores.On sampleChain :=
  ⟨fun _ _ h => (Option.some.inj h).symm, fun _ _ h => (Option.some.inj h).symm⟩

lemma stateAt_on (height : ℤ) : (stateAt height).On sampleChain := ⟨rfl, rfl, rfl⟩

lemma blocksTo_on (last : ℕ) : ∀ c ∈ blocksTo last, c.On sampleChain Crypto.sample := by
  intro c hc
  obtain ⟨i, _, rfl⟩ := mem_map.mp hc
  exact ⟨sampleStores_on, stateAt_on _⟩

end Pool

end Tenderdash.Evidence
