import Tenderdash.Lib.Run
import Tenderdash.Mempool.TxMempool

/-!
The indexes of the mempool.

Only the cache keeps a pooled transaction from being inserted a second time, and the cache may have
forgotten it, or be disabled. The second insertion then takes over the place of the first one in the
index by key, and two listed elements share one key.
-/

namespace Tenderdash.TxMempool

open Lib Run List Option Function

/-- The list, the two indexes and the size agree: every listed element is the one its key is mapped to
and the other way round, the same for senders that are not empty, and the size is the sum of the
sizes. -/
structure Indexed (C : Crypto) (mp : TxMempool) : Prop where
  nodup : mp.txs.Nodup
  byKey : ∀ k e, mp.txByKey k = some e ↔ e ∈ mp.txs ∧ mp.keyOf C e = k
  bySender : ∀ s e, mp.txBySender s = some e ↔ e ∈ mp.txs ∧ (mp.elts e).sender = s ∧ s ≠ ""
  bytes : mp.txsBytes = (mp.txs.map fun e => (mp.elts e).size).sum

structure Sound (C : Crypto) (mp : TxMempool) : Prop extends Indexed C mp where
  fresh : ∀ e ∈ mp.txs, e < mp.fresh

section IndexOf

variable {κ : Type*} {key key' : ℕ → κ → Prop} {l : List ℕ} {e : ℕ} {index index' : κ → Option ℕ}

def IndexOf (key : ℕ → κ → Prop) (l : List ℕ) (index : κ → Option ℕ) : Prop :=
  ∀ k e, index k = some e ↔ e ∈ l ∧ key e k

lemma IndexOf.erase [DecidableEq κ] {k : κ} (h : IndexOf key l index) (hn : l.Nodup) (he : e ∈ l)
    (ho : ∀ k', key e k' → k' = k) (hk : ∀ i, key i k → key e k) :
    IndexOf key (l.erase e) (Function.update index k none) := by
  intro k' i
  rw [hn.mem_erase_iff]
  by_cases hk' : k' = k
  · subst hk'
    simp only [update_self, reduceCtorEq, false_iff]
    rintro ⟨⟨hne, hi⟩, hke⟩
    -- the element of the key is the removed one
    have hin := (h _ i).mpr ⟨hi, hke⟩
    rw [(h _ e).mpr ⟨he, hk i hke⟩] at hin
    exact hne (some.inj hin).symm
  · rw [update_of_ne hk', h k' i]
    refine ⟨fun ⟨hi, hke⟩ => ⟨⟨?_, hi⟩, hke⟩, fun ⟨⟨_, hi⟩, hke⟩ => ⟨hi, hke⟩⟩
    rintro rfl
    exact hk' (ho k' hke)

lemma IndexOf.append [∀ k, Decidable (key' e k)] (h : IndexOf key l index)
    (hke : ∀ i ∈ l, ∀ k, key' i k ↔ key i k) (hf : ∀ k, key' e k → index k = none)
    (hin : ∀ k, index' k = if key' e k then some e else index k) : IndexOf key' (l ++ [e]) index' := by
  intro k i
  rw [hin, mem_append, mem_singleton]
  split
  · next hk =>
    constructor
    · rintro ⟨⟩
      exact ⟨.inr rfl, hk⟩
    rintro ⟨hi | rfl, hik⟩
    · have hs := (h k i).mpr ⟨hi, (hke i hi k).mp hik⟩
      rw [hf k hk] at hs
      cases hs
    · rfl
  · next hk =>
    rw [h k i]
    refine ⟨fun ⟨hi, hik⟩ => ⟨.inl hi, (hke i hi k).mpr hik⟩, ?_⟩
    rintro ⟨hi | rfl, hik⟩
    · exact ⟨hi, (hke i hi k).mp hik⟩
    · exact absurd hik hk

end IndexOf

lemma Sound.new (C : Crypto) (cfg : MempoolConfig) (preCheck : Option (Bytes → Bool))
    (postCheck : Option (Bytes → ResponseCheckTx → Bool)) : Sound C (new cfg preCheck postCheck) where
  nodup := nodup_nil
  byKey := by simp [TxMempool.new]
  bySender := by simp [TxMempool.new]
  bytes := rfl
  fresh := by simp [TxMempool.new]

namespace Sound

variable {C : Crypto} {cfg : MempoolConfig} {mp mp' : TxMempool}

section

variable (h : Sound C mp) {w : WrappedTx}

include h

lemma setCache (cache : TxCache) : Sound C { mp with cache := cache } :=
  { h with }

lemma setElt {e : ℕ} (htx : w.tx = (mp.elts e).tx) (hs : w.sender = (mp.elts e).sender) : Sound C (mp.setElt e w) := by
  have he : ∀ i, ((mp.setElt e w).elts i).tx = (mp.elts i).tx ∧
      ((mp.setElt e w).elts i).sender = (mp.elts i).sender := by
    intro i
    by_cases hi : i = e
    · subst hi
      simp [TxMempool.setElt, htx, hs]
    · simp [TxMempool.setElt, hi]
  refine ⟨⟨h.nodup, fun k i => ?_, fun s i => ?_, ?_⟩, h.fresh⟩
  · rw [keyOf, (he i).1]
    exact h.byKey k i
  · rw [(he i).2]
    exact h.bySender s i
  simp only [WrappedTx.size, (he _).1]
  exact h.bytes

lemma unlink {e : ℕ} (he : e ∈ mp.txs) : Sound C (mp.unlink (mp.keyOf C e) e) := by
  refine ⟨⟨h.nodup.erase e, ?_, ?_, ?_⟩, fun i hi => h.fresh i (mem_of_mem_erase hi)⟩
  · exact IndexOf.erase h.byKey h.nodup he (fun _ hk => hk.symm) fun _ _ => rfl
  · exact IndexOf.erase h.bySender h.nodup he (fun _ hs => hs.1.symm) fun _ hs => ⟨rfl, hs.2⟩
  · have hsu := sum_map_erase (fun e => (mp.elts e).size) he
    change mp.txsBytes - (mp.elts e).size = ((mp.txs.erase e).map fun e => (mp.elts e).size).sum
    rw [h.bytes, ← hsu]
    ring

lemma removeTxByKey (key : Bytes) : Sound C (mp.removeTxByKey key) := by
  unfold TxMempool.removeTxByKey
  split
  · next e he =>
    obtain ⟨hm, rfl⟩ := (h.byKey key e).mp he
    exact h.unlink hm
  · exact h

lemma dropElement {e : ℕ} (he : e ∈ mp.txs) : Sound C (mp.dropElement C e) :=
  (h.unlink he).setCache _

lemma foldl {f : TxMempool → ℕ → TxMempool}
    (hf : ∀ mp e, Sound C mp → e ∈ mp.txs → Sound C (f mp e) ∧ ∀ i ∈ mp.txs, i ≠ e → i ∈ (f mp e).txs) {l : List ℕ}
    (hn : l.Nodup) (hl : ∀ e ∈ l, e ∈ mp.txs) : Sound C (l.foldl f mp) := by
  induction l generalizing mp with
  | nil => exact h
  | cons e l ih =>
    obtain ⟨hno, hn⟩ := nodup_cons.mp hn
    obtain ⟨hs, hk⟩ := hf mp e h (hl e mem_cons_self)
    refine ih hs hn fun i hi => ?_
    exact hk i (hl i (mem_cons_of_mem _ hi)) fun heq => hno (heq ▸ hi)

omit h in
lemma mem_unlink {k : Bytes} {e i : ℕ} (hi : i ∈ mp.txs) (hne : i ≠ e) : i ∈ (mp.unlink k e).txs :=
  (mem_erase_of_ne hne).mpr hi

lemma flush : Sound C (mp.flush C) := by
  have hf : Sound C (mp.txs.foldl (removeTxByElement C) mp) := by
    refine h.foldl (fun mp e h he => ⟨h.unlink he, fun i hi hne => ?_⟩) h.nodup fun e he => he
    exact mem_unlink hi hne
  exact hf.setCache _

lemma purgeExpiredTxs (blockHeight now : ℤ) : Sound C (mp.purgeExpiredTxs C cfg blockHeight now) := by
  refine h.foldl (fun mp e h he => ?_) h.nodup fun e he => he
  split
  · exact ⟨h.dropElement he, fun i hi hne => mem_unlink (k := mp.keyOf C e) hi hne⟩
  · exact ⟨h, fun i hi _ => hi⟩

lemma cacheInvalid (tx : Bytes) (res : ResponseCheckTx) : Sound C (mp.cacheInvalid C cfg tx res) := by
  unfold TxMempool.cacheInvalid
  split
  · exact h.setCache _
  split
  · exact h.setCache _
  · exact h

lemma commitTx (entry : Bytes × ℕ) : Sound C (mp.commitTx C cfg entry) := by
  refine removeTxByKey ?_ _
  split
  · exact h.setCache _
  split
  · exact h.setCache _
  · exact h

lemma update (blockHeight now : ℤ) (blockTxs : List (Bytes × ℕ))
    (preCheck : Option (Bytes → Bool)) (postCheck : Option (Bytes → ResponseCheckTx → Bool)) :
    Sound C (mp.update C cfg blockHeight now blockTxs preCheck postCheck) := by
  refine purgeExpiredTxs (run_invariant (fun _ entry h => h.commitTx entry) blockTxs ?_) ..
  exact { h with }

lemma handleRecheckResult (tx : Bytes) (res : ResponseCheckTx) : Sound C (mp.handleRecheckResult C cfg tx res) := by
  unfold TxMempool.handleRecheckResult
  split
  · exact h
  next e he =>
  obtain ⟨hm, -⟩ := (h.byKey _ e).mp he
  split
  · exact h.setElt rfl rfl
  · exact (h.unlink hm).cacheInvalid ..

/-! ### Admission -/

lemma evict (size evicted : ℤ) (victims : List ℕ) :
    Sound C (TxMempool.evict C size evicted victims mp).1 ∧
      ∀ s, mp.txBySender s = none → (TxMempool.evict C size evicted victims mp).1.txBySender s = none := by
  induction victims generalizing mp evicted with
  | nil => exact ⟨h, fun s hs => hs⟩
  | cons e rest ih =>
    have hd : ∀ s, mp.txBySender s = none → (mp.dropElement C e).txBySender s = none := by
      intro s hs
      change Function.update mp.txBySender (mp.elts e).sender none s = none
      by_cases heq : s = (mp.elts e).sender
      · rw [heq, update_self]
      · rw [update_of_ne heq, hs]
    unfold evict
    split
    · exact ih h evicted
    next hm =>
    have hso := h.dropElement (not_not.mp hm)
    split
    · exact ⟨hso, hd⟩
    obtain ⟨hr, hse⟩ := ih hso (evicted + (mp.elts e).size)
    exact ⟨hr, fun s hs => hse s (hd s hs)⟩

lemma makeRoom (cfg : MempoolConfig) (w : WrappedTx) (priority : ℤ) :
    Sound C (mp.makeRoom C cfg w priority).1 ∧
      ∀ s, mp.txBySender s = none → (mp.makeRoom C cfg w priority).1.txBySender s = none := by
  unfold TxMempool.makeRoom
  split
  · exact ⟨h, fun s hs => hs⟩
  dsimp only
  split
  · exact ⟨h, fun s hs => hs⟩
  · exact h.evict ..

lemma admitTx (w : WrappedTx) (res : ResponseCheckTx) :
    Sound C (mp.admitTx C cfg w res).1 ∧ ∀ w', (mp.admitTx C cfg w res).2.1 = some w' →
      w'.sender ≠ "" → (mp.admitTx C cfg w res).1.txBySender w'.sender = none := by
  unfold TxMempool.admitTx
  split
  · exact ⟨h.cacheInvalid .., by simp⟩
  split
  · exact ⟨h.cacheInvalid .., by simp⟩
  split
  · exact ⟨h, by simp⟩
  next hs =>
  obtain ⟨hr, hn⟩ := h.makeRoom cfg w res.priority
  split
  · next heq =>
    rw [heq] at hr
    exact ⟨hr.setCache _, by simp⟩
  next heq =>
  rw [heq] at hr hn
  refine ⟨hr, fun w' hw' hem => ?_⟩
  obtain rfl := some.inj hw'
  refine hn _ (eq_none_iff_forall_not_mem.mpr fun e he => hs ⟨hem, ?_⟩)
  exact isSome_of_mem he

lemma seenBefore (tx : Bytes) (info : TxInfo) : Sound C (mp.seenBefore C tx info).1 := by
  unfold TxMempool.seenBefore
  split
  · refine h.setElt ?_ ?_ <;> (unfold WrappedTx.setPeer; split <;> rfl)
  split
  · split <;> exact h
  · exact h

lemma prepareTx (cfg : MempoolConfig) (tx : Bytes) (info : TxInfo) (connected : Bool)
    (answer : Option ResponseCheckTx) (now : ℤ) :
    Sound C (mp.prepareTx C cfg tx info connected answer now).1 ∧
      ∀ w, (mp.prepareTx C cfg tx info connected answer now).2.1 = some w → w.sender ≠ "" →
        (mp.prepareTx C cfg tx info connected answer now).1.txBySender w.sender = none := by
  unfold TxMempool.prepareTx
  split
  · exact ⟨h, by simp⟩
  split
  · exact ⟨h, by simp⟩
  split
  · exact ⟨h, by simp⟩
  have hp := h.setCache (mp.cache.push (C.checksum tx)).1
  dsimp only
  split
  · exact ⟨hp.seenBefore tx info, by simp⟩
  split
  · exact ⟨hp.setCache _, by simp⟩
  · exact hp.admitTx ..

lemma insertTx_iff (hsr : w.sender ≠ "" → mp.txBySender w.sender = none) :
    (mp.txByKey (C.checksum w.tx) = none → Sound C (mp.insertTx C w)) ∧
      (Indexed C (mp.insertTx C w) → mp.txByKey (C.checksum w.tx) = none) := by
  have hse : (mp.insertTx C w).elts mp.fresh = w := update_self ..
  have ho : ∀ e ∈ mp.txs, (mp.insertTx C w).elts e = mp.elts e := fun e he =>
    update_of_ne (h.fresh e he).ne ..
  have hm : ∀ e, e ∈ (mp.insertTx C w).txs ↔ e ∈ mp.txs ∨ e = mp.fresh := by simp [insertTx]
  have hn : mp.fresh ∉ mp.txs := fun hin => lt_irrefl _ (h.fresh _ hin)
  constructor
  · intro hf
    have hke : IndexOf (fun e k => (mp.insertTx C w).keyOf C e = k) (mp.txs ++ [mp.fresh])
        (mp.insertTx C w).txByKey := by
      refine IndexOf.append h.byKey (fun e he k => by rw [keyOf, ho e he, keyOf]) (fun k hk => ?_) fun k => ?_
      · rwa [← hk, keyOf, hse]
      · rw [keyOf, hse]
        exact (update_apply ..).trans (if_congr eq_comm rfl rfl)
    have hsn : IndexOf (fun e s => ((mp.insertTx C w).elts e).sender = s ∧ s ≠ "") (mp.txs ++ [mp.fresh])
        (mp.insertTx C w).txBySender := by
      refine IndexOf.append h.bySender (fun e he s => by rw [ho e he]) (fun s hs => ?_) fun s => ?_
      · rw [hse] at hs
        exact hs.1 ▸ hsr (hs.1 ▸ hs.2)
      rw [hse]
      unfold insertTx
      by_cases hem : w.sender = ""
      · by_cases hs : s = "" <;> simp [hem, hs, eq_comm]
      · by_cases hs : w.sender = s
        · subst hs
          simp [hem]
        · simp [hem, hs, Ne.symm hs]
    refine ⟨⟨?_, hke, hsn, ?_⟩, fun e he => ?_⟩
    · exact List.Nodup.append h.nodup (nodup_singleton _) (by simpa using hn)
    · have hsu : (mp.txs.map fun e => ((mp.insertTx C w).elts e).size) = mp.txs.map fun e => (mp.elts e).size :=
        map_congr_left fun e he => by rw [ho e he]
      change mp.txsBytes + w.size = ((mp.txs ++ [mp.fresh]).map fun e => ((mp.insertTx C w).elts e).size).sum
      rw [map_append, sum_append, hsu, map_singleton, sum_singleton, hse, h.bytes]
    · change e < mp.fresh + 1
      rcases (hm e).mp he with he | rfl
      · exact Nat.lt_succ_of_lt (h.fresh e he)
      · exact Nat.lt_succ_self _
  · intro hi
    -- an element already listed under the key would have to be the new one
    refine eq_none_iff_forall_not_mem.mpr fun e he => ?_
    obtain ⟨hl, hky⟩ := (h.byKey _ e).mp he
    have hol := (hi.byKey (C.checksum w.tx) e).mpr ⟨(hm e).mpr (.inl hl), by rw [keyOf, ho e hl]; exact hky⟩
    have hno : (mp.insertTx C w).txByKey (C.checksum w.tx) = some mp.fresh := update_self ..
    rw [hno] at hol
    exact hn (some.inj hol ▸ hl)

end

end Sound

/-! ### Runs -/

def unpooled (C : Crypto) (cfg : MempoolConfig) (mp : TxMempool) : Call → Bool
  | .checkTx tx info connected answer now =>
    let prepared := mp.prepareTx C cfg tx info connected answer now
    prepared.2.1.all fun w => (prepared.1.txByKey (C.checksum w.tx)).isNone
  | _ => true

lemma Sound.call {C : Crypto} {cfg : MempoolConfig} {mp : TxMempool} (h : Sound C mp) (c : Call) :
    (unpooled C cfg mp c = true → Sound C (mp.call C cfg c)) ∧
      (Indexed C (mp.call C cfg c) → unpooled C cfg mp c = true) := by
  cases c with
  | checkTx tx info connected answer now =>
    obtain ⟨hs, hse⟩ := h.prepareTx cfg tx info connected answer now
    dsimp only [unpooled, TxMempool.call, checkTx]
    generalize mp.prepareTx C cfg tx info connected answer now = prepared at hs hse ⊢
    obtain ⟨mp', _ | w, result⟩ := prepared
    · exact ⟨fun _ => hs, fun _ => rfl⟩
    obtain ⟨hk, hn⟩ := hs.insertTx_iff (hse w rfl)
    exact ⟨fun hno => hk (isNone_iff_eq_none.mp hno), fun hi => isNone_iff_eq_none.mpr (hn hi)⟩
  | removeTxByKey key => exact ⟨fun _ => h.removeTxByKey key, fun _ => rfl⟩
  | update blockHeight now blockTxs preCheck postCheck => exact ⟨fun _ => h.update .., fun _ => rfl⟩
  | recheckResult tx res => exact ⟨fun _ => h.handleRecheckResult tx res, fun _ => rfl⟩
  | flush => exact ⟨fun _ => h.flush, fun _ => rfl⟩

/-- **The indexes of the mempool.** From a new mempool, with any configuration, cache size and answers
of the application, the list, the indexes and the size agree in every state of a run exactly if no call
of the run inserts a transaction whose key is in use. -/
theorem indexed_iff_unpooled (C : Crypto) (cfg : MempoolConfig) (preCheck : Option (Bytes → Bool))
    (postCheck : Option (Bytes → ResponseCheckTx → Bool)) (calls : List Call) :
    (∀ done, done <+: calls → Indexed C (run (call C cfg) (new cfg preCheck postCheck) done)) ↔
      Admitted (call C cfg) (fun mp c => unpooled C cfg mp c) (new cfg preCheck postCheck) calls :=
  admitted_iff (fun _ h => h.toIndexed) (fun _ c h => (h.call c).1) (fun _ c h => (h.call c).2)
    (Sound.new C cfg preCheck postCheck)

/-! ### A run that breaks the indexes -/

def uncachedConfig : MempoolConfig := ⟨10, 1000, 100, 0, false, 0, 0⟩

def submitAccepted (tx : Bytes) : Call :=
  .checkTx tx ⟨1, "peer"⟩ true (some ⟨codeTypeOK, "", "", [], 1, 1, ""⟩) 0

/-- Without a cache, the second submission of a transaction is listed beside the first one. -/
theorem resubmitted_tx_listed_twice :
    ¬Indexed Crypto.sample (run (call Crypto.sample uncachedConfig) (new uncachedConfig none none)
      [submitAccepted [7], submitAccepted [7]]) := by
  intro h
  have h₀ := (h.byKey (Crypto.sample.checksum [7]) 0).mpr ⟨by decide +kernel, by decide +kernel⟩
  revert h₀
  decide +kernel

end Tenderdash.TxMempool
