import Tenderdash.Lib.Run

/-!
The dispatcher of light block requests in `internal/statesync`. A call registers a channel of
capacity one for its peer, sends its request, and waits for a response or the end of its context;
then it removes whatever is registered for the peer and closes it. The steps are what the goroutines
do under the dispatcher's lock, and the receive of a waiting call.

A call whose request could not be sent leaves its closed channel registered. Where no send fails, and no call is made
to a peer whose earlier call `Close` has left behind, no closed channel is used and every caller gets its own response.
-/

namespace Tenderdash.Statesync

open Lib.Run Function Option Nat

/-- No block and no error says that the peer does not have the height. -/
structure LightBlockResult (β ε : Type) where
  block : Option β := none
  err : Option ε := none
  connID : ℕ := 0
  deriving DecidableEq, Repr

inductive Phase where
  | waiting
  /-- The clean-up is due. -/
  | leaving
  | returned
  deriving DecidableEq, Repr

/-- A call of `LightBlock` that got past the check for a busy peer, with its channel: the buffered
response and when it was delivered. `got` is what the call received, a closed channel giving the
zero value. -/
structure Call (β ε : Type) where
  peer : String
  buffer : Option (LightBlockResult β ε × ℕ) := none
  closed : Bool := false
  phase : Phase := .waiting
  got : Option (LightBlockResult β ε × Option ℕ) := none
  deriving DecidableEq, Repr

/-- The calls that were made are named by the step in which they were registered. -/
structure Dispatcher (β ε : Type) where
  calls : String → Option ℕ := fun _ => none
  made : ℕ → Option (Call β ε) := fun _ => none
  clock : ℕ := 0
  /-- A send on a closed channel, or a second close of one. -/
  panicked : Bool := false

namespace Dispatcher

variable {β ε : Type}

inductive Event (β ε : Type) where
  /-- `dispatch`: whether the context has ended, and whether the request can be sent. -/
  | dispatch (peer : String) (ended sent : Bool)
  | receive (id : ℕ)
  | contextDone (id : ℕ)
  | cleanUp (id : ℕ)
  /-- A response that is no block, does not decode, or does. -/
  | respond (peer : String) (lb : Option (Except ε β)) (connID : ℕ)
  | close

variable (d : Dispatcher β ε) (peer : String)

def put (id : ℕ) (c : Call β ε) : Dispatcher β ε :=
  { d with made := update d.made id (some c) }

/-- A busy peer's call is refused and its new channel closed. -/
def dispatch (ended sent : Bool) : Dispatcher β ε :=
  if ended ∨ (d.calls peer).isSome then d
  else
    let d := { d with calls := update d.calls peer (some d.clock) }
    if sent then d.put d.clock { peer } else d.put d.clock { peer, closed := true, phase := .returned }

/-- An empty open channel is waited for. -/
def receive (id : ℕ) : Dispatcher β ε :=
  match d.made id with
  | some c =>
    if c.phase ≠ .waiting then d
    else match c.buffer with
      | some (result, time) => d.put id { c with buffer := none, phase := .leaving, got := some (result, some time) }
      | none => if c.closed then d.put id { c with phase := .leaving, got := some ({}, none) } else d
  | none => d

def contextDone (id : ℕ) : Dispatcher β ε :=
  match d.made id with
  | some c => if c.phase = .waiting then d.put id { c with phase := .leaving } else d
  | none => d

/-- `close` of a registered channel. -/
def closeChannel (id : ℕ) : Dispatcher β ε :=
  match d.made id with
  | some c => if c.closed then { d with panicked := true } else d.put id { c with closed := true }
  | none => d

/-- The deferred clean-up closes the channel registered for the peer, whosever it is. -/
def cleanUp (id : ℕ) : Dispatcher β ε :=
  match d.made id with
  | some c =>
    if c.phase ≠ .leaving then d
    else
      let d := d.put id { c with phase := .returned }
      match d.calls c.peer with
      | some registered => { d with calls := update d.calls c.peer none }.closeChannel registered
      | none => d
  | none => d

/-- Without a registered call the response is unsolicited; a full channel is waited for. -/
def respond (lb : Option (Except ε β)) (connID : ℕ) : Dispatcher β ε :=
  match (d.calls peer).bind fun id => (d.made id).map (id, ·) with
  | none => d
  | some (id, c) =>
    let result : LightBlockResult β ε := match lb with
      | none => { connID }
      | some (.error err) => { err := some err, connID }
      | some (.ok block) => { block := some block, connID }
    if c.closed then { d with panicked := true }
    else if c.buffer.isSome then d
    else d.put id { c with buffer := some (result, d.clock) }

def tick : Dispatcher β ε := { d with clock := d.clock + 1 }

def step : Event β ε → Dispatcher β ε
  | .dispatch peer ended sent => (d.dispatch peer ended sent).tick
  | .receive id => (d.receive id).tick
  | .contextDone id => (d.contextDone id).tick
  | .cleanUp id => (d.cleanUp id).tick
  | .respond peer lb connID => (d.respond peer lb connID).tick
  | .close => { d with calls := fun _ => none }.tick

def Busy : Prop := ∃ id c, d.made id = some c ∧ c.peer = peer ∧ c.phase ≠ .returned

structure Safe (d : Dispatcher β ε) : Prop where
  alive : d.panicked = false
  registered : ∀ peer, (d.calls peer).isSome → d.Busy peer
  answered : ∀ id c got, d.made id = some c → c.got = some got → ∃ time, got.2 = some time ∧ id < time

/-- The condition: the request can be sent, and no call goes to a peer whose earlier call is still
waiting after a `Close`. -/
def Orderly : Event β ε → Prop
  | .dispatch peer _ sent => sent = true ∧ (d.calls peer = none → ¬ d.Busy peer)
  | _ => True

/-! ### The invariant -/

structure Fine (d : Dispatcher β ε) (id : ℕ) (c : Call β ε) : Prop where
  before : id < d.clock
  opened : c.phase ≠ .returned → c.closed = false ∧ (d.calls c.peer = some id ∨ d.calls c.peer = none)
  buffer : ∀ result time, c.buffer = some (result, time) → id < time
  got : ∀ got, c.got = some got → ∃ time, got.2 = some time ∧ id < time

structure Sound (d : Dispatcher β ε) : Prop where
  alive : d.panicked = false
  registered : ∀ peer id, d.calls peer = some id → ∃ c, d.made id = some c ∧ c.peer = peer ∧ c.phase ≠ .returned
  fine : ∀ id c, d.made id = some c → d.Fine id c

variable {d : Dispatcher β ε} {id : ℕ} {c c' : Call β ε}

section

variable (h : Sound d)

include h

lemma Sound.safe : Safe d where
  alive := h.alive
  registered peer hs := by
    obtain ⟨id, hid⟩ := isSome_iff_exists.mp hs
    obtain ⟨c, hc, hp⟩ := h.registered peer id hid
    exact ⟨id, c, hc, hp⟩
  answered id c got hc hg := (h.fine id c hc).got got hg

omit h in
lemma put_made (id' : ℕ) : (d.put id c).made id' = if id' = id then some c else d.made id' := by
  simp [put, update_apply]

lemma Sound.put (hc : d.made id = some c) (hpe : c'.peer = c.peer) (hp : c'.phase ≠ .returned)
    (hf : d.Fine id c') : Sound (d.put id c') where
  alive := h.alive
  registered peer k hk := by
    obtain ⟨c₁, hc₁, hp₁, hph₁⟩ := h.registered peer k hk
    rw [put_made]
    split
    · next heq =>
      subst heq
      cases hc.symm.trans hc₁
      exact ⟨c', rfl, hpe.trans hp₁, hp⟩
    · exact ⟨c₁, hc₁, hp₁, hph₁⟩
  fine k c₁ hc₁ := by
    rw [put_made] at hc₁
    split at hc₁
    · next heq =>
      subst heq
      cases hc₁
      exact { hf with }
    · have := h.fine k c₁ hc₁
      exact ⟨this.before, this.opened, this.buffer, this.got⟩

lemma Sound.tick : Sound d.tick :=
  ⟨h.alive, h.registered, fun id c hc =>
    have := h.fine id c hc
    ⟨this.before.trans (lt_succ_self _), this.opened, this.buffer, this.got⟩⟩

lemma Sound.receive (id : ℕ) : Sound (d.receive id) := by
  unfold Dispatcher.receive
  split
  swap
  · exact h
  next c hc =>
  have hf := h.fine id c hc
  split
  · exact h
  next hp =>
  rw [not_not] at hp
  split
  · next result time hb =>
    refine h.put hc rfl (by simp) ⟨hf.before, fun _ => hf.opened (by simp [hp]), nofun, fun got hg => ?_⟩
    cases hg
    exact ⟨time, rfl, hf.buffer _ _ hb⟩
  · rw [if_neg (by simp [(hf.opened (by simp [hp])).1])]
    exact h

lemma Sound.contextDone (id : ℕ) : Sound (d.contextDone id) := by
  unfold Dispatcher.contextDone
  split
  · next c hc =>
    have hf := h.fine id c hc
    split
    · next hp =>
      exact h.put hc rfl (by simp) { hf with opened := fun _ => hf.opened (by simp [hp]) }
    · exact h
  · exact h

lemma Sound.respond (peer : String) (lb : Option (Except ε β)) (connID : ℕ) : Sound (d.respond peer lb connID) := by
  unfold Dispatcher.respond
  split
  · exact h
  next id c heq =>
  obtain ⟨k, hk, hm⟩ := bind_eq_some_iff.mp heq
  obtain ⟨c₁, hc₁, hpa⟩ := map_eq_some_iff.mp hm
  cases hpa
  obtain ⟨c₂, hc₂, hpe, hp⟩ := h.registered peer id hk
  cases hc₁.symm.trans hc₂
  have hf := h.fine id c hc₁
  rw [if_neg (by simp [(hf.opened hp).1])]
  split
  · exact h
  · refine h.put hc₁ rfl hp { hf with buffer := fun result time hb => ?_ }
    cases hb
    exact hf.before

lemma Sound.leave (hc : d.made id = some c) (hph : c'.phase = .returned) (hb : c'.buffer = c.buffer)
    (hg : c'.got = c.got) : Sound { d.put id c' with calls := update d.calls c.peer none } where
  alive := h.alive
  registered peer k hk := by
    simp only [update_apply] at hk
    split at hk
    · cases hk
    next hne =>
    obtain ⟨c₁, hc₁, hpe, hp₁⟩ := h.registered peer k hk
    refine ⟨c₁, ?_, hpe, hp₁⟩
    show (d.put id c').made k = _
    rw [put_made, if_neg, hc₁]
    rintro rfl
    cases hc.symm.trans hc₁
    exact hne hpe.symm
  fine k c₁ hc₁ := by
    change (d.put id c').made k = some c₁ at hc₁
    rw [put_made] at hc₁
    split at hc₁
    · next heq =>
      subst heq
      cases hc₁
      have hf := h.fine k c hc
      exact ⟨hf.before, (absurd hph), hb ▸ hf.buffer, hg ▸ hf.got⟩
    have hf := h.fine k c₁ hc₁
    refine { hf with opened := fun hp => ⟨(hf.opened hp).1, ?_⟩ }
    show update d.calls c.peer none c₁.peer = _ ∨ update d.calls c.peer none c₁.peer = _
    rw [update_apply]
    split
    · exact .inr rfl
    · exact (hf.opened hp).2

lemma Sound.cleanUp (id : ℕ) : Sound (d.cleanUp id) := by
  unfold Dispatcher.cleanUp
  split
  swap
  · exact h
  next c hc =>
  split
  · exact h
  next hp =>
  obtain ⟨ho, how⟩ := (h.fine id c hc).opened (by simp [not_not.mp hp])
  dsimp only
  split
  · next registered hr =>
    obtain rfl : registered = id := by simpa [show d.calls c.peer = some registered from hr] using how
    have hpu : { d.put registered { c with phase := .returned } with
        calls := update d.calls c.peer none }.closeChannel registered =
        { d.put registered { c with phase := .returned, closed := true } with
          calls := update d.calls c.peer none } := by simp [closeChannel, Dispatcher.put, ho]
    exact hpu ▸ h.leave hc rfl rfl rfl
  · next hn =>
    have hs : update d.calls c.peer none = d.calls := update_eq_self_iff.mpr hn.symm
    have hl : Sound { d.put id { c with phase := .returned } with calls := update d.calls c.peer none } :=
      h.leave hc rfl rfl rfl
    rwa [hs] at hl

lemma Sound.dispatch {peer : String} {ended sent : Bool} (hok : Orderly d (.dispatch peer ended sent)) :
    Sound (d.dispatch peer ended sent).tick := by
  unfold Dispatcher.dispatch
  split
  · exact h.tick
  next hfr =>
  obtain ⟨rfl, hi⟩ := hok
  have hn : d.calls peer = none := by simpa using fun hs => hfr (.inr hs)
  refine ⟨h.alive, fun other k hk => ?_, fun k c hc => ?_⟩
  · simp only [Dispatcher.tick, Dispatcher.put, if_true, update_apply] at hk ⊢
    split at hk
    · next heq =>
      cases hk
      exact ⟨{ peer }, by simp, heq.symm, by simp⟩
    · obtain ⟨c, hc, hr⟩ := h.registered other k hk
      have hlt := (h.fine k c hc).before
      exact ⟨c, by rw [if_neg hlt.ne, hc], hr⟩
  · simp only [Dispatcher.tick, Dispatcher.put, if_true, update_apply] at hc
    split at hc
    · next heq =>
      cases hc
      exact ⟨heq ▸ lt_succ_self _, fun _ => ⟨rfl, .inl (by simp [Dispatcher.tick, Dispatcher.put, heq])⟩, nofun, nofun⟩
    · have hf := h.fine k c hc
      refine ⟨hf.before.trans (lt_succ_self _), fun hp => ⟨(hf.opened hp).1, ?_⟩, hf.buffer, hf.got⟩
      have hne : c.peer ≠ peer := fun heq => hi hn ⟨k, c, hc, heq, hp⟩
      simpa [Dispatcher.tick, Dispatcher.put, update_of_ne hne] using (hf.opened hp).2

lemma Sound.step (e : Event β ε) (hok : Orderly d e) : Sound (d.step e) := by
  cases e with
  | dispatch peer ended sent => exact h.dispatch hok
  | receive id => exact (h.receive id).tick
  | contextDone id => exact (h.contextDone id).tick
  | cleanUp id => exact (h.cleanUp id).tick
  | respond peer lb connID => exact (h.respond peer lb connID).tick
  | close =>
    refine ⟨h.alive, fun _ _ hk => (by cases hk), fun id c hc => ?_⟩
    have hf := h.fine id c hc
    exact ⟨hf.before.trans (lt_succ_self _), fun hp => ⟨(hf.opened hp).1, .inr rfl⟩, hf.buffer, hf.got⟩

end

/-- **The life of a call.** In an interleaving in which no request fails to be sent, and no call goes to a peer whose
earlier call still waits after a `Close`, no closed channel is used, a peer is refused as busy only while a call to it
is in progress, and a caller receives only what was delivered after its request was registered. -/
theorem calls_safe (events : List (Event β ε)) (horderly : Admitted step Orderly {} events) :
    Safe (run step {} events) := by
  refine Sound.safe (horderly.invariant (fun _ e h => h.step e) ⟨rfl, ?_, ?_⟩)
  · intro _ _ h
    cases h
  · intro _ _ h
    cases h

theorem answered_call_safe :
    let d := run step ({} : Dispatcher ℕ String) [.dispatch "peer" false true, .respond "peer" (some (.ok 9)) 1,
      .receive 0, .cleanUp 0]
    (d.made 0).bind Call.got = some ({ block := some 9, connID := 1 }, some 1) ∧ d.calls "peer" = none ∧ Safe d := by
  refine ⟨by decide, by decide, calls_safe _ ⟨⟨rfl, fun _ => ?_⟩, trivial, trivial, trivial, trivial⟩⟩
  rintro ⟨_, _, h, -⟩
  cases h

/-- A request that could not be sent: the call has returned, its peer stays busy, and the peer's next response is sent
on the closed channel. -/
theorem unsent_request_panics :
    let d := run step ({} : Dispatcher ℕ String) [.dispatch "peer" false false]
    (d.calls "peer").isSome ∧ ¬ d.Busy "peer" ∧ (d.step (.respond "peer" none 1)).panicked = true := by
  refine ⟨by decide, ?_, by decide⟩
  rintro ⟨id, c, hc, -, hp⟩
  change update (fun _ => none) 0 (some (_ : Call ℕ String)) id = some c at hc
  rw [update_apply] at hc
  split at hc
  · cases hc
    exact hp rfl
  · cases hc

/-! ### A response that waits -/

def full (d : Dispatcher β ε) (peer : String) : Bool :=
  ((d.calls peer).bind d.made).any fun c => !c.closed && c.buffer.isSome

/-- The dispatcher with the `Respond` that holds the lock while it waits for room in a channel. -/
structure Locked (β ε : Type) where
  inner : Dispatcher β ε := {}
  holder : Option (String × Option (Except ε β) × ℕ) := none

namespace Locked

inductive Turn (β ε : Type) where
  | event (e : Event β ε)
  /-- The waiting `Respond` sends, if there is room. -/
  | send
  /-- Its context ends. -/
  | giveUp

/-- While the lock is held a call can only receive, or see its context end. -/
def step (s : Locked β ε) : Turn β ε → Locked β ε
  | .event e =>
    match s.holder, e with
    | none, .respond peer lb connID =>
      if s.inner.full peer then { s with holder := some (peer, lb, connID) } else { s with inner := s.inner.step e }
    | none, _ | some _, .receive _ | some _, .contextDone _ => { s with inner := s.inner.step e }
    | some _, _ => s
  | .send =>
    match s.holder with
    | some (peer, lb, connID) =>
      if s.inner.full peer then s else { s with inner := s.inner.step (.respond peer lb connID), holder := none }
    | none => s
  | .giveUp => { s with holder := none }

def Stuck (s : Locked β ε) : Prop :=
  ∃ holder id c, s.holder = some holder ∧ s.inner.calls holder.1 = some id ∧ s.inner.made id = some c ∧
    c.closed = false ∧ c.buffer.isSome ∧ c.phase ≠ .waiting

variable {s : Locked β ε}

lemma Stuck.full (h : s.Stuck) : ∃ holder, s.holder = some holder ∧ s.inner.full holder.1 = true := by
  obtain ⟨holder, id, c, hs, hi, hc, ho, hb, -⟩ := h
  exact ⟨holder, hs, by simp [Dispatcher.full, hi, hc, ho, hb]⟩

lemma Stuck.woken (h : s.Stuck) {d : Dispatcher β ε}
    (hd : d = s.inner ∨ ∃ id c c', s.inner.made id = some c ∧ c.phase = .waiting ∧ d = s.inner.put id c') :
    Stuck { s with inner := d.tick } := by
  obtain ⟨holder, id, c, hs, hi, hc, ho, hb, hp⟩ := h
  rcases hd with rfl | ⟨k, c₀, c', hk, hw, rfl⟩
  · exact ⟨holder, id, c, hs, hi, hc, ho, hb, hp⟩
  refine ⟨holder, id, c, hs, hi, (put_made id).trans ?_, ho, hb, hp⟩
  rw [if_neg, hc]
  rintro rfl
  cases hc.symm.trans hk
  exact hp hw

lemma Stuck.step (h : s.Stuck) {t : Turn β ε} (ht : t ≠ .giveUp) : (s.step t).Stuck := by
  obtain ⟨holder, hs, hf⟩ := h.full
  cases t with
  | giveUp => exact absurd rfl ht
  | send => simpa [Locked.step, hs, hf] using h
  | event e =>
    cases e with
    | receive id =>
      have he : s.step (.event (.receive id)) = { s with inner := (s.inner.receive id).tick } := by
        simp [Locked.step, Dispatcher.step, hs]
      rw [he]
      refine h.woken ?_
      unfold Dispatcher.receive
      split
      · next c hc =>
        split
        · exact .inl rfl
        next hp =>
        rw [not_not] at hp
        split
        · exact .inr ⟨id, c, _, hc, hp, rfl⟩
        split
        · exact .inr ⟨id, c, _, hc, hp, rfl⟩
        · exact .inl rfl
      · exact .inl rfl
    | contextDone id =>
      have he : s.step (.event (.contextDone id)) = { s with inner := (s.inner.contextDone id).tick } := by
        simp [Locked.step, Dispatcher.step, hs]
      rw [he]
      refine h.woken ?_
      unfold Dispatcher.contextDone
      split
      · next c hc =>
        split_ifs with hp
        · exact .inr ⟨id, c, _, hc, hp, rfl⟩
        · exact .inl rfl
      · exact .inl rfl
    | _ => simpa [Locked.step, hs] using h

end Locked

end Dispatcher

end Tenderdash.Statesync
