import Tenderdash.Consensus.Discipline
import Tenderdash.Consensus.LockInvariant

/-!
The progress of one node, and how often it asks its signer.

* `Later` — height, round and step never go back;
* `OneEach` — the node asks for one vote of a type in a round of a height.

Both are kept by every move, so they hold in every run: `one_vote_per_step`. The second one needs that the step
of the last vote is not left again, which is what a node keeps anyway (`Careful`).
-/

namespace Tenderdash

open Lib Go Run HeightVoteSet List

namespace View

variable {I : Intake} {v v' : View}

def Later (v v' : View) : Prop :=
  v.height < v'.height ∨ (v.height = v'.height ∧ (v.round < v'.round ∨ (v.round = v'.round ∧ v.step ≤ v'.step)))

lemma Later.refl (v : View) : v.Later v := .inr ⟨rfl, .inr ⟨rfl, Nat.le_refl _⟩⟩

lemma Later.trans {a b c : View} (h : a.Later b) (h' : b.Later c) : a.Later c := by
  unfold Later at *
  simp only [RoundStep.le_iff] at *
  omega

lemma Later.of_step {w : View} (hh : w.height = v.height) (hr : w.round = v.round)
    (hs : v.step ≤ w.step) : v.Later w := .inr ⟨hh.symm, .inr ⟨hr.symm, hs⟩⟩

lemma step_le_applyCommit (step : RoundStep) : step ≤ .applyCommit := by
  cases step <;> decide

lemma Sane.later (h : v.Sane) (hm : Move I v v') : v.Later v' := by
  cases hm with
  | await step hs => exact .of_step rfl rfl (Nat.le_of_lt hs)
  | prevote blockID asked hs => exact .of_step rfl rfl (Nat.le_of_lt hs)
  | precommitNil asked hs => exact .of_step rfl rfl (Nat.le_of_lt hs)
  | lock blockID asked hs => exact .of_step rfl rfl (Nat.le_of_lt hs)
  | relock blockID asked hs => exact .of_step rfl rfl (Nat.le_of_lt hs)
  | newRound round hr =>
    rcases hr with hlt | ⟨hsa, hs⟩
    · exact .inr ⟨rfl, .inl hlt⟩
    refine .of_step rfl hsa.symm ?_
    rw [hs]
    exact (by decide : RoundStep.newHeight ≤ .newRound)
  | enterCommit => exact .of_step rfl rfl (step_le_applyCommit _)
  | apply state votes blockID _ hh =>
    have hn := nextHeight_eq h.height_pos hh
    left
    dsimp only [next, View.start]
    omega
  | _ => exact .refl _

def SameStep (a b : Vote) : Prop := a.type = b.type ∧ a.height = b.height ∧ a.round = b.round

def OneEach (v : View) : Prop := v.asked.Pairwise fun a b => ¬ SameStep a b

lemma OneEach.cast (h : v.OneEach) (hc : v.Careful) (type : SignedMsgType) {blockID : BlockID}
    {asked : List Vote} (hs : v.step < voteStep type) (had : ∀ vote ∈ asked, v.IsVote type blockID vote)
    (ho : asked.length ≤ 1) : (v.asked ++ asked).Pairwise fun a b => ¬ SameStep a b := by
  refine pairwise_append.mpr ⟨h, ?_, ?_⟩
  · match asked, ho with
    | [], _ => exact .nil
    | [vote], _ => exact pairwise_singleton ..
  rintro a ha b hb ⟨ht, hh, hr⟩
  obtain ⟨hbt, hbh, hbr, -⟩ := had b hb
  exact hc.fresh hs ha (hh.trans hbh) (hr.trans hbr) (ht.trans hbt)

lemma OneEach.move (h : v.OneEach) (hc : v.Careful) (hm : Move I v v') : v'.OneEach := by
  cases hm with
  | prevote blockID asked hs ha _ ho => exact h.cast hc .prevote hs ha ho
  | precommitNil asked hs ha ho => exact h.cast hc .precommit hs ha ho
  | lock blockID asked hs ha _ _ _ ho => exact h.cast hc .precommit hs ha ho
  | relock blockID asked hs ha _ _ _ _ _ ho => exact h.cast hc .precommit hs ha ho
  | _ => exact h

end View

namespace StateData

variable {cfg : Config} {state : ChainState} {lastCommit : Option Commit} {sd sd' : StateData}

def votesAsked (sd : StateData) (type : SignedMsgType) (height round : ℤ) : List Vote :=
  (sd.outputs.filterMap Output.asked).filter fun vote =>
    vote.type = type ∧ vote.height = height ∧ vote.round = round

def NotBefore (sd sd' : StateData) : Prop :=
  sd.height < sd'.height ∨
    (sd.height = sd'.height ∧ (sd.round < sd'.round ∨ (sd.round = sd'.round ∧ sd.step ≤ sd'.step)))

structure Voter (v : View) : Prop where
  sane : v.Sane
  careful : v.Careful
  oneEach : v.OneEach

lemma Voter.move {I : Intake} {v v' : View} (h : Voter v) (hm : Move I v v') : Voter v' :=
  ⟨h.sane.move hm, h.careful.move h.sane hm, h.oneEach.move h.careful hm⟩

lemma voter_initial (hs : Starts state) (h : initial state lastCommit = .ok sd) : Voter sd.view := by
  have hn : sd.view.asked = [] := by
    obtain ⟨_, -, h⟩ := of_bind h
    obtain ⟨votes, -, h⟩ := of_bind h
    cases h
    rfl
  refine ⟨(ordered_initial hs h).toSane, ?_, ?_⟩
  · constructor <;> simp [hn]
  · simp [View.OneEach, hn]

lemma voter_handle {W : World} {event : Event} (hvo : Voter sd.view) (h : sd.handle W cfg event = .ok sd') :
    Voter sd'.view ∧ sd.view.Later sd'.view := by
  refine (handle_moves hvo.sane h).invariant (P := fun v => Voter v ∧ sd.view.Later v) (fun v v' hv hm => ?_)
    ⟨hvo, .refl _⟩
  exact ⟨hv.1.move hm, hv.2.trans (hv.1.sane.later hm)⟩

lemma voter_run_from (hv : Voter sd.view) (inputs : List (World × Event))
    (h : run (turn cfg) (some sd) inputs = some sd') : Voter sd'.view ∧ sd.view.Later sd'.view := by
  refine run_turn_any (P := fun sd' => Voter sd'.view ∧ sd.view.Later sd'.view) (fun h hh => ?_) ?_ sd' h
  · have hs := voter_handle h.1 hh
    exact ⟨hs.1, h.2.trans hs.2⟩
  rintro _ ⟨⟩
  exact ⟨hv, .refl _⟩

lemma votesAsked_le_one (h : sd.view.OneEach) (type : SignedMsgType) (height round : ℤ) :
    (sd.votesAsked type height round).length ≤ 1 := by
  have hp : (sd.votesAsked type height round).Pairwise fun a b => ¬ View.SameStep a b := List.Pairwise.filter _ h
  have hal : ∀ vote ∈ sd.votesAsked type height round,
      vote.type = type ∧ vote.height = height ∧ vote.round = round := by
    intro vote hv
    exact of_decide_eq_true (mem_filter.mp hv).2
  match hl : sd.votesAsked type height round with
  | [] => exact Nat.zero_le _
  | [_] => exact le_refl _
  | a :: b :: rest =>
    rw [hl] at hp hal
    obtain ⟨hat, ha, har⟩ := hal a (by simp)
    obtain ⟨hbt, hb, hbr⟩ := hal b (by simp)
    exact absurd ⟨hat.trans hbt.symm, ha.trans hb.symm, har.trans hbr.symm⟩ ((pairwise_cons.mp hp).1 b (by simp))

/-- **One vote per step.** In every run, whatever reaches the node, height, round and step do not go back, and
the node has asked its signer for at most one prevote and at most one precommit of every round. -/
theorem one_vote_per_step (cfg : Config) (state : ChainState) (lastCommit : Option Commit) (hstarts : Starts state)
    (first second : List (World × Event)) (sd sd' : StateData) (hsd : reached cfg state lastCommit first = some sd)
    (hsd' : reached cfg state lastCommit (first ++ second) = some sd') :
    sd.NotBefore sd' ∧ ∀ height round, (sd'.votesAsked .prevote height round).length ≤ 1 ∧
      (sd'.votesAsked .precommit height round).length ≤ 1 := by
  obtain ⟨sd₀, hi⟩ : ∃ sd₀, (initial state lastCommit).toOption = some sd₀ := by
    unfold reached at hsd
    cases hf : (initial state lastCommit).toOption with
    | some sd₀ => exact ⟨sd₀, rfl⟩
    | none =>
      rw [hf] at hsd
      have hno : run (turn cfg) none first = none := run_invariant (P := fun node => node = none)
        (fun node input hn => by rw [hn]; rfl) first rfl
      rw [hno] at hsd
      cases hsd
  unfold reached at hsd hsd'
  rw [run_append, hsd] at hsd'
  rw [hi] at hsd
  have hv := (voter_run_from (voter_initial hstarts (toOption_eq_some.mp hi)) first hsd).1
  obtain ⟨hv', hl⟩ := voter_run_from hv second hsd'
  exact ⟨hl, fun height round => ⟨votesAsked_le_one hv'.oneEach .prevote height round,
    votesAsked_le_one hv'.oneEach .precommit height round⟩⟩

/-- The node asks for a prevote and a precommit while it locks on a block. -/
theorem lockingRound_votes : ∃ sd sd', reached lockConfig lockState none [] = some sd ∧
    reached lockConfig lockState none lockingRound = some sd' ∧ sd.NotBefore sd' ∧
    (sd'.votesAsked .prevote 1 0).length = 1 ∧ (sd'.votesAsked .precommit 1 0).length = 1 := by
  have hs : (reached lockConfig lockState none []).isSome := by decide +kernel
  have ha : (reached lockConfig lockState none lockingRound).map (fun sd =>
      ((sd.votesAsked .prevote 1 0).length, (sd.votesAsked .precommit 1 0).length)) = some (1, 1) := by
    decide +kernel
  obtain ⟨sd, hsd⟩ := Option.isSome_iff_exists.mp hs
  obtain ⟨sd', hs', hc⟩ := Option.map_eq_some_iff.mp ha
  obtain ⟨hpr, hp⟩ := Prod.mk.inj hc
  exact ⟨sd, sd', hsd, hs', (one_vote_per_step lockConfig lockState none ⟨by decide, by decide⟩ [] lockingRound
    sd sd' hsd hs').1, hpr, hp⟩

end StateData

end Tenderdash
