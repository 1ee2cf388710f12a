import Tssx.Experiment.Exchange
import Tssx.Lib.Fair

/-!
# The programs come to their end

A process is *live* if it has not finished and does not wait in vain.  Two programs that play a
script that fits end in every weakly fair execution (`ExchangeInv.fair_ends`): a step of a live
process brings both nearer to the end, and no step makes the peer wait.  A process whose last read
has found its peer gone throws and leaves (`FailedInv.step`).
-/

namespace Tssx

/-! ### What the peer of a step sees -/

section Peer

variable {c : Side → Nat} {script : Script} {s t : Experiment} {side : Side} {k : Nat}

theorem peer_live (h : SidesInv c s.sides) (hs : experimentStep s side = some t)
    (hlive : s.live side.peer) : t.live side.peer := by
  obtain ⟨hfinished, hst⟩ := hlive
  rcases (experimentStep_own hs).2 with hsides | ⟨a, ha, hsides⟩
  · rw [Experiment.live, Experiment.finished, hsides]
    exact ⟨hfinished, hst⟩
  · have ha' : a.side = side.peer.peer := ha.trans side.peer_peer.symm
    refine ⟨?_, h.peer_unstarved ha' hsides hst⟩
    rw [Experiment.finished, (h.peer_step ha' hsides).pc]
    exact hfinished

theorem stepsLeft_peer (h : SidesInv c s.sides) (hs : experimentStep s side = some t) :
    t.sides.stepsLeft side.peer = s.sides.stepsLeft side.peer := by
  rcases (experimentStep_own hs).2 with hsides | ⟨a, ha, hsides⟩
  · rw [hsides]
  · have hwait := h.peer_step (ha.trans side.peer_peer.symm) hsides
    rw [Sides.stepsLeft, Sides.stepsLeft, hwait.pc, hwait.remaining_eq]

theorem experimentStep_party (hs : experimentStep s side = some t) :
    t.sides.party side.peer = s.sides.party side.peer := by
  rcases (experimentStep_own hs).2 with hsides | ⟨a, rfl, hsides⟩
  · rw [hsides]
  · exact party_peer hsides

theorem experimentStep_inv (h : SidesInv c s.sides) (hs : experimentStep s side = some t) :
    SidesInv c t.sides := by
  rcases (experimentStep_own hs).2 with hsides | ⟨a, -, hsides⟩
  · rwa [hsides]
  · exact h.sidesStep_inv hsides

end Peer

/-! ### On track -/

/-- The steps that both processes are from their end. -/
def Experiment.total (s : Experiment) (script : Script) (j : Side → Nat) : Nat :=
  s.left script (j .server) .server + s.left script (j .client) .client

section Track

variable {c : Side → Nat} {script : Script} {s t : Experiment} {j j' : Side → Nat} {side : Side}

theorem total_eq (s : Experiment) (script : Script) (j : Side → Nat) (side : Side) :
    s.total script j = s.left script (j side) side + s.left script (j side.peer) side.peer := by
  cases side with
  | server => rfl
  | client => exact Nat.add_comm _ _

/-- **A step brings both nearer to the end**, if its process is live. -/
theorem ExchangeInv.total_step (hf : Fits c script) (h : ExchangeInv c script s j)
    (hfinds : FindsPeer s side) (hs : experimentStep s side = some t) :
    ∃ j', ExchangeInv c script t j' ∧ (t.total script j' < s.total script j ∨
      ¬s.live side ∧ t.total script j' = s.total script j) := by
  obtain ⟨j', hinv, hsame, hnearer⟩ := h.step hf hfinds hs
  have hpeer : t.left script (j' side.peer) side.peer = s.left script (j side.peer) side.peer := by
    rw [hsame, Experiment.left, Experiment.left, (experimentStep_own hs).1,
      stepsLeft_peer h.sides hs]
  refine ⟨j', hinv, ?_⟩
  rw [total_eq t script j' side, total_eq s script j side, hpeer]
  rcases hnearer with hless | ⟨hst, heq⟩
  · exact .inl (Nat.add_lt_add_right hless _)
  · refine .inr ⟨?_, by rw [heq]⟩
    rintro ⟨-, hst'⟩
    cases hst.symm.trans hst'

end Track

/-! ### After a read that has found the peer gone -/

/-- A process that is about to throw, or leaves. -/
inductive Failing (p : Party) : Control → Prop
  | returned {next : Int → Program} {received : Int} {message : String} (hpc : p.pc = .ready)
      (hreceived : p.received = some received) (hthrow : next received = .throw message) :
      Failing p (.reading next)
  | throwing {message : String} (hpc : p.pc = .ready) : Failing p (.run (.throw message))
  | exiting {message : String} (hpc : p.pc = .subtract ∨ p.pc = .test ∨ p.pc = .closed) :
      Failing p (.exiting (some message))

/-- The read of a side has found its peer gone. -/
structure FailedInv (c : Side → Nat) (s : Experiment) (side : Side) : Prop where
  sides : SidesInv c s.sides
  failing : Failing (s.sides.party side) (s.control side)
  left : s.control side.peer = .exiting none
  gone : s.sides.gone side.peer = true

def Control.failingLeft (calls : Nat) : Control → Nat
  | .run _ => 3
  | .writing _ | .reading _ => 4
  | .exiting _ => calls

/-- The steps that both processes are from their end. -/
def Experiment.failedLeft (s : Experiment) (side : Side) : Nat :=
  (s.control side).failingLeft (s.sides.stepsLeft side) + s.sides.stepsLeft side.peer

section Failed

variable {c : Side → Nat} {script : Script} {s t : Experiment} {j : Side → Nat} {side b : Side}
  {p : Party} {control : Control}

theorem Failing.pc (h : Failing p control) :
    p.pc = .ready ∨ p.pc = .subtract ∨ p.pc = .test ∨ p.pc = .closed := by
  cases h with
  | returned hpc | throwing hpc => exact .inl hpc
  | exiting hpc => exact .inr hpc

theorem stepsLeft_gone {s : Sides} (h : s.gone side = true) : s.stepsLeft side ≤ 1 := by
  rw [Sides.gone, SidePc.gone, decide_eq_true_eq] at h
  rcases h with hpc | hpc <;> simp [Sides.stepsLeft, Sides.remaining, hpc]

theorem FailedInv.unstarved (h : FailedInv c s side) (b : Side) : s.sides.starved b = false := by
  rcases Side.eq_or_eq_peer b side with rfl | rfl
  · have hpc : s.sides.pc b = .ready ∨ s.sides.pc b = .subtract ∨ s.sides.pc b = .test ∨
      s.sides.pc b = .closed := h.failing.pc
    rcases hpc with hpc | hpc | hpc | hpc <;>
      exact h.sides.unstarved (by simp [hpc]) (by simp [hpc])
  · have hpc := h.gone
    rw [Sides.gone, SidePc.gone, decide_eq_true_eq] at hpc
    rcases hpc with hpc | hpc <;> exact h.sides.unstarved (by simp [hpc]) (by simp [hpc])

theorem FailedInv.own_step (h : FailedInv c s side) (hs : experimentStep s side = some t) :
    FailedInv c t side ∧ t.failedLeft side < s.failedLeft side := by
  have hinv := experimentStep_inv h.sides hs
  have hpeer := stepsLeft_peer h.sides hs
  have hparty := experimentStep_party hs
  have hcontrol := (experimentStep_own hs).1
  have hkeep : Failing (t.sides.party side) (t.control side) → FailedInv c t side := by
    intro hfailing
    refine ⟨hinv, hfailing, hcontrol.trans h.left, ?_⟩
    have hpc : t.sides.pc side.peer = s.sides.pc side.peer := congrArg Party.pc hparty
    rw [Sides.gone, hpc]
    exact h.gone
  have hfailing := h.failing
  rw [Experiment.failedLeft, Experiment.failedLeft, hpeer]
  unfold experimentStep at hs
  cases hc : s.control side with
  | writing next =>
    rw [hc] at hfailing
    cases hfailing
  | reading next =>
    rw [hc] at hfailing
    cases hfailing with
    | @returned _ received message hpc hreceived hthrow =>
      replace hpc : s.sides.pc side = .ready := hpc
      simp only [hc, if_pos hpc] at hs
      obtain ⟨record, hlast, rfl⟩ := Option.map_eq_some_iff.mp hs
      have hrecord : record.returned = received := by simpa [Sides.party, hlast] using hreceived
      refine ⟨hkeep ?_, ?_⟩
      · simp only [Experiment.goto, Function.update_self, hrecord, hthrow]
        exact .throwing hpc
      · simp only [Experiment.goto, Function.update_self, Control.failingLeft]
        omega
  | run program =>
    rw [hc] at hfailing
    cases hfailing with
    | throwing hpc =>
      simp only [hc, Experiment.call] at hs
      obtain ⟨sides, hsides, rfl⟩ := Option.map_eq_some_iff.mp hs
      have hbegun := begin_party hpc hsides
      have hsubtract : sides.pc side = .subtract := congrArg Party.pc hbegun
      refine ⟨hkeep ?_, ?_⟩
      · simp only [Experiment.goto, Function.update_self]
        exact .exiting (.inl hsubtract)
      · simp only [Experiment.goto, Function.update_self, Control.failingLeft, Sides.stepsLeft,
          hsubtract]
        omega
  | exiting message =>
    rw [hc] at hfailing
    cases hfailing with
    | exiting hpc =>
      replace hpc : s.sides.pc side = .subtract ∨ s.sides.pc side = .test ∨
        s.sides.pc side = .closed := hpc
      simp only [hc, Experiment.call] at hs
      obtain ⟨sides, hsides, rfl⟩ := Option.map_eq_some_iff.mp hs
      have hstep : sideStep s.sides side = some sides := hsides
      have hless := unstarved_step (h.unstarved side) hstep
      refine ⟨hkeep ?_, ?_⟩
      · simp only [Experiment.goto, Function.update_self]
        refine .exiting ?_
        cases sideStep_cases hstep with
        | subtract => exact .inr (.inl (by simp [Sides.party, Sides.goto]))
        | destroy | leave => exact .inr (.inr (by simp [Sides.party, Sides.goto]))
        | readGone _ hc | readCall _ _ hc | readStep _ _ hc | writeGone _ hc | writeCall _ _ hc
        | writeStep _ hc => simp [hc] at hpc
      · simp only [Experiment.goto, Function.update_self, Control.failingLeft]
        omega

theorem FailedInv.peer_step (h : FailedInv c s side) (hs : experimentStep s side.peer = some t) :
    FailedInv c t side ∧ t.failedLeft side < s.failedLeft side := by
  have hinv := experimentStep_inv h.sides hs
  have hleft := stepsLeft_peer h.sides hs
  have hparty := experimentStep_party hs
  have hcontrol := (experimentStep_own hs).1
  rw [Side.peer_peer] at hleft hparty hcontrol
  rw [Experiment.failedLeft, Experiment.failedLeft, hleft, hcontrol]
  unfold experimentStep at hs
  simp only [h.left, Experiment.call] at hs
  obtain ⟨sides, hsides, rfl⟩ := Option.map_eq_some_iff.mp hs
  have hstep : sideStep s.sides side.peer = some sides := hsides
  have hless := unstarved_step (h.unstarved side.peer) hstep
  refine ⟨⟨hinv, ?_, Function.update_self .., ?_⟩, Nat.add_lt_add_left hless _⟩
  · rw [hparty, hcontrol]
    exact h.failing
  · have hgone := h.gone
    rw [Sides.gone, SidePc.gone, decide_eq_true_eq] at hgone
    cases sideStep_cases hstep with
    | destroy | leave => simp [Experiment.goto, Sides.goto, Sides.gone, SidePc.gone]
    | subtract hc | readGone _ hc | readCall _ _ hc | readStep _ _ hc | writeGone _ hc
    | writeCall _ _ hc | writeStep _ hc => simp [hc] at hgone

/-- **A step of either process** brings both nearer to the end. -/
theorem FailedInv.step (h : FailedInv c s side) (hs : experimentStep s b = some t) :
    FailedInv c t side ∧ t.failedLeft side < s.failedLeft side := by
  rcases Side.eq_or_eq_peer b side with rfl | rfl
  · exact h.own_step hs
  · exact h.peer_step hs

theorem FailedInv.exists_live (h : FailedInv c s side)
    (hunfinished : ¬∀ side, s.finished side = true) : ∃ b, s.live b := by
  rw [not_forall] at hunfinished
  obtain ⟨b, hb⟩ := hunfinished
  exact ⟨b, Bool.not_eq_true _ |>.mp hb, h.unstarved b⟩

theorem FailedInv.thrown_peer (h : FailedInv c s side) : s.thrown side.peer = none := by
  rw [Experiment.thrown, h.left]

/-- **A read that finds its peer gone** brings both nearer to the end as well. -/
theorem ExchangeInv.failed (hf : Fits c script) (h : ExchangeInv c script s j)
    (hmiss : ¬FindsPeer s side) (hs : experimentStep s side = some t) :
    (FailedInv c t side ∧ LastRead script side (j side)) ∧
      t.failedLeft side < s.total script j := by
  obtain ⟨next, received, message, hreading, hpc, hreceived, hthrow⟩ := h.miss_step hf hmiss hs
  obtain ⟨hlast, -, -⟩ := h.misses hf hmiss
  obtain ⟨data, hj⟩ := hlast.1
  obtain ⟨hlt, -⟩ := List.getElem?_eq_some_iff.mp hj
  obtain ⟨hgone, -⟩ := check_of_misses hmiss
  have hsame : t.sides.pc side.peer = s.sides.pc side.peer :=
    congrArg Party.pc (experimentStep_party hs)
  have hgone' : t.sides.gone side.peer = true := by
    rw [Sides.gone, hsame]
    exact hgone
  have hle := stepsLeft_gone hgone'
  refine ⟨⟨⟨experimentStep_inv h.sides hs, ?_, ?_, hgone'⟩, hlast⟩, ?_⟩
  · rw [hreading]
    exact .returned hpc hreceived hthrow
  · rw [(experimentStep_own hs).1]
    exact ((h.track side.peer).gone hgone).1
  · rw [Experiment.failedLeft, hreading, total_eq s script j side, Experiment.left]
    simp only [Control.failingLeft]
    omega

/-- The program of a side that has found its peer gone throws, since it has read too little. -/
theorem ExchangeInv.throws (hf : Fits c script) (h : ExchangeInv c script s j)
    (he : Engaged s.sides side) (hmiss : ¬FindsPeer s side) :
    ∃ t u next received message, experimentStep s side = some t ∧ t.control side = .reading next ∧
      next received = .throw message ∧ experimentStep t side = some u ∧
      u.thrown side = some message := by
  obtain ⟨-, hcheck⟩ := check_of_misses hmiss
  have hfinished : s.finished side = false := by
    rw [Experiment.finished, decide_eq_false_iff_not]
    intro hclosed
    simp [hclosed] at hcheck
  obtain ⟨t, ht⟩ := h.step_isSome he hfinished
  obtain ⟨next, received, message, hreading, hpc, hreceived, hthrow⟩ := h.miss_step hf hmiss ht
  obtain ⟨record, hlast, hrecord⟩ := Option.map_eq_some_iff.mp hreceived
  have hu : experimentStep t side = some (t.goto side (.run (next record.returned))) := by
    simp only [experimentStep, hreading, if_pos hpc, hlast, Option.map_some]
  refine ⟨t, _, next, received, message, ht, hreading, hthrow, hu, ?_⟩
  simp only [Experiment.thrown, Experiment.goto, Function.update_self, hrecord, hthrow]

end Failed

/-! ### Weakly fair executions -/

/-- **A weakly fair execution of both programs ends.**  A side has thrown only if its last transfer
is a read, and then its peer has not. -/
theorem ExchangeInv.fair_ends {c : Side → Nat} {script : Script} {j : Side → Nat}
    {states : ℕ → Experiment} {schedule : ℕ → Side} (hf : Fits c script)
    (h : ExchangeInv c script (states 0) j)
    (hexec : Run.Executes experimentStep (fun s => ∀ side, s.finished side = true) schedule states)
    (hfair : Run.WeaklyFair Experiment.live schedule states) :
    ∃ n, (∀ side, (states n).finished side = true) ∧ ∀ side, (states n).thrown side ≠ none →
      (∃ k, LastRead script side k) ∧ (states n).thrown side.peer = none := by
  let R (s : Experiment) (left : ℕ) : Prop :=
    (∃ j, ExchangeInv c script s j ∧ s.total script j = left) ∨
      ∃ side, (FailedInv c s side ∧ ∃ k, LastRead script side k) ∧ s.failedLeft side = left
  have hstep : ∀ s left side t, R s left → experimentStep s side = some t →
      ∃ left', R t left' ∧ (left' < left ∨ ¬s.live side ∧ left' = left) := by
    rintro s - side t (⟨j, hs, rfl⟩ | ⟨failed, ⟨hs, hlast⟩, rfl⟩) hstep
    · by_cases hfinds : FindsPeer s side
      · obtain ⟨j', hinv, hless⟩ := hs.total_step hf hfinds hstep
        exact ⟨_, .inl ⟨j', hinv, rfl⟩, hless⟩
      · obtain ⟨⟨hinv, hlast⟩, hless⟩ := hs.failed hf hfinds hstep
        exact ⟨_, .inr ⟨side, ⟨hinv, _, hlast⟩, rfl⟩, .inl hless⟩
    · obtain ⟨hinv, hless⟩ := hs.step hstep
      exact ⟨_, .inr ⟨failed, ⟨hinv, hlast⟩, rfl⟩, .inl hless⟩
  have hlive : ∀ s left, R s left → (¬∀ side, s.finished side = true) → ∃ side, s.live side := by
    rintro s - (⟨j, hs, -⟩ | ⟨failed, ⟨hs, -⟩, -⟩) hunfinished
    · exact hs.exists_live hf hunfinished
    · exact hs.exists_live hunfinished
  have hkeep : ∀ s left side b t, R s left → experimentStep s side = some t → side ≠ b →
      s.live b → t.live b := by
    rintro s left side b t hs hstep hother hlive
    have hsides : SidesInv c s.sides := by
      rcases hs with ⟨j, hs, -⟩ | ⟨failed, ⟨hs, -⟩, -⟩
      · exact hs.sides
      · exact hs.sides
    obtain rfl := (Side.eq_or_eq_peer b side).resolve_left hother.symm
    exact peer_live hsides hstep hlive
  obtain ⟨n, _, hn, hfinished⟩ :=
    Run.fair_ends hstep hlive hkeep (.inl ⟨j, h, rfl⟩) hexec hfair
  refine ⟨n, hfinished, ?_⟩
  intro side hthrown
  rcases hn with ⟨j', hinv, -⟩ | ⟨failed, ⟨hinv, hlast⟩, -⟩
  · exact absurd (hinv.thrown_eq side) hthrown
  · rcases Side.eq_or_eq_peer side failed with rfl | rfl
    · exact ⟨hlast, hinv.thrown_peer⟩
    · exact absurd hinv.thrown_peer hthrown

end Tssx
