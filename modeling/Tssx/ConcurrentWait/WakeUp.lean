import Tssx.ConcurrentWait.Invariant
import Tssx.Epoll.Wait
import Tssx.Poll

/-!
# Signals that wake nobody

A TSSX thread that has found events sends a signal, adds its count and joins the normal thread.
The signal ends a real call in progress only.  If it is handled before the call begins, or is
blocked, the normal thread is asleep with nobody left to wake it: `asleep_iff` says which steps
put it to sleep, and `wake_up` which runs of `_concurrent_poll` and `_concurrent_epoll_wait`
lose a wake-up.
-/

namespace Tssx

variable {ο μ ρ : Type} {c : ConcurrentWait ο μ ρ} {s t : WaitState ο μ ρ} {a : WaitAction ο ρ}
  {as : List (WaitAction ο ρ)} {memory : μ} {blocked : Bool}

/-- The signal was sent, and the real call in progress will not see it. -/
def WaitState.Asleep (s : WaitState ο μ ρ) : Prop :=
  s.sent = true ∧ s.normal = .waiting ∧ ¬ (s.pending = true ∧ s.blocked = false)

/-- The TSSX thread has found events and waits in `pthread_join` for a sleeping thread. -/
def WaitState.Lost (s : WaitState ο μ ρ) : Prop :=
  0 < s.found ∧ s.tssx = .join ∧ s.Asleep

/-- A signal sent to a thread in the real call is not blocked, and a thread that enters the
call after the signal was sent has it pending and not blocked. -/
def SignalArrives (s : WaitState ο μ ρ) : WaitAction ο ρ → Prop
  | .tssx => s.tssx = .kill → s.normal = .waiting → s.blocked = false
  | .normal => s.normal = .enterWait → s.sent = true → s.pending = true ∧ s.blocked = false
  | _ => True

instance (s : WaitState ο μ ρ) : ∀ a, Decidable (SignalArrives s a)
  | .tssx | .normal => inferInstanceAs (Decidable (_ → _ → _))
  | .scan _ | .clock _ | .wake _ | .deliver => inferInstanceAs (Decidable True)

theorem not_asleep_of_awake (h : s.normal ≠ .waiting) : ¬ s.Asleep := fun ha => h ha.2.1

/-- **The step lemma**: only a signal that does not arrive leaves a thread asleep. -/
theorem asleep_iff (hp : ¬ s.Asleep) (h : WaitMove c s a t) : ¬ t.Asleep ↔ SignalArrives s a := by
  cases a with
  | tssx =>
    cases h with
    | kill hpc =>
      constructor
      · intro ht _ hw
        by_contra hb
        exact ht ⟨rfl, hw, fun hpb => hb hpb.2⟩
      · rintro hs ⟨-, hw, hn⟩
        exact hn ⟨rfl, hs hpc hw⟩
    | ready hpc _ | seesError hpc _ | seesEvents hpc _ _ | hasEvents hpc _ _ | hasNone hpc _ _
    | add hpc | join hpc _ | finish _ hpc _ =>
      apply iff_of_true hp
      intro hk
      rw [hpc] at hk
      cases hk
  | scan o => cases h; exact iff_of_true hp trivial
  | clock now => cases h <;> exact iff_of_true hp trivial
  | normal =>
    cases h with
    | enter hpc =>
      constructor
      · intro ht _ hs
        by_contra hn
        exact ht ⟨hs, rfl, hn⟩
      · rintro ha ⟨hs, -, hn⟩
        exact hn (ha hpc hs)
    | signal hpc | seesNone hpc _ | skip hpc _ | foreignError hpc _ | ownError hpc _ _
    | noEvents hpc _ _ | ownEvents hpc _ _ | store hpc | addCount hpc =>
      refine iff_of_true (not_asleep_of_awake nofun) ?_
      intro hk
      rw [hpc] at hk
      cases hk
  | wake r => cases h; exact iff_of_true (not_asleep_of_awake nofun) trivial
  | deliver =>
    cases h with
    | interrupt _ _ _ => exact iff_of_true (not_asleep_of_awake nofun) trivial
    | handle hpc _ _ => exact iff_of_true (not_asleep_of_awake hpc) trivial

/-- **No thread falls asleep** in exactly the runs in which the signal arrives. -/
theorem never_asleep_iff (h : (Run.run (waitStep c) (c.init memory blocked) as).isSome) :
    (∀ t, Run.Visits (waitStep c) (c.init memory blocked) as t → ¬ t.Asleep) ↔
      Run.Meets (waitStep c) SignalArrives (c.init memory blocked) as := by
  refine Run.visits_iff_meets (J := fun _ => True) (fun _ _ _ _ _ _ => trivial)
    (fun _ _ _ _ hp hs => asleep_iff hp (waitMove hs)) trivial ?_ h
  rintro ⟨hs, -⟩
  cases hs

/-! ### A sleeping thread is lost -/

/-- After the signal, only the addition is left before the join. -/
def WaitState.SentInv (s : WaitState ο μ ρ) : Prop :=
  s.sent = true → 0 < s.found ∧ (s.tssx = .add ∨ s.tssx.added = true)

theorem sentInv_move (hi : WaitInv c s) (hs : s.SentInv) (h : WaitMove c s a t) : t.SentInv := by
  cases h with
  | ready hpc _ | scan _ _ _ hpc _ | hasEvents hpc _ _ | hasNone hpc _ _ | elapsed _ hpc
  | again _ hpc | seesError hpc _ | seesEvents hpc _ _ =>
    intro hsent
    have ht := (hs hsent).2
    rw [hpc] at ht
    rcases ht with ht | ht <;> cases ht
  | kill hpc => exact fun _ => ⟨hi.killing hpc, .inl rfl⟩
  | add _ | join _ _ | finish _ _ _ => exact fun hsent => ⟨(hs hsent).1, .inr rfl⟩
  | signal _ | seesNone _ _ | skip _ _ | enter _ | foreignError _ _ | ownError _ _ _
  | noEvents _ _ _ | ownEvents _ _ _ | store _ | addCount _ | wake _ _ | interrupt _ _ _
  | handle _ _ _ => exact hs

theorem lost_of_asleep (hi : WaitInv c s) (hs : s.SentInv) (ha : s.Asleep) :
    ∃ t, Run.Reaches (waitStep c) s t ∧ t.Lost := by
  obtain ⟨hf, htssx⟩ := hs ha.1
  rcases htssx with hadd | hadded
  · refine ⟨{ s with eventCount := s.eventCount + s.found, tssx := .join }, ?_, hf, rfl, ha⟩
    exact .single (a := .tssx) (by simp [waitStep, tssxStep, hadd])
  · refine ⟨s, .refl s, hf, ?_, ha⟩
    have hrun : s.tssx.pastJoin ≠ true := by
      intro hj
      have := hi.joined hj
      rw [ha.2.1] at this
      cases this
    cases hpc : s.tssx <;> simp_all [TssxPc.added, TssxPc.pastJoin]

/-- What the arrival of the signal means for the wake-up in a run. -/
structure WakesUp (c : ConcurrentWait ο μ ρ) (memory : μ) (blocked : Bool)
    (as : List (WaitAction ο ρ)) : Prop where
  /-- If every signal arrives, no state of the run is lost. -/
  kept : Run.Meets (waitStep c) SignalArrives (c.init memory blocked) as →
    ∀ t, Run.Visits (waitStep c) (c.init memory blocked) as t → ¬ t.Lost
  /-- Otherwise a lost state can be reached from one of its states. -/
  broken : ¬ Run.Meets (waitStep c) SignalArrives (c.init memory blocked) as →
    ∃ t u, Run.Visits (waitStep c) (c.init memory blocked) as t ∧
      Run.Reaches (waitStep c) t u ∧ u.Lost

theorem wakesUp (h : (Run.run (waitStep c) (c.init memory blocked) as).isSome) :
    WakesUp c memory blocked as := by
  have hasleep := never_asleep_iff h
  constructor
  · intro hm t hv hl
    exact hasleep.mpr hm t hv hl.2.2
  · intro hm
    obtain ⟨t, ht⟩ := not_forall.mp (mt hasleep.mp hm)
    obtain ⟨hv, hn⟩ := Classical.not_imp.mp ht
    have ⟨hi, hs⟩ : WaitInv c t ∧ t.SentInv := by
      obtain ⟨bs, -, hrun⟩ := hv
      refine Run.run_induct (I := fun s => WaitInv c s ∧ s.SentInv) ?_
        ⟨waitInv_init c memory blocked, nofun⟩ hrun
      rintro s a t ⟨hi, hs⟩ hstep
      exact ⟨waitInv_move hi (waitMove hstep), sentInv_move hi hs (waitMove hstep)⟩
    obtain ⟨u, hreach, hlost⟩ := lost_of_asleep hi hs (not_not.mp hn)
    exact ⟨t, u, hv, hreach, hlost⟩

/-- **Wake-ups of the concurrent waits**, for every interleaving, signal mask and timeout. -/
theorem wake_up (start : Nat) (timeout : Int) (blocked : Bool) :
    (∀ memory as,
      (Run.run (waitStep (concurrentPoll start timeout))
          ((concurrentPoll start timeout).init memory blocked) as).isSome →
        WakesUp (concurrentPoll start timeout) memory blocked as) ∧
      ∀ n memory as,
        (Run.run (waitStep (concurrentEpollWait n start timeout))
            ((concurrentEpollWait n start timeout).init memory blocked) as).isSome →
          WakesUp (concurrentEpollWait n start timeout) memory blocked as :=
  ⟨fun _ _ h => wakesUp h, fun _ _ _ h => wakesUp h⟩

private def readyEntry : PollMemory where
  tssxFds := [{ connection := 0, poll := { fd := 5, events := POLLIN, revents := 0 } }]
  normalFds := [{ fd := 6, events := POLLIN, revents := 0 }]

private def ready : Nat → Observation := fun _ => { peerDied := false, ready := fun _ => true }

/-- The signal reaches a normal thread that is in the real call. -/
private def interrupted : List (WaitAction (Nat → Observation) (List (BitVec 16))) :=
  [.normal, .tssx, .normal, .normal, .scan ready, .tssx, .tssx, .deliver, .tssx]

theorem wake_up_at :
    (∃ s, Run.run (waitStep (concurrentPoll 0 (-1)))
        ((concurrentPoll 0 (-1)).init readyEntry false) interrupted = some s ∧
        s.sent = true ∧ s.tssx = .join) ∧
      ∀ t, Run.Visits (waitStep (concurrentPoll 0 (-1)))
        ((concurrentPoll 0 (-1)).init readyEntry false) interrupted t → ¬ t.Lost := by
  refine ⟨⟨_, rfl, rfl, rfl⟩, ?_⟩
  exact ((wake_up 0 (-1) false).1 readyEntry interrupted (by decide)).kept (by decide)

/-- **A wake-up is lost**: the signal is handled between the normal thread's look at the counter
and its real call. -/
theorem wake_up_lost :
    ∃ s, Run.Reaches (waitStep (concurrentPoll 0 (-1)))
      ((concurrentPoll 0 (-1)).init readyEntry false) s ∧ s.Lost :=
  ⟨_, ⟨[.normal, .tssx, .normal, .scan ready, .tssx, .tssx, .deliver, .normal, .tssx], rfl⟩,
    by decide, rfl, rfl, rfl, by decide⟩

end Tssx
