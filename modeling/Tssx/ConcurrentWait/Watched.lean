import Tssx.ConcurrentWait.WakeUp

/-!
# Real calls that a signal ends

The normal thread takes `EINTR` for the signal of the TSSX thread and finishes.  A signal with
another handler ends the real call in the same way, and then nobody watches the normal
descriptors although the TSSX thread has found nothing and goes on: `watched` says which runs
of `_concurrent_poll` and `_concurrent_epoll_wait` come to that.
-/

namespace Tssx

variable {ο μ ρ : Type} {c : ConcurrentWait ο μ ρ} {s t : WaitState ο μ ρ} {a : WaitAction ο ρ}
  {as : List (WaitAction ο ρ)} {memory : μ} {blocked : Bool}

/-- The TSSX thread is in its loop, or about to begin, and has found nothing. -/
def WaitState.Searching (s : WaitState ο μ ρ) : Prop :=
  s.found = 0 ∧ (s.tssx.unfound = true ∨ s.tssx = .load)

instance (s : WaitState ο μ ρ) : Decidable s.Searching :=
  inferInstanceAs (Decidable (s.found = 0 ∧ _))

/-- The real call was not made or has been interrupted: no events, no error and no timeout. -/
def WaitState.Empty (s : WaitState ο μ ρ) : Prop := ∀ r, s.result = some r → r = .interrupted

/-- The normal thread is gone, and nobody watches its descriptors. -/
def WaitState.Unwatched (s : WaitState ο μ ρ) : Prop :=
  s.normal = .finished ∧ s.Empty ∧ s.Searching

/-- No signal but that of the TSSX thread ends the real call while the TSSX thread searches. -/
def NoForeignSignal (s : WaitState ο μ ρ) : WaitAction ο ρ → Prop
  | .wake .interrupted => ¬ s.Searching
  | _ => True

instance (s : WaitState ο μ ρ) : ∀ a, Decidable (NoForeignSignal s a)
  | .wake .interrupted => inferInstanceAs (Decidable (¬ s.Searching))
  | .wake (.events _) | .wake .failed | .tssx | .scan _ | .clock _ | .normal | .deliver =>
    isTrue trivial

/-- The normal thread has left the real call with nothing, so the TSSX thread has not. -/
def WaitState.Watched (s : WaitState ο μ ρ) : Prop :=
  s.normal.unwaited = false → s.Empty → ¬ s.Searching

theorem searching_of_unfound (hi : WaitInv c s) (h : s.tssx.unfound = true) : s.Searching :=
  ⟨hi.unfound h, .inl h⟩

theorem searching_back (hi : WaitInv c s) (h : WaitMove c s a t) (ht : t.Searching) :
    s.Searching := by
  cases h with
  | ready hpc _ | scan _ _ _ hpc _ | again _ hpc =>
    exact searching_of_unfound hi (by rw [hpc]; rfl)
  | hasNone hpc _ hf => exact ⟨hf, .inr hpc⟩
  | seesError | seesEvents | hasEvents | kill | elapsed | add | join | finish =>
    rcases ht.2 with hu | hl
    · cases hu
    · cases hl
  | signal | seesNone | skip | enter | foreignError | ownError | noEvents | ownEvents | store
  | addCount | wake | interrupt | handle => exact ht

theorem not_searching (hi : WaitInv c s) (hn : s.normal ≠ .finished) (h0 : s.eventCount ≠ 0) :
    ¬ s.Searching := by
  rintro ⟨hf, hpc⟩
  have hadded : s.tssx.added = false := by
    cases htssx : s.tssx <;> rw [htssx] at hpc <;>
      first | rfl | (rcases hpc with hpc | hpc <;> cases hpc)
  have hcount := hi.counted (stored_of_running hn)
  rw [normalAdded_of_running hn, tssxAdded_of_running hadded] at hcount
  exact h0 hcount

theorem watched_move (hi : WaitInv c s) (hs : s.SentInv) (hp : s.pending = true → s.sent = true)
    (hw : s.Watched) (ha : NoForeignSignal s a) (h : WaitMove c s a t) : t.Watched := by
  have back := searching_back hi h
  cases h with
  | ready | scan | seesError | seesEvents | hasEvents | hasNone | kill | elapsed | again | add
  | join | finish | handle => exact fun hn he ht => hw hn he (back ht)
  | signal | seesNone | enter => exact nofun
  | skip hpc h0 => exact fun _ _ ht => not_searching hi (by rw [hpc]; decide) h0 (back ht)
  | foreignError hpc _ | ownError hpc _ _ | noEvents hpc _ _ | ownEvents hpc _ _ | store hpc
  | addCount hpc => exact fun _ he ht => hw (by rw [hpc]; rfl) he ht
  | wake r hpc =>
    intro _ he
    obtain rfl := he r rfl
    exact ha
  | interrupt hpc hpend _ =>
    -- the signal comes from the TSSX thread, which has found events
    rintro - - ⟨hf, -⟩
    have hfound : 0 < s.found := (hs (hp hpend)).1
    exact Nat.ne_of_gt hfound hf

theorem pending_sent (hp : s.pending = true → s.sent = true) (h : WaitMove c s a t) :
    t.pending = true → t.sent = true := by
  cases h with
  | kill => exact fun _ => rfl
  | interrupt | handle => exact nofun
  | _ => exact hp

/-- What a foreign signal means for the normal descriptors in a run. -/
structure StaysWatched (c : ConcurrentWait ο μ ρ) (memory : μ) (blocked : Bool)
    (as : List (WaitAction ο ρ)) : Prop where
  /-- Without one during the search, the descriptors are watched in every state of the run. -/
  kept : Run.Meets (waitStep c) NoForeignSignal (c.init memory blocked) as →
    ∀ t, Run.Visits (waitStep c) (c.init memory blocked) as t → ¬ t.Unwatched
  /-- Otherwise they are not in a state that can be reached from one of the run. -/
  broken : ¬ Run.Meets (waitStep c) NoForeignSignal (c.init memory blocked) as →
    ∃ t u, Run.Visits (waitStep c) (c.init memory blocked) as t ∧
      Run.Reaches (waitStep c) t u ∧ u.Unwatched

theorem unwaited_of_running {pc : NormalPc} (h : pc = .finished) : pc.unwaited = false := by
  rw [h]; rfl

/-- The thread that a foreign signal has woken has one more step to make. -/
theorem unwatched_of_wake (hi : WaitInv c s) (hs : s.Searching)
    (h : WaitMove c s (.wake .interrupted) t) :
    ∃ u, Run.Reaches (waitStep c) t u ∧ u.Unwatched := by
  cases h with
  | wake r hpc =>
    have herr : s.eventCount ≠ ERROR := by
      intro he
      have hst := hi.error_stored he
      rw [stored_of_running (by rw [hpc]; decide)] at hst
      cases hst
    refine ⟨{ s with
      memory := c.recordResult .interrupted s.memory, result := some .interrupted,
      normal := .finished }, .single (a := .normal) ?_, rfl, ?_, hs⟩
    · simp [waitStep, normalStep, thereWasAnError, herr]
    · intro r hr
      exact (Option.some.inj hr).symm

theorem staysWatched (h : (Run.run (waitStep c) (c.init memory blocked) as).isSome) :
    StaysWatched c memory blocked as := by
  constructor
  · intro hm t hv ht
    have hinv : WaitInv c t ∧ t.SentInv ∧ (t.pending = true → t.sent = true) ∧ t.Watched := by
      refine Run.visits_induct (I := fun s => WaitInv c s ∧ s.SentInv ∧
        (s.pending = true → s.sent = true) ∧ s.Watched) ?_ ?_ hm hv
      · rintro s a t ⟨hi, hs, hp, hw⟩ ha hstep
        have hmove := waitMove hstep
        exact ⟨waitInv_move hi hmove, sentInv_move hi hs hmove, pending_sent hp hmove,
          watched_move hi hs hp hw ha hmove⟩
      · refine ⟨waitInv_init c memory blocked, nofun, nofun, ?_⟩
        intro hn
        cases hh : c.handshake <;> simp [ConcurrentWait.init, hh, NormalPc.unwaited] at hn
    exact hinv.2.2.2 (unwaited_of_running ht.1) ht.2.1 ht.2.2
  · intro hm
    obtain ⟨s, a, t, ⟨bs, -, hrun⟩, hv, hstep, hn⟩ := Run.exists_of_not_meets h hm
    have hi : WaitInv c s := waitInv_reaches ⟨bs, hrun⟩
    cases a with
    | wake r =>
      cases r with
      | interrupted =>
        obtain ⟨u, hu, hbad⟩ := unwatched_of_wake hi (not_not.mp hn) (waitMove hstep)
        exact ⟨t, u, hv, hu, hbad⟩
      | events | failed => exact absurd trivial hn
    | _ => exact absurd trivial hn

/-- **Normal descriptors of the concurrent waits**, for every interleaving and timeout. -/
theorem watched (start : Nat) (timeout : Int) (blocked : Bool) :
    (∀ memory as,
      (Run.run (waitStep (concurrentPoll start timeout))
          ((concurrentPoll start timeout).init memory blocked) as).isSome →
        StaysWatched (concurrentPoll start timeout) memory blocked as) ∧
      ∀ n memory as,
        (Run.run (waitStep (concurrentEpollWait n start timeout))
            ((concurrentEpollWait n start timeout).init memory blocked) as).isSome →
          StaysWatched (concurrentEpollWait n start timeout) memory blocked as :=
  ⟨fun _ _ h => staysWatched h, fun _ _ _ h => staysWatched h⟩

private def descriptors : PollMemory where
  tssxFds := [{ connection := 0, poll := { fd := 5, events := POLLIN, revents := 0 } }]
  normalFds := [{ fd := 6, events := POLLIN, revents := 0 }]

private def seen (ready : Bool) : Nat → Observation :=
  fun _ => { peerDied := false, ready := fun _ => ready }

/-- Both threads are on their way, and the TSSX thread has made its first loop. -/
private def firstLoop (ready : Bool) : List (WaitAction (Nat → Observation) (List (BitVec 16))) :=
  [.normal, .tssx, .normal, .normal, .scan (seen ready), .tssx]

theorem watched_at :
    (∃ s, Run.run (waitStep (concurrentPoll 0 (-1)))
        ((concurrentPoll 0 (-1)).init descriptors false)
        (firstLoop true ++ [.wake .interrupted, .normal]) = some s ∧ s.normal = .finished) ∧
      ∀ t, Run.Visits (waitStep (concurrentPoll 0 (-1)))
        ((concurrentPoll 0 (-1)).init descriptors false)
        (firstLoop true ++ [.wake .interrupted, .normal]) t → ¬ t.Unwatched := by
  refine ⟨⟨_, rfl, rfl⟩, ?_⟩
  exact ((watched 0 (-1) false).1 descriptors _ (by decide)).kept (by decide)

/-- **Nobody watches the normal descriptors**: the signal of somebody else ends the real call of
a `poll` without a timeout, and the TSSX thread goes on with its next loop. -/
theorem watched_lost :
    ∃ s, Run.Reaches (waitStep (concurrentPoll 0 (-1)))
      ((concurrentPoll 0 (-1)).init descriptors false) s ∧ s.Unwatched ∧ s.tssx = .scan :=
  ⟨_, ⟨firstLoop false ++ [.wake .interrupted, .normal, .clock 5], rfl⟩,
    ⟨rfl, fun _ hr => (Option.some.inj hr).symm, rfl, .inl rfl⟩, rfl⟩

end Tssx
