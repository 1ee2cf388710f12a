import Tssx.ConcurrentWait.Invariant
import Tssx.Epoll.Scan
import Tssx.Poll

/-!
# What a concurrent wait returns

The error of the real call and the two counts share one counter.  If the error is stored
between the last load of a TSSX thread that has found events and its addition, the addition
makes a count of the error.  `outcome_iff_meets` says that nothing else goes wrong, and
`concurrent_wait_outcome` that it is so for `_concurrent_poll` and `_concurrent_epoll_wait`.
-/

namespace Tssx

variable {ο μ ρ : Type} {c : ConcurrentWait ο μ ρ} {s t : WaitState ο μ ρ} {a : WaitAction ο ρ}
  {as : List (WaitAction ο ρ)} {memory : μ} {blocked : Bool} {value : Int}

/-- The value reports both threads' results. -/
structure Outcome (c : ConcurrentWait ο μ ρ) (s : WaitState ο μ ρ) (value : Int) : Prop where
  error : value = ERROR ↔ s.failed = true
  count : s.failed = false → value = s.found + c.normalCount s.result

/-- The TSSX thread has found events, has seen no error and will make its addition. -/
def WaitState.committed (s : WaitState ο μ ρ) : Bool :=
  decide (0 < s.found) && (s.tssx == .kill || s.tssx == .add)

/-- If the step stores the error, the TSSX thread can still see it. -/
def ErrorSeen (s : WaitState ο μ ρ) : WaitAction ο ρ → Prop
  | .normal => s.normal = .storeError → s.committed = false
  | _ => True

instance (s : WaitState ο μ ρ) : ∀ a, Decidable (ErrorSeen s a)
  | .normal => inferInstanceAs (Decidable (_ → _))
  | .tssx | .scan _ | .clock _ | .wake _ | .deliver => inferInstanceAs (Decidable True)

/-- The error was stored, and is or will be changed by the addition. -/
def WaitState.Overwritten (s : WaitState ο μ ρ) : Prop :=
  s.stored = true ∧ (s.eventCount ≠ ERROR ∨ s.committed = true)

theorem not_overwritten_iff :
    ¬ s.Overwritten ↔ (s.stored = true → s.eventCount = ERROR ∧ s.committed = false) := by
  unfold WaitState.Overwritten
  constructor
  · intro h hst
    constructor
    · by_contra he
      exact h ⟨hst, .inl he⟩
    · by_contra hc
      exact h ⟨hst, .inr (Bool.not_eq_false _ |>.mp hc)⟩
  · rintro h ⟨hst, he | hc⟩
    · exact he (h hst).1
    · rw [(h hst).2] at hc
      cases hc

theorem not_overwritten_of_running (h : s.normal ≠ .finished) : ¬ s.Overwritten := by
  rintro ⟨hst, -⟩
  rw [stored_of_running h] at hst
  cases hst

theorem not_overwritten_of_not_failed (h : s.failed = false) : ¬ s.Overwritten := by
  rintro ⟨hst, -⟩
  rw [WaitState.stored, h, Bool.and_false] at hst
  cases hst

theorem committed_of_found (h : s.found = 0) : s.committed = false := by
  simp [WaitState.committed, h]

theorem committed_of_pc (hk : s.tssx ≠ .kill) (ha : s.tssx ≠ .add) : s.committed = false := by
  simp [WaitState.committed, hk, ha]

/-- **The steps of the TSSX thread overwrite no error** that it can still see. -/
theorem tssx_keeps_error (hi : WaitInv c s) (hp : ¬ s.Overwritten) (h : WaitMove c s .tssx t) :
    ¬ t.Overwritten := by
  rw [not_overwritten_iff] at hp ⊢
  cases h with
  | ready _ _ | seesError _ _ | hasNone _ _ _ | join _ _ | finish _ _ _ =>
    exact fun hst => ⟨(hp hst).1, committed_of_pc nofun nofun⟩
  | seesEvents _ he _ => exact fun hst => absurd (hp hst).1 he
  | hasEvents _ h0 _ =>
    intro hst
    have he := (hp hst).1
    rw [show s.eventCount = 0 from h0] at he
    cases he
  | kill hpc =>
    intro hst
    have hc := (hp hst).2
    simp [WaitState.committed, hpc, hi.killing hpc] at hc
  | add hpc =>
    intro hst
    obtain ⟨he, hc⟩ := hp hst
    have hf : s.found = 0 := by simpa [WaitState.committed, hpc] using hc
    refine ⟨?_, committed_of_pc nofun nofun⟩
    show s.eventCount + s.found = ERROR
    rw [he, hf]
    rfl

/-- **The step lemma**: only an unseen error is overwritten. -/
theorem overwritten_iff (hi : WaitInv c s) (hp : ¬ s.Overwritten) (h : WaitMove c s a t) :
    ¬ t.Overwritten ↔ ErrorSeen s a := by
  cases a with
  | tssx => exact iff_of_true (tssx_keeps_error hi hp h) trivial
  | scan o =>
    refine iff_of_true ?_ trivial
    cases h
    exact not_overwritten_iff.mpr fun hst =>
      ⟨(not_overwritten_iff.mp hp hst).1, committed_of_pc nofun nofun⟩
  | clock now =>
    refine iff_of_true (not_overwritten_iff.mpr ?_) trivial
    intro hst
    cases h with
    | elapsed _ hpc =>
      exact ⟨(not_overwritten_iff.mp hp hst).1, committed_of_found (hi.unfound (by rw [hpc]; rfl))⟩
    | again _ hpc =>
      exact ⟨(not_overwritten_iff.mp hp hst).1, committed_of_pc nofun nofun⟩
  | normal =>
    cases h with
    | signal hpc | seesNone hpc _ | skip hpc _ | enter hpc | ownError hpc _ _ | ownEvents hpc _ _ =>
      apply iff_of_true (not_overwritten_of_running (by simp))
      intro hs
      rw [hpc] at hs
      cases hs
    | foreignError hpc he =>
      have hst := hi.error_stored he
      rw [stored_of_running (by rw [hpc]; decide)] at hst
      cases hst
    | noEvents hpc _ hr =>
      refine iff_of_true (not_overwritten_of_not_failed ?_) ?_
      · rw [WaitState.failed, hr]
        rfl
      · intro hs
        rw [hpc] at hs
        cases hs
    | addCount hpc =>
      refine iff_of_true (not_overwritten_of_not_failed ?_) ?_
      · exact hi.adding hpc
      · intro hs
        rw [hpc] at hs
        cases hs
    | store hpc =>
      constructor
      · intro ht _
        exact (not_overwritten_iff.mp ht (by simp [WaitState.stored]; exact hi.storing hpc)).2
      · exact fun hc => not_overwritten_iff.mpr fun _ => ⟨rfl, hc hpc⟩
  | wake r =>
    cases h
    exact iff_of_true (not_overwritten_of_running (by simp)) trivial
  | deliver =>
    cases h with
    | interrupt _ _ _ => exact iff_of_true (not_overwritten_of_running (by simp)) trivial
    | handle _ _ _ => exact iff_of_true hp trivial

theorem finished_of_stored (h : s.stored = true) : s.normal = .finished := by
  by_contra hn
  rw [stored_of_running hn] at h
  cases h

theorem overwritten_stays (hi : WaitInv c s) (h : WaitMove c s a t) (hs : s.Overwritten) :
    t.Overwritten := by
  obtain ⟨hst, ho⟩ := hs
  have hfin := finished_of_stored hst
  cases h with
  | signal hpc | seesNone hpc _ | skip hpc _ | enter hpc | foreignError hpc _ | ownError hpc _ _
  | noEvents hpc _ _ | ownEvents hpc _ _ | store hpc | addCount hpc | wake _ hpc
  | interrupt hpc _ _ =>
    rw [hpc] at hfin
    cases hfin
  | ready hpc _ | scan _ _ _ hpc _ | seesError hpc _ | seesEvents hpc _ _ | hasEvents hpc _ _
  | hasNone hpc _ _ | elapsed _ hpc | again _ hpc | join hpc _ | finish _ hpc _ =>
    have hc : s.committed = false := committed_of_pc (by rw [hpc]; decide) (by rw [hpc]; decide)
    rw [hc] at ho
    exact ⟨hst, ho.imp id nofun⟩
  | kill hpc => exact ⟨hst, .inr (by simp [WaitState.committed, hi.killing hpc])⟩
  | add hpc =>
    refine ⟨hst, .inl ?_⟩
    show s.eventCount + s.found ≠ ERROR
    have hov := hi.overwritten hst
    simp only [WaitState.committed, hpc] at ho
    rw [ERROR] at hov ho ⊢
    rcases ho with he | hc
    · omega
    · have hf : 0 < s.found := by simpa using hc
      omega
  | handle _ _ _ => exact ⟨hst, ho⟩

theorem outcome_iff (hi : WaitInv c s) (hr : s.tssx = .returned value) :
    Outcome c s value ↔ ¬ s.Overwritten := by
  have hv := hi.returned value hr
  have hfin := hi.joined (by rw [hr]; rfl)
  have hc : s.committed = false := committed_of_pc (by rw [hr]; nofun) (by rw [hr]; nofun)
  rw [not_overwritten_iff, stored_of_finished hfin]
  cases hf : s.failed with
  | false =>
    have hcount := returned_count hi hr hf
    refine iff_of_true ⟨?_, fun _ => hcount⟩ nofun
    rw [hf, ERROR]
    exact iff_of_false (by omega) nofun
  | true =>
    constructor
    · exact fun ho _ => ⟨hv ▸ ho.error.mpr hf, hc⟩
    · intro he
      refine ⟨?_, fun h => by rw [hf] at h; cases h⟩
      rw [hf, hv]
      exact iff_of_true (he rfl).1 rfl

/-- **The outcome of a concurrent wait**, for every interleaving that returns: it is right if
and only if no step stores an unseen error. -/
theorem outcome_iff_meets (h : Run.run (waitStep c) (c.init memory blocked) as = some s)
    (hr : s.tssx = .returned value) :
    Outcome c s value ↔ Run.Meets (waitStep c) ErrorSeen (c.init memory blocked) as := by
  have hinit := waitInv_init c memory blocked
  have hstart : ¬ (c.init memory blocked).Overwritten := by
    refine not_overwritten_of_running ?_
    cases hh : c.handshake <;> simp [ConcurrentWait.init, hh]
  rw [outcome_iff (waitInv_reaches ⟨as, h⟩) hr]
  rw [← Run.visits_iff_meets (J := WaitInv c) (P := fun s => ¬ s.Overwritten)
    (fun _ _ _ hi _ hs => waitInv_move hi (waitMove hs))
    (fun _ _ _ hi hp hs => overwritten_iff hi hp (waitMove hs)) hinit hstart (by rw [h]; rfl)]
  exact (Run.visits_iff_last (fun _ _ _ hi hs => waitInv_move hi (waitMove hs))
    (fun _ _ _ hi hs => mt (overwritten_stays hi (waitMove hs))) hinit h).symm

/-! ### `poll` and `epoll_wait` -/

/-- The caller's array starts with the normal events, and the events of the TSSX entries follow
them. -/
def EventsJoined (s : WaitState (Nat → Observation) EpollMemory (List EpollEvent)) : Prop :=
  s.memory.events.take ((normalEvents s.result).length + s.found) =
    normalEvents s.result ++ s.memory.tssxEvents.take s.found

theorem eventsJoined {n start : Nat} {timeout : Int} {entries : List EpollEntry}
    {events : EventBuffer} {allocated : Bool}
    {as : List (WaitAction (Nat → Observation) (List EpollEvent))}
    {s : WaitState (Nat → Observation) EpollMemory (List EpollEvent)}
    (h : Run.run (waitStep (concurrentEpollWait n start timeout))
      ((concurrentEpollWait n start timeout).init (.init entries events n allocated) blocked) as =
        some s)
    (hr : s.tssx = .returned value) (hf : s.failed = false) : EventsJoined s := by
  have hk := epollKept_run (A := fun _ => True) trivial (fun _ _ => trivial) h
  have hevents := events_returned (fun _ _ _ hq => hq.1.written) (waitInv_reaches ⟨as, h⟩) hk hr hf
  have htake := @EventBuffer.take_writeFrom events
    (normalEvents s.result ++ s.memory.tssxEvents.take s.found)
  rwa [← hevents, List.length_append, EventBuffer.length_take] at htake

/-- **What the concurrent waits return**: the value and, for `epoll_wait`, the array report
the results of both threads if and only if no step stores an error that the TSSX thread does
not see any more. -/
theorem concurrent_wait_outcome (start : Nat) (timeout : Int) (blocked : Bool) (value : Int) :
    (∀ memory as s,
      Run.run (waitStep (concurrentPoll start timeout))
          ((concurrentPoll start timeout).init memory blocked) as = some s →
        s.tssx = .returned value →
        (Outcome (concurrentPoll start timeout) s value ↔
          Run.Meets (waitStep (concurrentPoll start timeout)) ErrorSeen
            ((concurrentPoll start timeout).init memory blocked) as)) ∧
      ∀ n entries events allocated as s,
        Run.run (waitStep (concurrentEpollWait n start timeout))
            ((concurrentEpollWait n start timeout).init (.init entries events n allocated) blocked)
            as = some s →
          s.tssx = .returned value →
          ((Outcome (concurrentEpollWait n start timeout) s value ∧
              (value ≠ ERROR → EventsJoined s)) ↔
            Run.Meets (waitStep (concurrentEpollWait n start timeout)) ErrorSeen
              ((concurrentEpollWait n start timeout).init (.init entries events n allocated)
                blocked)
              as) := by
  constructor
  · intro memory as s h hr
    exact outcome_iff_meets h hr
  · intro n entries events allocated as s h hr
    rw [← outcome_iff_meets h hr, and_iff_left_iff_imp]
    intro ho hv
    refine eventsJoined h hr ?_
    by_contra hf
    exact hv (ho.error.mpr (Bool.not_eq_false _ |>.mp hf))

/-- A connection with something to read. -/
private def readable : Nat → Observation := fun _ => { peerDied := false, ready := fun _ => true }

private def pollEntry : PollEntry :=
  { connection := 0, poll := { fd := 5, events := POLLIN, revents := 0 } }

private def pollMemory : PollMemory :=
  { tssxFds := [pollEntry], normalFds := [{ fd := 6, events := POLLIN, revents := 0 }] }

/-- Both threads find an event: the normal thread is woken with one while the TSSX thread scans. -/
private def bothFind {ρ : Type} (found : ρ) : List (WaitAction (Nat → Observation) ρ) :=
  [.normal, .normal, .wake (.events found), .normal, .normal, .scan readable, .tssx, .tssx, .tssx,
    .tssx]

theorem concurrent_wait_outcome_at :
    (∃ s, Run.run (waitStep (concurrentPoll 0 (-1))) ((concurrentPoll 0 (-1)).init pollMemory false)
        (.normal :: .tssx :: bothFind [POLLIN]) = some s ∧ s.tssx = .returned 2 ∧
      Outcome (concurrentPoll 0 (-1)) s 2) ∧
    ∃ s, Run.run (waitStep (concurrentEpollWait 4 0 (-1)))
        ((concurrentEpollWait 4 0 (-1)).init
          (.init [.new 5 { events := EPOLLIN, data := 5 } 0] .zero 4 true) false)
        (bothFind [{ events := EPOLLIN, data := 6 }]) = some s ∧ s.tssx = .returned 2 ∧
      Outcome (concurrentEpollWait 4 0 (-1)) s 2 ∧ EventsJoined s := by
  constructor
  · have hrun : ∃ s, Run.run (waitStep (concurrentPoll 0 (-1)))
        ((concurrentPoll 0 (-1)).init pollMemory false)
        (.normal :: .tssx :: bothFind [POLLIN]) = some s ∧ s.tssx = .returned 2 := ⟨_, rfl, rfl⟩
    obtain ⟨s, hs, hr⟩ := hrun
    exact ⟨s, hs, hr, ((concurrent_wait_outcome 0 (-1) false 2).1 _ _ s hs hr).mpr (by decide)⟩
  · have hrun : ∃ s, Run.run (waitStep (concurrentEpollWait 4 0 (-1)))
        ((concurrentEpollWait 4 0 (-1)).init
          (.init [.new 5 { events := EPOLLIN, data := 5 } 0] .zero 4 true) false)
        (bothFind [{ events := EPOLLIN, data := 6 }]) = some s ∧ s.tssx = .returned 2 :=
      ⟨_, rfl, rfl⟩
    obtain ⟨s, hs, hr⟩ := hrun
    obtain ⟨ho, he⟩ :=
      ((concurrent_wait_outcome 0 (-1) false 2).2 _ _ _ _ _ s hs hr).mpr (by decide)
    exact ⟨s, hs, hr, ho, he (by decide)⟩

/-- **An error becomes a count**: the real call fails after the TSSX thread has looked at the
counter, and the call returns zero, the error and one event together. -/
theorem error_lost :
    ∃ s, Run.run (waitStep (concurrentPoll 0 (-1))) ((concurrentPoll 0 (-1)).init pollMemory false)
        [.normal, .tssx, .normal, .normal, .scan readable, .tssx, .wake .failed, .normal, .normal,
          .tssx, .tssx, .tssx, .tssx] = some s ∧
      s.tssx = .returned 0 ∧ s.failed = true ∧ ¬ Outcome (concurrentPoll 0 (-1)) s 0 := by
  refine ⟨_, rfl, rfl, rfl, ?_⟩
  intro h
  exact absurd (h.error.mpr rfl) (by decide)

end Tssx
