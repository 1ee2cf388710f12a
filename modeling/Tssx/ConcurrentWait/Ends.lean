import Tssx.ConcurrentWait.Invariant
import Tssx.Epoll.Wait
import Tssx.Poll

/-!
# The end of a concurrent wait

The loop of the TSSX thread reads the clock in every iteration that has found nothing, and the
normal thread waits in a real call with the same timeout.  So the two threads, and the handler of
the signal between them, have few steps left when the deadline has passed: 21, in every order and
with every result of the real call.

`wait_ends`: `_concurrent_poll` has a next step until it returns, and `_concurrent_epoll_wait` until
its two threads are one again, where it asserts that the counts add up.
-/

namespace Tssx

def TssxPc.stepsLeft : TssxPc → Nat
  | .waitReady => 7
  | .scan => 6
  | .load => 5
  | .kill | .timeout => 4
  | .add => 3
  | .join => 2
  | .joined => 1
  | .returned _ => 0

def NormalPc.stepsLeft : NormalPc → Nat
  | .signalReady => 6
  | .loadFirst => 5
  | .enterWait => 4
  | .waiting => 3
  | .loadSecond => 2
  | .storeError | .addCount => 1
  | .finished => 0

/-- A step of the TSSX thread counts twice, since it may send the signal. -/
def WaitState.stepsLeft {ο μ ρ : Type} (s : WaitState ο μ ρ) : Nat :=
  2 * s.tssx.stepsLeft + s.normal.stepsLeft + if s.pending then 1 else 0

/-- The clock is past the deadline whenever it is read. -/
def Late {ο μ ρ : Type} (c : ConcurrentWait ο μ ρ) : WaitAction ο ρ → Prop
  | .clock now => pollTimeoutElapsed c.start now c.timeout = true
  | _ => True

instance lateDecidable {ο μ ρ : Type} (c : ConcurrentWait ο μ ρ) :
    (a : WaitAction ο ρ) → Decidable (Late c a)
  | .clock _ => inferInstanceAs (Decidable (_ = true))
  | .tssx | .scan _ | .normal | .wake _ | .deliver => isTrue trivial

section Ends

variable {ο μ ρ : Type} {c : ConcurrentWait ο μ ρ} {s t : WaitState ο μ ρ} {a : WaitAction ο ρ}

theorem WaitState.stepsLeft_le (s : WaitState ο μ ρ) : s.stepsLeft ≤ 21 := by
  have htssx : s.tssx.stepsLeft ≤ 7 := by cases s.tssx <;> simp [TssxPc.stepsLeft]
  have hnormal : s.normal.stepsLeft ≤ 6 := by cases s.normal <;> simp [NormalPc.stepsLeft]
  unfold WaitState.stepsLeft
  split <;> omega

theorem clock_late {now : Nat} (hlate : Late c (.clock now))
    (hs : waitStep c s (.clock now) = some t) : t.stepsLeft < s.stepsLeft := by
  simp only [waitStep] at hs
  split at hs
  · rename_i hpc
    obtain rfl := Option.some.inj hs
    rw [if_pos (show pollTimeoutElapsed c.start now c.timeout = true from hlate)]
    simp only [WaitState.stepsLeft, hpc, TssxPc.stepsLeft]
    omega
  · cases hs

theorem waitStep_less (hlate : Late c a) (hs : waitStep c s a = some t) :
    t.stepsLeft < s.stepsLeft := by
  cases waitMove hs with
  | elapsed now | again now => exact clock_late hlate hs
  | ready hpc | scan _ _ _ hpc | seesError hpc | seesEvents hpc | hasEvents hpc | hasNone hpc
  | add hpc | join hpc | finish _ hpc | signal hpc | seesNone hpc | skip hpc | enter hpc
  | foreignError hpc | ownError hpc | noEvents hpc | ownEvents hpc | store hpc | addCount hpc
  | wake _ hpc =>
    simp only [WaitState.stepsLeft, hpc, TssxPc.stepsLeft, NormalPc.stepsLeft]
    omega
  | kill hpc =>
    simp only [WaitState.stepsLeft, hpc, TssxPc.stepsLeft, if_true]
    split <;> omega
  | interrupt hpc hp =>
    simp only [WaitState.stepsLeft, hpc, hp, NormalPc.stepsLeft]
    simp
  | handle hpc hp =>
    simp only [WaitState.stepsLeft, hp]
    simp

theorem late_run {as : List (WaitAction ο ρ)} (hlate : ∀ a ∈ as, Late c a)
    (h : Run.run (waitStep c) s as = some t) : as.length + t.stepsLeft ≤ s.stepsLeft := by
  induction as generalizing s with
  | nil =>
    obtain rfl := Option.some.inj h
    simp
  | cons a as ih =>
    obtain ⟨m, hm, hrest⟩ := Run.run_cons.mp h
    have hless := waitStep_less (hlate a (List.mem_cons_self ..)) hm
    have hle := ih (fun b hb => hlate b (List.mem_cons_of_mem a hb)) hrest
    rw [List.length_cons]
    omega

end Ends

/-! ### There is a next step -/

section Goes

variable {ο μ ρ : Type} {c : ConcurrentWait ο μ ρ} {P : μ → Prop} {s t : WaitState ο μ ρ}
  {a : WaitAction ο ρ} {memory : μ} {blocked : Bool}

/-- On a memory that satisfies `P`, the scans do not fail, and it stays so. -/
structure Scannable (c : ConcurrentWait ο μ ρ) (P : μ → Prop) : Prop where
  scan : ∀ (o : ο) (memory : μ) (found : Nat), P memory →
    ∃ r, c.scan o memory found = some r ∧ P r.2
  record : ∀ (found : ρ) (memory : μ), P memory → P (c.record found memory)

/-- The signal of the normal thread comes, and the memory can be scanned until the return. -/
structure Goes (P : μ → Prop) (s : WaitState ο μ ρ) : Prop where
  signalled : s.tssx = .waitReady → s.ready = true ∨ s.normal = .signalReady
  memory : s.tssx.isReturned = false → P s.memory

theorem goes_init (hm : P memory) : Goes P (c.init memory blocked) where
  signalled := by
    intro hpc
    cases hh : c.handshake with
    | true => simp [ConcurrentWait.init, hh]
    | false => simp [ConcurrentWait.init, hh] at hpc
  memory := fun _ => hm

theorem recordResult_keeps (hc : Scannable c P) (r : WaitResult ρ) (hm : P memory) :
    P (c.recordResult r memory) := by
  cases r with
  | events found => exact hc.record found memory hm
  | interrupted | failed => exact hm

theorem goes_move (hc : Scannable c P) (hs : Goes P s) (h : WaitMove c s a t) : Goes P t := by
  -- only the wait for the signal has something to say about it
  have elsewhere : ∀ {pc : NormalPc}, s.normal = pc → pc ≠ .signalReady → s.tssx = .waitReady →
      s.ready = true := by
    intro pc hpc hne hw
    exact (hs.signalled hw).resolve_right fun he => hne (hpc.symm.trans he)
  cases h with
  | scan o found memory hpc hscan =>
    obtain ⟨r, hr, hP⟩ := hc.scan o s.memory s.found (hs.memory (by rw [hpc]; rfl))
    obtain rfl := Option.some.inj (hr.symm.trans hscan)
    exact ⟨fun hw => (by cases hw), fun _ => hP⟩
  | ready hpc | seesError hpc | seesEvents hpc | hasEvents hpc | hasNone hpc | kill hpc
  | elapsed _ hpc | again _ hpc | add hpc | join hpc =>
    exact ⟨fun hw => (by cases hw), fun _ => hs.memory (by rw [hpc]; rfl)⟩
  | finish => exact ⟨fun hw => (by cases hw), fun hr => (by cases hr)⟩
  | signal => exact ⟨fun _ => .inl rfl, hs.memory⟩
  | seesNone hpc | skip hpc | enter hpc | foreignError hpc | ownError hpc | noEvents hpc
  | ownEvents hpc | store hpc | addCount hpc | interrupt hpc =>
    exact ⟨fun hw => .inl (elsewhere hpc (by decide) hw), hs.memory⟩
  | wake r hpc =>
    exact ⟨fun hw => .inl (elsewhere hpc (by decide) hw),
      fun hr => recordResult_keeps hc r (hs.memory hr)⟩
  | handle => exact ⟨hs.signalled, hs.memory⟩

theorem goes_run (hc : Scannable c P) (hm : P memory) {as : List (WaitAction ο ρ)}
    (h : Run.run (waitStep c) (c.init memory blocked) as = some s) : Goes P s :=
  Run.run_induct (fun _ _ _ hs ht => goes_move hc hs (waitMove ht)) (goes_init hm) h

/-- The normal thread never waits for the TSSX thread. -/
theorem normal_enabled (hn : s.normal ≠ .finished) : ∃ a t, waitStep c s a = some t := by
  cases hpc : s.normal with
  | signalReady => exact ⟨.normal, _, by simp only [waitStep, normalStep, hpc]; rfl⟩
  | loadFirst =>
    by_cases h0 : s.eventCount = 0
    · exact ⟨.normal, _, by simp only [waitStep, normalStep, hpc, if_pos h0]; rfl⟩
    · exact ⟨.normal, _, by simp only [waitStep, normalStep, hpc, if_neg h0]; rfl⟩
  | enterWait | storeError | addCount =>
    exact ⟨.normal, _, by simp only [waitStep, normalStep, hpc]; rfl⟩
  | waiting => exact ⟨.wake .interrupted, _, by simp only [waitStep, wakeStep, hpc]; rfl⟩
  | loadSecond =>
    refine ⟨.normal, Option.isSome_iff_exists.mp ?_⟩
    simp only [waitStep, normalStep, hpc]
    split
    · rfl
    · split <;> rfl
  | finished => exact absurd hpc hn

/-- **Until the threads are one again, one of them can move.** -/
theorem wait_enabled (o : ο) (hc : Scannable c P) (hs : Goes P s)
    (hj : s.tssx.pastJoin = false) : ∃ a t, waitStep c s a = some t := by
  cases hpc : s.tssx with
  | waitReady =>
    rcases hs.signalled hpc with hr | hn
    · exact ⟨.tssx, _, by simp only [waitStep, tssxStep, hpc, hr, if_true]; rfl⟩
    · exact normal_enabled (by rw [hn]; decide)
  | scan =>
    obtain ⟨r, hr, -⟩ := hc.scan o s.memory s.found (hs.memory (by rw [hpc]; rfl))
    exact ⟨.scan o, _, by simp only [waitStep, hpc, if_true, hr]; rfl⟩
  | load =>
    refine ⟨.tssx, Option.isSome_iff_exists.mp ?_⟩
    simp only [waitStep, tssxStep, hpc]
    split
    · rfl
    · split
      · rfl
      · split <;> rfl
  | kill | add => exact ⟨.tssx, _, by simp only [waitStep, tssxStep, hpc]; rfl⟩
  | timeout => exact ⟨.clock 0, _, by simp only [waitStep, hpc, if_true]; rfl⟩
  | join =>
    by_cases hn : s.normal = .finished
    · exact ⟨.tssx, _, by simp only [waitStep, tssxStep, hpc, if_pos hn]; rfl⟩
    · exact normal_enabled hn
  | joined => rw [hpc] at hj; cases hj
  | returned => rw [hpc] at hj; cases hj

end Goes

/-! ### The two functions -/

private def nothing : Nat → Observation := fun _ => { peerDied := false, ready := fun _ => false }

theorem poll_scannable (start : Nat) (timeout : Int) :
    Scannable (concurrentPoll start timeout) fun _ => True where
  scan := fun _ _ _ _ => ⟨_, rfl, trivial⟩
  record := fun _ _ _ => trivial

/-- What the assertions of an iteration of `_concurrent_tssx_epoll_wait` ask for. -/
def EpollMemory.Allocated (memory : EpollMemory) : Prop :=
  memory.entries ≠ [] ∧ memory.allocated = true

theorem epoll_scannable {n : Nat} (hn : 0 < n) (start : Nat) (timeout : Int) :
    Scannable (concurrentEpollWait n start timeout) EpollMemory.Allocated where
  scan := by
    rintro o memory found ⟨hentries, halloc⟩
    cases he : memory.entries with
    | nil => exact absurd he hentries
    | cons first entries =>
      cases hr : concurrentScan n o memory found with
      | none => simp [concurrentScan, he, hn.ne', halloc] at hr
      | some r =>
        have hscan : (concurrentEpollWait n start timeout).scan o memory found = some r := hr
        refine ⟨r, hscan, ?_⟩
        simp only [concurrentScan, he, if_neg hn.ne', halloc, Bool.not_true, Bool.false_and,
          Bool.false_eq_true, if_false] at hr
        obtain rfl := Option.some.inj hr
        exact ⟨List.cons_ne_nil _ _, rfl⟩
  record := fun _ _ hm => hm

/-- **A concurrent wait ends.**  Whatever has happened before, 21 steps are left when the clock is
past the deadline, and `_concurrent_poll` has a next step until it returns.  So has
`_concurrent_epoll_wait` until its threads are one again, with its buffer allocated. -/
theorem wait_ends (start : Nat) (timeout : Int) (blocked : Bool) :
    (∀ memory (as bs : List (WaitAction (Nat → Observation) (List (BitVec 16)))) s,
      Run.run (waitStep (concurrentPoll start timeout))
          ((concurrentPoll start timeout).init memory blocked) (as ++ bs) = some s →
      ((∀ b ∈ bs, Late (concurrentPoll start timeout) b) → bs.length ≤ 21) ∧
      (s.tssx.value = none → ∃ a t, waitStep (concurrentPoll start timeout) s a = some t)) ∧
    ∀ n entries events (as bs : List (WaitAction (Nat → Observation) (List EpollEvent))) s,
      0 < n → n < 2 ^ 31 → entries ≠ [] →
      Run.run (waitStep (concurrentEpollWait n start timeout))
          ((concurrentEpollWait n start timeout).init (.init entries events n true) blocked)
          (as ++ bs) = some s →
      ((∀ b ∈ bs, Late (concurrentEpollWait n start timeout) b) → bs.length ≤ 21) ∧
      (s.tssx.pastJoin = false →
        ∃ a t, waitStep (concurrentEpollWait n start timeout) s a = some t) := by
  have short : ∀ {μ ρ : Type} {c : ConcurrentWait (Nat → Observation) μ ρ} {memory}
      {as bs : List (WaitAction (Nat → Observation) ρ)} {s},
      Run.run (waitStep c) (c.init memory blocked) (as ++ bs) = some s →
      (∀ b ∈ bs, Late c b) → bs.length ≤ 21 := by
    intro μ ρ c memory as bs s h hlate
    rw [Run.run_append] at h
    obtain ⟨m, -, hbs⟩ := Option.bind_eq_some_iff.mp h
    have hle := late_run hlate hbs
    have hmax := m.stepsLeft_le
    omega
  constructor
  · intro memory as bs s h
    refine ⟨short h, ?_⟩
    intro hv
    have hgoes : Goes (fun _ => True) s := goes_run (poll_scannable start timeout) trivial h
    cases hpc : s.tssx with
    | joined => exact ⟨.tssx, _, by simp only [waitStep, tssxStep, hpc]; rfl⟩
    | returned value => rw [hpc] at hv; cases hv
    | _ =>
      exact wait_enabled nothing (poll_scannable start timeout) hgoes (by rw [hpc]; rfl)
  · intro n entries events as bs s hn hlt hentries h
    refine ⟨short h, ?_⟩
    have hm : (EpollMemory.init entries events n true).Allocated := by
      refine ⟨hentries, ?_⟩
      have hsize : n * EPOLL_EVENT_SIZE < 2 ^ 64 := by
        unfold EPOLL_EVENT_SIZE
        omega
      simp only [EpollMemory.init, Bool.true_and, hsize, decide_true]
    exact wait_enabled nothing (epoll_scannable hn start timeout)
      (goes_run (epoll_scannable hn start timeout) hm h)

private def unready (fd : Int) : PollEntry :=
  { connection := 0, poll := { fd, events := POLLIN, revents := 0 } }

/-- An iteration that finds nothing, with the look at the clock after it. -/
private def iteration {ρ : Type} (now : Nat) : List (WaitAction (Nat → Observation) ρ) :=
  [.scan nothing, .tssx, .clock now]

theorem wait_ends_at :
    (∃ s, Run.run (waitStep (concurrentPoll 0 3))
        ((concurrentPoll 0 3).init { tssxFds := [unready 5], normalFds := [] } false)
        (.normal :: .tssx :: iteration 2 ++ iteration 4) = some s ∧
      (iteration 4 : List (WaitAction (Nat → Observation) (List (BitVec 16)))).length ≤ 21 ∧
      ∃ a t, waitStep (concurrentPoll 0 3) s a = some t) ∧
    ∃ s, Run.run (waitStep (concurrentEpollWait 4 0 3))
        ((concurrentEpollWait 4 0 3).init
          (.init [.new 5 { events := EPOLLIN, data := 5 } 0] .zero 4 true) false)
        (iteration 2 ++ iteration 4) = some s ∧
      (iteration 4 : List (WaitAction (Nat → Observation) (List EpollEvent))).length ≤ 21 ∧
      ∃ a t, waitStep (concurrentEpollWait 4 0 3) s a = some t := by
  constructor
  · have hrun : ∃ s, Run.run (waitStep (concurrentPoll 0 3))
        ((concurrentPoll 0 3).init { tssxFds := [unready 5], normalFds := [] } false)
        (.normal :: .tssx :: iteration 2 ++ iteration 4) = some s ∧ s.tssx = .add := ⟨_, rfl, rfl⟩
    obtain ⟨s, hs, hpc⟩ := hrun
    have h := (wait_ends 0 3 false).1 _ _ _ s hs
    exact ⟨s, hs, h.1 (by decide), h.2 (by rw [hpc]; rfl)⟩
  · have hrun : ∃ s, Run.run (waitStep (concurrentEpollWait 4 0 3))
        ((concurrentEpollWait 4 0 3).init
          (.init [.new 5 { events := EPOLLIN, data := 5 } 0] .zero 4 true) false)
        (iteration 2 ++ iteration 4) = some s ∧ s.tssx = .add := ⟨_, rfl, rfl⟩
    obtain ⟨s, hs, hpc⟩ := hrun
    have h := (wait_ends 0 3 false).2 4 _ _ _ _ s (by decide) (by decide) (by decide) hs
    exact ⟨s, hs, h.1 (by decide), h.2 (by rw [hpc]; rfl)⟩

end Tssx
