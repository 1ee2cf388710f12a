import Tssx.Epoll.Scan

/-!
# A wait for one entry

`_tssx_epoll_wait_for_single_entry` beside the loop of `_simple_tssx_epoll_wait` over the same
entry.  `singleEntry_eq`: they write the same events and leave the same entry, in the same
iteration.  The fast path returns `SUCCESS` where the loop returns the number of events, so that
the two agree exactly if no event is found (`single_entry_agrees_iff`).
-/

namespace Tssx

variable {n start : Nat} {timeout : Int} {iterations : List Iteration} {entry : EpollEntry}
  {events : EventBuffer}

/-- Two calls agree. -/
structure EpollCall.Agrees (fast general : EpollCall) : Prop where
  returned : fast.returned = general.returned
  events : fast.events = general.events
  entries : fast.entries = general.entries

/-- The call that the loop over the entries makes. -/
def generalCall (n start : Nat) (timeout : Int) (iterations : List Iteration)
    (entries : List EpollEntry) (events : EventBuffer) : EpollCall :=
  let (ended, scan) := simpleTssxLoop n start timeout iterations entries events
  { returned := if ended then some (int32 scan.eventCount) else none
    events := scan.events, entries := scan.entries, result := none, observed := none }

/-- The entry shows no event in any iteration of a wait that finds none. -/
def SilentUntilTimeout (entry : EpollEntry) (start : Nat) (timeout : Int)
    (iterations : List Iteration) : Prop :=
  ∀ iteration ∈ Run.upTo (fun i => pollTimeoutElapsed start i.2 timeout) iterations,
    entryActive (iteration.1 0) entry = false

theorem scanEntries_single (o : Nat → Observation) (entry : EpollEntry) (events : EventBuffer) :
    scanEntries n o [entry] events 0 =
      { eventCount := if (checkEpollEntry (o 0) entry events n 0).activity then 1 else 0
        entries := [(checkEpollEntry (o 0) entry events n 0).entry]
        events := (checkEpollEntry (o 0) entry events n 0).events } := rfl

theorem simpleTssxLoop_cons (o : Nat → Observation) (now : Nat) (entry : EpollEntry)
    (events : EventBuffer) :
    simpleTssxLoop n start timeout ((o, now) :: iterations) [entry] events =
      let check := checkEpollEntry (o 0) entry events n 0
      if check.activity || pollTimeoutElapsed start now timeout then
        (true, { eventCount := if check.activity then 1 else 0
                 entries := [check.entry], events := check.events })
      else simpleTssxLoop n start timeout iterations [check.entry] check.events := by
  rw [simpleTssxLoop, scanEntries_single]
  by_cases ha : (checkEpollEntry (o 0) entry events n 0).activity = true
  · simp [ha]
  · simp [Bool.not_eq_true _ |>.mp ha]

/-- **The fast path does what the loop does**, but for the value returned. -/
theorem singleEntry_eq (entry : EpollEntry) (events : EventBuffer) :
    ∃ after, tssxEpollWaitForSingleEntry n start timeout iterations entry events =
        ((simpleTssxLoop n start timeout iterations [entry] events).1, after,
          (simpleTssxLoop n start timeout iterations [entry] events).2.events) ∧
      (simpleTssxLoop n start timeout iterations [entry] events).2.entries = [after] := by
  induction iterations generalizing entry events with
  | nil => exact ⟨entry, rfl, rfl⟩
  | cons iteration rest ih =>
    obtain ⟨o, now⟩ := iteration
    simp only [tssxEpollWaitForSingleEntry, simpleTssxLoop_cons]
    cases ha : (checkEpollEntry (o 0) entry events n 0).activity with
    | true => exact ⟨_, rfl, rfl⟩
    | false =>
      cases ht : pollTimeoutElapsed start now timeout with
      | true => exact ⟨_, rfl, rfl⟩
      | false => exact ih _ _

theorem simpleTssxLoop_single (hn : n ≠ 0) (entry : EpollEntry) (events : EventBuffer) :
    ((simpleTssxLoop n start timeout iterations [entry] events).2.eventCount = 0 ∧
        SilentUntilTimeout entry start timeout iterations) ∨
      ((simpleTssxLoop n start timeout iterations [entry] events).1 = true ∧
        (simpleTssxLoop n start timeout iterations [entry] events).2.eventCount = 1 ∧
        ¬ SilentUntilTimeout entry start timeout iterations) := by
  induction iterations generalizing entry events with
  | nil => exact .inl ⟨rfl, fun _ hi => absurd hi List.not_mem_nil⟩
  | cons iteration rest ih =>
    obtain ⟨o, now⟩ := iteration
    have hact : (checkEpollEntry (o 0) entry events n 0).activity = entryActive (o 0) entry :=
      checkEpollEntry_activity hn.symm
    simp only [simpleTssxLoop_cons]
    cases ha : (checkEpollEntry (o 0) entry events n 0).activity with
    | true =>
      refine .inr ⟨rfl, rfl, ?_⟩
      intro hsilent
      rw [hact, (Run.forall_upTo_cons.mp hsilent).1] at ha
      cases ha
    | false =>
      have hsame := checkEpollEntry_sameBut ha
      have hcons : SilentUntilTimeout entry start timeout ((o, now) :: rest) ↔
          (pollTimeoutElapsed start now timeout = false →
            SilentUntilTimeout entry start timeout rest) :=
        Run.forall_upTo_cons.trans (and_iff_right (hact.symm.trans ha))
      cases ht : pollTimeoutElapsed start now timeout with
      | true => exact .inl ⟨rfl, hcons.mpr fun hgo => Bool.noConfusion (ht.symm.trans hgo)⟩
      | false =>
        have hrest : SilentUntilTimeout (checkEpollEntry (o 0) entry events n 0).entry start timeout
            rest ↔ SilentUntilTimeout entry start timeout rest := by
          simp only [SilentUntilTimeout, hsame.active]
        have hsilent : SilentUntilTimeout entry start timeout ((o, now) :: rest) ↔
            SilentUntilTimeout entry start timeout rest := by
          rw [hcons]
          exact forall_prop_of_true ht
        rw [hsilent, ← hrest]
        exact ih _ _

/-- **The fast path agrees with the general loop exactly if there is no event**, for an instance
whose only registration is one TSSX entry. -/
theorem single_entry_agrees_iff {epolls : Nat → EpollInstance} {epfd : Int} {m : CInt}
    (trace : EpollTrace) (hv : 0 ≤ epfd ∧ epfd < NUMBER_OF_EPOLL_INSTANCES) (hm : 1 ≤ m.val)
    (hnormal : (epolls epfd.toNat).normalCount = 0) (htssx : (epolls epfd.toNat).tssxCount = 1) :
    (∃ call, epollWait epolls epfd events m timeout trace = some call ∧
        call.Agrees (generalCall m.val.toNat trace.start timeout trace.iterations
          [(epolls epfd.toNat).first] events)) ↔
      SilentUntilTimeout (epolls epfd.toNat).first trace.start timeout trace.iterations := by
  have hsize : sizeT m = m.val.toNat := by
    have := m.2
    exact sizeT_eq (by omega) (by omega)
  have hvalid : validateEpollWaitArguments epfd m = SUCCESS := by
    rw [validateEpollWaitArguments, if_neg (by omega), if_neg (by omega)]
  obtain ⟨after, hfast, hentries⟩ := @singleEntry_eq m.val.toNat trace.start timeout
    trace.iterations (epolls epfd.toNat).first events
  have hloop := @simpleTssxLoop_single m.val.toNat trace.start timeout trace.iterations (by omega)
    (epolls epfd.toNat).first events
  have hcall : epollWait epolls epfd events m timeout trace = some
      { returned := if (simpleTssxLoop m.val.toNat trace.start timeout trace.iterations
            [(epolls epfd.toNat).first] events).1 then some SUCCESS else none
        events := (simpleTssxLoop m.val.toNat trace.start timeout trace.iterations
            [(epolls epfd.toNat).first] events).2.events
        entries := [after], result := none, observed := none } := by
    simp only [epollWait, hvalid, simpleTssxEpollWait, htssx, hnormal, hsize, hfast]
    rfl
  rw [hcall]
  constructor
  · rintro ⟨call, he, hagrees⟩
    obtain rfl := Option.some.inj he
    rcases hloop with ⟨-, hsilent⟩ | ⟨hended, hone, -⟩
    · exact hsilent
    · have hreturned := hagrees.returned
      simp only [generalCall, hended, hone, if_true] at hreturned
      exact absurd (Option.some.inj hreturned) (by decide)
  · intro hsilent
    refine ⟨_, rfl, ⟨?_, rfl, hentries.symm⟩⟩
    rcases hloop with ⟨hzero, -⟩ | ⟨-, -, hnot⟩
    · simp only [generalCall, hzero]
      rfl
    · exact absurd hsilent hnot

/-- An instance with one entry, for reading. -/
private def onlyReader : EpollInstance :=
  { EpollInstance.zero with
    first := .new 3 { events := EPOLLIN, data := 7 } 0, tssxCount := 1 }

/-- One iteration, in which the entry is readable or not. -/
private def oneIteration (readable : Bool) : EpollTrace where
  start := 0
  real := none
  iterations := [(fun _ => { peerDied := false, ready := fun _ => readable }, 0)]
  actions := []
  allocated := true
  blocked := false

theorem single_entry_agrees_iff_silence :
    (∃ call, epollWait (fun _ => onlyReader) 0 .zero (CInt.ofNat 4) 0 (oneIteration false) =
        some call ∧
      call.Agrees (generalCall 4 0 0 (oneIteration false).iterations [onlyReader.first] .zero)) ↔
      SilentUntilTimeout onlyReader.first 0 0 (oneIteration false).iterations :=
  @single_entry_agrees_iff 0 .zero (fun _ => onlyReader) 0 (CInt.ofNat 4) (oneIteration false)
    ⟨by decide, by decide⟩ (by decide) rfl rfl

/-- **A readable entry is written, and `0` is returned**, where the loop returns `1`. -/
theorem single_entry_returns_zero :
    ∃ call, epollWait (fun _ => onlyReader) 0 .zero (CInt.ofNat 4) 0 (oneIteration true) =
        some call ∧
      call.returned = some 0 ∧ call.events.take 1 = [{ events := EPOLLIN, data := 7 }] ∧
      (generalCall 4 0 0 (oneIteration true).iterations [onlyReader.first] .zero).returned =
        some 1 ∧
      ¬ call.Agrees
        (generalCall 4 0 0 (oneIteration true).iterations [onlyReader.first] .zero) := by
  refine ⟨_, rfl, by decide, by decide, by decide, ?_⟩
  intro hagrees
  exact absurd hagrees.returned (by decide)

end Tssx
