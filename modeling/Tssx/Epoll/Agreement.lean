import Tssx.Epoll.Several
import Tssx.Poll.Results

/-!
# `poll` and `epoll_wait` agree

`_simple_tssx_poll` and `_simple_tssx_epoll_wait` look at the same connections, one for the bits
of a `pollfd` and one for those of an epoll entry.  `poll_agrees_with_epoll`: with the same
interests, the same readiness history and the same clock, they return the same number after the
same pass, and the events that `epoll_wait` writes are the `revents` of `poll`, one event for each
that is not zero.  Only `EPOLLRDHUP` has no counterpart.

An instance with one TSSX entry does not come here but to the fast path.
-/

namespace Tssx

/-- A level-triggered entry that waits for the operations that a `pollfd` waits for. -/
structure SameInterest (poll : PollEntry) (entry : EpollEntry) : Prop where
  connection : entry.connection = poll.connection
  plain : Plain entry
  registered : ∀ operation, epollOperationRegistered entry operation = waitingFor poll operation

/-- The event of an entry for the `revents` of a `pollfd`: the bits are the same, and a hang-up
has `EPOLLRDHUP` if it is registered. -/
def EpollEntry.report (entry : EpollEntry) (revents : BitVec 16) : EpollEvent where
  events := revents.setWidth 32 |||
    (if Flags.has revents POLLHUP && epollEventRegistered entry EPOLLRDHUP then EPOLLRDHUP else 0)
  data := entry.event.data

/-- The events for an array of `poll`. -/
def pollReports : List PollFd → List EpollEntry → List EpollEvent
  | poll :: polls, entry :: entries =>
    (if poll.revents = 0 then [] else [entry.report poll.revents]) ++ pollReports polls entries
  | _, _ => []

variable {o : Observation} {wanted : PollEntry} {entry : EpollEntry} {polls : List PollEntry}
  {entries : List EpollEntry} {seen : Nat → Observation} {start : Nat} {timeout : Int}
  {passes : List PollPass}

/-! ### One entry -/

theorem SameInterest.shows (h : SameInterest wanted entry) (o : Observation) :
    showsEvent o entry = (readyRevents o wanted.poll.events != 0) := by
  have hread : registeredReady o entry .read =
      (Flags.has wanted.poll.events POLLIN && o.ready .read) :=
    congrArg (· && o.ready .read) (h.registered .read)
  have hwrite : registeredReady o entry .write =
      (Flags.has wanted.poll.events POLLOUT && o.ready .write) :=
    congrArg (· && o.ready .write) (h.registered .write)
  rw [showsEvent, hread, hwrite, readyRevents]
  cases o.peerDied <;> cases Flags.has wanted.poll.events POLLIN && o.ready .read <;>
    cases Flags.has wanted.poll.events POLLOUT && o.ready .write <;> rfl

theorem SameInterest.event (h : SameInterest wanted entry) (o : Observation) :
    eventOf o entry = entry.report (readyRevents o wanted.poll.events) := by
  have hread : registeredReady o entry .read =
      (Flags.has wanted.poll.events POLLIN && o.ready .read) :=
    congrArg (· && o.ready .read) (h.registered .read)
  have hwrite : registeredReady o entry .write =
      (Flags.has wanted.poll.events POLLOUT && o.ready .write) :=
    congrArg (· && o.ready .write) (h.registered .write)
  rw [eventOf, hread, hwrite, EpollEntry.report, readyRevents]
  cases o.peerDied <;> cases Flags.has wanted.poll.events POLLIN && o.ready .read <;>
    cases Flags.has wanted.poll.events POLLOUT && o.ready .write <;>
    cases epollEventRegistered entry EPOLLRDHUP <;> rfl

/-! ### One pass -/

theorem sameInterest_plain (h : List.Forall₂ SameInterest polls entries) :
    ∀ entry ∈ entries, Plain entry := by
  induction h with
  | nil => exact fun entry hentry => absurd hentry List.not_mem_nil
  | cons he _ ih => exact List.forall_mem_cons.mpr ⟨he.plain, ih⟩

theorem activeEvents_reports (h : List.Forall₂ SameInterest polls entries)
    (hu : Unmarked polls) (seen : Nat → Observation) :
    activeEvents seen entries = pollReports ((scanned seen polls).map PollEntry.poll) entries := by
  induction h generalizing seen with
  | nil => rfl
  | @cons poll entry polls entries he _ ih =>
    obtain ⟨hentry, hrest⟩ := List.forall_mem_cons.mp hu
    have hrevents : (poll.addRevents (readyRevents (seen 0) poll.poll.events)).poll.revents =
        readyRevents (seen 0) poll.poll.events := by simp [PollEntry.addRevents, hentry]
    rw [activeEvents, scanned_cons, List.map_cons, pollReports, ih hrest, he.shows, he.event,
      hrevents]
    by_cases hzero : readyRevents (seen 0) poll.poll.events = 0 <;> simp [hzero]

theorem activeEvents_marks (h : List.Forall₂ SameInterest polls entries)
    (hu : Unmarked polls) (seen : Nat → Observation) :
    (activeEvents seen entries).length = marks (scanned seen polls) := by
  induction h generalizing seen with
  | nil => rfl
  | @cons poll entry polls entries he _ ih =>
    obtain ⟨hentry, hrest⟩ := List.forall_mem_cons.mp hu
    have hrevents : (poll.addRevents (readyRevents (seen 0) poll.poll.events)).poll.revents =
        readyRevents (seen 0) poll.poll.events := by simp [PollEntry.addRevents, hentry]
    have ih := ih hrest fun i => seen (i + 1)
    rw [marks] at ih ⊢
    rw [activeEvents, scanned_cons, List.countP_cons, List.length_append, ih, he.shows, hrevents]
    cases readyRevents (seen 0) poll.poll.events != 0 with
    | true => exact Nat.add_comm _ _
    | false => exact Nat.zero_add _

/-! ### The loops -/

/-- The passes of a call as the iterations of the other. -/
def PollPass.iteration (pass : PollPass) : Iteration := (pass.observe, pass.now)

/-- **`poll` ends with the pass with which `epoll_wait` ends.** -/
theorem simpleTssxPoll_lastScan (h : List.Forall₂ SameInterest polls entries)
    (hu : Unmarked polls) (hlen : polls.length < 2 ^ 31) :
    simpleTssxPoll start timeout passes 0 polls =
      match lastScan entries start timeout (passes.map PollPass.iteration) with
      | none => (none, polls, none)
      | some last =>
        (some (marks (scanned last.1 polls) : Int), scanned last.1 polls, some last.1) := by
  induction passes with
  | nil => rfl
  | cons pass passes ih =>
    have hmarks := activeEvents_marks h hu pass.observe
    have hle := @marks_le pass.observe polls
    have hint : int32 (0 + (marks (scanned pass.observe polls) : Nat)) =
        marks (scanned pass.observe polls) := by
      rw [Int.zero_add, int32_eq (by omega) (by omega)]
    have hfound : decide (0 < (marks (scanned pass.observe polls) : Int)) =
        !(activeEvents pass.observe entries).isEmpty := by
      rw [← hmarks]
      cases activeEvents pass.observe entries with
      | nil => rfl
      | cons event more => simp
    rw [lastScan, List.map_cons, List.find?_cons]
    simp only [simpleTssxPoll, pollScan_eq hu, Nat.zero_add, hint, hfound, PollPass.iteration]
    cases hstop : !(activeEvents pass.observe entries).isEmpty ||
      pollTimeoutElapsed start pass.now timeout with
    | true => rfl
    | false =>
      have hzero : marks (scanned pass.observe polls) = 0 := by
        rw [← hmarks]
        simpa using (Bool.or_eq_false_iff.mp hstop).1
      rw [hzero, scanned_of_none hu hzero]
      exact ih

/-! ### The calls -/

section Calls

variable {environment : PollEnvironment} {bridge : Bridge} {fds : List PollFd}
  {epolls : Nat → EpollInstance} {epfd : Int} {m : CInt} {event : Int → EpollEvent}
  {trace : EpollTrace}

theorem normalEntries_nil (hall : ∀ poll ∈ fds, isTssx bridge poll = true) :
    normalEntries bridge fds = [] := by
  rw [normalEntries, List.map_eq_nil_iff, List.filter_eq_nil_iff]
  intro poll hpoll
  rw [hall poll hpoll]
  exact Bool.false_ne_true

theorem storeEntries_all (hall : ∀ poll ∈ fds, isTssx bridge poll = true)
    (observed : Option (Nat → Observation)) :
    storeEntries (fds.map PollFd.cleared) (tssxPointers bridge 0 fds)
        (scannedBy observed (tssxEntries bridge fds)) =
      (scannedBy observed (tssxEntries bridge fds)).map PollEntry.poll := by
  have hpolled : polledBy none (normalEntries bridge fds) = [] := normalEntries_nil hall
  have hfits := (Merge.Fits.forall₂ (tssx_same bridge fds observed)
    (normal_same bridge fds none)).1
  rw [hpolled] at hfits
  rw [store_rejoined, rejoined, hpolled]
  exact hfits.merge_nil_right

theorem epollWait_general (hv : 0 ≤ epfd ∧ epfd < NUMBER_OF_EPOLL_INSTANCES) (hm : 1 ≤ m.val)
    (hnormal : (epolls epfd.toNat).normalCount = 0) (htssx : 1 < (epolls epfd.toNat).tssxCount)
    (hwatched : (epolls epfd.toNat).watched = some entries) :
    epollWait epolls epfd { event } m timeout trace =
      some (generalCall m.val.toNat trace.start timeout trace.iterations entries { event }) := by
  have hmax := m.2.2
  have hvalid : validateEpollWaitArguments epfd m = SUCCESS := by
    rw [validateEpollWaitArguments, if_neg (by omega), if_neg (by omega)]
  have hsize : sizeT m = m.val.toNat := sizeT_eq (by omega) (by omega)
  rw [epollWait, hvalid, if_neg (by decide), if_neg (by omega), if_pos hnormal,
    simpleTssxEpollWait, if_neg (by omega), hwatched, hsize]
  rfl

/-- **`poll` and `epoll_wait` agree** about two connections and more, where the allocations of
`poll` succeed. -/
theorem poll_agrees_with_epoll (hb : bridge.SetUp) (hp : ∀ poll ∈ fds, poll.InTable)
    (hall : ∀ poll ∈ fds, isTssx bridge poll = true)
    (htssxFds : environment.allocations.tssxFds = true)
    (hnormalFds : environment.allocations.normalFds = true)
    (hgrowth : ∀ i, environment.allocations.growth i = true)
    (hv : 0 ≤ epfd ∧ epfd < NUMBER_OF_EPOLL_INSTANCES) (hm : fds.length ≤ m.val)
    (hnormal : (epolls epfd.toNat).normalCount = 0) (htssx : 1 < (epolls epfd.toNat).tssxCount)
    (hwatched : (epolls epfd.toNat).watched = some entries)
    (hsame : List.Forall₂ SameInterest (tssxEntries bridge fds) entries)
    (hstart : trace.start = environment.start)
    (hpasses : trace.iterations = environment.passes.map PollPass.iteration) :
    ∃ pollCall epollCall, poll environment bridge fds timeout = some pollCall ∧
      epollWait epolls epfd { event } m timeout trace = some epollCall ∧
      epollCall.returned = pollCall.returned ∧
      ∀ value, pollCall.returned = some value →
        epollCall.events.take value.toNat = pollReports pollCall.fds entries := by
  have hentries : entries ≠ [] := by
    rintro rfl
    rw [EpollInstance.watched, if_pos htssx] at hwatched
    obtain ⟨_, -, hcons⟩ := Option.map_eq_some_iff.mp hwatched
    cases hcons
  have hwanted : tssxEntries bridge fds ≠ [] := by
    intro hnil
    rw [hnil] at hsame
    exact hentries (List.forall₂_nil_left_iff.mp hsame)
  have hne : fds ≠ [] := by
    rintro rfl
    exact hwanted rfl
  have hlen := length_entries bridge fds
  have hpos := List.length_pos_iff.mpr hne
  have hmax := m.2.2
  obtain ⟨partition, -, hpoll⟩ := poll_branches timeout hb hne hp htssxFds hnormalFds hgrowth
  rw [if_neg hwanted, if_pos (normalEntries_nil hall)] at hpoll
  have hu := tssxEntries_unmarked bridge fds
  have hlast := @simpleTssxPoll_lastScan _ _ environment.start timeout environment.passes hsame hu
    (by omega)
  have hloop := @simpleTssxLoop_plain entries { event } m.val.toNat environment.start timeout
    (environment.passes.map PollPass.iteration) (by omega) (sameInterest_plain hsame)
  refine ⟨_, _, hpoll, epollWait_general hv (by omega) hnormal htssx hwatched, ?_⟩
  rw [generalCall, hstart, hpasses]
  generalize simpleTssxLoop m.val.toNat environment.start timeout
    (environment.passes.map PollPass.iteration) entries { event } = loop at hloop
  obtain ⟨ended, scan⟩ := loop
  cases hend : lastScan entries environment.start timeout
    (environment.passes.map PollPass.iteration) with
  | none =>
    rw [hend] at hlast hloop
    obtain rfl : ended = false := hloop
    rw [simplePoll_eq hlast]
    exact ⟨rfl, fun value hvalue => by cases hvalue⟩
  | some last =>
    rw [hend] at hlast hloop
    obtain ⟨hended, hcount, htake⟩ := hloop
    obtain rfl : ended = true := hended
    have hmarks := activeEvents_marks hsame hu last.1
    have hle := @marks_le last.1 (tssxEntries bridge fds)
    rw [hmarks, Nat.min_eq_right (by omega)] at hcount htake
    rw [List.take_of_length_le (by omega)] at htake
    have hreturned : int32 scan.eventCount = marks (scanned last.1 (tssxEntries bridge fds)) := by
      rw [hcount]
      exact int32_eq (by omega) (by omega)
    rw [simplePoll_eq hlast]
    refine ⟨congrArg some hreturned, ?_⟩
    intro value hvalue
    obtain rfl := Option.some.inj hvalue
    have hstored := storeEntries_all hall (some last.1)
    rw [scannedBy] at hstored
    rw [Int.toNat_natCast, htake, hstored, activeEvents_reports hsame hu]

end Calls

/-- Descriptors 5 and 6 have connections. -/
private def twoConnections : Bridge where
  isInitialized := true
  connectionCount := 2
  sessionTable := (SessionTable.empty.set 5 { connection := some 0 }).set 6 { connection := some 1 }

private def bothReaders : List PollFd :=
  [{ fd := 5, events := POLLIN, revents := 0 }, { fd := 6, events := POLLIN, revents := 0 }]

private def hangUpEntry : EpollEntry := .new 6 { events := EPOLLIN ||| EPOLLRDHUP, data := 8 } 1

/-- An instance in which both are registered. -/
private def bothRegistered : EpollInstance where
  entries :=
    { size := 1, capacity := 8, elementSize := EPOLL_ENTRY_SIZE, data := some [some hangUpEntry] }
  first := .new 5 { events := EPOLLIN, data := 7 } 0
  tssxCount := 2
  normalCount := 0

/-- The peer of the second connection disconnects between the passes. -/
private def hangUpBetween : PollEnvironment where
  allocations := { tssxFds := true, normalFds := true, growth := fun _ => true }
  start := 0
  passes :=
    [{ observe := fun _ => { peerDied := false, ready := fun _ => false }, now := 0 },
      { observe := fun i => { peerDied := i = 1, ready := fun _ => false }, now := 0 }]
  actions := []
  blocked := false
  realPoll := fun _ _ => .failed

theorem poll_agrees_with_epoll_at :
    ∃ pollCall epollCall,
      poll hangUpBetween twoConnections bothReaders BLOCK_FOREVER = some pollCall ∧
      epollWait (fun _ => bothRegistered) 3 .zero (CInt.ofNat 2) BLOCK_FOREVER
        { start := 0, real := none, iterations := hangUpBetween.passes.map PollPass.iteration
          actions := [], allocated := true, blocked := false } = some epollCall ∧
      epollCall.returned = pollCall.returned ∧
      ∀ value, pollCall.returned = some value →
        epollCall.events.take value.toNat =
          pollReports pollCall.fds [bothRegistered.first, hangUpEntry] := by
  have hentries : tssxEntries twoConnections bothReaders =
      [{ connection := 0, poll := { fd := 5, events := POLLIN, revents := 0 } },
        { connection := 1, poll := { fd := 6, events := POLLIN, revents := 0 } }] := by
    decide +kernel
  refine @poll_agrees_with_epoll _ _ hangUpBetween _ _ (fun _ => bothRegistered) 3 (CInt.ofNat 2)
    EventBuffer.zero.event _ (.of_ready rfl) (by decide) (by decide +kernel) rfl rfl (fun _ => rfl)
    ⟨by decide, by decide⟩ (by decide) rfl (by decide) rfl ?_ rfl rfl
  rw [hentries]
  refine .cons ⟨rfl, by decide, ?_⟩ (.cons ⟨rfl, by decide, ?_⟩ .nil)
  · intro operation
    cases operation <;> rfl
  · intro operation
    cases operation <;> rfl

end Tssx
