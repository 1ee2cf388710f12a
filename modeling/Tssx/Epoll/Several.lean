import Tssx.Epoll.Bounds
import Tssx.Epoll.Single

/-!
# Waiting for several TSSX descriptors

`_simple_tssx_epoll_wait` of an instance whose entries are level-triggered, enabled and not
one-shot.  `activeEvents` lists what a scan should report, in the order of the entries.
`scanEntries_take`: a scan puts the first of them into the array, as many as there is room for.
`epoll_wait_several`: a wait returns what its last scan found, which is the first one that found
something or after which the timeout had elapsed.
-/

namespace Tssx

/-- Level-triggered, enabled and not one-shot. -/
structure Plain (entry : EpollEntry) : Prop where
  level : isLevelTriggered entry = true
  enabled : isEnabled entry = true
  oneshot : isOneshot entry = false

instance (entry : EpollEntry) : Decidable (Plain entry) :=
  decidable_of_iff
    (isLevelTriggered entry = true ∧ isEnabled entry = true ∧ isOneshot entry = false)
    ⟨fun ⟨hl, he, ho⟩ => ⟨hl, he, ho⟩, fun ⟨hl, he, ho⟩ => ⟨hl, he, ho⟩⟩

/-- The registered operation is ready. -/
def registeredReady (o : Observation) (entry : EpollEntry) (operation : Operation) : Bool :=
  epollOperationRegistered entry operation && o.ready operation

/-- A dead peer, or a registered operation that is ready. -/
def showsEvent (o : Observation) (entry : EpollEntry) : Bool :=
  o.peerDied || registeredReady o entry .read || registeredReady o entry .write

/-- The event that an active entry should report. -/
def eventOf (o : Observation) (entry : EpollEntry) : EpollEvent where
  events :=
    if o.peerDied then
      EPOLLIN ||| EPOLLHUP ||| (if epollEventRegistered entry EPOLLRDHUP then EPOLLRDHUP else 0)
    else
      (if registeredReady o entry .read then EPOLLIN else 0) |||
        (if registeredReady o entry .write then EPOLLOUT else 0)
  data := entry.event.data

/-- The events of the active entries, of which the `i`-th is seen as `o i`. -/
def activeEvents : (Nat → Observation) → List EpollEntry → List EpollEvent
  | _, [] => []
  | o, entry :: rest =>
    (if showsEvent (o 0) entry then [eventOf (o 0) entry] else []) ++
      activeEvents (fun i => o (i + 1)) rest

/-- The last scan of a wait. -/
def lastScan (entries : List EpollEntry) (start : Nat) (timeout : Int)
    (iterations : List Iteration) : Option Iteration :=
  iterations.find? fun i =>
    !(activeEvents i.1 entries).isEmpty || pollTimeoutElapsed start i.2 timeout

/-- What the call does when `last` is its last scan. -/
structure ReportsActive (call : EpollCall) (entries : List EpollEntry) (numberOfEvents start : Nat)
    (timeout : Int) (last : Option Iteration) : Prop where
  returned : call.returned = last.map fun i =>
    ((min numberOfEvents (activeEvents i.1 entries).length : Nat) : Int)
  events : ∀ i ∈ last, ∀ value ∈ call.returned,
    call.events.take value.toNat = (activeEvents i.1 entries).take numberOfEvents
  written : ∀ i ∈ call.events.touched, 0 ≤ i ∧ i < numberOfEvents
  zero : call.returned = some 0 → ∃ i ∈ last,
    pollTimeoutElapsed start i.2 timeout = true ∧ activeEvents i.1 entries = []

variable {o : Observation} {entry entry' : EpollEntry} {entries entries' : List EpollEntry}
  {events : EventBuffer} {seen : Nat → Observation} {n k start : Nat} {timeout : Int}
  {iterations : List Iteration}

/-! ### One entry -/

theorem Plain.sameBut (hp : Plain entry) (h : SameBut entry entry') : Plain entry' := by
  refine ⟨?_, h.enabled.trans hp.enabled, ?_⟩
  · rw [isLevelTriggered, isEdgeTriggered, h.event]
    exact hp.level
  · rw [isOneshot, h.event]
    exact hp.oneshot

theorem registeredReady_congr (h : SameBut entry entry') (operation : Operation) :
    registeredReady o entry' operation = registeredReady o entry operation := by
  simp only [registeredReady, epollOperationRegistered, epollEventRegistered, h.event]

theorem showsEvent_congr (h : SameBut entry entry') : showsEvent o entry' = showsEvent o entry := by
  simp only [showsEvent, registeredReady_congr h]

theorem eventOf_congr (h : SameBut entry entry') : eventOf o entry' = eventOf o entry := by
  rw [eventOf, eventOf, registeredReady_congr h, registeredReady_congr h, epollEventRegistered,
    epollEventRegistered, h.event]

theorem sameBut_setPollEdge (operation : Operation) :
    SameBut entry (setPollEdge entry operation) := by
  have hedge : (if operation = .read then READ_EDGE else WRITE_EDGE) &&& ENABLED = 0 := by
    cases operation <;> decide
  refine ⟨rfl, ?_⟩
  rw [isEnabled, setPollEdge, BitVec.and_or_distrib_right, hedge, isEnabled]
  simp

/-- What `_check_epoll_event` does to a level-triggered entry that is not one-shot. -/
theorem checkEpollEvent_plain {output : EpollEvent} {operation : Operation} (hp : Plain entry) :
    SameBut entry (checkEpollEvent (o.ready operation) entry output operation).entry ∧
      (checkEpollEvent (o.ready operation) entry output operation).reported =
        registeredReady o entry operation ∧
      (checkEpollEvent (o.ready operation) entry output operation).output =
        { output with
          events := output.events |||
            (if registeredReady o entry operation then epollOperationMap operation else 0) } := by
  have hone : isOneshot (setPollEdge entry operation) = false := hp.oneshot
  unfold checkEpollEvent registeredReady
  cases epollOperationRegistered entry operation with
  | false => simp [SameBut.refl]
  | true =>
    cases o.ready operation with
    | false => simp [sameBut_clearPollEdge]
    | true => simp [hp.level, hone, sameBut_setPollEdge]

theorem notifyOfEpollHangup_eq (hd : o.peerDied = true) (data : BitVec 64) :
    { notifyOfEpollHangup entry { events := 0, data } with data := entry.event.data } =
      eventOf o entry := by
  have hbits : 0 ||| EPOLLHUP ||| EPOLLIN = EPOLLIN ||| EPOLLHUP := by decide
  simp only [notifyOfEpollHangup, eventOf, hd, if_true, epollEventRegistered, bne_iff_ne, hbits]
  split <;> simp

/-- **What `_check_epoll_entry` does to such an entry**, while there is room in the array. -/
theorem checkEpollEntry_plain (hp : Plain entry) (h : k ≠ n) :
    SameBut entry (checkEpollEntry o entry events n k).entry ∧
      (checkEpollEntry o entry events n k).activity = showsEvent o entry ∧
      ∃ output, (checkEpollEntry o entry events n k).events = events.write k output ∧
        (showsEvent o entry = true → output = eventOf o entry) := by
  unfold checkEpollEntry
  rw [if_neg h, hp.enabled]
  cases hd : o.peerDied with
  | true =>
    exact ⟨.refl entry, by simp [showsEvent, hd], _, rfl, fun _ => notifyOfEpollHangup_eq hd _⟩
  | false =>
    obtain ⟨hread, hreported, hout⟩ := @checkEpollEvent_plain o entry
      { events := 0, data := (events.event k).data } .read hp
    simp only [Bool.not_true, Bool.false_eq_true, if_false]
    generalize checkEpollEvent (o.ready .read) entry
      { events := 0, data := (events.event k).data } .read = read at hread hreported hout ⊢
    obtain ⟨hwrite, hreported', hout'⟩ := @checkEpollEvent_plain o read.entry read.output .write
      (hp.sameBut hread)
    generalize checkEpollEvent (o.ready .write) read.entry read.output .write = write
      at hwrite hreported' hout' ⊢
    rw [registeredReady_congr hread] at hreported' hout'
    refine ⟨hread.trans hwrite, ?_, _, rfl, ?_⟩
    · simp [showsEvent, hd, hreported, hreported']
    · intro hshows
      have hactive : (read.reported || write.reported) = true := by
        rw [hreported, hreported']
        simpa [showsEvent, hd] using hshows
      simp [hactive, hout', hout, eventOf, hd, epollOperationMap]

/-! ### One scan -/

theorem activeEvents_congr (h : List.Forall₂ SameBut entries entries') :
    activeEvents seen entries' = activeEvents seen entries := by
  induction h generalizing seen with
  | nil => rfl
  | cons he _ ih => rw [activeEvents, activeEvents, showsEvent_congr he, eventOf_congr he, ih]

theorem forall_plain (h : List.Forall₂ SameBut entries entries')
    (hplain : ∀ entry ∈ entries, Plain entry) : ∀ entry ∈ entries', Plain entry := by
  induction h with
  | nil => exact hplain
  | cons he _ ih =>
    obtain ⟨hp, hrest⟩ := List.forall_mem_cons.mp hplain
    exact List.forall_mem_cons.mpr ⟨hp.sameBut he, ih hrest⟩

/-- **A scan from the local count `k` on** adds the first active entries' events. -/
theorem scanEntries_take (hk : k ≤ n) (hplain : ∀ entry ∈ entries, Plain entry) :
    (scanEntries n seen entries events k).eventCount =
        min n (k + (activeEvents seen entries).length) ∧
      (scanEntries n seen entries events k).events.take
          (scanEntries n seen entries events k).eventCount =
        events.take k ++ (activeEvents seen entries).take (n - k) ∧
      List.Forall₂ SameBut entries (scanEntries n seen entries events k).entries := by
  induction entries generalizing seen events k with
  | nil =>
    refine ⟨?_, ?_, .nil⟩
    · simp only [scanEntries, activeEvents, List.length_nil]
      omega
    · simp [scanEntries, activeEvents]
  | cons entry rest ih =>
    by_cases hn : k = n
    · subst hn
      rw [scanEntries_full]
      exact ⟨by simp, by simp, forall₂_sameBut_refl _⟩
    · obtain ⟨hp, hrest⟩ := List.forall_mem_cons.mp hplain
      obtain ⟨hsame, hactivity, output, hevents, houtput⟩ :=
        @checkEpollEntry_plain (seen 0) entry events n k hp hn
      rw [scanEntries, activeEvents]
      dsimp only
      rw [hactivity, hevents]
      cases hshows : showsEvent (seen 0) entry with
      | true =>
        obtain rfl := houtput hshows
        obtain ⟨hcount, htake, hentries⟩ := @ih (events.write k (eventOf (seen 0) entry))
          (fun i => seen (i + 1)) (k + 1) (by omega) hrest
        refine ⟨?_, ?_, .cons hsame hentries⟩
        · simp only [if_true, hcount, List.length_append, List.length_singleton]
          omega
        · obtain ⟨room, hroom⟩ : ∃ room, n - k = room + 1 := ⟨n - k - 1, by omega⟩
          have hroom' : n - (k + 1) = room := by omega
          simp only [if_true, htake, EventBuffer.take_succ_write, hroom, hroom', List.append_assoc,
            List.singleton_append, List.take_succ_cons]
      | false =>
        obtain ⟨hcount, htake, hentries⟩ := @ih (events.write k output)
          (fun i => seen (i + 1)) k hk hrest
        refine ⟨?_, ?_, .cons hsame hentries⟩
        · simpa using hcount
        · rw [EventBuffer.take_write_of_le (Nat.le_refl k)] at htake
          simpa using htake

/-! ### The loop -/

/-- **The loop ends with the last scan**, and returns what that scan finds. -/
theorem simpleTssxLoop_plain (hn : n ≠ 0) (hplain : ∀ entry ∈ entries, Plain entry) :
    match lastScan entries start timeout iterations with
    | none => (simpleTssxLoop n start timeout iterations entries events).1 = false
    | some last =>
      (simpleTssxLoop n start timeout iterations entries events).1 = true ∧
        (simpleTssxLoop n start timeout iterations entries events).2.eventCount =
          min n (activeEvents last.1 entries).length ∧
        (simpleTssxLoop n start timeout iterations entries events).2.events.take
          (min n (activeEvents last.1 entries).length) = (activeEvents last.1 entries).take n := by
  induction iterations generalizing entries events with
  | nil => rfl
  | cons iteration rest ih =>
    obtain ⟨o, now⟩ := iteration
    obtain ⟨hcount, htake, hsame⟩ :=
      @scanEntries_take entries events o n 0 (Nat.zero_le n) hplain
    rw [Nat.zero_add] at hcount
    rw [hcount, Nat.sub_zero] at htake
    have hfound : (decide ((scanEntries n o entries events 0).eventCount ≠ 0)) =
        !(activeEvents o entries).isEmpty := by
      rw [hcount]
      cases activeEvents o entries with
      | nil => simp
      | cons event more => simp [hn]
    rw [lastScan, List.find?_cons, simpleTssxLoop]
    dsimp only
    rw [hfound]
    cases hstop : !(activeEvents o entries).isEmpty || pollTimeoutElapsed start now timeout with
    | true => exact ⟨rfl, hcount, htake⟩
    | false =>
      have hrest := @ih (scanEntries n o entries events 0).entries
        (scanEntries n o entries events 0).events (forall_plain hsame hplain)
      simp only [lastScan, activeEvents_congr hsame] at hrest
      exact hrest

theorem lastScan_stops {last : Iteration}
    (h : lastScan entries start timeout iterations = some last)
    (hnil : activeEvents last.1 entries = []) : pollTimeoutElapsed start last.2 timeout = true := by
  have hstop := List.find?_some h
  simpa [hnil] using hstop

/-- **A wait for several TSSX descriptors** returns what its last scan finds, for an instance
without normal registrations. -/
theorem epoll_wait_several {epolls : Nat → EpollInstance} {epfd : Int} {m : CInt}
    {event : Int → EpollEvent} (trace : EpollTrace)
    (hv : 0 ≤ epfd ∧ epfd < NUMBER_OF_EPOLL_INSTANCES) (hm : 1 ≤ m.val)
    (hnormal : (epolls epfd.toNat).normalCount = 0) (htssx : 1 < (epolls epfd.toNat).tssxCount)
    (hwatched : (epolls epfd.toNat).watched = some entries)
    (hplain : ∀ entry ∈ entries, Plain entry) :
    ∃ call, epollWait epolls epfd { event } m timeout trace = some call ∧
      ReportsActive call entries m.val.toNat trace.start timeout
        (lastScan entries trace.start timeout trace.iterations) := by
  have hmax := m.2.2
  have hpos : m.val.toNat ≠ 0 := by omega
  have hsize : sizeT m = m.val.toNat := sizeT_eq (by omega) (by omega)
  have hvalid : validateEpollWaitArguments epfd m = SUCCESS := by
    rw [validateEpollWaitArguments, if_neg (by omega), if_neg (by omega)]
  have hloop := @simpleTssxLoop_plain entries { event } m.val.toNat trace.start timeout
    trace.iterations hpos hplain
  have htouched := (@simpleTssxLoop_spec timeout { event } entries m.val.toNat trace.start
    trace.iterations).2.1
  have hcall : epollWait epolls epfd { event } m timeout trace = some
      (generalCall m.val.toNat trace.start timeout trace.iterations entries { event }) := by
    have hone : ¬ (epolls epfd.toNat).tssxCount = 1 := by omega
    have hzero : ¬ (epolls epfd.toNat).tssxCount = 0 := by omega
    rw [epollWait, hvalid, if_neg (by decide), if_neg hzero, if_pos hnormal, simpleTssxEpollWait,
      if_neg hone, hwatched, hsize]
    rfl
  refine ⟨_, hcall, ?_⟩
  rw [generalCall]
  generalize simpleTssxLoop m.val.toNat trace.start timeout trace.iterations entries { event } =
    loop at hloop htouched
  obtain ⟨ended, scan⟩ := loop
  have hwritten : ∀ i ∈ scan.events.touched, 0 ≤ i ∧ i < (m.val.toNat : Int) :=
    fun i hi => (htouched i hi).resolve_left List.not_mem_nil
  cases hlast : lastScan entries trace.start timeout trace.iterations with
  | none =>
    rw [hlast] at hloop
    obtain rfl : ended = false := hloop
    refine ⟨rfl, fun i hi => ?_, hwritten, fun hzero => ?_⟩
    · cases hi
    · cases hzero
  | some last =>
    rw [hlast] at hloop
    obtain ⟨hended, hcount, htake⟩ := hloop
    obtain rfl : ended = true := hended
    have hreturned : int32 scan.eventCount =
        ((min m.val.toNat (activeEvents last.1 entries).length : Nat) : Int) := by
      rw [hcount]
      exact int32_eq (by omega) (by omega)
    refine ⟨congrArg some hreturned, ?_, hwritten, ?_⟩
    · rintro i hi value hvalue
      obtain rfl := Option.some.inj hi
      obtain rfl := Option.some.inj hvalue
      rw [hreturned]
      exact htake
    · intro hzero
      have hmin := hreturned.symm.trans (Option.some.inj hzero)
      have hlength := (Nat.min_eq_zero_iff.mp (Int.natCast_eq_zero.mp hmin)).resolve_left hpos
      have hnil : activeEvents last.1 entries = [] := List.eq_nil_of_length_eq_zero hlength
      exact ⟨last, rfl, lastScan_stops hlast hnil, hnil⟩

/-- An instance with three entries, the last two of them in the vector. -/
private def threeReaders : EpollInstance where
  entries :=
    { size := 2, capacity := 8, elementSize := EPOLL_ENTRY_SIZE
      data := some [some (.new 4 { events := EPOLLIN, data := 8 } 1),
        some (.new 5 { events := EPOLLIN, data := 9 } 2)] }
  first := .new 3 { events := EPOLLIN, data := 7 } 0
  tssxCount := 3
  normalCount := 0

/-- An iteration in which the last two entries are readable. -/
private def lastTwoReadable : EpollTrace where
  start := 0
  real := none
  iterations := [(fun i => { peerDied := false, ready := fun _ => 0 < i }, 0)]
  actions := []
  allocated := true
  blocked := false

/-- The two readable entries are reported, in their order. -/
theorem epoll_wait_several_readable :
    ∃ call, epollWait (fun _ => threeReaders) 0 .zero (CInt.ofNat 4) (-1) lastTwoReadable =
        some call ∧
      ReportsActive call (threeReaders.watched.getD []) 4 0 (-1)
        (lastScan (threeReaders.watched.getD []) 0 (-1) lastTwoReadable.iterations) :=
  @epoll_wait_several (threeReaders.watched.getD []) (-1) (fun _ => threeReaders) 0 (CInt.ofNat 4)
    EventBuffer.zero.event lastTwoReadable ⟨by decide, by decide⟩ (by decide) rfl (by decide) rfl
    (by decide)

end Tssx
