import Tssx.Epoll.Scan

/-!
# The caller's array in `epoll_wait`

Each thread of a concurrent wait fills up to `number_of_events` places, and the results are put
one behind the other in the array of the caller.  `epoll_wait_respects` says when they fit.  A
negative `number_of_events` is a huge `size_t`.
-/

namespace Tssx

/-- The call so far returns at most `numberOfEvents` and writes below it only. -/
def EpollCall.Respects (call : EpollCall) (numberOfEvents : Int) : Prop :=
  (∀ value, call.returned = some value → value ≤ numberOfEvents) ∧
    ∀ i ∈ call.events.touched, 0 ≤ i ∧ i < numberOfEvents

/-- The results of `real_epoll_wait` in a call. -/
def EpollTrace.results (trace : EpollTrace) : List (WaitResult (List EpollEvent)) :=
  trace.real.toList ++ trace.actions.filterMap fun
    | .wake result => some result
    | _ => none

/-- A `real_epoll_wait` that does not fail, other than with `EINTR`, has a positive
`number_of_events` and finds at most so many. -/
def RealWaitAllows (numberOfEvents : Int) : WaitResult (List EpollEvent) → Prop
  | .events found => (found.length : Int) ≤ numberOfEvents
  | .interrupted => 0 < numberOfEvents
  | .failed => False

instance (numberOfEvents : Int) : ∀ r, Decidable (RealWaitAllows numberOfEvents r)
  | .events _ => inferInstanceAs (Decidable (_ ≤ _))
  | .interrupted => inferInstanceAs (Decidable (_ < _))
  | .failed => inferInstanceAs (Decidable False)

/-- The normal events and the active TSSX entries fit into the array together. -/
def EpollCall.Fits (call : EpollCall) (entries : List EpollEntry) (numberOfEvents : Int) : Prop :=
  normalEvents call.result = [] ∨
    ((normalEvents call.result).length : Int) + lastActive entries call.observed ≤ numberOfEvents

/-- An unfinished call respects the array, and a finished one does if and only if its events
fit. -/
structure EpollCall.Bounded (call : EpollCall) (entries : List EpollEntry)
    (numberOfEvents : Int) : Prop where
  unfinished : call.returned = none → 0 < numberOfEvents → call.Respects numberOfEvents
  finished : call.returned ≠ none →
    (call.Respects numberOfEvents ↔ 0 < numberOfEvents ∧ call.Fits entries numberOfEvents)

variable {epolls : Nat → EpollInstance} {epoll : EpollInstance} {epfd : Int} {m : CInt}
  {timeout : Int} {event : Int → EpollEvent} {events : EventBuffer} {trace : EpollTrace}
  {call : EpollCall} {entry : EpollEntry} {entries : List EpollEntry} {n start : Nat}
  {iterations : List Iteration}

theorem sizeT_of_pos (h : 0 < (m : Int)) : (sizeT m : Int) = m := by
  have := m.2
  unfold sizeT
  omega

theorem sizeT_of_neg (h : (m : Int) < 0) : 2 ^ 64 ≤ sizeT m * EPOLL_EVENT_SIZE := by
  have := m.2
  unfold sizeT EPOLL_EVENT_SIZE
  omega

theorem bounded_of_pos (hm : 0 < (m : Int)) (hr : call.Respects m) (hf : call.Fits entries m) :
    call.Bounded entries m :=
  ⟨fun _ _ => hr, fun _ => iff_of_true hr ⟨hm, hf⟩⟩

theorem bounded_of_neg (hm : (m : Int) < 0) (h : call.returned ≠ none → ¬ call.Respects m) :
    call.Bounded entries m :=
  ⟨fun _ hpos => by omega, fun hr => iff_of_false (h hr) fun hf => by omega⟩

/-! ### The real call alone -/

theorem realEpollWait_bounded {real : Option (WaitResult (List EpollEvent))}
    (hm : (m : Int) ≠ 0) (hreal : ∀ r, real = some r → RealWaitAllows m r) :
    (realEpollWait { event } real).Bounded entries m := by
  cases real with
  | none =>
    refine ⟨fun _ _ => ⟨nofun, ?_⟩, fun h => absurd rfl h⟩
    intro i hi
    cases hi
  | some r =>
    refine ⟨nofun, ?_⟩
    intro _
    have hr := hreal r rfl
    cases r with
    | events found =>
      have hlen : (found.length : Int) ≤ m := hr
      refine iff_of_true ⟨?_, ?_⟩ ⟨by omega, .inr ?_⟩
      · intro value hv
        obtain rfl := Option.some.inj hv
        exact hlen
      · intro i hi
        rcases EventBuffer.mem_touched_writeFrom.mp hi with hi | hi
        · cases hi
        · omega
      · show (found.length : Int) + (0 : Nat) ≤ m
        omega
    | interrupted =>
      have hpos : 0 < (m : Int) := hr
      refine iff_of_true ⟨?_, ?_⟩ ⟨hpos, .inl rfl⟩
      · intro value hv
        obtain rfl := Option.some.inj hv
        show (-1 : Int) ≤ m
        omega
      · intro i hi
        cases hi
    | failed => exact absurd hr id

/-! ### TSSX entries alone -/

theorem tssxEpollWaitForSingleEntry_touched {i : Int}
    (hi : i ∈ (tssxEpollWaitForSingleEntry n start timeout iterations entry events).2.2.touched) :
    i ∈ events.touched ∨ 0 ≤ i ∧ i < n := by
  induction iterations generalizing entry events with
  | nil => exact .inl hi
  | cons iteration rest ih =>
    obtain ⟨o, now⟩ := iteration
    rw [tssxEpollWaitForSingleEntry] at hi
    split at hi
    · exact checkEpollEntry_bound (Nat.zero_le n) hi
    · rcases ih hi with hi | hi
      · exact checkEpollEntry_bound (Nat.zero_le n) hi
      · exact .inr hi

/-- The loop writes to the places below `n`, and to one of them at least if it finds events. -/
theorem simpleTssxLoop_spec :
    (simpleTssxLoop n start timeout iterations entries events).2.eventCount ≤ n ∧
      (∀ i ∈ (simpleTssxLoop n start timeout iterations entries events).2.events.touched,
        i ∈ events.touched ∨ 0 ≤ i ∧ i < n) ∧
      (0 < (simpleTssxLoop n start timeout iterations entries events).2.eventCount →
        (simpleTssxLoop n start timeout iterations entries events).2.events.touched ≠ []) := by
  induction iterations generalizing entries events with
  | nil => exact ⟨Nat.zero_le n, fun i hi => .inl hi, fun h => absurd h (Nat.lt_irrefl 0)⟩
  | cons iteration rest ih =>
    obtain ⟨seen, now⟩ := iteration
    have hspec := @scan_spec events n 0 seen entries (Nat.zero_le n)
    rw [simpleTssxLoop]
    split
    · exact ⟨hspec.count ▸ Nat.min_le_left _ _, hspec.touched, hspec.first⟩
    · obtain ⟨hcount, htouched, hfirst⟩ := @ih (scanEntries n seen entries events 0).events
        (scanEntries n seen entries events 0).entries
      refine ⟨hcount, ?_, hfirst⟩
      intro i hi
      rcases htouched i hi with hi | hi
      · exact hspec.touched i hi
      · exact .inr hi

theorem simpleTssxEpollWait_bounded (hm : (m : Int) ≠ 0)
    (h : simpleTssxEpollWait epoll { event } (sizeT m) timeout trace = some call) :
    call.Bounded entries m := by
  unfold simpleTssxEpollWait at h
  split at h
  · have htouched := @tssxEpollWaitForSingleEntry_touched timeout { event } epoll.first (sizeT m)
      trace.start trace.iterations
    generalize tssxEpollWaitForSingleEntry (sizeT m) trace.start timeout trace.iterations
      epoll.first { event } = wait at h htouched
    obtain ⟨ended, entry, events⟩ := wait
    obtain rfl := Option.some.inj h
    rcases Int.lt_or_gt_of_ne hm with hneg | hpos
    · apply bounded_of_neg hneg
      intro hr hresp
      cases ended with
      | true =>
        have := hresp.1 SUCCESS rfl
        rw [SUCCESS] at this
        omega
      | false => exact hr rfl
    · refine bounded_of_pos hpos ⟨?_, ?_⟩ (.inl rfl)
      · intro value hv
        cases ended with
        | true =>
          obtain rfl := Option.some.inj hv
          rw [SUCCESS]
          omega
        | false => cases hv
      · intro i hi
        have hsize := sizeT_of_pos hpos
        rcases htouched hi with hi | hi
        · cases hi
        · omega
  · obtain ⟨watched, -, h⟩ := Option.map_eq_some_iff.mp h
    have hspec := @simpleTssxLoop_spec timeout { event } watched (sizeT m) trace.start
      trace.iterations
    generalize simpleTssxLoop (sizeT m) trace.start timeout trace.iterations watched { event } =
      loop at h hspec
    obtain ⟨ended, scan⟩ := loop
    obtain ⟨hcount, htouched, hfirst⟩ := hspec
    dsimp only at hcount htouched hfirst h
    subst h
    rcases Int.lt_or_gt_of_ne hm with hneg | hpos
    · apply bounded_of_neg hneg
      intro hr hresp
      cases ended with
      | true =>
        -- events found are written to places from zero on
        by_cases h0 : scan.eventCount = 0
        · have := hresp.1 _ rfl
          rw [h0] at this
          have h32 : int32 ((0 : Nat) : Int) = 0 := rfl
          omega
        · obtain ⟨i, hi⟩ := List.exists_mem_of_ne_nil _ (hfirst (Nat.pos_of_ne_zero h0))
          have := hresp.2 i hi
          omega
      | false => exact hr rfl
    · have hsize := sizeT_of_pos hpos
      refine bounded_of_pos hpos ⟨?_, ?_⟩ (.inl rfl)
      · intro value hv
        cases ended with
        | true =>
          obtain rfl := Option.some.inj hv
          rw [int32_eq (by omega) (by omega)]
          omega
        | false => cases hv
      · intro i hi
        rcases htouched i hi with hi | hi
        · cases hi
        · omega

/-! ### Both kinds of descriptors -/

theorem allowed_result {result : Option (WaitResult (List EpollEvent))}
    (h : ∀ r, result = some r → r = .interrupted ∨ RealWaitAllows m r) :
    result.any WaitResult.isFailed = false ∧
      (normalEvents result = [] ∨ ((normalEvents result).length : Int) ≤ m) := by
  rcases result with _ | found | _ | _
  · exact ⟨rfl, .inl rfl⟩
  · rcases h _ rfl with hr | hr
    · cases hr
    · exact ⟨rfl, .inr hr⟩
  · exact ⟨rfl, .inl rfl⟩
  · rcases h _ rfl with hr | hr
    · cases hr
    · exact absurd hr id

theorem length_normalEvents_le {result : Option (WaitResult (List EpollEvent))}
    (h : normalEvents result = [] ∨ ((normalEvents result).length : Int) ≤ m)
    (hm : 0 < (m : Int)) : ((normalEvents result).length : Int) ≤ m := by
  rcases h with h | h
  · rw [h, List.length_nil]
    omega
  · exact h

theorem respects_iff {written : Nat} (hm : 0 < (m : Int))
    (hr : call.returned = some (int32 written))
    (ht : ∀ i, i ∈ call.events.touched ↔ 0 ≤ i ∧ i < written) :
    call.Respects m ↔ (written : Int) ≤ m := by
  refine ⟨?_, ?_⟩
  · intro hresp
    by_contra hbig
    -- the last event written is outside
    have hlast := hresp.2 (written - 1) ((ht _).mpr (by omega))
    omega
  · intro hle
    refine ⟨?_, ?_⟩
    · intro value hv
      rw [hr] at hv
      obtain rfl := Option.some.inj hv
      rw [int32_eq (by omega) (by omega)]
      exact hle
    · intro i hi
      have := (ht i).mp hi
      omega

/-- With `normal` normal events and `active` active entries, of which the TSSX thread takes as
many as fit, both fit together exactly if nothing has to be left out. -/
theorem fits_iff {normal active : Nat} {m : Int} {n : Nat} (hn : (n : Int) = m) :
    ((min n active + normal : Nat) : Int) ≤ m ↔ normal = 0 ∨ (normal : Int) + active ≤ m := by
  omega

theorem concurrentEpollCall_bounded (hm : (m : Int) ≠ 0)
    (hreal : ∀ r, .wake r ∈ trace.actions → RealWaitAllows m r)
    (h : concurrentEpollCall epoll { event } (sizeT m) timeout trace = some call)
    (hw : epoll.watched = some entries) : call.Bounded entries m := by
  rw [concurrentEpollCall, hw, Option.bind_some] at h
  obtain ⟨s, hs, rfl⟩ := Option.map_eq_some_iff.mp h
  have hi := waitInv_reaches ⟨trace.actions, hs⟩
  have hk := epollKept_run (A := fun r => r = .interrupted ∨ RealWaitAllows m r) (.inl rfl)
    (fun r hr => .inr (hreal r hr)) hs
  obtain ⟨memory, hworks, hkept, hres⟩ := id hk
  obtain ⟨hf, hlen⟩ := allowed_result hres
  by_cases hret : s.tssx.isReturned = true
  · obtain ⟨value, hr⟩ := TssxPc.eq_returned hret
    have hvalue := returned_count hi hr hf
    rw [normalCount_epoll, ← Int.natCast_add] at hvalue
    have htouched : ∀ i, i ∈ s.memory.events.touched ↔
        0 ≤ i ∧ i < (s.found + (normalEvents s.result).length : Nat) := fun i =>
      touched_returned rfl (fun _ _ _ hq => hq.1.written) hi hk hr hf
    rw [hr]
    rcases Int.lt_or_gt_of_ne hm with hneg | hpos
    · -- without memory for the TSSX events, nothing is found
      have hfound : s.found = 0 := by
        refine (hkept.null ?_).1
        have := sizeT_of_neg hneg
        simp only [EpollMemory.init, Bool.and_eq_false_iff, decide_eq_false_iff_not]
        exact .inr (by omega)
      have hnil : normalEvents s.result = [] := hlen.resolve_right (by omega)
      apply bounded_of_neg hneg
      intro _ hresp
      have := hresp.1 _ rfl
      rw [hvalue, hfound, hnil] at this
      have h32 : int32 ((0 + ([] : List EpollEvent).length : Nat) : Int) = 0 := rfl
      omega
    · refine ⟨nofun, ?_⟩
      intro _
      rw [and_iff_right hpos,
        respects_iff hpos (congrArg (fun v => some (int32 v)) hvalue) htouched, hkept.counted,
        fits_iff (sizeT_of_pos hpos), List.length_eq_zero_iff]
      exact Iff.rfl
  · have hret' := Bool.not_eq_true _ |>.mp hret
    rw [TssxPc.value_of_not_returned hret']
    refine ⟨fun _ hpos => ⟨nofun, ?_⟩, fun hr => absurd rfl hr⟩
    intro i hi
    have hnormal := length_normalEvents_le hlen hpos
    rw [← (worksOn_iff hret').mp hworks, hkept.written, EventBuffer.mem_touched_writeFrom] at hi
    rcases hi with hi | hi
    · cases hi
    · omega

/-! ### `epoll_wait` -/

/-- **The bounds of `epoll_wait`**, for every instance, `number_of_events` and course of the
call in which the real call does not fail. -/
theorem epoll_wait_respects (hok : validateEpollWaitArguments epfd m = SUCCESS)
    (hreal : ∀ r ∈ trace.results, RealWaitAllows m r)
    (h : epollWait epolls epfd { event } m timeout trace = some call) :
    (call.returned = none → 0 < (m : Int) → call.Respects m) ∧
      (call.returned ≠ none →
        (call.Respects m ↔
          0 < (m : Int) ∧ call.Fits ((epolls epfd.toNat).watched.getD []) m)) := by
  have hm : (m : Int) ≠ 0 := by
    intro hm
    rw [validateEpollWaitArguments, hm, if_pos rfl] at hok
    split at hok <;> cases hok
  suffices hb : call.Bounded ((epolls epfd.toNat).watched.getD []) m from
    ⟨hb.unfinished, hb.finished⟩
  rw [epollWait, hok, if_neg (by decide)] at h
  dsimp only at h
  split at h
  · obtain rfl := Option.some.inj h
    refine realEpollWait_bounded hm fun r hr => hreal r ?_
    exact List.mem_append_left _ (Option.mem_toList.mpr hr)
  · split at h
    · exact simpleTssxEpollWait_bounded hm h
    · obtain ⟨entries, hw, -⟩ := Option.bind_eq_some_iff.mp h
      rw [hw, Option.getD_some]
      refine concurrentEpollCall_bounded hm (fun r hr => hreal r ?_) h hw
      exact List.mem_append_right _ (List.mem_filterMap.mpr ⟨.wake r, hr, rfl⟩)

/-- An instance with one TSSX and one normal descriptor. -/
private def mixed : EpollInstance :=
  { (epollSetFirstEntry .zero 5 { events := EPOLLIN, data := 5 } 0).2 with normalCount := 1 }

/-- The normal thread returns with an event, and then the TSSX thread finds one. -/
private def oneEach : EpollTrace where
  start := 0
  real := none
  iterations := []
  actions := [.normal, .normal, .wake (.events [{ events := EPOLLIN, data := 6 }]), .normal,
    .normal, .scan fun _ => { peerDied := false, ready := fun _ => true }, .tssx, .tssx, .tssx,
    .tssx]
  allocated := true
  blocked := false

theorem epoll_wait_respects_at :
    ∃ call, epollWait (fun _ => mixed) 4 .zero 2 (-1) oneEach = some call ∧
      call.returned = some 2 ∧ call.Respects 2 := by
  have hcall : ∃ call, epollWait (fun _ => mixed) 4 .zero 2 (-1) oneEach = some call ∧
      call.returned = some 2 ∧
      normalEvents call.result = [{ events := EPOLLIN, data := 6 }] ∧
      lastActive [mixed.first] call.observed = 1 := ⟨_, rfl, rfl, rfl, by decide⟩
  obtain ⟨call, hc, hr, hn, ha⟩ := hcall
  refine ⟨call, hc, hr, ((@epoll_wait_respects (fun _ => mixed) 4 ⟨2, by decide⟩ (-1) _ oneEach call
    (by decide) (by decide) hc).2 (by rw [hr]; nofun)).mpr ⟨by decide, .inr ?_⟩⟩
  show ((normalEvents call.result).length : Int) + lastActive [mixed.first] call.observed ≤ 2
  rw [hn, ha]
  decide

/-- **A write behind the array**: with room for one event, the call returns two. -/
theorem epoll_wait_overruns :
    validateEpollWaitArguments 4 1 = SUCCESS ∧ (∀ r ∈ oneEach.results, RealWaitAllows 1 r) ∧
      ∃ call, epollWait (fun _ => mixed) 4 .zero 1 (-1) oneEach = some call ∧
        call.returned = some 2 ∧ 1 ∈ call.events.touched ∧ ¬ call.Respects 1 := by
  refine ⟨by decide, by decide, _, rfl, rfl, by decide, ?_⟩
  intro h
  exact absurd (h.1 2 rfl) (by decide)

end Tssx
