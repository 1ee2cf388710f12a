import Tssx.Epoll.Scan

/-!
# One-shot entries

An entry with `EPOLLONESHOT` should report once after each registration or modification.
`_check_epoll_event` disables the entry that it reports; the path of `_check_epoll_entry` for a
dead peer reports the entry and leaves it enabled (`check_hangup`), so that it reports again.
`one_shot_iff` says in which histories that shows.
-/

namespace Tssx

/-- A call of `_check_epoll_entry`: what it sees, the array with its size, and the local
count. -/
structure EntryCall where
  seen : Observation
  events : EventBuffer
  numberOfEvents : Nat
  eventCount : Nat

def EntryCall.check (call : EntryCall) (entry : EpollEntry) : EntryCheck :=
  checkEpollEntry call.seen entry call.events call.numberOfEvents call.eventCount

/-- There is room for an event, and the enabled entry has one. -/
def EntryCall.due (entry : EpollEntry) (call : EntryCall) : Bool :=
  decide (call.eventCount ≠ call.numberOfEvents) && entryActive call.seen entry

/-- What successive calls return. -/
def reportsOf (entry : EpollEntry) : List EntryCall → List Bool
  | [] => []
  | call :: rest => (call.check entry).activity :: reportsOf (call.check entry).entry rest

/-- The entry after successive calls. -/
def entryAfter (entry : EpollEntry) : List EntryCall → EpollEntry
  | [] => entry
  | call :: rest => entryAfter (call.check entry).entry rest

/-- One report at most, and after the next `EPOLL_CTL_MOD` a call reports again whenever it has
room and sees a dead peer, or a registered operation that is ready. -/
def OneShotSemantics (entry : EpollEntry) (calls : List EntryCall) : Prop :=
  (reportsOf entry calls).count true ≤ 1 ∧
    ∀ (event : EpollEvent) (call : EntryCall), call.eventCount ≠ call.numberOfEvents →
      ((call.check ((entryAfter entry calls).update event)).activity = true ↔
        call.seen.peerDied = true ∨
          ∃ operation, reportsReady call.seen { entry with event } operation = true)

/-- The first of several calls with something to report does not see a dead peer. -/
def DisarmedByFirst (entry : EpollEntry) (calls : List EntryCall) : Prop :=
  match calls.filter fun call => call.due entry with
  | first :: _ :: _ => first.seen.peerDied = false
  | _ => True

variable {entry entry' : EpollEntry} {call : EntryCall} {calls : List EntryCall}

/-! ### One call -/

theorem isEnabled_update (entry : EpollEntry) (event : EpollEvent) :
    isEnabled (entry.update event) = true := by
  have henabled : ENABLED &&& ENABLED != 0 := by decide
  exact henabled

theorem EntryCall.activity_eq (entry : EpollEntry) (call : EntryCall) :
    (call.check entry).activity = call.due entry := by
  by_cases h : call.eventCount = call.numberOfEvents
  · simp [check, due, h, checkEpollEntry_full]
  · simp [check, due, h, checkEpollEntry_activity]

theorem EntryCall.due_congr (h : SameBut entry entry') : call.due entry' = call.due entry := by
  rw [due, due, h.active]

theorem EntryCall.enabled_of_due (h : call.due entry = true) : isEnabled entry = true :=
  (Bool.and_eq_true_iff.mp (Bool.and_eq_true_iff.mp h).2).1

theorem EntryCall.due_disabled (h : isEnabled entry = false) (call : EntryCall) :
    call.due entry = false := by
  simp [due, entryActive, h]

theorem EntryCall.sameBut (h : call.due entry = false) :
    SameBut entry (call.check entry).entry :=
  checkEpollEntry_sameBut ((call.activity_eq entry).trans h)

/-- **The path for a dead peer leaves the entry as it is.** -/
theorem EntryCall.check_hangup (h : call.seen.peerDied = true) :
    (call.check entry).entry = entry := by
  unfold check checkEpollEntry
  rw [if_pos h]
  split
  · rfl
  · split <;> rfl

/-- A one-shot entry that `_check_epoll_event` reports is disabled, and a disabled one stays so. -/
theorem checkEpollEvent_disables {ready : Bool} {output : EpollEvent} {operation : Operation}
    (hone : isOneshot entry = true)
    (h : (checkEpollEvent ready entry output operation).reported = true ∨
      isEnabled entry = false) :
    isEnabled (checkEpollEvent ready entry output operation).entry = false := by
  cases hr : (checkEpollEvent ready entry output operation).reported with
  | true =>
    unfold checkEpollEvent at hr ⊢
    split
    · split
      · split
        · have hone' : isOneshot (setPollEdge entry operation) = true := hone
          dsimp only
          rw [if_pos hone']
          simp [isEnabled, disablePollEntry, BitVec.and_assoc]
        · simp_all
      · simp_all
    · simp_all
  | false =>
    rw [hr] at h
    rw [(checkEpollEvent_sameBut hr).enabled]
    exact h.resolve_left Bool.false_ne_true

/-- **A report with a live peer disables a one-shot entry.** -/
theorem EntryCall.check_disables (hone : isOneshot entry = true) (hdue : call.due entry = true)
    (hlive : call.seen.peerDied = false) : isEnabled (call.check entry).entry = false := by
  have hactivity := (call.activity_eq entry).trans hdue
  have henabled := enabled_of_due hdue
  unfold check checkEpollEntry at hactivity ⊢
  split
  · simp_all
  · rw [henabled] at hactivity ⊢
    simp only [Bool.not_true, Bool.false_eq_true, if_false, hlive] at hactivity ⊢
    rw [if_neg ‹_›] at hactivity
    set read := checkEpollEvent (call.seen.ready .read) entry
      { call.events.event call.eventCount with events := 0 } .read with hread
    have hone' : isOneshot read.entry = true := by
      rw [isOneshot, (checkEpollEvent_entry ..).1]
      exact hone
    apply checkEpollEvent_disables hone'
    rcases Bool.or_eq_true_iff.mp hactivity with hr | hw
    · exact .inr (checkEpollEvent_disables hone (.inl hr))
    · exact .inl hw

/-! ### Successive calls -/

theorem reportsOf_disabled (h : isEnabled entry = false) (calls : List EntryCall) :
    true ∉ reportsOf entry calls := by
  induction calls generalizing entry with
  | nil => exact List.not_mem_nil
  | cons call rest ih =>
    have hdue := EntryCall.due_disabled h call
    rw [reportsOf, call.activity_eq, hdue, List.mem_cons]
    rintro (hf | hm)
    · cases hf
    · exact ih ((EntryCall.sameBut hdue).enabled.trans h) hm

theorem notMem_reportsOf (calls : List EntryCall) :
    true ∉ reportsOf entry calls ↔ ∀ call ∈ calls, call.due entry = false := by
  induction calls generalizing entry with
  | nil => simp [reportsOf]
  | cons call rest ih =>
    rw [reportsOf, call.activity_eq, List.mem_cons, List.forall_mem_cons]
    cases hdue : call.due entry with
    | true => simp
    | false =>
      have hsame := EntryCall.sameBut hdue
      simp [ih, EntryCall.due_congr hsame]

theorem filter_due_congr (h : SameBut entry entry') (calls : List EntryCall) :
    (calls.filter fun call => call.due entry') = calls.filter fun call => call.due entry :=
  List.filter_congr fun _ _ => EntryCall.due_congr h

theorem count_reportsOf_le (hone : isOneshot entry = true) (calls : List EntryCall) :
    (reportsOf entry calls).count true ≤ 1 ↔ DisarmedByFirst entry calls := by
  induction calls generalizing entry with
  | nil => simp [reportsOf, DisarmedByFirst]
  | cons call rest ih =>
    rw [reportsOf, call.activity_eq, DisarmedByFirst, List.filter_cons]
    cases hdue : call.due entry with
    | false =>
      have hsame := EntryCall.sameBut hdue
      have hone' : isOneshot (call.check entry).entry = true := by
        rw [isOneshot, hsame.event]
        exact hone
      have hrest := ih hone'
      rw [DisarmedByFirst, filter_due_congr hsame] at hrest
      simpa using hrest
    | true =>
      have hcount : List.count true (true :: reportsOf (call.check entry).entry rest) ≤ 1 ↔
          true ∉ reportsOf (call.check entry).entry rest := by
        rw [List.count_cons_self, ← List.count_eq_zero]
        omega
      rw [hcount, if_pos rfl]
      cases hdead : call.seen.peerDied with
      | false =>
        refine iff_of_true (reportsOf_disabled (EntryCall.check_disables hone hdue hdead) rest) ?_
        split
        · rename_i heq
          obtain ⟨rfl, -⟩ := List.cons.inj heq
          exact hdead
        · trivial
      | true =>
        rw [EntryCall.check_hangup hdead, notMem_reportsOf]
        cases hrest : rest.filter fun call => call.due entry with
        | nil => simpa [List.filter_eq_nil_iff] using hrest
        | cons next more =>
          have hnext : next ∈ rest.filter fun call => call.due entry := by simp [hrest]
          obtain ⟨hmem, hdue'⟩ := List.mem_filter.mp hnext
          refine iff_of_false (fun hall => ?_) (by simp [hdead])
          rw [hall next hmem] at hdue'
          cases hdue'

/-- After a modification every call with something to report reports it. -/
theorem activity_update (event : EpollEvent) (h : call.eventCount ≠ call.numberOfEvents) :
    (call.check (entry'.update event)).activity = true ↔
      call.seen.peerDied = true ∨
        ∃ operation, reportsReady call.seen { entry with event } operation = true := by
  have hready : ∀ operation, reportsReady call.seen (entry'.update event) operation =
      reportsReady call.seen { entry with event } operation := fun _ => reportsReady_congr rfl
  rw [call.activity_eq, EntryCall.due, entryActive, isEnabled_update, hready,
    hready]
  constructor
  · intro hdue
    simp only [Bool.true_and, Bool.and_eq_true, Bool.or_eq_true] at hdue
    rcases hdue.2 with (hd | hr) | hw
    · exact .inl hd
    · exact .inr ⟨.read, hr⟩
    · exact .inr ⟨.write, hw⟩
  · rintro (hd | ⟨operation, hr⟩)
    · simp [h, hd]
    · cases operation <;> simp [h, hr]

/-- **A one-shot entry reports once** in exactly the histories in which the first of several
calls with something to report does not see a dead peer. -/
theorem one_shot_iff (hone : isOneshot entry = true) (calls : List EntryCall) :
    OneShotSemantics entry calls ↔ DisarmedByFirst entry calls := by
  rw [← count_reportsOf_le hone]
  exact and_iff_left fun event call h => activity_update event h

private def oneShotEntry : EpollEntry :=
  .new 5 { events := EPOLLIN ||| EPOLLONESHOT, data := 0 } 0

/-- A call that sees a readable connection, of a living or a dead peer. -/
private def seeing (peerDied : Bool) : EntryCall where
  seen := { peerDied, ready := fun _ => true }
  events := .zero
  numberOfEvents := 1
  eventCount := 0

/-- Data is reported once. -/
theorem one_shot_iff_data :
    OneShotSemantics oneShotEntry [seeing false, seeing false] ↔
      DisarmedByFirst oneShotEntry [seeing false, seeing false] :=
  one_shot_iff (by decide) _

/-- **A hang-up is reported twice.** -/
theorem one_shot_twice :
    isEnabled oneShotEntry = true ∧ isOneshot oneShotEntry = true ∧
      reportsOf oneShotEntry [seeing true, seeing true] = [true, true] ∧
      ¬ OneShotSemantics oneShotEntry [seeing true, seeing true] := by
  refine ⟨by decide, by decide, by decide, ?_⟩
  intro h
  exact absurd h.1 (by decide)

end Tssx
