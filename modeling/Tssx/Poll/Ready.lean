import Tssx.ConcurrentWait.Invariant
import Tssx.Lib.Flags
import Tssx.Poll.Partition

/-!
# What the scans of `poll` find

`readyRevents` is what a TSSX descriptor should report, and `scanned` the entries of which every
one reports it.  A scan that finds nothing leaves the entries as they are, so what a call leaves
is the work of its last scan alone: `simpleTssxPoll_spec` for the simple loop, and
`concurrentPoll_returned` for the two threads in every interleaving.
-/

namespace Tssx

/-- The `revents` of a TSSX descriptor: the requested operations that are ready, or the hang-up. -/
def readyRevents (o : Observation) (events : BitVec 16) : BitVec 16 :=
  if o.peerDied then POLLHUP ||| POLLIN
  else
    (if Flags.has events POLLIN && o.ready .read then POLLIN else 0) |||
      (if Flags.has events POLLOUT && o.ready .write then POLLOUT else 0)

/-- The entries after a scan. -/
def scanned (o : Nat → Observation) (entries : List PollEntry) : List PollEntry :=
  entries.mapIdx fun i entry => entry.addRevents (readyRevents (o i) entry.poll.events)

/-- The entries with results. -/
def marks (entries : List PollEntry) : Nat := entries.countP (·.poll.revents != 0)

/-- Nothing has been found yet. -/
def Unmarked (entries : List PollEntry) : Prop := ∀ entry ∈ entries, entry.poll.revents = 0

variable {o : Nat → Observation} {entries : List PollEntry} {polls : List PollFd}

theorem addRevents_addRevents (entry : PollEntry) (a b : BitVec 16) :
    (entry.addRevents a).addRevents b = entry.addRevents (a ||| b) := by
  simp [PollEntry.addRevents, BitVec.or_assoc]

theorem addRevents_zero (entry : PollEntry) : entry.addRevents 0 = entry := by
  simp [PollEntry.addRevents]

theorem checkReady_eq (ready : Bool) (entry : PollEntry) (operation : Operation) :
    checkReady ready entry operation =
      (Flags.has entry.poll.events (operationMap operation) && ready,
        entry.addRevents (if Flags.has entry.poll.events (operationMap operation) && ready then
          operationMap operation else 0)) := by
  rw [checkReady, show waitingFor entry operation =
    Flags.has entry.poll.events (operationMap operation) from rfl]
  split
  · rename_i h
    rw [h]
    rfl
  · rename_i h
    rw [Bool.not_eq_true _ |>.mp h, addRevents_zero]

/-- **One check** adds what is ready, and tells whether that is anything. -/
theorem checkPollEvents_eq (o : Observation) (entry : PollEntry) :
    checkPollEvents o entry =
      (readyRevents o entry.poll.events != 0,
        entry.addRevents (readyRevents o entry.poll.events)) := by
  unfold checkPollEvents readyRevents
  cases o.peerDied with
  | true => simp [tellThatReadyFor, addRevents_addRevents, operationMap, POLLHUP, POLLIN]
  | false =>
    have hevents : ∀ revents, (entry.addRevents revents).poll.events = entry.poll.events :=
      fun _ => rfl
    simp only [Bool.false_eq_true, if_false, checkReady_eq, addRevents_addRevents, hevents,
      operationMap]
    rcases Bool.eq_false_or_eq_true (Flags.has entry.poll.events POLLIN && o.ready .read) with
      hr | hr <;>
    rcases Bool.eq_false_or_eq_true (Flags.has entry.poll.events POLLOUT && o.ready .write) with
      hw | hw <;>
    simp only [hr, hw] <;> rfl

theorem scanned_cons (o : Nat → Observation) (entry : PollEntry) (entries : List PollEntry) :
    scanned o (entry :: entries) =
      entry.addRevents (readyRevents (o 0) entry.poll.events) ::
        scanned (fun i => o (i + 1)) entries := List.mapIdx_cons

theorem pollScan_eq (hu : Unmarked entries) (n : Nat) :
    pollScan o entries n = (n + marks (scanned o entries), scanned o entries) := by
  induction entries generalizing o n with
  | nil => rfl
  | cons entry entries ih =>
    obtain ⟨hentry, hrest⟩ := List.forall_mem_cons.mp hu
    have hrevents : (entry.addRevents (readyRevents (o 0) entry.poll.events)).poll.revents =
        readyRevents (o 0) entry.poll.events := by simp [PollEntry.addRevents, hentry]
    simp only [pollScan, checkPollEvents_eq, ih hrest, scanned_cons, marks, List.countP_cons,
      hrevents]
    split <;> simp only [Prod.mk.injEq, and_true] <;> omega

theorem marks_le : marks (scanned o entries) ≤ entries.length := by
  have h : marks (scanned o entries) ≤ (scanned o entries).length := List.countP_le_length
  rwa [scanned, List.length_mapIdx] at h

theorem marks_eq_length
    (h : ∀ (i : Nat), ∀ entry ∈ entries,
      (entry.addRevents (readyRevents (o i) entry.poll.events)).poll.revents ≠ 0) :
    marks (scanned o entries) = entries.length := by
  have hlen : (scanned o entries).length = entries.length := List.length_mapIdx
  rw [← hlen]
  apply List.countP_eq_length.mpr
  intro entry hentry
  obtain ⟨i, hi, rfl⟩ := List.mem_mapIdx.mp hentry
  exact bne_iff_ne.mpr (h i _ (List.getElem_mem hi))

theorem scanned_of_none (hu : Unmarked entries) (h : marks (scanned o entries) = 0) :
    scanned o entries = entries := by
  apply List.ext_getElem?
  intro i
  rw [scanned, List.getElem?_mapIdx]
  cases he : entries[i]? with
  | none => rfl
  | some entry =>
    have hmem : entry.addRevents (readyRevents (o i) entry.poll.events) ∈ scanned o entries := by
      apply List.mem_of_getElem? (i := i)
      rw [scanned, List.getElem?_mapIdx, he]
      rfl
    have hzero : readyRevents (o i) entry.poll.events = 0 := by
      have hnone := List.countP_eq_zero.mp h _ hmem
      simpa [PollEntry.addRevents, hu entry (List.mem_of_getElem? he)] using hnone
    rw [Option.map_some, hzero, addRevents_zero]

/-- **`_simple_tssx_poll`** returns what its last pass has found. -/
theorem simpleTssxPoll_spec {start : Nat} {timeout : Int} {passes : List PollPass} {value : Int}
    {last : List PollEntry} {observed : Option (Nat → Observation)} (hu : Unmarked entries)
    (hlen : entries.length < 2 ^ 31)
    (h : simpleTssxPoll start timeout passes 0 entries = (some value, last, observed)) :
    ∃ o, observed = some o ∧ last = scanned o entries ∧ value = marks (scanned o entries) := by
  induction passes with
  | nil => cases h
  | cons pass passes ih =>
    have hle := @marks_le pass.observe entries
    have hint : int32 (0 + (marks (scanned pass.observe entries) : Nat)) =
        marks (scanned pass.observe entries) := by
      rw [Int.zero_add, int32_eq (by omega) (by omega)]
    simp only [simpleTssxPoll, pollScan_eq hu, Nat.zero_add, hint] at h
    split at h
    · obtain ⟨hvalue, hlast, hobserved⟩ : _ ∧ _ ∧ _ := by simpa using h
      exact ⟨pass.observe, hobserved.symm, hlast.symm, hvalue.symm⟩
    · rename_i hgo
      have hzero : marks (scanned pass.observe entries) = 0 := by
        simp only [Bool.or_eq_true, decide_eq_true_eq, not_or] at hgo
        omega
      rw [hzero, scanned_of_none hu hzero] at h
      exact ih h

theorem simpleTssxPoll_once (hu : Unmarked entries) (start : Nat) (pass : PollPass)
    (passes : List PollPass) :
    simpleTssxPoll start DONT_BLOCK (pass :: passes) 0 entries =
      (some (int32 (marks (scanned pass.observe entries))), scanned pass.observe entries,
        some pass.observe) := by
  have helapsed : pollTimeoutElapsed start pass.now DONT_BLOCK = true := rfl
  simp only [simpleTssxPoll, pollScan_eq hu, Nat.zero_add, Int.zero_add, helapsed, Bool.or_true,
    if_true]

/-! ### The two threads -/

/-- The TSSX entries after the last scan. -/
def scannedBy (observed : Option (Nat → Observation)) (entries : List PollEntry) :
    List PollEntry :=
  match observed with
  | some o => scanned o entries
  | none => entries

/-- The normal entries after `real_poll`. -/
def polledBy (result : Option (WaitResult (List (BitVec 16)))) (polls : List PollFd) :
    List PollFd :=
  match result with
  | some (.events revents) => writeRevents polls revents
  | _ => polls

/-- A result that `real_poll` may have for `n` descriptors. -/
def Produces (n : Nat) (result : WaitResult (List (BitVec 16))) : Prop :=
  result.isFailed = false ∧ ∀ revents, result = .events revents → revents.length = n

theorem marks_unmarked (hu : Unmarked entries) : marks entries = 0 := by
  apply List.countP_eq_zero.mpr
  intro entry hentry
  simp [hu entry hentry]

theorem marksBy_le (observed : Option (Nat → Observation)) (hu : Unmarked entries) :
    marks (scannedBy observed entries) ≤ entries.length := by
  cases observed with
  | none =>
    rw [scannedBy, marks_unmarked hu]
    exact Nat.zero_le _
  | some o => exact marks_le

/-- What `_concurrent_poll` keeps: the memory is what the last scan and the real call make of the
entries it began with. -/
def PollKept (entries : List PollEntry) (polls : List PollFd)
    (observed : Option (Nat → Observation)) (found : Nat)
    (result : Option (WaitResult (List (BitVec 16)))) (memory : PollMemory) : Prop :=
  memory = { tssxFds := scannedBy observed entries, normalFds := polledBy result polls } ∧
    found = marks (scannedBy observed entries) ∧ ∀ r, result = some r → Produces polls.length r

section Concurrent

variable {start : Nat} {timeout : Int} {blocked : Bool} {value : Int}
  {actions : List (WaitAction (Nat → Observation) (List (BitVec 16)))}
  {s t : WaitState (Nat → Observation) PollMemory (List (BitVec 16))}
  {a : WaitAction (Nat → Observation) (List (BitVec 16))}

theorem pollKept_run (hu : Unmarked entries)
    (hw : ∀ r, .wake r ∈ actions → Produces polls.length r)
    (h : Run.run (waitStep (concurrentPoll start timeout))
      ((concurrentPoll start timeout).init { tssxFds := entries, normalFds := polls } blocked)
      actions = some s) :
    s.Keeps (concurrentPoll start timeout) (PollKept entries polls) := by
  refine keeps_run (Q := PollKept entries polls) (A := Produces polls.length) ?_ ?_ ?_ ?_ hw h
  · exact ⟨rfl, (marks_unmarked hu).symm, nofun⟩
  · -- a scan that goes on from the count zero begins with the first entries again
    rintro seen r m o found m' ⟨rfl, hzero, hr⟩ hscan
    have hsame : scannedBy seen entries = entries := by
      cases seen with
      | none => rfl
      | some o => exact scanned_of_none hu hzero.symm
    simp only [concurrentPoll, hsame, pollScan_eq hu, Nat.zero_add, Option.some.injEq,
      Prod.mk.injEq] at hscan
    obtain ⟨rfl, rfl⟩ := hscan
    exact ⟨rfl, rfl, hr⟩
  · rintro seen found m r hr ⟨rfl, hfound, -⟩
    refine ⟨?_, hfound, fun r' h => by rwa [← Option.some.inj h]⟩
    cases r <;> rfl
  · exact ⟨rfl, nofun⟩

/-- The TSSX thread has made a scan, or is about to. -/
def WaitState.Scans (s : WaitState (Nat → Observation) PollMemory (List (BitVec 16))) : Prop :=
  s.tssx = .waitReady ∨ s.tssx = .scan ∨ s.observed ≠ none

theorem scans_move (hs : s.Scans) (h : WaitMove (concurrentPoll start timeout) s a t) :
    t.Scans := by
  cases h with
  | ready | again => exact .inr (.inl rfl)
  | scan => exact .inr (.inr nofun)
  | seesError hpc | seesEvents hpc | hasEvents hpc | hasNone hpc | kill hpc | elapsed _ hpc
  | add hpc | join hpc | finish _ hpc =>
    rcases hs with hs | hs | hs
    · rw [hpc] at hs
      cases hs
    · rw [hpc] at hs
      cases hs
    · exact .inr (.inr hs)
  | signal | seesNone | skip | enter | foreignError | ownError | noEvents | ownEvents | store
  | addCount | wake | interrupt | handle => exact hs

/-- **What `_concurrent_poll` leaves**, in every interleaving that returns. -/
theorem concurrentPoll_returned (hu : Unmarked entries)
    (hw : ∀ r, .wake r ∈ actions → Produces polls.length r)
    (h : Run.run (waitStep (concurrentPoll start timeout))
      ((concurrentPoll start timeout).init { tssxFds := entries, normalFds := polls } blocked)
      actions = some s) (hr : s.tssx = .returned value) :
    s.memory = { tssxFds := scannedBy s.observed entries, normalFds := polledBy s.result polls } ∧
      s.observed ≠ none ∧ (∀ r, s.result = some r → Produces polls.length r) ∧
      value = marks (scannedBy s.observed entries) +
        (concurrentPoll start timeout).normalCount s.result := by
  obtain ⟨memory, hworks, hmemory, hfound, hresult⟩ := pollKept_run hu hw h
  have hinv : WaitInv (concurrentPoll start timeout) s := waitInv_reaches ⟨actions, h⟩
  have hscans : s.Scans := by
    refine Run.run_induct (I := WaitState.Scans) ?_ (.inl rfl) h
    exact fun _ _ _ hs hstep => scans_move hs (waitMove hstep)
  have hsame : memory = s.memory := by
    rw [WaitState.WorksOn, hr] at hworks
    exact Option.some.inj hworks
  have hfailed : s.failed = false := by
    rw [WaitState.failed]
    cases hres : s.result with
    | none => rfl
    | some r => exact (hresult r hres).1
  refine ⟨hsame ▸ hmemory, ?_, hresult, ?_⟩
  · rcases hscans with hs | hs | hs
    · rw [hr] at hs
      cases hs
    · rw [hr] at hs
      cases hs
    · exact hs
  · rw [← hfound]
    exact returned_count hinv hr hfailed

end Concurrent

end Tssx
