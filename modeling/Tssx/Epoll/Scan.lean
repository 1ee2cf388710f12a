import Tssx.ConcurrentWait.Invariant
import Tssx.Epoll.Edge
import Tssx.Epoll.Wait

/-!
# What a scan of the entries does

A scan fills the array from its start with the events of the active entries, until the array
is full.  `scan_spec` says so for both loops, which do the same, and `epollKept_run` what it
makes of the memory of a concurrent wait: the array of the caller has the normal events, and the
local count is the number of active entries, as far as the array has room.
-/

namespace Tssx

variable {o : Observation} {entry entry' : EpollEntry} {events : EventBuffer}
  {n k : Nat} {i : Int}

/-! ### One entry -/

/-- An operation that a check of the entry reports. -/
def reportsReady (o : Observation) (entry : EpollEntry) (operation : Operation) : Bool :=
  epollOperationRegistered entry operation && o.ready operation &&
    (isLevelTriggered entry || isEdgeFor entry operation)

/-- The entry has an event to report. -/
def entryActive (o : Observation) (entry : EpollEntry) : Bool :=
  isEnabled entry &&
    (o.peerDied || reportsReady o entry .read || reportsReady o entry .write)

/-- The entries differ in their edges at most. -/
structure SameBut (entry entry' : EpollEntry) : Prop where
  event : entry'.event = entry.event
  enabled : isEnabled entry' = isEnabled entry

theorem SameBut.refl (entry : EpollEntry) : SameBut entry entry := ⟨rfl, rfl⟩

theorem SameBut.trans {entry'' : EpollEntry} (h : SameBut entry entry')
    (h' : SameBut entry' entry'') : SameBut entry entry'' :=
  ⟨h'.event.trans h.event, h'.enabled.trans h.enabled⟩

theorem reportsReady_congr {operation : Operation} (h : entry'.event = entry.event) :
    reportsReady o entry' operation = reportsReady o entry operation := by
  simp only [reportsReady, epollOperationRegistered, epollEventRegistered, isLevelTriggered,
    isEdgeTriggered, isEdgeFor_eq_false, h]

theorem SameBut.active (h : SameBut entry entry') : entryActive o entry' = entryActive o entry := by
  simp only [entryActive, h.enabled, reportsReady_congr h.event]

theorem sameBut_clearPollEdge (operation : Operation) :
    SameBut entry (clearPollEdge entry operation) := by
  refine ⟨rfl, ?_⟩
  cases operation <;>
    simp only [isEnabled, clearPollEdge, BitVec.and_assoc] <;> congr 1

theorem checkEpollEvent_reported {output : EpollEvent} {operation : Operation} :
    (checkEpollEvent (o.ready operation) entry output operation).reported =
      reportsReady o entry operation := by
  unfold checkEpollEvent reportsReady
  split
  · split
    · split <;> simp_all
    · simp_all
  · simp_all

theorem checkEpollEvent_sameBut {ready : Bool} {output : EpollEvent} {operation : Operation}
    (h : (checkEpollEvent ready entry output operation).reported = false) :
    SameBut entry (checkEpollEvent ready entry output operation).entry := by
  unfold checkEpollEvent at h ⊢
  split
  · split
    · split
      · simp_all
      · exact .refl entry
    · exact sameBut_clearPollEdge operation
  · exact .refl entry

/-- **The check of an entry**, while there is room in the array. -/
theorem checkEpollEntry_activity (h : k ≠ n) :
    (checkEpollEntry o entry events n k).activity = entryActive o entry := by
  unfold checkEpollEntry entryActive
  rw [if_neg h]
  cases he : isEnabled entry with
  | false => rfl
  | true =>
    cases hp : o.peerDied with
    | true => rfl
    | false =>
      simp only [Bool.not_true, Bool.false_eq_true, if_false, Bool.true_and, Bool.false_or,
        checkEpollEvent_reported]
      rw [reportsReady_congr (checkEpollEvent_entry _ _ _ _).1]

theorem checkEpollEntry_full :
    checkEpollEntry o entry events n n = { activity := false, entry, events } := if_pos rfl

theorem checkEpollEntry_sameBut (h : (checkEpollEntry o entry events n k).activity = false) :
    SameBut entry (checkEpollEntry o entry events n k).entry := by
  unfold checkEpollEntry at h ⊢
  split
  · exact .refl entry
  · split
    · exact .refl entry
    · dsimp only at h ⊢
      split
      · simp_all
      · rename_i h1 h2 h3
        rw [if_neg h1, if_neg h2, if_neg h3] at h
        obtain ⟨hread, hwrite⟩ := Bool.or_eq_false_iff.mp h
        exact (checkEpollEvent_sameBut hread).trans (checkEpollEvent_sameBut hwrite)

theorem checkEpollEntry_touched :
    i ∈ (checkEpollEntry o entry events n k).events.touched ↔
      i ∈ events.touched ∨ (k ≠ n ∧ isEnabled entry = true ∧ i = k) := by
  unfold checkEpollEntry
  split
  · simp_all
  · split
    · simp_all
    · dsimp only
      split <;> simp_all [EventBuffer.mem_touched_write]

theorem checkEpollEntry_bound (hk : k ≤ n)
    (hi : i ∈ (checkEpollEntry o entry events n k).events.touched) :
    i ∈ events.touched ∨ 0 ≤ i ∧ i < n := by
  rcases checkEpollEntry_touched.mp hi with hi | ⟨hn, -, rfl⟩
  · exact .inl hi
  · exact .inr (by omega)

/-! ### All entries -/

variable {seen : Nat → Observation} {entries entries' : List EpollEntry}

/-- The number of active entries, of which the `i`-th is seen as `o i`. -/
def activeCount : (Nat → Observation) → List EpollEntry → Nat
  | _, [] => 0
  | o, entry :: rest =>
    (if entryActive (o 0) entry then 1 else 0) + activeCount (fun i => o (i + 1)) rest

theorem activeCount_sameBut (h : List.Forall₂ SameBut entries entries') :
    activeCount seen entries' = activeCount seen entries := by
  induction h generalizing seen with
  | nil => rfl
  | cons he _ ih => rw [activeCount, activeCount, he.active, ih]

theorem forall₂_sameBut_refl (entries : List EpollEntry) :
    List.Forall₂ SameBut entries entries := by
  induction entries with
  | nil => exact .nil
  | cons entry rest ih => exact .cons (.refl entry) ih

theorem forall₂_sameBut_trans {l₁ l₂ l₃ : List EpollEntry} (h : List.Forall₂ SameBut l₁ l₂)
    (h' : List.Forall₂ SameBut l₂ l₃) : List.Forall₂ SameBut l₁ l₃ := by
  induction h generalizing l₃ with
  | nil => exact h'
  | cons he _ ih =>
    cases h' with
    | cons he' ht => exact .cons (he.trans he') (ih ht)

theorem scanEntries_full : scanEntries n seen entries events n = ⟨n, entries, events⟩ := by
  induction entries generalizing seen with
  | nil => rfl
  | cons entry rest ih =>
    rw [scanEntries, checkEpollEntry_full]
    simp only [Bool.false_eq_true, if_false, ih]

/-- The `break` ends a loop that has nothing left to do. -/
theorem scanUntilFull_eq :
    scanUntilFull n seen entries events k = scanEntries n seen entries events k := by
  induction entries generalizing seen events k with
  | nil => rfl
  | cons entry rest ih =>
    rw [scanUntilFull, scanEntries]
    dsimp only
    by_cases ha : (checkEpollEntry (seen 0) entry events n k).activity = true
    · rw [if_pos ha, if_pos ha]
      by_cases hn : k + 1 = n
      · rw [if_pos hn, hn, scanEntries_full]
      · rw [if_neg hn, ih]
    · rw [if_neg ha, if_neg ha, ih]

/-- What a loop over entries does from the local count `k` on. -/
structure ScanSpec (n : Nat) (seen : Nat → Observation) (entries : List EpollEntry)
    (events : EventBuffer) (k : Nat) (scan : Scan) : Prop where
  count : scan.eventCount = min n (k + activeCount seen entries)
  touched : ∀ i ∈ scan.events.touched, i ∈ events.touched ∨ 0 ≤ i ∧ i < n
  grows : ∀ i ∈ events.touched, i ∈ scan.events.touched
  first : k < scan.eventCount → scan.events.touched ≠ []
  sameBut : scan.eventCount = k → k < n → List.Forall₂ SameBut entries scan.entries

theorem scan_spec (h : k ≤ n) :
    ScanSpec n seen entries events k (scanEntries n seen entries events k) := by
  induction entries generalizing seen events k with
  | nil =>
    refine ⟨?_, fun i hi => .inl hi, fun i hi => hi, fun hk => absurd hk (Nat.lt_irrefl k),
      fun _ _ => .nil⟩
    simp only [scanEntries, activeCount]
    omega
  | cons entry rest ih =>
    by_cases hn : k = n
    · subst hn
      rw [scanEntries_full]
      exact ⟨by simp, fun i hi => .inl hi, fun i hi => hi, fun hk => absurd hk (Nat.lt_irrefl k),
        fun _ hk => absurd hk (Nat.lt_irrefl k)⟩
    · have hact := @checkEpollEntry_activity (seen 0) entry events n k hn
      have htouched := @checkEpollEntry_touched (seen 0) entry events n k
      rw [scanEntries]
      cases ha : entryActive (seen 0) entry with
      | true =>
        rw [ha] at hact
        rw [if_pos hact]
        obtain ⟨hcount, hto, hgrows, -, -⟩ := @ih
          (checkEpollEntry (seen 0) entry events n k).events (k + 1) (fun i => seen (i + 1))
          (by omega)
        have hwritten : (k : Int) ∈ (checkEpollEntry (seen 0) entry events n k).events.touched :=
          htouched.mpr (.inr ⟨hn, (Bool.and_eq_true_iff.mp ha).1, rfl⟩)
        refine ⟨?_, ?_, ?_, ?_, ?_⟩
        · rw [hcount, activeCount, ha, if_pos rfl, ← Nat.add_assoc]
        · intro i hi
          rcases hto i hi with hi | hi
          · exact checkEpollEntry_bound h hi
          · exact .inr hi
        · exact fun i hi => hgrows i (htouched.mpr (.inl hi))
        · intro _ hnil
          have := hgrows _ hwritten
          rw [hnil] at this
          cases this
        · intro hk
          rw [hcount] at hk
          omega
      | false =>
        rw [ha] at hact
        rw [if_neg (by rw [hact]; decide)]
        obtain ⟨hcount, hto, hgrows, hfirst, hsame⟩ := @ih
          (checkEpollEntry (seen 0) entry events n k).events k (fun i => seen (i + 1)) h
        refine ⟨?_, ?_, ?_, hfirst, ?_⟩
        · rw [hcount, activeCount, ha, if_neg (by decide), Nat.zero_add]
        · intro i hi
          rcases hto i hi with hi | hi
          · exact checkEpollEntry_bound h hi
          · exact .inr hi
        · exact fun i hi => hgrows i (htouched.mpr (.inl hi))
        · exact fun hk hlt => .cons (checkEpollEntry_sameBut hact) (hsame hk hlt)

/-! ### The memory of a concurrent wait -/

variable {memory memory' : EpollMemory} {found : Nat}

theorem concurrentScan_spec (h : concurrentScan n seen memory k = some (found, memory'))
    (hk : k ≤ n) :
    0 < n ∧
      (memory.allocated = false →
        (scanEntries n seen memory.entries memory.tssxEvents k).events.touched = []) ∧
      found = (scanEntries n seen memory.entries memory.tssxEvents k).eventCount ∧
      memory' = { memory with
        entries := (scanEntries n seen memory.entries memory.tssxEvents k).entries
        tssxEvents := (scanEntries n seen memory.entries memory.tssxEvents k).events } := by
  unfold concurrentScan at h
  cases hm : memory.entries with
  | nil => rw [hm] at h; cases h
  | cons first entries =>
    simp only [hm, scanUntilFull_eq] at h
    split at h
    · cases h
    · rename_i hn
      -- the loop over the other entries is the rest of the loop over all
      have hloop : ∀ (events : EventBuffer) (k : Nat), k ≤ n →
          (if k < n then scanEntries n (fun i => seen (i + 1)) entries events k
            else ⟨k, entries, events⟩) =
              scanEntries n (fun i => seen (i + 1)) entries events k := by
        intro events k hk
        split
        · rfl
        · obtain rfl : k = n := by omega
          exact scanEntries_full.symm
      have hnext : (if (checkEpollEntry (seen 0) first memory.tssxEvents n k).activity = true
          then k + 1 else k) ≤ n := by
        split
        · rename_i ha
          by_contra hlt
          obtain rfl : k = n := by omega
          rw [checkEpollEntry_full] at ha
          cases ha
        · exact hk
      rw [hloop _ _ hnext] at h
      rw [scanEntries]
      generalize scanEntries n (fun i => seen (i + 1)) entries
        (checkEpollEntry (seen 0) first memory.tssxEvents n k).events
        (if (checkEpollEntry (seen 0) first memory.tssxEvents n k).activity = true
          then k + 1 else k) = scan at h ⊢
      split at h
      · cases h
      · rename_i hnull
        obtain ⟨rfl, rfl⟩ := Prod.mk.inj (Option.some.inj h)
        refine ⟨by omega, ?_, rfl, rfl⟩
        intro ha
        by_contra ht
        exact hnull (by rw [ha]; simpa using ht)

/-- The active entries that the last iteration saw. -/
def lastActive (entries : List EpollEntry) : Option (Nat → Observation) → Nat
  | some seen => activeCount seen entries
  | none => 0

def normalEvents : Option (WaitResult (List EpollEvent)) → List EpollEvent
  | some (.events found) => found
  | _ => []

/-- The memory of a wait for `entries` with the caller's array `events`. -/
structure EpollKept (n : Nat) (entries : List EpollEntry) (events : EventBuffer)
    (allocated : Bool) (seen : Option (Nat → Observation)) (found : Nat)
    (result : Option (WaitResult (List EpollEvent))) (memory : EpollMemory) : Prop where
  written : memory.events = events.writeFrom 0 (normalEvents result)
  counted : found = min n (lastActive entries seen)
  sameBut : found = 0 → List.Forall₂ SameBut entries memory.entries
  allocation : memory.allocated = allocated
  null : allocated = false → found = 0 ∧ memory.tssxEvents.touched = []

variable {start : Nat} {timeout : Int} {allocated blocked : Bool}
  {as : List (WaitAction (Nat → Observation) (List EpollEvent))}
  {s : WaitState (Nat → Observation) EpollMemory (List EpollEvent)}
  {result : Option (WaitResult (List EpollEvent))}

theorem epollKept_scan {old : Option (Nat → Observation)}
    (hk : EpollKept n entries events allocated old 0 result memory)
    (h : concurrentScan n seen memory 0 = some (found, memory')) :
    EpollKept n entries events allocated (some seen) found result memory' := by
  obtain ⟨hn, hnull, hfound, rfl⟩ := concurrentScan_spec h (Nat.zero_le n)
  have hspec := @scan_spec memory.tssxEvents n 0 seen memory.entries (Nat.zero_le n)
  have hsame := hk.sameBut rfl
  refine ⟨hk.written, ?_, ?_, hk.allocation, ?_⟩
  · rw [hfound, hspec.count, activeCount_sameBut hsame, Nat.zero_add]
    rfl
  · intro h0
    exact forall₂_sameBut_trans hsame (hspec.sameBut (hfound ▸ h0) hn)
  · intro ha
    have ht := hnull (by rw [hk.allocation, ha])
    refine ⟨?_, ht⟩
    by_contra h0
    exact hspec.first (by omega) ht

/-- **The memory in every interleaving.** -/
theorem epollKept_run {A : WaitResult (List EpollEvent) → Prop} (hA : A .interrupted)
    (ha : ∀ r, .wake r ∈ as → A r)
    (h : Run.run (waitStep (concurrentEpollWait n start timeout))
      ((concurrentEpollWait n start timeout).init (.init entries events n allocated) blocked) as =
        some s) :
    s.Keeps (concurrentEpollWait n start timeout) fun seen found result memory =>
      EpollKept n entries events (EpollMemory.init entries events n allocated).allocated seen found
          result memory ∧ ∀ r, result = some r → A r := by
  refine keeps_run ?_ ?_ ?_ hA ha h
  · refine ⟨⟨rfl, (Nat.min_zero n).symm, fun _ => forall₂_sameBut_refl entries, rfl,
      fun _ => ⟨rfl, rfl⟩⟩, nofun⟩
  · rintro old r m seen found m' ⟨hk, hr⟩ hs
    exact ⟨epollKept_scan hk hs, hr⟩
  · rintro seen found m r hr ⟨hk, -⟩
    refine ⟨?_, fun r' h' => Option.some.inj h' ▸ hr⟩
    cases r with
    | events es =>
      refine { hk with written := ?_ }
      show m.events.writeFrom 0 es = _
      rw [hk.written]
      rfl
    | interrupted => exact { hk with }
    | failed => exact { hk with }

@[simp] theorem normalCount_epoll :
    (concurrentEpollWait n start timeout).normalCount result = (normalEvents result).length := by
  rcases result with _ | es | _ | _ <;> rfl

theorem normalTaskCount_epoll (h : result.any WaitResult.isFailed = false) :
    (concurrentEpollWait n start timeout).normalTaskCount result =
      (normalEvents result).length := by
  rcases result with _ | es | _ | _
  · rfl
  · rfl
  · rfl
  · cases h

/-- **The caller's array after a call without an error**: first the normal events, then those of
the TSSX entries. -/
theorem events_returned {value : Int}
    {Q : Option (Nat → Observation) → Nat → Option (WaitResult (List EpollEvent)) →
      EpollMemory → Prop}
    (hQ : ∀ seen found m, Q seen found s.result m →
      m.events = events.writeFrom 0 (normalEvents s.result))
    (hi : WaitInv (concurrentEpollWait n start timeout) s)
    (hk : s.Keeps (concurrentEpollWait n start timeout) Q)
    (hr : s.tssx = .returned value) (hf : s.failed = false) :
    s.memory.events =
      events.writeFrom 0 (normalEvents s.result ++ s.memory.tssxEvents.take s.found) := by
  obtain ⟨m, hw, hq⟩ := hk
  have hst : s.stored = false := by rw [WaitState.stored, hf, Bool.and_false]
  have he : thereWasAnError s.eventCount = false := by
    apply beq_eq_false_iff_ne.mpr
    intro he
    rw [hi.error_stored he] at hst
    cases hst
  simp only [WaitState.WorksOn, hr, concurrentEpollWait, he, Bool.false_eq_true, if_false] at hw
  split at hw
  · rw [← Option.some.inj hw]
    dsimp only
    rw [EventBuffer.writeFrom_append, hQ _ _ _ hq, Int.zero_add]
    exact congrArg (EventBuffer.writeFrom _ · _) (normalTaskCount_epoll hf)
  · cases hw

theorem touched_returned {value : Int}
    {Q : Option (Nat → Observation) → Nat → Option (WaitResult (List EpollEvent)) →
      EpollMemory → Prop}
    (hnew : events.touched = [])
    (hQ : ∀ seen found m, Q seen found s.result m →
      m.events = events.writeFrom 0 (normalEvents s.result))
    (hi : WaitInv (concurrentEpollWait n start timeout) s)
    (hk : s.Keeps (concurrentEpollWait n start timeout) Q)
    (hr : s.tssx = .returned value) (hf : s.failed = false) :
    i ∈ s.memory.events.touched ↔
      0 ≤ i ∧ i < (s.found + (normalEvents s.result).length : Nat) := by
  rw [events_returned hQ hi hk hr hf, EventBuffer.mem_touched_writeFrom, List.length_append,
    EventBuffer.length_take, hnew, Nat.add_comm]
  simp

end Tssx
