import Tssx.Poll.Rejoin

/-!
# `poll` without TSSX descriptors

`_partition` looks at every descriptor before `poll` decides to forward the call.  It asserts that
each is positive and below the size of the session table, and clears its `revents`; `poll` does not
come to `real_poll` at all where the array is empty or one of the vectors cannot be set up.
`poll_transparent_iff` says exactly when the call is that of `real_poll` all the same.
-/

namespace Tssx

/-- The call returns what `real_poll` returns, with the same `revents`. -/
def PollTransparent (environment : PollEnvironment) (bridge : Bridge) (fds : List PollFd)
    (timeout : Int) : Prop :=
  ∃ call, poll environment bridge fds timeout = some call ∧
    call.returned = some (realPollValue (environment.realPoll fds timeout)) ∧
    call.fds = realPollFds fds (environment.realPoll fds timeout)

def WaitResult.isEvents {ρ : Type} : WaitResult ρ → Bool
  | .events _ => true
  | _ => false

/-- Once an allocation for the vector of normal descriptors fails, all later ones do.  The vector
has 16 cells at first, and its capacity doubles. -/
def FailsForGood (growth : Nat → Bool) (n : Nat) : Prop :=
  ∀ k j, 16 * 2 ^ k < j → j < n → growth (16 * 2 ^ k) = false → growth j = false

/-- When the library stays out of the way of a call. -/
def Forwards (environment : PollEnvironment) (fds : List PollFd) (timeout : Int) : Prop :=
  if fds = [] then (environment.realPoll fds timeout).isEvents = true
  else if environment.allocations.tssxFds && environment.allocations.normalFds then
    (∀ poll ∈ fds, poll.InTable) ∧ FailsForGood environment.allocations.growth fds.length ∧
      ((environment.realPoll fds timeout).isEvents = true ∨ ∀ poll ∈ fds, poll.revents = 0)
  else (environment.realPoll fds timeout).isEvents = false

/-- What `real_poll` does, as documented: it does not look at the old `revents`, and writes new
ones for every descriptor. -/
structure RealPoll (realPoll : List PollFd → Int → WaitResult (List (BitVec 16))) : Prop where
  cleared : ∀ polls timeout, realPoll (polls.map PollFd.cleared) timeout = realPoll polls timeout
  length : ∀ polls timeout revents, realPoll polls timeout = .events revents →
    revents.length = polls.length

variable {bridge : Bridge} {fds polls : List PollFd} {growth : Nat → Bool}
  {normalFds : Vector PollFd}

/-! ### The vector of normal descriptors -/

/-- The vector after the descriptors `polls`: it holds them, or has lost its block at the first
allocation that failed, and no later one has succeeded. -/
inductive NormalVector (growth : Nat → Bool) (normalFds : Vector PollFd) (polls : List PollFd) :
    Prop
  | holds (k : Nat) (h : normalFds.Holds polls) (hc : normalFds.capacity = 16 * 2 ^ k)
      (hg : ∀ i < k, growth (16 * 2 ^ i) = true)
  | lost (k : Nat) (hd : normalFds.data = none) (hs : normalFds.size = normalFds.capacity)
      (hc : normalFds.capacity = 16 * 2 ^ k) (hg : ∀ i < k, growth (16 * 2 ^ i) = true)
      (hk : 16 * 2 ^ k < polls.length) (hf : growth (16 * 2 ^ k) = false)
      (hlater : ∀ j, 16 * 2 ^ k < j → j < polls.length → growth j = false)

theorem pow_le_of_le {i k : Nat} (h : i ≤ k) : 16 * 2 ^ i ≤ 16 * 2 ^ k :=
  Nat.mul_le_mul_left 16 (Nat.pow_le_pow_right (by decide) h)

theorem NormalVector.failsForGood (h : NormalVector growth normalFds polls) :
    FailsForGood growth polls.length := by
  intro i j hij hj hfail
  cases h with
  | holds k h hc hg =>
    -- the vector has grown at every such index below its capacity
    have hle : polls.length ≤ 16 * 2 ^ k := by rw [← hc, ← h.size]; exact h.size_le
    have hik : i < k := by
      by_contra hn
      have := pow_le_of_le (Nat.not_lt.mp hn)
      omega
    exact Bool.noConfusion ((hg i hik).symm.trans hfail)
  | lost k _ _ _ hg _ _ hlater =>
    have hki : k ≤ i := by
      by_contra hn
      exact Bool.noConfusion ((hg i (Nat.not_le.mp hn)).symm.trans hfail)
    exact hlater j (Nat.lt_of_le_of_lt (pow_le_of_le hki) hij) hj

/-- **One insertion** goes on, or copies from a null pointer. -/
theorem NormalVector.push (h : NormalVector growth normalFds polls) (poll : PollFd) :
    (∃ code normalFds', vectorPushBack (growth polls.length) normalFds poll =
        some (code, normalFds') ∧ NormalVector growth normalFds' (polls ++ [poll])) ∨
      (vectorPushBack (growth polls.length) normalFds poll = none ∧
        ∀ n, polls.length < n → ¬ FailsForGood growth n) := by
  have hlength : (polls ++ [poll]).length = polls.length + 1 := List.length_append
  cases h with
  | holds k h hc hg =>
    by_cases hfull : normalFds.size = normalFds.capacity
    · have hindex : polls.length = 16 * 2 ^ k := by rw [← h.size, hfull, hc]
      obtain ⟨⟨grown, hp, hh, hcapacity⟩, hp'⟩ := h.pushBack_full hfull poll
      cases hgrow : growth polls.length with
      | true =>
        refine .inl ⟨_, _, hp, .holds (k + 1) hh (by rw [hcapacity, hc, Nat.pow_succ]; omega) ?_⟩
        intro i hi
        rcases Nat.lt_succ_iff_lt_or_eq.mp hi with hi | rfl
        · exact hg i hi
        · rwa [hindex] at hgrow
      | false =>
        rw [hindex] at hgrow
        exact .inl ⟨_, _, hp', .lost k rfl hfull hc hg (by omega) hgrow (by omega)⟩
    · obtain ⟨stored, hp, hh, hcapacity⟩ := h.pushBack_room hfull poll (growth polls.length)
      exact .inl ⟨_, _, hp, .holds k hh (hcapacity.trans hc) hg⟩
  | lost k hd hs hc hg hk hf hlater =>
    have hpos : VECTOR_MINIMUM_CAPACITY ≤ normalFds.capacity := by
      have := Nat.pow_pos (n := k) (Nat.zero_lt_two)
      rw [hc, VECTOR_MINIMUM_CAPACITY]
      omega
    rw [vectorPushBack_lost hd hs hpos]
    cases hgrow : growth polls.length with
    | true =>
      refine .inr ⟨rfl, ?_⟩
      intro n hn hfails
      exact Bool.noConfusion (hgrow.symm.trans (hfails k polls.length hk hn hf))
    | false =>
      refine .inl ⟨_, _, rfl, .lost k hd hs hc hg (by omega) hf ?_⟩
      intro j hj hj'
      rcases Nat.lt_succ_iff_lt_or_eq.mp (hlength ▸ hj') with hj' | rfl
      · exact hlater j hj hj'
      · exact hgrow

/-! ### The partition -/

/-- The partition after the descriptors `done`, none of which has a connection. -/
structure NormalSplit (growth : Nat → Bool) (partition : Partition) (bridge : Bridge)
    (done : List PollFd) : Prop where
  array : partition.fds = done.map PollFd.cleared
  tssxFds : partition.tssxFds.size = 0
  normalFds : NormalVector growth partition.normalFds (done.map PollFd.cleared)
  setUp : partition.bridge.SetUp
  table : partition.bridge.sessionTable = bridge.sessionTable

namespace NormalSplit

variable {partition : Partition} {done : List PollFd}

/-- **One descriptor** passes the assertions exactly if it is in the table. -/
theorem one {poll : PollFd} (h : NormalSplit growth partition bridge done)
    (hint : poll.fd < 2 ^ 31) (hc : bridge.connection poll.fd = none) :
    (poll.InTable ∧ ∃ partition', partitionOne (growth partition.fds.length) partition poll =
        some partition' ∧ NormalSplit growth partition' bridge (done ++ [poll])) ∨
      (partitionOne (growth partition.fds.length) partition poll = none ∧
        (poll.InTable → ∀ n, done.length < n → ¬ FailsForGood growth n)) := by
  have hlen : partition.fds.length = (done.map PollFd.cleared).length := by rw [h.array]
  rw [partitionOne]
  by_cases hpos : poll.fd ≤ 0
  · rw [if_pos hpos]
    refine .inr ⟨rfl, ?_⟩
    intro hp
    have := hp.1
    omega
  rw [if_neg hpos]
  dsimp only
  by_cases hp : poll.InTable
  · obtain ⟨bridge', session, hlookup, hset, htable, hconn⟩ := bridgeLookup_inTable h.setUp hp
    rw [connection_congr h.table, hc] at hconn
    rw [hlookup, Option.bind_some]
    dsimp only
    rw [hconn, hlen]
    dsimp only
    rw [show ({ poll with revents := 0 } : PollFd) = poll.cleared from rfl]
    rcases h.normalFds.push poll.cleared with ⟨code, normalFds, hpush, hvector⟩ | ⟨hcrash, hfails⟩
    · rw [hpush, Option.map_some]
      exact .inl ⟨hp, _, rfl, by simp [h.array], h.tssxFds, by simpa using hvector, hset,
        htable.trans h.table⟩
    · rw [hcrash]
      exact .inr ⟨rfl, fun _ => by rwa [List.length_map] at hfails⟩
  · -- the session table asserts its size
    obtain ⟨bridge', -, -, hl⟩ := bridgeLookup_eq h.setUp
    have hout : partition.bridge.sessionTable.sessions.length ≤ sizeT poll.fd := by
      rw [partition.bridge.sessionTable.size]
      unfold PollFd.InTable at hp
      unfold sizeT
      omega
    refine .inr ⟨?_, fun hin => absurd hin hp⟩
    rw [hl, List.getElem?_eq_none hout]
    rfl

/-- **The loop** ends exactly if all descriptors are in the table and no allocation succeeds after
one that has failed. -/
theorem loop (h : NormalSplit growth partition bridge done)
    (hint : ∀ poll ∈ fds, poll.fd < 2 ^ 31)
    (hc : ∀ poll ∈ fds, bridge.connection poll.fd = none) :
    ((∃ partition', partitionLoop growth partition fds = some partition' ∧
        NormalSplit growth partition' bridge (done ++ fds)) ∧ ∀ poll ∈ fds, poll.InTable) ∨
      (partitionLoop growth partition fds = none ∧
        ¬ ((∀ poll ∈ fds, poll.InTable) ∧ FailsForGood growth (done ++ fds).length)) := by
  induction fds generalizing partition done with
  | nil => exact .inl ⟨⟨partition, rfl, by rwa [List.append_nil]⟩, nofun⟩
  | cons poll fds ih =>
    obtain ⟨hpoll, hrest⟩ := List.forall_mem_cons.mp hint
    obtain ⟨hconn, hconns⟩ := List.forall_mem_cons.mp hc
    rw [partitionLoop]
    rcases h.one hpoll hconn with ⟨hin, next, hone, hnext⟩ | ⟨hnone, hbad⟩
    · rw [hone, Option.bind_some]
      have htail := ih hnext hrest hconns
      rw [List.append_assoc, List.singleton_append] at htail
      simpa [hin] using htail
    · refine .inr ⟨by rw [hnone]; rfl, ?_⟩
      rintro ⟨hall, hfails⟩
      refine hbad (hall poll List.mem_cons_self) _ ?_ hfails
      simp

end NormalSplit

theorem partition_normal {allocations : PollAllocations} (hb : bridge.SetUp)
    (ha : (allocations.tssxFds && allocations.normalFds) = true)
    (hint : ∀ poll ∈ fds, poll.fd < 2 ^ 31)
    (hc : ∀ poll ∈ fds, bridge.connection poll.fd = none) :
    (∃ partition', partition allocations bridge fds = some (SUCCESS, partition') ∧
        partition'.fds = fds.map PollFd.cleared ∧ partition'.tssxFds.size = 0 ∧
        (∀ poll ∈ fds, poll.InTable) ∧ FailsForGood allocations.growth fds.length) ∨
      (partition allocations bridge fds = none ∧
        ¬ ((∀ poll ∈ fds, poll.InTable) ∧ FailsForGood allocations.growth fds.length)) := by
  obtain ⟨ht, hn⟩ := Bool.and_eq_true_iff.mp ha
  obtain ⟨htssx, -⟩ := @Vector.Holds.setup PollPointer 16 16 (by decide)
  obtain ⟨hnormal, hholds⟩ := @Vector.Holds.setup PollFd 16 8 (by decide)
  have hstart : NormalSplit allocations.growth
      (.mk [] (vectorSetup true 16 16).2 (vectorSetup true 16 8).2 bridge) bridge [] :=
    ⟨rfl, rfl, .holds 0 hholds rfl nofun, hb, rfl⟩
  have hpartition : partition allocations bridge fds =
      (partitionLoop allocations.growth
        (.mk [] (vectorSetup true 16 16).2 (vectorSetup true 16 8).2 bridge) fds).map
          fun partition => (SUCCESS, partition) := by
    rw [partition, ht, hn]
    simp only [htssx, hnormal]
    rw [if_neg (by decide), if_neg (by decide)]
  rw [hpartition]
  rcases hstart.loop hint hc with ⟨⟨last, hloop, hlast⟩, hin⟩ | ⟨hloop, hnot⟩
  · rw [hloop]
    have hfails := hlast.normalFds.failsForGood
    rw [List.length_map] at hfails
    exact .inl ⟨last, rfl, hlast.array, hlast.tssxFds, hin, hfails⟩
  · rw [hloop]
    exact .inr ⟨rfl, hnot⟩

theorem partition_failed {allocations : PollAllocations}
    (ha : (allocations.tssxFds && allocations.normalFds) = false) :
    ∃ partition', partition allocations bridge fds = some (ERROR, partition') ∧
      partition'.fds = fds := by
  unfold partition vectorSetup
  cases ht : allocations.tssxFds with
  | false => exact ⟨_, rfl, rfl⟩
  | true =>
    rw [ht, Bool.true_and] at ha
    rw [ha]
    exact ⟨_, rfl, rfl⟩

/-! ### The call -/

theorem writeRevents_cleared {revents : List (BitVec 16)} (h : revents.length = fds.length) :
    writeRevents (fds.map PollFd.cleared) revents = writeRevents fds revents := by
  induction fds generalizing revents with
  | nil => rfl
  | cons poll fds ih =>
    obtain ⟨r, revents, rfl⟩ := List.exists_cons_of_length_eq_add_one h
    rw [List.map_cons, writeRevents, writeRevents, ih (by simpa using h)]
    rfl

theorem map_cleared_iff : fds.map PollFd.cleared = fds ↔ ∀ poll ∈ fds, poll.revents = 0 := by
  induction fds with
  | nil => simp
  | cons poll fds ih =>
    rw [List.map_cons, List.cons.injEq, ih, List.forall_mem_cons]
    refine and_congr_left fun _ => ?_
    obtain ⟨fd, events, revents⟩ := poll
    simp only [PollFd.cleared, PollFd.mk.injEq, true_and]
    exact eq_comm

/-- `real_poll` for the cleared array does what it does for the array itself, unless it fails
where old `revents` have been cleared. -/
theorem forwardPoll_iff {environment : PollEnvironment} {timeout : Int}
    (hreal : RealPoll environment.realPoll) :
    (realPollFds (fds.map PollFd.cleared) (environment.realPoll fds timeout) =
        realPollFds fds (environment.realPoll fds timeout)) ↔
      (environment.realPoll fds timeout).isEvents = true ∨ ∀ poll ∈ fds, poll.revents = 0 := by
  cases hr : environment.realPoll fds timeout with
  | events revents =>
    exact iff_of_true (writeRevents_cleared (hreal.length fds timeout revents hr)) (.inl rfl)
  | interrupted | failed => simpa [realPollFds, WaitResult.isEvents] using map_cleared_iff

/-- **`poll` is transparent** for an array without TSSX descriptors exactly if it has entries, all
of them in the table, the two vectors can be set up and no allocation succeeds after one that has
failed, and the call of `real_poll` does not fail after old results have been cleared; or where
it fails in the way that `real_poll` does. -/
theorem poll_transparent_iff (environment : PollEnvironment) (timeout : Int) (hb : bridge.SetUp)
    (hreal : RealPoll environment.realPoll) (hint : ∀ poll ∈ fds, poll.fd < 2 ^ 31)
    (hc : ∀ poll ∈ fds, bridge.connection poll.fd = none) :
    PollTransparent environment bridge fds timeout ↔ Forwards environment fds timeout := by
  unfold PollTransparent Forwards poll
  by_cases hne : fds = []
  · subst hne
    simp only [if_true, Option.some.injEq, exists_eq_left']
    cases hr : environment.realPoll [] timeout with
    | events revents =>
      obtain rfl := List.eq_nil_of_length_eq_zero (hreal.length [] timeout revents hr)
      exact iff_of_true ⟨rfl, rfl⟩ rfl
    | interrupted | failed =>
      exact iff_of_false (fun h => absurd h.1 (by decide)) Bool.false_ne_true
  rw [if_neg hne, if_neg hne]
  cases ha : environment.allocations.tssxFds && environment.allocations.normalFds with
  | true =>
    rw [if_pos rfl]
    rcases partition_normal hb ha hint hc with ⟨p, hpartition, harray, hsize, hin, hfails⟩ |
      ⟨hpartition, hnot⟩
    · rw [hpartition, Option.bind_some]
      dsimp only
      rw [if_neg (by decide), if_pos hsize, harray]
      simp only [forwardPoll, hreal.cleared, Option.some.injEq, exists_eq_left', true_and,
        forwardPoll_iff hreal]
      exact ⟨fun h => ⟨hin, hfails, h⟩, fun h => h.2.2⟩
    · rw [hpartition, Option.bind_none]
      exact iff_of_false (fun ⟨_, h, _⟩ => nomatch h) fun h => hnot ⟨h.1, h.2.1⟩
  | false =>
    rw [if_neg Bool.false_ne_true]
    obtain ⟨p, hpartition, harray⟩ := @partition_failed bridge fds _ ha
    rw [hpartition, Option.bind_some]
    dsimp only
    rw [if_pos rfl, harray]
    simp only [Option.some.injEq, exists_eq_left']
    cases environment.realPoll fds timeout with
    | events revents =>
      refine iff_of_false (fun h => ?_) (fun h => Bool.noConfusion h)
      have hvalue := h.1
      rw [ERROR, realPollValue] at hvalue
      omega
    | interrupted | failed => exact iff_of_true ⟨rfl, rfl⟩ rfl

/-- Every requested event occurs. -/
private def everythingOccurs : PollEnvironment where
  allocations := { tssxFds := true, normalFds := true, growth := fun _ => true }
  start := 0
  passes := []
  actions := []
  blocked := false
  realPoll polls _ := .events (polls.map PollFd.events)

private theorem everythingOccurs_real : RealPoll everythingOccurs.realPoll where
  cleared polls timeout := by
    simp only [everythingOccurs, List.map_map]
    rfl
  length polls timeout revents h := by
    cases h
    exact List.length_map _

private def waiting (fd : Int) : PollFd := { fd, events := POLLIN, revents := POLLOUT }

theorem poll_transparent_iff_at :
    PollTransparent everythingOccurs .initial [waiting 5, waiting 1023] 100 := by
  refine (poll_transparent_iff everythingOccurs 100 (fun _ => rfl) everythingOccurs_real
    (by decide) (by decide +kernel)).mpr ?_
  exact ⟨by decide, fun _ _ _ _ h => Bool.noConfusion h, .inl rfl⟩

/-- **The standard input, a descriptor that `real_poll` ignores and one that has no place in the
session table** fail assertions. -/
theorem poll_asserts :
    ¬ PollTransparent everythingOccurs .initial [waiting 0] 100 ∧
      ¬ PollTransparent everythingOccurs .initial [waiting (-1), waiting 5] 100 ∧
      ¬ PollTransparent everythingOccurs .initial [waiting 1024] 100 := by
  have hfails : ∀ {fds : List PollFd}, (poll everythingOccurs .initial fds 100).isSome = false →
      ¬ PollTransparent everythingOccurs .initial fds 100 := by
    rintro fds hnone ⟨call, hcall, -⟩
    rw [hcall] at hnone
    cases hnone
  exact ⟨hfails (by decide +kernel), hfails (by decide +kernel), hfails (by decide +kernel)⟩

end Tssx
