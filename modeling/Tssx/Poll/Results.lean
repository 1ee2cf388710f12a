import Tssx.Poll.Ready
import Tssx.Poll.Rejoin

/-!
# What `poll` hands back

`PollCorrect` says what a call should leave in the array and return, and `pollCorrect_rejoined`
that the merged array of the two kinds is that.  `poll_joined`: every entry gets its own results,
and the return value is the number of entries with any, as long as an `int` can count them.
-/

namespace Tssx

/-! ### What should come back -/

/-- The `revents` that `real_poll` has produced for the `i`-th of its descriptors; they stay zero
if it was interrupted or not called. -/
def producedRevents (result : Option (WaitResult (List (BitVec 16)))) (i : Nat) : BitVec 16 :=
  match result with
  | some (.events revents) => revents[i]?.getD 0
  | _ => 0

/-- What a call that returns `value` should leave in the array `fds`. -/
structure PollCorrect (bridge : Bridge) (fds : List PollFd) (call : PollCall) (value : Int) :
    Prop where
  same : List.Forall₂ SameRequest fds call.fds
  tssx : ∀ (i : Nat) poll, fds[i]? = some poll → isTssx bridge poll = true →
    ∃ o poll', call.observed = some o ∧ call.fds[i]? = some poll' ∧
      poll'.revents = readyRevents (o (Merge.rank (isTssx bridge) fds i)) poll.events
  normal : ∀ (i : Nat) poll, fds[i]? = some poll → isTssx bridge poll = false →
    ∃ poll', call.fds[i]? = some poll' ∧ poll'.revents =
      producedRevents call.result (Merge.rank (fun poll => !isTssx bridge poll) fds i)
  count : value = call.fds.countP (·.revents != 0)

variable {bridge : Bridge} {fds polls : List PollFd}

/-! ### The merged array -/

theorem scanned_same (observed : Option (Nat → Observation)) (entries : List PollEntry) :
    List.Forall₂ SameRequest (entries.map PollEntry.poll)
      ((scannedBy observed entries).map PollEntry.poll) := by
  cases observed with
  | none => exact List.forall₂_same.mpr fun _ _ => ⟨rfl, rfl⟩
  | some o =>
    show List.Forall₂ SameRequest _ ((scanned o entries).map PollEntry.poll)
    induction entries generalizing o with
    | nil => exact .nil
    | cons entry entries ih =>
      rw [scanned_cons]
      exact .cons ⟨rfl, rfl⟩ (ih fun i => o (i + 1))

theorem writeRevents_same (polls : List PollFd) (revents : List (BitVec 16)) :
    List.Forall₂ SameRequest polls (writeRevents polls revents) := by
  induction polls generalizing revents with
  | nil => cases revents <;> exact .nil
  | cons poll polls ih =>
    cases revents with
    | nil => exact List.forall₂_same.mpr fun _ _ => ⟨rfl, rfl⟩
    | cons r revents => exact .cons ⟨rfl, rfl⟩ (ih revents)

theorem polled_same (result : Option (WaitResult (List (BitVec 16)))) (polls : List PollFd) :
    List.Forall₂ SameRequest polls (polledBy result polls) := by
  unfold polledBy
  split
  · exact writeRevents_same polls _
  · exact List.forall₂_same.mpr fun _ _ => ⟨rfl, rfl⟩

theorem writeRevents_getElem? (polls : List PollFd) (revents : List (BitVec 16)) (i : Nat) :
    (writeRevents polls revents)[i]? =
      polls[i]?.map fun poll => { poll with revents := revents[i]?.getD poll.revents } := by
  induction polls generalizing revents i with
  | nil => cases revents <;> rfl
  | cons poll polls ih =>
    cases revents with
    | nil => simp [writeRevents]
    | cons r revents =>
      cases i with
      | zero => rfl
      | succ i => exact ih revents i

theorem polled_revents {result : Option (WaitResult (List (BitVec 16)))} {poll : PollFd} {i : Nat}
    (hi : polls[i]? = some poll) (hp : poll.revents = 0) :
    ∃ poll', (polledBy result polls)[i]? = some poll' ∧
      poll'.revents = producedRevents result i := by
  rcases result with _ | revents | _ | _
  case some.events =>
    refine ⟨{ poll with revents := revents[i]?.getD poll.revents }, ?_, by rw [hp]; rfl⟩
    rw [polledBy, writeRevents_getElem?, hi]
    rfl
  all_goals exact ⟨poll, hi, hp⟩

theorem writeRevents_count {polls : List PollFd} {revents : List (BitVec 16)}
    (h : revents.length = polls.length) :
    (writeRevents polls revents).countP (·.revents != 0) = revents.countP (· != 0) := by
  induction polls generalizing revents with
  | nil =>
    obtain rfl := List.eq_nil_of_length_eq_zero h
    rfl
  | cons poll polls ih =>
    obtain ⟨r, revents, rfl⟩ := List.exists_cons_of_length_eq_add_one h
    rw [writeRevents, List.countP_cons, List.countP_cons, ih (by simpa using h)]

theorem normalEntries_cleared {fds : List PollFd} :
    ∀ poll ∈ normalEntries bridge fds, poll.revents = 0 := by
  intro poll hpoll
  obtain ⟨_, -, rfl⟩ := List.mem_map.mp hpoll
  rfl

theorem tssxEntries_unmarked (bridge : Bridge) (fds : List PollFd) :
    Unmarked (tssxEntries bridge fds) := by
  intro entry hentry
  obtain ⟨poll, -, he⟩ := List.mem_filterMap.mp hentry
  obtain ⟨_, -, rfl⟩ := Option.map_eq_some_iff.mp he
  rfl

/-- The results in the normal entries. -/
def polledMarks (result : Option (WaitResult (List (BitVec 16)))) : Nat :=
  match result with
  | some (.events revents) => revents.countP (· != 0)
  | _ => 0

theorem polled_count {result : Option (WaitResult (List (BitVec 16)))}
    (hp : ∀ poll ∈ polls, poll.revents = 0)
    (hr : ∀ r, result = some r → Produces polls.length r) :
    (polledBy result polls).countP (·.revents != 0) = polledMarks result := by
  have hnone : polls.countP (·.revents != 0) = 0 :=
    List.countP_eq_zero.mpr fun poll hpoll => by simp [hp poll hpoll]
  rcases result with _ | revents | _ | _
  case some.events => exact writeRevents_count ((hr _ rfl).2 _ rfl)
  all_goals exact hnone

theorem polledMarks_le {result : Option (WaitResult (List (BitVec 16)))} {n : Nat}
    (hr : ∀ r, result = some r → Produces n r) : polledMarks result ≤ n := by
  unfold polledMarks
  split
  · rename_i revents
    rw [← (hr _ rfl).2 revents rfl]
    exact List.countP_le_length
  · exact Nat.zero_le n

theorem normalCount_eq {start : Nat} {timeout : Int}
    (result : Option (WaitResult (List (BitVec 16)))) :
    (concurrentPoll start timeout).normalCount result = polledMarks result := by
  cases result with
  | none => rfl
  | some r => cases r <;> rfl

/-- The array with the results of both kinds. -/
def rejoined (bridge : Bridge) (fds : List PollFd) (observed : Option (Nat → Observation))
    (result : Option (WaitResult (List (BitVec 16)))) : List PollFd :=
  Merge.merge (isTssx bridge) fds
    ((scannedBy observed (tssxEntries bridge fds)).map PollEntry.poll)
    (polledBy result (normalEntries bridge fds))

theorem tssx_same (bridge : Bridge) (fds : List PollFd) (observed : Option (Nat → Observation)) :
    List.Forall₂ SameRequest (fds.filter (isTssx bridge))
      ((scannedBy observed (tssxEntries bridge fds)).map PollEntry.poll) := by
  have h := scanned_same observed (tssxEntries bridge fds)
  rw [tssxEntries_polls] at h
  exact (List.forall₂_map_left_iff (f := PollFd.cleared)).mp h

theorem normal_same (bridge : Bridge) (fds : List PollFd)
    (result : Option (WaitResult (List (BitVec 16)))) :
    List.Forall₂ SameRequest (fds.filter fun poll => !isTssx bridge poll)
      (polledBy result (normalEntries bridge fds)) :=
  (List.forall₂_map_left_iff (f := PollFd.cleared)).mp
    (polled_same result (normalEntries bridge fds))

/-- **The merged array is what should come back.** -/
theorem pollCorrect_rejoined {call : PollCall} {value : Int}
    (hfds : call.fds = rejoined bridge fds call.observed call.result)
    (ho : tssxEntries bridge fds ≠ [] → call.observed ≠ none)
    (hr : ∀ r, call.result = some r → Produces (normalEntries bridge fds).length r)
    (hv : value = marks (scannedBy call.observed (tssxEntries bridge fds)) +
      polledMarks call.result) :
    PollCorrect bridge fds call value := by
  obtain ⟨hfits, hsame⟩ := Merge.Fits.forall₂ (tssx_same bridge fds call.observed)
    (normal_same bridge fds call.result)
  refine ⟨hfds ▸ hsame, ?_, ?_, ?_⟩
  · intro i poll hi hp
    -- the entry of the descriptor, at its rank
    have hentry : ((tssxEntries bridge fds)[Merge.rank (isTssx bridge) fds i]?).map
        PollEntry.poll = some poll.cleared := by
      rw [← List.getElem?_map, tssxEntries_polls, List.getElem?_map,
        Merge.filter_getElem? hi hp]
      rfl
    obtain ⟨entry, he, hcleared⟩ := Option.map_eq_some_iff.mp hentry
    obtain ⟨o, hobserved⟩ := Option.ne_none_iff_exists'.mp
      (ho (List.ne_nil_of_mem (List.mem_of_getElem? he)))
    refine ⟨o, (entry.addRevents (readyRevents
      (o (Merge.rank (isTssx bridge) fds i)) entry.poll.events)).poll, hobserved, ?_, ?_⟩
    · rw [hfds, rejoined, hfits.getElem? i, hi, Option.bind_some, if_pos hp, hobserved]
      simp [scannedBy, scanned, List.getElem?_mapIdx, he]
    · simp [PollEntry.addRevents, hcleared, PollFd.cleared]
  · intro i poll hi hp
    have hn : (!isTssx bridge poll) = true := by rw [hp]; rfl
    have hentry : (normalEntries bridge fds)[Merge.rank (fun poll => !isTssx bridge poll) fds i]? =
        some poll.cleared := by
      rw [normalEntries, List.getElem?_map,
        Merge.filter_getElem? (p := fun poll => !isTssx bridge poll) hi hn]
      rfl
    rw [hfds, rejoined, hfits.getElem? i, hi, Option.bind_some, if_neg (by simp [hp])]
    exact polled_revents hentry rfl
  · rw [hfds, rejoined, hfits.countP, List.countP_map, polled_count normalEntries_cleared hr, hv]
    rfl

/-! ### The calls -/

/-- The allocations succeed, the interleaving is one of the two threads, and `real_poll` writes
one `revents` for each of its descriptors and fails with nothing but `EINTR`. -/
structure PollEnvironment.Sound (environment : PollEnvironment) (bridge : Bridge)
    (fds : List PollFd) (timeout : Int) : Prop where
  tssxFds : environment.allocations.tssxFds = true
  normalFds : environment.allocations.normalFds = true
  growth : ∀ i, environment.allocations.growth i = true
  interleaving : (Run.run (waitStep (concurrentPoll environment.start timeout))
    ((concurrentPoll environment.start timeout).init
      { tssxFds := tssxEntries bridge fds, normalFds := normalEntries bridge fds }
      environment.blocked) environment.actions).isSome
  wakes : ∀ r, .wake r ∈ environment.actions → Produces (normalEntries bridge fds).length r
  real : ∀ polls, environment.realPoll polls timeout ≠ .failed ∧
    ∀ revents, environment.realPoll polls timeout = .events revents → revents.length = polls.length

section Calls

variable {environment : PollEnvironment} {timeout : Int} {partition : Partition}

theorem length_tssxPointers (bridge : Bridge) (index : Nat) (fds : List PollFd) :
    (tssxPointers bridge index fds).length = fds.countP (isTssx bridge) := by
  unfold tssxPointers
  induction fds generalizing index with
  | nil => rfl
  | cons poll fds ih =>
    rw [List.zipIdx_cons, List.filterMap_cons, List.countP_cons, ← ih (index + 1), isTssx]
    cases hc : bridge.connection poll.fd <;> simp [hc]

theorem length_tssxEntries (bridge : Bridge) (fds : List PollFd) :
    (tssxEntries bridge fds).length = fds.countP (isTssx bridge) := by
  rw [← List.length_map PollEntry.poll, tssxEntries_polls, List.length_map,
    List.countP_eq_length_filter]

theorem length_normalEntries (bridge : Bridge) (fds : List PollFd) :
    (normalEntries bridge fds).length = fds.countP fun poll => !isTssx bridge poll := by
  rw [normalEntries, List.length_map, List.countP_eq_length_filter]

theorem length_entries (bridge : Bridge) (fds : List PollFd) :
    (tssxEntries bridge fds).length + (normalEntries bridge fds).length = fds.length := by
  rw [length_tssxEntries, length_normalEntries, List.length_eq_countP_add_countP (isTssx bridge)]
  simp

/-- Before the scans, the array is the merge of its two parts. -/
theorem cleared_eq_rejoined (bridge : Bridge) (fds : List PollFd) :
    fds.map PollFd.cleared = rejoined bridge fds none none := by
  rw [rejoined, scannedBy, tssxEntries_polls]
  exact (Merge.merge_filter (isTssx bridge) PollFd.cleared fds).symm

theorem store_rejoined (bridge : Bridge) (fds : List PollFd)
    (observed : Option (Nat → Observation)) :
    storeEntries (fds.map PollFd.cleared) (tssxPointers bridge 0 fds)
        (scannedBy observed (tssxEntries bridge fds)) =
      rejoined bridge fds observed none := by
  have hbefore := (Merge.Fits.forall₂ (tssx_same bridge fds none) (normal_same bridge fds none)).1
  have hafter :=
    (Merge.Fits.forall₂ (tssx_same bridge fds observed) (normal_same bridge fds none)).1
  rw [cleared_eq_rejoined bridge fds]
  exact store_pointers [] hbefore hafter

theorem storeNormalFds_holds {normalFds : Vector PollFd} {polls' : List PollFd}
    (h : normalFds.Holds polls) (hlen : polls'.length = polls.length) :
    (storeNormalFds normalFds polls').Holds polls' := by
  obtain ⟨free, hd, hc⟩ := h.data
  refine { size := h.size.trans hlen.symm, capacity := h.capacity, elementSize := h.elementSize,
           data := ⟨free, ?_, by rw [hlen]; exact hc⟩ }
  simp [storeNormalFds, hd, hlen]

theorem forwardPoll_correct {value : Int} (ht : tssxEntries bridge fds = [])
    (he : environment.Sound bridge fds timeout)
    (hv : (forwardPoll environment (fds.map PollFd.cleared) timeout).returned = some value)
    (hne : value ≠ ERROR) :
    PollCorrect bridge fds (forwardPoll environment (fds.map PollFd.cleared) timeout) value := by
  have hcleared : fds.map PollFd.cleared = normalEntries bridge fds := by
    have hnone := length_entries bridge fds
    rw [ht, List.length_nil, Nat.zero_add, normalEntries, List.length_map] at hnone
    rw [normalEntries, List.filter_eq_self.mpr (List.length_filter_eq_length_iff.mp hnone)]
  obtain ⟨-, hlen⟩ := he.real (fds.map PollFd.cleared)
  unfold forwardPoll at hv ⊢
  cases hr : environment.realPoll (fds.map PollFd.cleared) timeout with
  | events revents =>
    rw [hr] at hv
    obtain rfl := Option.some.inj hv
    rw [hcleared] at hlen hr
    refine pollCorrect_rejoined ?_ (fun h => absurd ht h) ?_ ?_
    · have hfits := (Merge.Fits.forall₂ (tssx_same bridge fds none)
        (normal_same bridge fds (some (.events revents)))).1
      rw [ht] at hfits
      rw [rejoined, ht, hcleared]
      exact hfits.merge_nil.symm
    · rintro r ⟨⟩
      refine ⟨rfl, ?_⟩
      rintro revents' ⟨⟩
      exact hlen revents hr
    · rw [ht]
      exact (Int.zero_add _).symm
  | interrupted | failed =>
    rw [hr] at hv
    exact absurd (Option.some.inj hv).symm hne

theorem simplePoll_correct {value : Int} {entries : List PollEntry}
    {observed : Option (Nat → Observation)} (hlen : fds.length < 2 ^ 31)
    (h : simpleTssxPoll environment.start timeout environment.passes 0 (tssxEntries bridge fds) =
      (some value, entries, observed)) :
    PollCorrect bridge fds
      { returned := some value
        fds := storeEntries (fds.map PollFd.cleared) (tssxPointers bridge 0 fds) entries
        observed, result := none } value := by
  have hle := length_entries bridge fds
  obtain ⟨o, rfl, rfl, hvalue⟩ :=
    simpleTssxPoll_spec (tssxEntries_unmarked bridge fds) (by omega) h
  refine pollCorrect_rejoined ?_ (fun _ => nofun) nofun ?_
  · exact store_rejoined bridge fds (some o)
  · rw [hvalue]
    exact (Int.add_zero _).symm

theorem pollBoth_correct (hs : partition.Splits bridge fds) (hp : ∀ poll ∈ fds, poll.InTable)
    (hlen : fds.length < 2 ^ 31) (he : environment.Sound bridge fds timeout) :
    ∃ call, pollBoth environment timeout partition (tssxPointers bridge 0 fds)
        (tssxEntries bridge fds) = some call ∧
      ∀ value, call.returned = some value → PollCorrect bridge fds call value := by
  obtain ⟨s, hrun⟩ := Option.isSome_iff_exists.mp he.interleaving
  rw [pollBoth, hs.normalFds.each, Option.bind_some]
  dsimp only
  rw [hrun, Option.bind_some]
  cases hpc : s.tssx with
  | returned value =>
    obtain ⟨hmemory, hobserved, hresult, hvalue⟩ :=
      concurrentPoll_returned (tssxEntries_unmarked bridge fds) he.wakes hrun hpc
    have hpolled : (polledBy s.result (normalEntries bridge fds)).length =
        (normalEntries bridge fds).length :=
      (polled_same s.result (normalEntries bridge fds)).length_eq.symm
    have hstored : (storeNormalFds partition.normalFds
        (polledBy s.result (normalEntries bridge fds))).Holds
          ([] ++ polledBy s.result (normalEntries bridge fds)) :=
      storeNormalFds_holds hs.normalFds hpolled
    have hjoin := joinPollPartition_eq hs.setUp hs.table hp (tssx_same bridge fds s.observed)
      (normal_same bridge fds none) (normal_same bridge fds s.result) hstored
    have hjoined : joinPollPartition (storeNormalFds partition.normalFds s.memory.normalFds)
        partition.bridge 0 (storeEntries partition.fds (tssxPointers bridge 0 fds)
          s.memory.tssxFds) = some (rejoined bridge fds s.observed s.result) := by
      rw [hmemory, hs.array, store_rejoined]
      exact hjoin
    dsimp only
    rw [hjoined, Option.map_some]
    refine ⟨_, rfl, ?_⟩
    rintro value' ⟨⟩
    refine pollCorrect_rejoined rfl (fun _ => hobserved) hresult ?_
    have hle := length_entries bridge fds
    have hmarks := marksBy_le s.observed (tssxEntries_unmarked bridge fds)
    have hpolledMarks := polledMarks_le hresult
    rw [normalCount_eq] at hvalue
    rw [← hvalue, int32_eq (by omega) (by omega)]
  | _ => exact ⟨_, rfl, nofun⟩

/-- The call of `_simple_tssx_poll`. -/
def simplePoll (environment : PollEnvironment) (bridge : Bridge) (fds : List PollFd)
    (timeout : Int) : PollCall :=
  let (returned, entries, observed) :=
    simpleTssxPoll environment.start timeout environment.passes 0 (tssxEntries bridge fds)
  { returned, fds := storeEntries (fds.map PollFd.cleared) (tssxPointers bridge 0 fds) entries
    observed, result := none }

theorem simplePoll_eq {returned : Option Int} {entries : List PollEntry}
    {observed : Option (Nat → Observation)}
    (h : simpleTssxPoll environment.start timeout environment.passes 0 (tssxEntries bridge fds) =
      (returned, entries, observed)) :
    simplePoll environment bridge fds timeout =
      { returned, fds := storeEntries (fds.map PollFd.cleared) (tssxPointers bridge 0 fds) entries
        observed, result := none } := by
  rw [simplePoll, h]

/-- **The three branches of `poll`**, after an array is split. -/
theorem poll_branches (timeout : Int) (hb : bridge.SetUp) (hne : fds ≠ [])
    (hp : ∀ poll ∈ fds, poll.InTable) (ht : environment.allocations.tssxFds = true)
    (hn : environment.allocations.normalFds = true)
    (hg : ∀ i, environment.allocations.growth i = true) :
    ∃ partition : Partition, partition.Splits bridge fds ∧
      poll environment bridge fds timeout =
        if tssxEntries bridge fds = [] then
          some (forwardPoll environment (fds.map PollFd.cleared) timeout)
        else if normalEntries bridge fds = [] then some (simplePoll environment bridge fds timeout)
        else pollBoth environment timeout partition (tssxPointers bridge 0 fds)
          (tssxEntries bridge fds) := by
  obtain ⟨partition, hpartition, hs⟩ := partition_splits hb ht hn hg hp
  have hload : loadEntries partition.fds (tssxPointers bridge 0 fds) =
      some (tssxEntries bridge fds) := by
    rw [hs.array]
    exact load_pointers bridge [] fds
  have htssx : partition.tssxFds.size = 0 ↔ tssxEntries bridge fds = [] := by
    rw [hs.tssxFds.size, length_tssxPointers, ← length_tssxEntries, List.length_eq_zero_iff]
  have hnormal : partition.normalFds.size = 0 ↔ normalEntries bridge fds = [] := by
    rw [hs.normalFds.size, List.length_eq_zero_iff]
  refine ⟨partition, hs, ?_⟩
  rw [poll, if_neg hne, hpartition, Option.bind_some]
  dsimp only
  rw [if_neg (by decide), hs.tssxFds.each, Option.bind_some, hload, Option.bind_some]
  simp only [htssx, hnormal, hs.array]
  rfl

/-- **`poll` splits and rejoins** without mixing entries. -/
theorem poll_joined (hb : bridge.SetUp) (hne : fds ≠ []) (hlen : fds.length < 2 ^ 31)
    (hp : ∀ poll ∈ fds, poll.InTable) (he : environment.Sound bridge fds timeout) :
    ∃ call, poll environment bridge fds timeout = some call ∧
      ∀ value, call.returned = some value → value ≠ ERROR → PollCorrect bridge fds call value := by
  obtain ⟨partition, hs, hpoll⟩ :=
    poll_branches timeout hb hne hp he.tssxFds he.normalFds he.growth
  rw [hpoll]
  split
  · rename_i ht
    exact ⟨_, rfl, fun value hv hvalue => forwardPoll_correct ht he hv hvalue⟩
  · split
    · refine ⟨_, rfl, ?_⟩
      rcases hsimple : simpleTssxPoll environment.start timeout environment.passes 0
        (tssxEntries bridge fds) with ⟨returned, entries, observed⟩
      rw [simplePoll_eq hsimple]
      rintro value rfl -
      exact simplePoll_correct hlen hsimple
    · obtain ⟨call, hcall, hcorrect⟩ := pollBoth_correct hs hp hlen he
      exact ⟨call, hcall, fun value hv _ => hcorrect value hv⟩

end Calls

/-- Descriptor 5 has a connection. -/
private def oneConnection : Bridge where
  isInitialized := true
  connectionCount := 1
  sessionTable := SessionTable.empty.set 5 { connection := some 0 }

private def asked (fd : Int) : PollFd := { fd, events := POLLIN, revents := POLLHUP }

private def alwaysReady : Nat → Observation :=
  fun _ => { peerDied := false, ready := fun _ => true }

/-- The second of two normal descriptors is ready, and so is every TSSX descriptor. -/
private def surroundings : PollEnvironment where
  allocations := { tssxFds := true, normalFds := true, growth := fun _ => true }
  start := 0
  passes := [{ observe := alwaysReady, now := 0 }]
  actions := [.normal, .tssx, .normal, .normal, .wake (.events [0, POLLIN]), .normal, .normal,
    .scan alwaysReady, .tssx, .tssx, .tssx, .tssx]
  blocked := false
  realPoll polls _ := .events (polls.map fun _ => 0)

private theorem surroundings_sound :
    surroundings.Sound oneConnection [asked 6, asked 5, asked 7] (-1) := by
  refine ⟨rfl, rfl, fun _ => rfl, by decide +kernel, ?_, ?_⟩
  · intro r hr
    obtain rfl : r = .events [0, POLLIN] := by simpa [surroundings] using hr
    refine ⟨rfl, ?_⟩
    rintro _ ⟨⟩
    decide +kernel
  · intro polls
    refine ⟨nofun, ?_⟩
    rintro _ ⟨⟩
    simp

theorem poll_joined_at :
    ∃ call, poll surroundings oneConnection [asked 6, asked 5, asked 7] (-1) = some call ∧
      call.returned = some 2 ∧
      PollCorrect oneConnection [asked 6, asked 5, asked 7] call 2 := by
  have hreturned : (poll surroundings oneConnection [asked 6, asked 5, asked 7] (-1)).map
      PollCall.returned = some (some 2) := by decide +kernel
  obtain ⟨call, hcall, hcorrect⟩ :=
    poll_joined (.of_ready rfl) (by decide) (by decide) (by decide) surroundings_sound
  rw [hcall] at hreturned
  have hvalue := Option.some.inj hreturned
  exact ⟨call, hcall, hvalue, hcorrect 2 hvalue (by decide)⟩

private theorem repeated {n : Nat} (hn : n ≠ 0) :
    ∃ call, poll surroundings oneConnection (List.replicate n (asked 5)) DONT_BLOCK = some call ∧
      call.returned = some (int32 n) := by
  have hc : oneConnection.connection (asked 5).fd = some 0 := by decide +kernel
  have hentries : tssxEntries oneConnection (List.replicate n (asked 5)) =
      List.replicate n { connection := 0, poll := (asked 5).cleared } := by
    rw [tssxEntries, List.filterMap_replicate, hc]
    rfl
  have hnormal : normalEntries oneConnection (List.replicate n (asked 5)) = [] := by
    rw [normalEntries, List.filter_replicate, isTssx, hc]
    rfl
  have hmarks : marks (scanned alwaysReady (tssxEntries oneConnection
      (List.replicate n (asked 5)))) = n := by
    have hlen : (tssxEntries oneConnection (List.replicate n (asked 5))).length = n := by
      rw [hentries, List.length_replicate]
    refine Eq.trans (marks_eq_length ?_) hlen
    intro i entry hentry
    rw [hentries] at hentry
    rw [List.eq_of_mem_replicate hentry, show alwaysReady i = alwaysReady 0 from rfl]
    decide
  have htable : ∀ poll ∈ List.replicate n (asked 5), poll.InTable := by
    intro poll hpoll
    rw [List.eq_of_mem_replicate hpoll]
    decide
  obtain ⟨_, -, hpoll⟩ := @poll_branches oneConnection (List.replicate n (asked 5)) surroundings
    DONT_BLOCK (.of_ready rfl) (by simpa using hn) htable rfl rfl fun _ => rfl
  rw [if_neg (by rw [hentries]; simpa using hn), if_pos hnormal] at hpoll
  refine ⟨_, hpoll, ?_⟩
  have honce := simpleTssxPoll_once
    (tssxEntries_unmarked oneConnection (List.replicate n (asked 5))) surroundings.start
    { observe := alwaysReady, now := 0 } []
  rw [hmarks] at honce
  rw [simplePoll_eq honce]

/-- **The count wraps around**: with `2 ^ 31` ready descriptors and no time to wait, the call
returns a negative number. -/
theorem poll_count_wraps :
    ∃ call, poll surroundings oneConnection (List.replicate (2 ^ 31) (asked 5)) DONT_BLOCK =
        some call ∧
      call.returned = some (-2 ^ 31) ∧
      ¬ PollCorrect oneConnection (List.replicate (2 ^ 31) (asked 5)) call (-2 ^ 31) := by
  obtain ⟨call, hcall, hreturned⟩ := @repeated (2 ^ 31) (by decide)
  refine ⟨call, hcall, hreturned.trans (by decide), ?_⟩
  intro h
  have hcount := h.count
  omega

end Tssx
