import Tssx.Lib.Flags
import Tssx.Poll
import Tssx.Select.Results

/-!
# `select` by way of `poll`

With both kinds of descriptors `select` goes on to `poll`.  The entries are counted by one loop and
filled by another, and what `poll` reports is mapped back to the sets: `POLLERR` and `POLLNVAL` to
the third one, whether the caller has passed it or not, while `poll` counts descriptors and not
bits.  `select_by_poll_iff` says when that makes no difference.

`poll` and `real_select` are arguments: what they return, and what they leave of their arguments.
-/

namespace Tssx

/-! ### The entries -/

/-- The loop of `_fill_poll_entries` over the descriptors; an entry outside the array is `none`. -/
def fillPollEntries (sets : DescriptorSets) :
    List Nat → Nat → List PollFd → Option (List PollFd)
  | [], _, entries => some entries
  | fd :: fds, pollIndex, entries =>
    if isInAnySet fd sets then
      entries[pollIndex]?.bind fun entry =>
        let events := entry.events
        let events := if fdIsSet fd sets.readfds then events ||| POLLIN else events
        let events := if fdIsSet fd sets.writefds then events ||| POLLOUT else events
        let events := if fdIsSet fd sets.errorfds then events ||| POLLERR else events
        fillPollEntries sets fds (pollIndex + 1) (entries.set pollIndex { entry with fd, events })
    else fillPollEntries sets fds pollIndex entries

/-- The inner `none` is the null pointer. -/
def setupPollEntries (allocated : Bool) (populationCount : Nat) (sets : DescriptorSets)
    (highestFd : Nat) : Option (Option (List PollFd)) :=
  if allocated then
    (fillPollEntries sets (List.range highestFd) 0
      (List.replicate populationCount { fd := 0, events := 0, revents := 0 })).map some
  else some none

/-- `FD_SET` on the set of `_fd_set_for_poll_event`. -/
def DescriptorSets.mark (sets : DescriptorSets) (fd : Nat) (event : BitVec 16) :
    Option DescriptorSets :=
  if event = POLLIN then (fdSet fd sets.readfds).map fun set => { sets with readfds := some set }
  else if event = POLLOUT then
    (fdSet fd sets.writefds).map fun set => { sets with writefds := some set }
  else if event = POLLERR ∨ event = POLLNVAL then
    (fdSet fd sets.errorfds).map fun set => { sets with errorfds := some set }
  else none

def checkPollEventOccurred (entry : PollFd) (sets : DescriptorSets) (event : BitVec 16) :
    Option (Bool × DescriptorSets) :=
  if Flags.has entry.revents event then
    (sets.mark entry.fd.toNat event).map fun sets => (true, sets)
  else some (false, sets)

/-- The loop of `_read_poll_entries` for one entry. -/
def readPollEntry (sets : DescriptorSets) (entry : PollFd) : Option DescriptorSets :=
  (checkPollEventOccurred entry sets POLLNVAL).bind fun (invalid, sets) =>
    if invalid then some sets
    else
      (checkPollEventOccurred entry sets POLLIN).bind fun (_, sets) =>
        (checkPollEventOccurred entry sets POLLOUT).bind fun (_, sets) =>
          (checkPollEventOccurred entry sets POLLERR).map Prod.snd

def readEachEntry : DescriptorSets → List PollFd → Option DescriptorSets
  | sets, [] => some sets
  | sets, entry :: entries => (readPollEntry sets entry).bind fun sets => readEachEntry sets entries

def readPollEntries (sets : DescriptorSets) (entries : List PollFd) : Option DescriptorSets :=
  readEachEntry (clearAllSets sets) entries

/-! ### The calls -/

/-- What happens around a call. -/
structure SelectEnvironment where
  start : Nat
  /-- The passes of the loops over TSSX descriptors. -/
  passes : List SelectPass
  /-- The allocation of the poll entries. -/
  allocated : Bool
  poll : List PollFd → Int → Int × List PollFd
  realSelect : Nat → DescriptorSets → Option Timeval → Int × DescriptorSets

def forwardToPoll (environment : SelectEnvironment) (highestFd : Nat) (sets : DescriptorSets)
    (populationCount : Nat) (timeout : Option Timeval) : Option SelectCall :=
  (setupPollEntries environment.allocated populationCount sets highestFd).bind fun entries =>
    match entries with
    | none => some { returned := some ERROR, sets, examined := [], observed := none }
    | some entries =>
      let (numberOfEvents, entries) := environment.poll entries (selectMilliseconds timeout)
      if numberOfEvents = ERROR then
        some { returned := some ERROR, sets, examined := [], observed := none }
      else
        (readPollEntries sets entries).map fun sets =>
          { returned := some numberOfEvents, sets, examined := [], observed := none }

/-- `select`, for an `nfds` that is not negative. -/
def select (environment : SelectEnvironment) (bridge : Bridge) (nfds : Nat)
    (sets : DescriptorSets) (timeout : Option Timeval) : Option SelectCall :=
  (countTssxSockets nfds sets bridge).bind fun (bridge, count) =>
    if count.normalCount = 0 then
      selectOnTssxOnly bridge sets count nfds timeout environment.start environment.passes
    else if count.tssxCount = 0 then
      let (returned, sets) := environment.realSelect nfds sets timeout
      some { returned := some returned, sets, examined := [], observed := none }
    else forwardToPoll environment nfds sets (count.tssxCount + count.normalCount) timeout

/-! ### What should be passed on -/

/-- The bits of the sets that the descriptor is in. -/
def requestedEvents (sets : DescriptorSets) (fd : Nat) : BitVec 16 :=
  (if fdIsSet fd sets.readfds then POLLIN else 0) |||
    (if fdIsSet fd sets.writefds then POLLOUT else 0) |||
      (if fdIsSet fd sets.errorfds then POLLERR else 0)

/-- One entry for each descriptor in a set, with exactly the requested bits. -/
def requestedEntries (sets : DescriptorSets) (fds : List Nat) : List PollFd :=
  (fds.filter fun fd => isInAnySet fd sets).map fun (fd : Nat) =>
    { fd, events := requestedEvents sets fd, revents := 0 }

variable {sets sets' : DescriptorSets} {bridge bridge' : Bridge} {fds : List Nat}

theorem fillPollEntries_eq (done : List PollFd) :
    fillPollEntries sets fds done.length
        (done ++ List.replicate (fds.countP fun fd => isInAnySet fd sets)
          { fd := 0, events := 0, revents := 0 }) =
      some (done ++ requestedEntries sets fds) := by
  induction fds generalizing done with
  | nil => simp [fillPollEntries, requestedEntries]
  | cons fd fds ih =>
    cases hin : isInAnySet fd sets with
    | false =>
      have hrest := ih done
      unfold requestedEntries at hrest ⊢
      simpa [fillPollEntries, hin] using hrest
    | true =>
      have hrest := ih (done ++ [{ fd, events := requestedEvents sets fd, revents := 0 }])
      have hevents : ∀ r w e : Bool,
          (if e then (if w then (if r then (0 : BitVec 16) ||| POLLIN else 0) ||| POLLOUT
              else if r then 0 ||| POLLIN else 0) ||| POLLERR
            else if w then (if r then (0 : BitVec 16) ||| POLLIN else 0) ||| POLLOUT
              else if r then 0 ||| POLLIN else 0) =
            (if r then POLLIN else 0) ||| (if w then POLLOUT else 0) |||
              (if e then POLLERR else 0) := by decide
      unfold requestedEntries at hrest ⊢
      have hone : (fd :: fds).countP (fun fd => isInAnySet fd sets) =
          (fds.countP fun fd => isInAnySet fd sets) + 1 := by simp [hin]
      rw [fillPollEntries, if_pos hin, hone, List.replicate_succ]
      simp only [List.getElem?_append_right (Nat.le_refl _), Nat.sub_self, List.getElem?_cons_zero,
        Option.bind_some, List.set_append_right _ _ (Nat.le_refl _), List.set_cons_zero, hevents]
      rw [List.length_append, List.length_singleton, List.append_assoc, List.append_assoc] at hrest
      simpa [hin, requestedEvents] using hrest

theorem countSockets_population {count count' : SocketCount}
    (h : countSockets sets fds bridge count = some (bridge', count')) :
    count'.tssxCount + count'.normalCount =
      count.tssxCount + count.normalCount + fds.countP fun fd => isInAnySet fd sets := by
  induction fds generalizing bridge count with
  | nil =>
    obtain ⟨-, rfl⟩ := Prod.mk.inj (Option.some.inj h)
    rfl
  | cons fd fds ih =>
    unfold countSockets at h
    split at h
    · rename_i hin
      obtain ⟨⟨middle, hasConnection⟩, -, h⟩ := Option.bind_eq_some_iff.mp h
      have hone : (fd :: fds).countP (fun fd => isInAnySet fd sets) =
          (fds.countP fun fd => isInAnySet fd sets) + 1 := by simp [hin]
      rw [ih h, hone]
      cases hasConnection <;> by_cases hlt : fd < count.lowestFd <;> simp [hlt] <;> omega
    · rename_i hin
      have hnone : (fd :: fds).countP (fun fd => isInAnySet fd sets) =
          fds.countP fun fd => isInAnySet fd sets := by simp [hin]
      rw [ih h, hnone]

/-- **Exactly the allocated entries are filled**, one for each descriptor in ascending order. -/
theorem setupPollEntries_eq {nfds : Nat} {count : SocketCount}
    (h : countTssxSockets nfds sets bridge = some (bridge', count)) :
    setupPollEntries true (count.tssxCount + count.normalCount) sets nfds =
      some (some (requestedEntries sets (List.range nfds))) := by
  have hcount := countSockets_population h
  simp only [Nat.zero_add] at hcount
  rw [setupPollEntries, if_pos rfl, hcount]
  exact congrArg (Option.map some) (fillPollEntries_eq [])

/-! ### What comes back -/

/-- What an entry with these `revents` puts into the sets. -/
def marksRead (revents : BitVec 16) : Bool :=
  !Flags.has revents POLLNVAL && Flags.has revents POLLIN

def marksWrite (revents : BitVec 16) : Bool :=
  !Flags.has revents POLLNVAL && Flags.has revents POLLOUT

def marksError (revents : BitVec 16) : Bool :=
  Flags.has revents POLLNVAL || Flags.has revents POLLERR

/-- The number of sets it is put into. -/
def selectMarks (revents : BitVec 16) : Nat :=
  (marksRead revents).toNat + (marksWrite revents).toNat + (marksError revents).toNat

/-- A set that a descriptor is put into or not. -/
def markSet (marked : Bool) (fd : Nat) (set : Option FdSet) : Option FdSet :=
  if marked then fdSet fd set else set

def markEntry (sets : DescriptorSets) (entry : PollFd) : DescriptorSets where
  readfds := markSet (marksRead entry.revents) entry.fd.toNat sets.readfds
  writefds := markSet (marksWrite entry.revents) entry.fd.toNat sets.writefds
  errorfds := markSet (marksError entry.revents) entry.fd.toNat sets.errorfds

/-- No null pointer is written. -/
def HasSets (sets : DescriptorSets) (entry : PollFd) : Prop :=
  (marksRead entry.revents = true → sets.readfds ≠ none) ∧
    (marksWrite entry.revents = true → sets.writefds ≠ none) ∧
      (marksError entry.revents = true → sets.errorfds ≠ none)

instance (sets : DescriptorSets) (entry : PollFd) : Decidable (HasSets sets entry) :=
  inferInstanceAs (Decidable ((_ → _) ∧ (_ → _) ∧ (_ → _)))

@[simp] theorem markSet_false (fd : Nat) (set : Option FdSet) : markSet false fd set = set := rfl

theorem check_eq {entry : PollFd} {event : BitVec 16} {set : Option FdSet}
    {put : Option FdSet → DescriptorSets}
    (hmark : sets.mark entry.fd.toNat event =
      (fdSet entry.fd.toNat set).map fun set => put (some set)) (hput : put set = sets) :
    checkPollEventOccurred entry sets event =
      if Flags.has entry.revents event = true ∧ set = none then none
      else some (Flags.has entry.revents event,
        put (markSet (Flags.has entry.revents event) entry.fd.toNat set)) := by
  rw [checkPollEventOccurred, hmark]
  cases hevent : Flags.has entry.revents event with
  | true => cases set <;> simp [fdSet, markSet]
  | false => simp [markSet, hput]

theorem check_read (entry : PollFd) (sets : DescriptorSets) :
    checkPollEventOccurred entry sets POLLIN =
      if Flags.has entry.revents POLLIN = true ∧ sets.readfds = none then none
      else some (Flags.has entry.revents POLLIN, { sets with
        readfds := markSet (Flags.has entry.revents POLLIN) entry.fd.toNat sets.readfds }) :=
  @check_eq sets entry POLLIN sets.readfds (fun set => { sets with readfds := set })
    (if_pos rfl) rfl

theorem check_write (entry : PollFd) (sets : DescriptorSets) :
    checkPollEventOccurred entry sets POLLOUT =
      if Flags.has entry.revents POLLOUT = true ∧ sets.writefds = none then none
      else some (Flags.has entry.revents POLLOUT, { sets with
        writefds := markSet (Flags.has entry.revents POLLOUT) entry.fd.toNat sets.writefds }) :=
  @check_eq sets entry POLLOUT sets.writefds (fun set => { sets with writefds := set })
    (by rw [DescriptorSets.mark, if_neg (by decide), if_pos rfl]) rfl

theorem check_error {event : BitVec 16} (he : event = POLLERR ∨ event = POLLNVAL)
    (entry : PollFd) (sets : DescriptorSets) :
    checkPollEventOccurred entry sets event =
      if Flags.has entry.revents event = true ∧ sets.errorfds = none then none
      else some (Flags.has entry.revents event, { sets with
        errorfds := markSet (Flags.has entry.revents event) entry.fd.toNat sets.errorfds }) := by
  refine @check_eq sets entry event sets.errorfds (fun set => { sets with errorfds := set }) ?_ rfl
  rcases he with rfl | rfl <;>
    rw [DescriptorSets.mark, if_neg (by decide), if_neg (by decide), if_pos (by decide)]

/-- **One entry** is put into its sets, unless one of them is the null pointer. -/
theorem readPollEntry_eq (sets : DescriptorSets) (entry : PollFd) :
    readPollEntry sets entry =
      if HasSets sets entry then some (markEntry sets entry) else none := by
  unfold readPollEntry HasSets markEntry marksRead marksWrite marksError
  rw [check_error (.inr rfl)]
  rcases Bool.eq_false_or_eq_true (Flags.has entry.revents POLLNVAL) with hn | hn
  · -- the other bits are not looked at
    by_cases he : sets.errorfds = none <;> simp [hn, he, markSet]
  · simp only [hn, Bool.false_eq_true, false_and, if_false, Option.bind_some, Bool.not_false,
      Bool.true_and, Bool.false_or, markSet_false, check_read]
    by_cases hr : Flags.has entry.revents POLLIN = true ∧ sets.readfds = none
    · rw [if_pos hr, if_neg fun h => h.1 hr.1 hr.2]
      rfl
    rw [if_neg hr, Option.bind_some]
    dsimp only
    rw [check_write]
    by_cases hw : Flags.has entry.revents POLLOUT = true ∧ sets.writefds = none
    · rw [if_pos hw, if_neg fun h => h.2.1 hw.1 hw.2]
      rfl
    rw [if_neg hw, Option.bind_some]
    dsimp only
    rw [check_error (.inl rfl)]
    dsimp only
    by_cases he : Flags.has entry.revents POLLERR = true ∧ sets.errorfds = none
    · rw [if_pos he, if_neg fun h => h.2.2 he.1 he.2]
      rfl
    rw [if_neg he, if_pos ⟨not_and.mp hr, not_and.mp hw, not_and.mp he⟩]
    rfl

/-! ### The whole array -/

section Marked

variable {marks : BitVec 16 → Bool} {entries : List PollFd}

/-- The descriptors of the entries with such `revents`. -/
def marked (marks : BitVec 16 → Bool) (entries : List PollFd) : FdSet :=
  ((entries.filter fun entry => marks entry.revents).map fun entry => entry.fd.toNat).toFinset

def markEntries (sets : DescriptorSets) (entries : List PollFd) : DescriptorSets where
  readfds := sets.readfds.map (marked marksRead entries ∪ ·)
  writefds := sets.writefds.map (marked marksWrite entries ∪ ·)
  errorfds := sets.errorfds.map (marked marksError entries ∪ ·)

theorem mem_marked {fd : Nat} :
    fd ∈ marked marks entries ↔
      ∃ entry ∈ entries, marks entry.revents = true ∧ entry.fd.toNat = fd := by
  simp [marked, and_assoc]

theorem markSet_marked (entry : PollFd) (set : Option FdSet) :
    (markSet (marks entry.revents) entry.fd.toNat set).map (marked marks entries ∪ ·) =
      set.map (marked marks (entry :: entries) ∪ ·) := by
  cases set with
  | none => cases hmarks : marks entry.revents <;> rfl
  | some members =>
    cases hmarks : marks entry.revents <;> simp [markSet, fdSet, marked, hmarks]

theorem markSet_eq_none {b : Bool} {fd : Nat} {set : Option FdSet} :
    markSet b fd set = none ↔ set = none := by
  cases b <;> cases set <;> simp [markSet, fdSet]

theorem hasSets_markEntry (entry other : PollFd) :
    HasSets (markEntry sets entry) other ↔ HasSets sets other := by
  simp only [HasSets, markEntry, ne_eq, markSet_eq_none]

theorem readEachEntry_eq (sets : DescriptorSets) (entries : List PollFd) :
    readEachEntry sets entries =
      if ∀ entry ∈ entries, HasSets sets entry then some (markEntries sets entries) else none := by
  induction entries generalizing sets with
  | nil =>
    obtain ⟨r, w, e⟩ := sets
    simp [readEachEntry, markEntries, marked]
  | cons entry entries ih =>
    rw [readEachEntry, readPollEntry_eq]
    by_cases hthis : HasSets sets entry
    · have hmore : markEntries (markEntry sets entry) entries =
          markEntries sets (entry :: entries) := by
        simp only [markEntries, markEntry, markSet_marked]
      simp only [hthis, if_true, Option.bind_some, ih, hasSets_markEntry, hmore,
        List.forall_mem_cons, true_and]
    · rw [if_neg hthis, Option.bind_none, if_neg]
      intro hall
      exact hthis (hall entry List.mem_cons_self)

theorem card_marked (hd : (entries.map fun entry => entry.fd.toNat).Nodup) :
    (marked marks entries).card = entries.countP fun entry => marks entry.revents := by
  have hsub := (List.filter_sublist (p := fun entry => marks entry.revents)
    (l := entries)).map fun entry : PollFd => entry.fd.toNat
  rw [marked, List.toFinset_card_of_nodup (hd.sublist hsub), List.length_map,
    List.countP_eq_length_filter]

theorem card_markEach {set : Option FdSet} (hd : (entries.map fun entry => entry.fd.toNat).Nodup)
    (hs : ∀ entry ∈ entries, marks entry.revents = true → set ≠ none) :
    (((clearSet set).map (marked marks entries ∪ ·)).getD ∅).card =
      entries.countP fun entry => marks entry.revents := by
  cases set with
  | some members =>
    rw [← card_marked hd]
    simp [clearSet]
  | none =>
    have hzero : (entries.countP fun entry => marks entry.revents) = 0 := by
      rw [List.countP_eq_zero]
      exact fun entry he hm => hs entry he hm rfl
    rw [hzero]
    rfl

/-- **The members of the sets that come back** are counted bit by bit. -/
theorem members_markEntries (hd : (entries.map fun entry => entry.fd.toNat).Nodup)
    (hs : ∀ entry ∈ entries, HasSets sets entry) :
    (markEntries (clearAllSets sets) entries).members =
      (entries.map fun entry => selectMarks entry.revents).sum := by
  have hsum : ∀ entries : List PollFd,
      (entries.map fun entry => selectMarks entry.revents).sum =
        (entries.countP fun entry => marksRead entry.revents) +
          (entries.countP fun entry => marksWrite entry.revents) +
          entries.countP fun entry => marksError entry.revents := by
    intro entries
    induction entries with
    | nil => rfl
    | cons entry entries ih =>
      rw [List.map_cons, List.sum_cons, ih, selectMarks]
      simp only [List.countP_cons]
      cases marksRead entry.revents <;> cases marksWrite entry.revents <;>
        cases marksError entry.revents <;> simp <;> omega
  rw [hsum, DescriptorSets.members]
  exact congrArg₂ (· + ·) (congrArg₂ (· + ·)
    (card_markEach hd fun entry he => (hs entry he).1)
    (card_markEach hd fun entry he => (hs entry he).2.1))
    (card_markEach hd fun entry he => (hs entry he).2.2)

theorem fdIsSet_markEach {set : Option FdSet} {fd : Nat} :
    fdIsSet fd ((clearSet set).map (marked marks entries ∪ ·)) = true ↔
      set ≠ none ∧ ∃ entry ∈ entries, marks entry.revents = true ∧ entry.fd.toNat = fd := by
  rw [← mem_marked]
  cases set <;> simp [fdIsSet, clearSet]

end Marked

/-! ### The condition -/

/-- What a successful poll may leave of an entry: any of the requested bits, and those that need
not be requested. -/
structure MayAnswer (request answer : PollFd) : Prop where
  fd : answer.fd = request.fd
  events : answer.events = request.events
  revents : answer.revents &&& ~~~(request.events ||| POLLERR ||| POLLHUP ||| POLLNVAL) = 0

/-- What a call by way of `poll` should do. -/
structure ByPollCorrect (sets : DescriptorSets) (call : SelectCall) : Prop where
  read : ∀ fd, fdIsSet fd call.sets.readfds = true → fdIsSet fd sets.readfds = true
  write : ∀ fd, fdIsSet fd call.sets.writefds = true → fdIsSet fd sets.writefds = true
  error : ∀ fd, fdIsSet fd call.sets.errorfds = true → fdIsSet fd sets.errorfds = true
  members : call.returned = some (call.sets.members : Int)

/-- What `poll` returns: the entries that have something to report. -/
def reported (answers : List PollFd) : Nat := answers.countP fun answer => answer.revents != 0

section Answers

variable {answers : List PollFd}

theorem not_none_of_fdIsSet {fd : Nat} {set : Option FdSet} (h : fdIsSet fd set = true) :
    set ≠ none := by
  rintro rfl
  cases h

theorem MayAnswer.requested {fd : Nat} {answer : PollFd}
    (h : MayAnswer { fd, events := requestedEvents sets fd, revents := 0 } answer) :
    (marksRead answer.revents = true → fdIsSet answer.fd.toNat sets.readfds = true) ∧
      (marksWrite answer.revents = true → fdIsSet answer.fd.toNat sets.writefds = true) := by
  obtain ⟨hfd, -, hrevents⟩ := h
  have hfd : answer.fd.toNat = fd := by rw [hfd]; rfl
  have hbits : ∀ r w e : Bool,
      Flags.has (((if r then POLLIN else 0) ||| (if w then POLLOUT else 0) |||
          (if e then POLLERR else 0)) ||| POLLERR ||| POLLHUP ||| POLLNVAL) POLLIN = r ∧
        Flags.has (((if r then POLLIN else 0) ||| (if w then POLLOUT else 0) |||
          (if e then POLLERR else 0)) ||| POLLERR ||| POLLHUP ||| POLLNVAL) POLLOUT = w := by
    decide
  have hall := hbits (fdIsSet fd sets.readfds) (fdIsSet fd sets.writefds)
    (fdIsSet fd sets.errorfds)
  rw [hfd]
  refine ⟨fun hr => ?_, fun hw => ?_⟩
  · exact hall.1.symm.trans (Flags.has_of_allowed hrevents (Bool.and_eq_true_iff.mp hr).2)
  · exact hall.2.symm.trans (Flags.has_of_allowed hrevents (Bool.and_eq_true_iff.mp hw).2)

theorem answers_requested (h : List.Forall₂ MayAnswer (requestedEntries sets fds) answers) :
    (answers.map fun answer => answer.fd.toNat) = fds.filter (fun fd => isInAnySet fd sets) ∧
      ∀ answer ∈ answers,
        (marksRead answer.revents = true → fdIsSet answer.fd.toNat sets.readfds = true) ∧
          (marksWrite answer.revents = true → fdIsSet answer.fd.toNat sets.writefds = true) := by
  unfold requestedEntries at h
  generalize fds.filter (fun fd => isInAnySet fd sets) = chosen at h
  induction chosen generalizing answers with
  | nil =>
    obtain rfl := List.forall₂_nil_left_iff.mp h
    exact ⟨rfl, by simp⟩
  | cons fd chosen ih =>
    obtain ⟨answer, rest, hthis, hrest, rfl⟩ := List.forall₂_cons_left_iff.mp h
    obtain ⟨hfds, hall⟩ := ih hrest
    refine ⟨?_, List.forall_mem_cons.mpr ⟨hthis.requested, hall⟩⟩
    rw [List.map_cons, hfds, hthis.fd]
    rfl

end Answers

/-- **`select` by way of `poll` keeps its meaning exactly if** nothing is wrong with a descriptor
that is not in the third set, and the ready descriptors have one bit each on the whole. -/
theorem select_by_poll_iff {environment : SelectEnvironment} {nfds : Nat} {count : SocketCount}
    {timeout : Option Timeval} {answers : List PollFd}
    (hcount : countTssxSockets nfds sets bridge = some (bridge', count))
    (hnormal : count.normalCount ≠ 0) (htssx : count.tssxCount ≠ 0)
    (hallocated : environment.allocated = true)
    (hpoll : environment.poll (requestedEntries sets (List.range nfds))
      (selectMilliseconds timeout) = ((reported answers : Int), answers))
    (hanswers : List.Forall₂ MayAnswer (requestedEntries sets (List.range nfds)) answers) :
    setupPollEntries true (count.tssxCount + count.normalCount) sets nfds =
        some (some (requestedEntries sets (List.range nfds))) ∧
      ((∃ call, select environment bridge nfds sets timeout = some call ∧
          ByPollCorrect sets call) ↔
        (∀ answer ∈ answers, marksError answer.revents = true →
            fdIsSet answer.fd.toNat sets.errorfds = true) ∧
          (answers.map fun answer => selectMarks answer.revents).sum = reported answers) := by
  have hsetup := setupPollEntries_eq hcount
  obtain ⟨hfds, hrequested⟩ := answers_requested hanswers
  have hnodup : (answers.map fun answer => answer.fd.toNat).Nodup := by
    rw [hfds]
    exact List.nodup_range.filter _
  have hselect : select environment bridge nfds sets timeout =
      (readPollEntries sets answers).map fun sets =>
        { returned := some (reported answers : Int), sets, examined := [], observed := none } := by
    have hpositive : (reported answers : Int) ≠ ERROR := by unfold ERROR; omega
    rw [select, hcount, Option.bind_some]
    simp only [hnormal, htssx, if_false]
    rw [forwardToPoll, hallocated, hsetup, Option.bind_some]
    simp only [hpoll, hpositive, if_false]
  have hsame : ∀ answer, HasSets (clearAllSets sets) answer ↔ HasSets sets answer := by
    intro answer
    simp only [HasSets, clearAllSets, ne_eq, clearSet_eq_none]
  refine ⟨hsetup, ?_⟩
  rw [hselect, readPollEntries, readEachEntry_eq]
  simp only [hsame]
  constructor
  · rintro ⟨call, hcall, hcorrect⟩
    obtain ⟨after, hafter, rfl⟩ := Option.map_eq_some_iff.mp hcall
    obtain ⟨hhas, hafter⟩ := Option.ite_none_right_eq_some.mp hafter
    obtain rfl := Option.some.inj hafter
    refine ⟨?_, ?_⟩
    · intro answer ha hm
      exact hcorrect.error _ (fdIsSet_markEach.mpr ⟨(hhas answer ha).2.2 hm, answer, ha, hm, rfl⟩)
    · have hmembers := Option.some.inj hcorrect.members
      rw [members_markEntries hnodup hhas] at hmembers
      exact_mod_cast hmembers.symm
  · rintro ⟨herror, hsum⟩
    have hhas : ∀ answer ∈ answers, HasSets sets answer := by
      intro answer ha
      obtain ⟨hread, hwrite⟩ := hrequested answer ha
      exact ⟨fun h => not_none_of_fdIsSet (hread h), fun h => not_none_of_fdIsSet (hwrite h),
        fun h => not_none_of_fdIsSet (herror answer ha h)⟩
    refine ⟨_, by rw [if_pos hhas]; rfl, ?_, ?_, ?_, ?_⟩
    · intro fd hfd
      obtain ⟨-, answer, ha, hm, rfl⟩ := fdIsSet_markEach.mp hfd
      exact (hrequested answer ha).1 hm
    · intro fd hfd
      obtain ⟨-, answer, ha, hm, rfl⟩ := fdIsSet_markEach.mp hfd
      exact (hrequested answer ha).2 hm
    · intro fd hfd
      obtain ⟨-, answer, ha, hm, rfl⟩ := fdIsSet_markEach.mp hfd
      exact herror answer ha hm
    · rw [members_markEntries hnodup hhas, hsum]

/-- A bridge with a connection at the descriptor 3. -/
def connectedThree : Bridge where
  isInitialized := true
  connectionCount := 1
  sessionTable := SessionTable.empty.set 3 { connection := some 0 }

/-- The descriptors 3 and 4 for reading, and 3 for writing. -/
private def readBothWriteThree : DescriptorSets where
  readfds := some {3, 4}
  writefds := some {3}
  errorfds := none

theorem count_connectedThree : countTssxSockets 5 readBothWriteThree connectedThree =
    some (connectedThree, { lowestFd := 3, normalCount := 1, tssxCount := 1 }) := rfl

/-- `poll` leaves these entries. -/
private def answering (answers : List PollFd) : SelectEnvironment where
  start := 0
  passes := []
  allocated := true
  poll := fun _ _ => (reported answers, answers)
  realSelect := fun _ sets _ => (0, sets)

/-- The entries of the two descriptors with these `revents`. -/
private def answeredWith (three four : BitVec 16) : List PollFd :=
  [{ fd := 3, events := POLLIN ||| POLLOUT, revents := three },
    { fd := 4, events := POLLIN, revents := four }]

theorem requestedEntries_three :
    requestedEntries readBothWriteThree (List.range 5) = answeredWith 0 0 := by decide

theorem answeredWith_allowed {three four : BitVec 16}
    (h3 : three &&& ~~~(POLLIN ||| POLLOUT ||| POLLERR ||| POLLHUP ||| POLLNVAL) = 0)
    (h4 : four &&& ~~~(POLLIN ||| POLLERR ||| POLLHUP ||| POLLNVAL) = 0) :
    List.Forall₂ MayAnswer (requestedEntries readBothWriteThree (List.range 5))
      (answeredWith three four) := by
  rw [requestedEntries_three]
  exact .cons ⟨rfl, rfl, h3⟩ (.cons ⟨rfl, rfl, h4⟩ .nil)

theorem select_by_poll_iff_three :
    setupPollEntries true 2 readBothWriteThree 5 =
        some (some (requestedEntries readBothWriteThree (List.range 5))) ∧
      ((∃ call, select (answering (answeredWith POLLIN POLLIN)) connectedThree 5
            readBothWriteThree none = some call ∧ ByPollCorrect readBothWriteThree call) ↔
        (∀ answer ∈ answeredWith POLLIN POLLIN, marksError answer.revents = true →
            fdIsSet answer.fd.toNat readBothWriteThree.errorfds = true) ∧
          ((answeredWith POLLIN POLLIN).map fun answer => selectMarks answer.revents).sum =
            reported (answeredWith POLLIN POLLIN)) :=
  select_by_poll_iff count_connectedThree (by decide) (by decide) rfl rfl
    (answeredWith_allowed (by decide) (by decide))

/-- **A descriptor with two bits is counted once, and an error needs the third set.** -/
theorem select_counts_descriptors :
    List.Forall₂ MayAnswer (requestedEntries readBothWriteThree (List.range 5))
        (answeredWith (POLLIN ||| POLLOUT) 0) ∧
      (∃ call, select (answering (answeredWith (POLLIN ||| POLLOUT) 0)) connectedThree 5
          readBothWriteThree none = some call ∧
        call.returned = some 1 ∧ call.sets.members = 2 ∧
        ¬ ByPollCorrect readBothWriteThree call) ∧
      List.Forall₂ MayAnswer (requestedEntries readBothWriteThree (List.range 5))
        (answeredWith 0 POLLERR) ∧
      select (answering (answeredWith 0 POLLERR)) connectedThree 5 readBothWriteThree none =
        none := by
  refine ⟨answeredWith_allowed (by decide) (by decide), ⟨_, rfl, rfl, by decide, ?_⟩,
    answeredWith_allowed (by decide) (by decide), rfl⟩
  intro hcorrect
  exact absurd hcorrect.members (by decide)

end Tssx
