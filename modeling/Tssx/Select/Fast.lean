import Tssx.Bridge.Bookkeeping
import Tssx.Select.ByPoll

/-!
# `select` for one descriptor

With one TSSX descriptor `select` takes a path of its own, with three loops in the place of the
general one.  The path asserts that `nfds` is just above the descriptor and that it is in one of
the first two sets, reports a dead peer in the first set whether the descriptor is in it or not,
and returns 1 for two marks.  `select_fast_iff`: these are the only calls that go wrong.
-/

namespace Tssx

/-! ### What should come back -/

/-- What a return value should come with, for what was seen of the descriptor. -/
structure FastReport (sets after : DescriptorSets) (fd : Nat) (o : Observation) (returned : Int) :
    Prop where
  read : ∀ x, fdIsSet x after.readfds = true ↔
    x = fd ∧ fdIsSet fd sets.readfds = true ∧ (o.peerDied = true ∨ o.ready .read = true)
  write : ∀ x, fdIsSet x after.writefds = true ↔
    x = fd ∧ fdIsSet fd sets.writefds = true ∧ o.peerDied = false ∧ o.ready .write = true
  error : ∀ x, fdIsSet x after.errorfds = true → fdIsSet x sets.errorfds = true
  members : returned = after.members

/-- A call that returns hands back what its last pass saw. -/
def FastCorrect (sets : DescriptorSets) (fd : Nat) (call : SelectCall) : Prop :=
  ∀ r, call.returned = some r →
    ∃ o, call.observed = some o ∧ FastReport sets call.sets fd (o fd) r

/-- The path can report what it sees: a dead peer to a reader, and never two marks at once. -/
def Reportable (sets : DescriptorSets) (fd : Nat) (o : Observation) : Prop :=
  (o.peerDied = true → fdIsSet fd sets.readfds = true) ∧
    (o.peerDied = false → ¬ (fdIsSet fd sets.readfds = true ∧ o.ready .read = true ∧
      fdIsSet fd sets.writefds = true ∧ o.ready .write = true))

instance (sets : DescriptorSets) (fd : Nat) (o : Observation) :
    Decidable (Reportable sets fd o) :=
  inferInstanceAs (Decidable ((_ → _) ∧ (_ → ¬ _)))

/-- The passes of a call on the fast path. -/
def fastPasses (sets : DescriptorSets) (fd start : Nat) (milliseconds : Int)
    (passes : List SelectPass) : List SelectPass :=
  Run.upTo (fun pass => selectActive sets (pass.observe fd) fd ||
    selectTimeoutElapsed start pass.now milliseconds) passes

variable {sets : DescriptorSets} {fd : Nat} {o : Observation} {session : Session}

/-! ### One pass -/

/-- The sets of the caller after a pass. -/
def fastMarks (sets : DescriptorSets) (fd : Nat) (o : Observation) : DescriptorSets where
  readfds := markSet (o.peerDied || fdIsSet fd sets.readfds && o.ready .read) fd
    (clearSet sets.readfds)
  writefds := markSet (!o.peerDied && (fdIsSet fd sets.writefds && o.ready .write)) fd
    (clearSet sets.writefds)
  errorfds := clearSet sets.errorfds

theorem fastMarks_quiet (h : selectActive sets o fd = false) :
    fastMarks sets fd o = clearAllSets sets := by
  simp only [selectActive, Bool.or_eq_false_iff] at h
  obtain ⟨⟨hdied, hread⟩, hwrite⟩ := h
  simp only [fastMarks, hdied, hread, hwrite, Bool.or_self, Bool.and_false, markSet,
    Bool.false_eq_true, if_false]
  rfl

theorem readyForSelect_read (hset : sets.readfds ≠ none) :
    readyForSelect fd o sets .read = some (o.ready .read,
      { sets with readfds := markSet (o.ready .read) fd sets.readfds }) := by
  obtain ⟨r, w, e⟩ := sets
  cases r with
  | none => exact absurd rfl hset
  | some set =>
    cases h : o.ready .read with
    | false | true =>
      simp only [readyForSelect, h]
      rfl

theorem readyForSelect_write (hset : sets.writefds ≠ none) :
    readyForSelect fd o sets .write = some (o.ready .write,
      { sets with writefds := markSet (o.ready .write) fd sets.writefds }) := by
  obtain ⟨r, w, e⟩ := sets
  cases w with
  | none => exact absurd rfl hset
  | some set =>
    cases h : o.ready .write with
    | false | true =>
      simp only [readyForSelect, h]
      rfl

/-- **One pass** marks what it sees, and writes the null pointer for a dead peer without a
reader. -/
theorem fastPass_eq (hs : session.connection.isSome = true)
    (hany : (fdIsSet fd sets.readfds || fdIsSet fd sets.writefds) = true) :
    fastPass fd session (fdIsSet fd sets.readfds) (fdIsSet fd sets.writefds) o
        (clearAllSets sets) =
      if o.peerDied = true ∧ sets.readfds = none then none
      else some (selectActive sets o fd, fastMarks sets fd o) := by
  have hread : fdIsSet fd sets.readfds = true → (clearAllSets sets).readfds ≠ none :=
    fun h hnone => not_none_of_fdIsSet h ((clearSet_eq_none _).mp hnone)
  have hwrite : fdIsSet fd sets.writefds = true → (clearAllSets sets).writefds ≠ none :=
    fun h hnone => not_none_of_fdIsSet h ((clearSet_eq_none _).mp hnone)
  unfold fastPass fastMarks selectActive
  rw [selectPeerDied_connected hs]
  cases hd : o.peerDied with
  | true =>
    obtain ⟨r, w, e⟩ := sets
    cases r <;> simp [DescriptorSets.add, clearAllSets, clearSet, fdSet, markSet]
  | false =>
    simp only [Bool.false_eq_true, if_false, false_and, Option.bind_some]
    cases hr : fdIsSet fd sets.readfds with
    | true =>
      cases hw : fdIsSet fd sets.writefds with
      | true =>
        rw [readyForSelect_write (hwrite hw), Bool.and_self, if_pos rfl, Option.bind_some]
        dsimp only
        rw [readyForSelect_read (by exact hread hr), Option.map_some, Bool.or_comm]
        rfl
      | false =>
        rw [readyForSelect_read (hread hr), Bool.and_false, if_neg Bool.false_ne_true, if_pos rfl]
        simp [markSet, clearAllSets]
    | false =>
      cases hw : fdIsSet fd sets.writefds with
      | true =>
        rw [readyForSelect_write (hwrite hw)]
        simp [markSet, clearAllSets]
      | false =>
        rw [hr, hw] at hany
        cases hany

theorem fdIsSet_mark {b : Bool} {set : Option FdSet} {x : Nat} :
    fdIsSet x (markSet b fd (clearSet set)) = true ↔ set ≠ none ∧ b = true ∧ x = fd := by
  cases b <;> cases set <;> simp [markSet, clearSet, fdSet, fdIsSet]

theorem card_mark {b : Bool} {set : Option FdSet} :
    ((markSet b fd (clearSet set)).getD ∅).card = (b && set.isSome).toNat := by
  cases b <;> cases set <;> simp [markSet, clearSet, fdSet]

theorem fastReport_iff
    (hnull : ¬ (o.peerDied = true ∧ sets.readfds = none)) :
    FastReport sets (fastMarks sets fd o) fd o (if selectActive sets o fd then 1 else 0) ↔
      Reportable sets fd o := by
  have hmembers : (fastMarks sets fd o).members =
      ((o.peerDied || fdIsSet fd sets.readfds && o.ready .read) && sets.readfds.isSome).toNat +
        ((!o.peerDied && (fdIsSet fd sets.writefds && o.ready .write)) &&
          sets.writefds.isSome).toNat := by
    have herror : ((clearSet sets.errorfds).getD ∅).card = 0 := by
      cases sets.errorfds <;> rfl
    rw [DescriptorSets.members]
    simp only [fastMarks, card_mark, herror, Nat.add_zero]
  have hread : fdIsSet fd sets.readfds = true → sets.readfds ≠ none := not_none_of_fdIsSet
  have hwrite : fdIsSet fd sets.writefds = true → sets.writefds ≠ none := not_none_of_fdIsSet
  constructor
  · intro h
    refine ⟨?_, ?_⟩
    · intro hdied
      have hmark : fdIsSet fd (fastMarks sets fd o).readfds = true :=
        fdIsSet_mark.mpr ⟨fun hnone => hnull ⟨hdied, hnone⟩, by rw [hdied]; rfl, rfl⟩
      exact ((h.read fd).mp hmark).2.1
    · rintro halive ⟨hr, hrr, hw, hww⟩
      have htwo := h.members
      rw [hmembers] at htwo
      simp [selectActive, halive, hr, hrr, hw, hww, Option.isSome_iff_ne_none.mpr (hread hr),
        Option.isSome_iff_ne_none.mpr (hwrite hw)] at htwo
  · rintro ⟨hdied, htwo⟩
    refine ⟨?_, ?_, ?_, ?_⟩
    · intro x
      rw [fastMarks, fdIsSet_mark]
      cases hd : o.peerDied with
      | true => simp [hread (hdied hd), hdied hd]
      | false =>
        cases hr : fdIsSet fd sets.readfds <;> simp [hr] at hread ⊢
        simp [hread, and_comm]
    · intro x
      rw [fastMarks, fdIsSet_mark]
      cases hw : fdIsSet fd sets.writefds <;> simp [hw] at hwrite ⊢
      simp [hwrite, and_comm, and_left_comm]
    · intro x hx
      rw [fastMarks, fdIsSet_clearSet] at hx
      cases hx
    · have hsome : ∀ {set : Option FdSet} (ready : Bool), (fdIsSet fd set = true → set ≠ none) →
          (fdIsSet fd set && ready && set.isSome) = (fdIsSet fd set && ready) := by
        intro set ready hset
        cases set <;> simp [fdIsSet]
      rw [hmembers]
      cases hd : o.peerDied with
      | true => simp [selectActive, hd, Option.isSome_iff_ne_none.mpr (hread (hdied hd))]
      | false =>
        have hnot := htwo hd
        simp only [selectActive, hd, Bool.false_or, Bool.not_false, Bool.true_and,
          hsome _ hread, hsome _ hwrite]
        revert hnot
        cases fdIsSet fd sets.readfds <;> cases o.ready .read <;>
          cases fdIsSet fd sets.writefds <;> cases o.ready .write <;> simp

/-! ### The loop -/

section Loop

variable {start : Nat} {milliseconds : Int} {passes : List SelectPass}

theorem reportable_quiet (h : selectActive sets o fd = false) : Reportable sets fd o := by
  simp only [selectActive, Bool.or_eq_false_iff, Bool.and_eq_false_iff] at h
  obtain ⟨⟨hdied, hread⟩, -⟩ := h
  refine ⟨fun hd => Bool.noConfusion (hdied.symm.trans hd), ?_⟩
  rintro - ⟨hr, hrr, -⟩
  rcases hread with h | h
  · exact Bool.noConfusion (h.symm.trans hr)
  · exact Bool.noConfusion (h.symm.trans hrr)

/-- **The fast path** is right exactly if every pass of it can report what it sees. -/
theorem fastLoop_iff (hs : session.connection.isSome = true)
    (hany : (fdIsSet fd sets.readfds || fdIsSet fd sets.writefds) = true) :
    (∃ call, fastLoop fd session (fdIsSet fd sets.readfds) (fdIsSet fd sets.writefds) start
          milliseconds passes (clearAllSets sets) = some call ∧ FastCorrect sets fd call) ↔
      ∀ pass ∈ fastPasses sets fd start milliseconds passes,
        Reportable sets fd (pass.observe fd) := by
  induction passes with
  | nil => exact ⟨fun _ _ hp => absurd hp List.not_mem_nil, fun _ => ⟨_, rfl, nofun⟩⟩
  | cons pass rest ih =>
    rw [fastLoop, fastPass_eq hs hany]
    by_cases hnull : (pass.observe fd).peerDied = true ∧ sets.readfds = none
    · rw [if_pos hnull]
      refine iff_of_false (by simp) ?_
      intro hall
      have hread := (Run.forall_upTo_cons.mp hall).1.1 hnull.1
      exact not_none_of_fdIsSet hread hnull.2
    rw [if_neg hnull, Option.bind_some]
    dsimp only
    rw [fastPasses, Run.forall_upTo_cons]
    cases hstop : selectActive sets (pass.observe fd) fd ||
        selectTimeoutElapsed start pass.now milliseconds with
    | true =>
      rw [if_pos rfl, ← fastReport_iff hnull]
      constructor
      · rintro ⟨call, hcall, hcorrect⟩
        obtain rfl := Option.some.inj hcall
        obtain ⟨o, ho, hreport⟩ := hcorrect _ rfl
        obtain rfl := Option.some.inj ho
        exact ⟨hreport, nofun⟩
      · rintro ⟨hreport, -⟩
        refine ⟨_, rfl, ?_⟩
        rintro r ⟨⟩
        exact ⟨_, rfl, hreport⟩
    | false =>
      obtain ⟨hquiet, -⟩ := Bool.or_eq_false_iff.mp hstop
      rw [if_neg Bool.false_ne_true, fastMarks_quiet hquiet, ih]
      exact ⟨fun hrest => ⟨reportable_quiet hquiet, fun _ => hrest⟩, fun hall => hall.2 rfl⟩

end Loop

/-! ### The count -/

section Count

variable {bridge bridge' : Bridge} {fds : List Nat} {count : SocketCount}

theorem countSockets_none (h : ∀ other ∈ fds, isInAnySet other sets = false) :
    countSockets sets fds bridge count = some (bridge, count) := by
  induction fds with
  | nil => rfl
  | cons other fds ih =>
    obtain ⟨hother, hrest⟩ := List.forall_mem_cons.mp h
    rw [countSockets, if_neg (by rw [hother]; exact Bool.false_ne_true), ih hrest]

/-- **One descriptor is counted**, whatever else there is below `nfds`. -/
theorem countSockets_one (hd : fds.Nodup) (hin : fd ∈ fds)
    (honly : ∀ other ∈ fds, isInAnySet other sets = true ↔ other = fd)
    (hlookup : bridgeLookup bridge fd = some (bridge', session))
    (hs : session.connection.isSome = true) (hlow : fd < count.lowestFd) :
    countSockets sets fds bridge count = some (bridge', { count with
      lowestFd := fd, tssxCount := count.tssxCount + 1 }) := by
  induction fds with
  | nil => cases hin
  | cons other fds ih =>
    obtain ⟨hnew, hd⟩ := List.nodup_cons.mp hd
    obtain ⟨hother, hrest⟩ := List.forall_mem_cons.mp honly
    by_cases he : other = fd
    · subst he
      have hnone : ∀ x ∈ fds, isInAnySet x sets = false := by
        intro x hx
        by_contra hset
        rw [Bool.not_eq_false, hrest x hx] at hset
        exact hnew (hset ▸ hx)
      have hhas : bridgeHasConnection bridge (other : Nat) = some (bridge', true) := by
        rw [bridgeHasConnection, hlookup, ← hs]
        rfl
      rw [countSockets, if_pos (hother.mpr rfl), hhas, Option.bind_some]
      dsimp only
      rw [countSockets_none hnone, if_pos hlow, if_pos rfl]
    · rw [countSockets, if_neg (fun hset => he (hother.mp hset))]
      exact ih hd ((List.mem_cons.mp hin).resolve_left (Ne.symm he)) hrest

end Count

/-! ### The condition -/

/-- **`select` for one descriptor is right exactly if** `nfds` is just above it, it is in one of
the first two sets, and no pass finds a dead peer without a reader or two marks at once. -/
theorem select_fast_iff {environment : SelectEnvironment} {bridge : Bridge} {nfds connection : Nat}
    {timeout : Option Timeval} (hb : bridge.SetUp) (hc : bridge.connection fd = some connection)
    (hfd : fd < nfds) (honly : ∀ other < nfds, isInAnySet other sets = true ↔ other = fd) :
    (∃ call, select environment bridge nfds sets timeout = some call ∧ FastCorrect sets fd call) ↔
      nfds = fd + 1 ∧ (fdIsSet fd sets.readfds || fdIsSet fd sets.writefds) = true ∧
        ∀ pass ∈ fastPasses sets fd environment.start (selectMilliseconds timeout)
          environment.passes, Reportable sets fd (pass.observe fd) := by
  obtain ⟨session, hget, hsession⟩ := Option.bind_eq_some_iff.mp hc
  have hs : session.connection.isSome = true := by rw [hsession]; rfl
  obtain ⟨bridge', hb', htable, hlookup⟩ := bridgeLookup_eq hb
  obtain ⟨bridge'', -, -, hlookup'⟩ := bridgeLookup_eq hb'
  have hcount : countTssxSockets nfds sets bridge =
      some (bridge', { lowestFd := fd, normalCount := 0, tssxCount := 1 }) :=
    countSockets_one List.nodup_range (List.mem_range.mpr hfd)
      (fun other ho => honly other (List.mem_range.mp ho)) (by rw [hlookup, hget]; rfl) hs hfd
  rw [select, hcount, Option.bind_some]
  simp only [if_true, selectOnTssxOnly]
  by_cases hn : fd + 1 = nfds
  swap
  · rw [if_neg hn]
    exact iff_of_false (by simp) fun h => hn h.1.symm
  rw [if_pos hn, selectOnTssxOnlyFastPath]
  dsimp only
  by_cases hany : (fdIsSet fd sets.readfds || fdIsSet fd sets.writefds) = true
  · rw [if_pos hany, hlookup', htable, hget, Option.map_some, Option.bind_some,
      fastLoop_iff hs hany]
    simp [hn, hany]
  · rw [if_neg hany]
    exact iff_of_false (by simp) fun h => hany h.2.1

/-- A call whose only pass sees this of the descriptor. -/
private def watching (o : Observation) : SelectEnvironment where
  start := 0
  passes := [{ observe := fun _ => o, now := 0 }]
  allocated := true
  poll := fun entries _ => (0, entries)
  realSelect := fun _ sets _ => (0, sets)

/-- The descriptor 3 for reading. -/
private def readThree : DescriptorSets where
  readfds := some {3}
  writefds := none
  errorfds := none

theorem connection_connectedThree : connectedThree.connection (3 : Nat) = some 0 := by rfl

theorem select_fast_iff_three :
    (∃ call, select (watching { peerDied := false, ready := fun _ => true }) connectedThree 4
        readThree none = some call ∧ FastCorrect readThree 3 call) ↔
      4 = 3 + 1 ∧ (fdIsSet 3 readThree.readfds || fdIsSet 3 readThree.writefds) = true ∧
        ∀ pass ∈ fastPasses readThree 3 0 (selectMilliseconds none)
            [{ observe := fun _ => { peerDied := false, ready := fun _ => true }, now := 0 }],
          Reportable readThree 3 (pass.observe 3) :=
  select_fast_iff (.of_ready rfl) connection_connectedThree (by decide) (by decide)

/-- **The fast path fails** for an `nfds` that is too large, for the third set alone and for a
dead peer without a reader, and counts two marks as one. -/
theorem fast_path_fails :
    select (watching { peerDied := false, ready := fun _ => true }) connectedThree 5 readThree
        none = none ∧
      select (watching { peerDied := false, ready := fun _ => true }) connectedThree 4
        { readfds := none, writefds := none, errorfds := some {3} } none = none ∧
      select (watching { peerDied := true, ready := fun _ => true }) connectedThree 4
        { readfds := none, writefds := some {3}, errorfds := none } none = none ∧
      ∃ call, select (watching { peerDied := false, ready := fun _ => true }) connectedThree 4
          { readfds := some {3}, writefds := some {3}, errorfds := none } none = some call ∧
        call.returned = some 1 ∧ call.sets.members = 2 ∧
        ¬ FastCorrect { readfds := some {3}, writefds := some {3}, errorfds := none } 3 call := by
  refine ⟨rfl, rfl, rfl, ?_⟩
  refine ⟨_, rfl, rfl, by decide, ?_⟩
  intro hcorrect
  obtain ⟨o, -, hreport⟩ := hcorrect 1 rfl
  exact absurd hreport.members (by decide)

end Tssx
