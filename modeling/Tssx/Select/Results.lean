import Tssx.Select

/-!
# What `select` hands back

`_select_on_tssx_only` with several descriptors.  It clears the sets of the caller and tests and
fills a copy of them, which the caller does not see, and it looks at every descriptor from the
lowest one on.  `select_correct_iff`: so the caller gets what it should exactly if there is no
gap between the descriptors and nothing happens until the timeout.
-/

namespace Tssx

/-! ### What should come back -/

/-- The descriptor has something to report for the sets. -/
def selectActive (sets : DescriptorSets) (o : Observation) (fd : Nat) : Bool :=
  o.peerDied || fdIsSet fd sets.readfds && o.ready .read ||
    fdIsSet fd sets.writefds && o.ready .write

/-- The members of all three sets together. -/
def DescriptorSets.members (sets : DescriptorSets) : Nat :=
  (sets.readfds.getD ∅).card + (sets.writefds.getD ∅).card + (sets.errorfds.getD ∅).card

/-- What a positive return value should come with, for the sets passed and what was seen. -/
structure SelectReport (sets after : DescriptorSets) (highestFd : Nat) (o : Nat → Observation)
    (returned : Int) : Prop where
  read : ∀ fd, fdIsSet fd after.readfds = true ↔ fd < highestFd ∧
    fdIsSet fd sets.readfds = true ∧ ((o fd).peerDied = true ∨ (o fd).ready .read = true)
  write : ∀ fd, fdIsSet fd after.writefds = true ↔ fd < highestFd ∧
    fdIsSet fd sets.writefds = true ∧ (o fd).ready .write = true
  error : ∀ fd, fdIsSet fd after.errorfds = false
  members : returned = after.members

/-- What a call should do. -/
structure SelectCorrect (sets : DescriptorSets) (highestFd : Nat) (call : SelectCall) : Prop where
  examined : ∀ fd ∈ call.examined, fd < highestFd ∧ isInAnySet fd sets = true
  null : (call.sets.readfds = none ↔ sets.readfds = none) ∧
    (call.sets.writefds = none ↔ sets.writefds = none) ∧
    (call.sets.errorfds = none ↔ sets.errorfds = none)
  positive : ∀ r, call.returned = some r → 0 < r →
    ∃ o, call.observed = some o ∧ SelectReport sets call.sets highestFd o r
  zero : call.returned = some 0 → call.sets.members = 0

/-- The passes of a call as long as nothing happens. -/
def waitedPasses (start : Nat) (milliseconds : Int) (passes : List SelectPass) : List SelectPass :=
  Run.upTo (fun pass => selectTimeoutElapsed start pass.now milliseconds) passes

variable {sets sets' : DescriptorSets} {fd highestFd : Nat} {o : Observation} {session : Session}

/-! ### Sets -/

@[simp] theorem fdIsSet_copySet (set : Option FdSet) :
    fdIsSet fd (copySet set) = fdIsSet fd set := by
  cases set <;> simp [fdIsSet, copySet]

@[simp] theorem fdIsSet_clearSet (set : Option FdSet) : fdIsSet fd (clearSet set) = false := by
  cases set <;> simp [fdIsSet, clearSet]

@[simp] theorem clearSet_eq_none (set : Option FdSet) : clearSet set = none ↔ set = none := by
  cases set <;> simp [clearSet]

theorem members_clearAllSets (sets : DescriptorSets) : (clearAllSets sets).members = 0 := by
  obtain ⟨r, w, e⟩ := sets
  cases r <;> cases w <;> cases e <;> rfl

theorem selectActive_copy (sets : DescriptorSets) (o : Observation) (fd : Nat) :
    selectActive (copyAllSets sets) o fd = selectActive sets o fd := by
  simp only [selectActive, copyAllSets, fdIsSet_copySet]

/-! ### One descriptor -/

theorem selectPeerDied_connected (hs : session.connection.isSome = true) :
    selectPeerDied fd session o sets =
      if o.peerDied then (sets.add fd .read).map fun sets => (true, sets)
      else some (false, sets) := by
  have hsome : session.connection.isNone = false := by
    rw [← Option.not_isSome, hs]
    rfl
  rw [selectPeerDied, hsome, if_neg Bool.false_ne_true]

theorem waitingAndReadyForSelect_cases {operation : Operation} {b : Bool}
    (h : waitingAndReadyForSelect fd o sets operation = some (b, sets')) :
    b = (fdIsSet fd (fdSetForOperation sets operation) && o.ready operation) ∧
      (b = false → sets' = sets) ∧ ∀ other, other ≠ operation →
        fdSetForOperation sets' other = fdSetForOperation sets other := by
  unfold waitingAndReadyForSelect readyForSelect at h
  split at h
  · rename_i hset
    split at h
    · rename_i hready
      obtain ⟨added, hadd, he⟩ := Option.map_eq_some_iff.mp h
      obtain ⟨rfl, rfl⟩ := Prod.mk.inj he
      refine ⟨by rw [hset, hready]; rfl, Bool.noConfusion, ?_⟩
      intro other hother
      cases operation <;> cases other <;> first | exact absurd rfl hother |
        (obtain ⟨set, -, rfl⟩ := Option.map_eq_some_iff.mp hadd; rfl)
    · rename_i hready
      obtain ⟨rfl, rfl⟩ := Prod.mk.inj (Option.some.inj h)
      exact ⟨by simp [hset, hready], fun _ => rfl, fun _ _ => rfl⟩
  · rename_i hset
    obtain ⟨rfl, rfl⟩ := Prod.mk.inj (Option.some.inj h)
    exact ⟨by simp [hset], fun _ => rfl, fun _ _ => rfl⟩

/-- **The check of a descriptor** tells whether it is active, and leaves the sets alone if not. -/
theorem checkSelectEvents_cases {activity : Bool}
    (h : checkSelectEvents fd session o sets = some (activity, sets')) :
    activity = selectActive sets o fd ∧ (activity = false → sets' = sets) := by
  obtain ⟨⟨died, middle⟩, hdied, h⟩ := Option.bind_eq_some_iff.mp h
  unfold selectPeerDied at hdied
  split at hdied
  · cases hdied
  · split at hdied
    · rename_i hpeer
      obtain ⟨added, -, he⟩ := Option.map_eq_some_iff.mp hdied
      obtain ⟨rfl, rfl⟩ := Prod.mk.inj he
      obtain ⟨rfl, rfl⟩ := Prod.mk.inj (Option.some.inj h)
      exact ⟨by simp [selectActive, hpeer], Bool.noConfusion⟩
    · rename_i hpeer
      obtain ⟨rfl, rfl⟩ := Prod.mk.inj (Option.some.inj hdied)
      obtain ⟨⟨read, middle⟩, hread, h⟩ := Option.bind_eq_some_iff.mp h
      obtain ⟨⟨write, last⟩, hwrite, he⟩ := Option.map_eq_some_iff.mp h
      obtain ⟨rfl, rfl⟩ := Prod.mk.inj he
      obtain ⟨hr, hrsame, hrother⟩ := waitingAndReadyForSelect_cases hread
      obtain ⟨hw, hwsame, -⟩ := waitingAndReadyForSelect_cases hwrite
      rw [hrother .write (by decide)] at hw
      refine ⟨?_, ?_⟩
      · rw [hr, hw, selectActive, Bool.not_eq_true _ |>.mp hpeer, Bool.false_or]
        rfl
      · intro hnone
        obtain ⟨hr0, hw0⟩ := Bool.or_eq_false_iff.mp hnone
        rw [hwsame hw0, hrsame hr0]

theorem checkSelectEvents_quiet (hs : session.connection.isSome = true)
    (ha : selectActive sets o fd = false) :
    checkSelectEvents fd session o sets = some (false, sets) := by
  simp only [selectActive, Bool.or_eq_false_iff, Bool.and_eq_false_iff] at ha
  obtain ⟨⟨hdied, hread⟩, hwrite⟩ := ha
  have hone : ∀ operation, (fdIsSet fd (fdSetForOperation sets operation) = false ∨
      o.ready operation = false) →
      waitingAndReadyForSelect fd o sets operation = some (false, sets) := by
    rintro operation (h | h) <;> simp [waitingAndReadyForSelect, readyForSelect, h]
  simp only [checkSelectEvents, selectPeerDied_connected hs, hdied, Bool.false_eq_true, if_false,
    Option.bind_some, hone .read hread, hone .write hwrite, Option.map_some, Bool.or_self]

/-! ### A pass over the descriptors -/

section Scan

variable {observe : Nat → Observation} {fds : List Nat} {scan scan' : SelectScan}

theorem selectScan_cases (h : selectScan observe fds scan = some scan') :
    scan'.examined = scan.examined ++ fds ∧ scan.readyCount ≤ scan'.readyCount ∧
      ((∀ fd ∈ fds, selectActive scan.sets (observe fd) fd = false) →
        scan'.readyCount = scan.readyCount ∧ scan'.sets = scan.sets) ∧
      ((∃ fd ∈ fds, selectActive scan.sets (observe fd) fd = true) →
        scan.readyCount < scan'.readyCount) := by
  induction fds generalizing scan with
  | nil =>
    obtain rfl := Option.some.inj h
    exact ⟨(List.append_nil _).symm, Nat.le_refl _, fun _ => ⟨rfl, rfl⟩, by simp⟩
  | cons fd fds ih =>
    obtain ⟨⟨bridge, session⟩, -, h⟩ := Option.bind_eq_some_iff.mp h
    obtain ⟨⟨activity, sets⟩, hcheck, h⟩ := Option.bind_eq_some_iff.mp h
    obtain ⟨hact, hsame⟩ := checkSelectEvents_cases hcheck
    obtain ⟨hexamined, hle, hquiet, hactive⟩ := ih h
    refine ⟨by rw [hexamined, List.append_assoc]; rfl, ?_, ?_, ?_⟩
    · refine Nat.le_trans ?_ hle
      dsimp only
      split <;> omega
    · intro hnone
      have hthis := hact.trans (hnone fd List.mem_cons_self)
      subst hthis
      rw [hsame rfl] at hquiet
      exact hquiet fun other ho => hnone other (List.mem_cons_of_mem _ ho)
    · rintro ⟨other, ho, hother⟩
      cases activity with
      | true => exact Nat.lt_of_lt_of_le (Nat.lt_succ_self _) hle
      | false =>
        rw [hsame rfl] at hactive
        refine hactive ⟨other, ?_, hother⟩
        rcases List.mem_cons.mp ho with rfl | ho
        · rw [← hact] at hother
          cases hother
        · exact ho

/-- The descriptors have connections, and a look-up leaves the bridge alone. -/
def Connected (bridge : Bridge) (fds : List Nat) : Prop :=
  ∀ fd ∈ fds, ∃ session, bridgeLookup bridge fd = some (bridge, session) ∧
    session.connection.isSome = true

theorem selectScan_quiet (hc : Connected scan.bridge fds)
    (ha : ∀ fd ∈ fds, selectActive scan.sets (observe fd) fd = false) :
    selectScan observe fds scan = some { scan with examined := scan.examined ++ fds } := by
  induction fds generalizing scan with
  | nil => rw [selectScan, List.append_nil]
  | cons fd fds ih =>
    obtain ⟨session, hlookup, hs⟩ := hc fd List.mem_cons_self
    have hrest := @ih { scan with examined := scan.examined ++ [fd] }
      (fun other ho => hc other (List.mem_cons_of_mem _ ho))
      (fun other ho => ha other (List.mem_cons_of_mem _ ho))
    simp only [selectScan, hlookup, checkSelectEvents_quiet hs (ha fd List.mem_cons_self),
      Option.bind_some, Bool.false_eq_true, if_false]
    rw [hrest, List.append_assoc]
    rfl

end Scan

/-! ### The passes of a call -/

section Loop

variable {fds : List Nat} {start : Nat} {milliseconds : Int} {passes : List SelectPass}
  {scan : SelectScan} {call : SelectCall}

/-- Nothing happens to the descriptors until the timeout. -/
def QuietUntilTimeout (sets : DescriptorSets) (fds : List Nat) (start : Nat) (milliseconds : Int)
    (passes : List SelectPass) : Prop :=
  ∀ pass ∈ waitedPasses start milliseconds passes, ∀ fd ∈ fds,
    selectActive sets (pass.observe fd) fd = false

theorem selectLoop_quiet (hc : Connected scan.bridge fds)
    (hq : QuietUntilTimeout scan.sets fds start milliseconds passes) (h0 : scan.readyCount = 0) :
    ∃ call, selectLoop fds start milliseconds sets passes scan = some call ∧
      call.sets = sets ∧ (∀ fd ∈ call.examined, fd ∈ scan.examined ∨ fd ∈ fds) ∧
      ∀ r, call.returned = some r → r = 0 := by
  induction passes generalizing scan with
  | nil => exact ⟨_, rfl, rfl, fun _ hfd => .inl hfd, nofun⟩
  | cons pass rest ih =>
    obtain ⟨hnow, hlater⟩ := Run.forall_upTo_cons.mp hq
    have hscan := selectScan_quiet hc hnow
    simp only [selectLoop, hscan, Option.bind_some, h0, Nat.lt_irrefl, decide_false, Bool.false_or]
    cases helapsed : selectTimeoutElapsed start pass.now milliseconds with
    | true =>
      refine ⟨_, rfl, rfl, fun fd hfd => List.mem_append.mp hfd, ?_⟩
      rintro r ⟨⟩
      rfl
    | false =>
      obtain ⟨call, hcall, hsets, hexamined, hreturned⟩ :=
        @ih { scan with examined := scan.examined ++ fds } hc (hlater helapsed) h0
      refine ⟨call, by simpa [h0] using hcall, hsets, ?_, hreturned⟩
      intro fd hfd
      rcases hexamined fd hfd with hfd | hfd
      · exact List.mem_append.mp hfd
      · exact .inr hfd

/-- **What a call does with its sets**: it hands the cleared sets back. -/
theorem selectLoop_sets (h : selectLoop fds start milliseconds sets passes scan = some call) :
    call.sets = sets ∧ ∀ fd ∈ scan.examined, fd ∈ call.examined := by
  induction passes generalizing scan with
  | nil =>
    obtain rfl := Option.some.inj h
    exact ⟨rfl, fun _ hfd => hfd⟩
  | cons pass rest ih =>
    obtain ⟨scan', hscan, h⟩ := Option.bind_eq_some_iff.mp h
    have hin : ∀ fd ∈ scan.examined, fd ∈ scan'.examined := by
      intro fd hfd
      rw [(selectScan_cases hscan).1]
      exact List.mem_append_left _ hfd
    split at h
    · obtain rfl := Option.some.inj h
      exact ⟨rfl, hin⟩
    · obtain ⟨hsets, hmore⟩ := ih h
      exact ⟨hsets, fun fd hfd => hmore fd (hin fd hfd)⟩

theorem selectLoop_examined (hp : passes ≠ [])
    (h : selectLoop fds start milliseconds sets passes scan = some call) :
    ∀ fd ∈ fds, fd ∈ call.examined := by
  intro fd hfd
  cases passes with
  | nil => exact absurd rfl hp
  | cons pass rest =>
    obtain ⟨scan', hscan, h⟩ := Option.bind_eq_some_iff.mp h
    have hin : fd ∈ scan'.examined := by
      rw [(selectScan_cases hscan).1]
      exact List.mem_append_right _ hfd
    split at h
    · obtain rfl := Option.some.inj h
      exact hin
    · exact (selectLoop_sets h).2 fd hin

theorem selectLoop_found (h : selectLoop fds start milliseconds sets passes scan = some call)
    (h0 : scan.readyCount = 0)
    (hnot : ¬ QuietUntilTimeout scan.sets fds start milliseconds passes) :
    ∃ r, call.returned = some r ∧ 0 < r := by
  induction passes generalizing scan with
  | nil => exact absurd (fun _ hp => absurd hp List.not_mem_nil) hnot
  | cons pass rest ih =>
    obtain ⟨scan', hscan, h⟩ := Option.bind_eq_some_iff.mp h
    obtain ⟨-, -, hquiet, hactive⟩ := selectScan_cases hscan
    have hnone : scan'.readyCount = 0 →
        ∀ fd ∈ fds, selectActive scan.sets (pass.observe fd) fd = false := by
      intro hzero fd hfd
      by_contra hact
      have := hactive ⟨fd, hfd, by simpa using hact⟩
      omega
    split at h
    · rename_i hstop
      obtain rfl := Option.some.inj h
      refine ⟨_, rfl, ?_⟩
      by_contra hcount
      have hzero : scan'.readyCount = 0 := by omega
      have helapsed : selectTimeoutElapsed start pass.now milliseconds = true := by
        simpa [hzero] using hstop
      exact hnot (Run.forall_upTo_cons.mpr
        ⟨hnone hzero, fun hgo => Bool.noConfusion (helapsed.symm.trans hgo)⟩)
    · rename_i hgo
      obtain ⟨hzero, -⟩ : scan'.readyCount = 0 ∧
          selectTimeoutElapsed start pass.now milliseconds = false := by simpa using hgo
      refine ih h hzero ?_
      rw [(hquiet (hnone hzero)).2]
      exact fun hrest => hnot (Run.forall_upTo_cons.mpr ⟨hnone hzero, fun _ => hrest⟩)

end Loop

/-! ### The count of the descriptors -/

section Count

variable {bridge bridge' : Bridge}

theorem lazyBridgeSetup_ready (h : lazyBridgeSetup bridge = some bridge') :
    lazyBridgeSetup bridge' = some bridge' := by
  rw [lazyBridgeSetup, if_pos (lazyBridgeSetup_initialized h)]

theorem bridgeLookup_ready {session : Session} {fd : Int}
    (h : bridgeLookup bridge fd = some (bridge', session)) :
    lazyBridgeSetup bridge' = some bridge' ∧
      (lazyBridgeSetup bridge = some bridge → bridge' = bridge) := by
  obtain ⟨middle, hsetup, h⟩ := Option.bind_eq_some_iff.mp h
  obtain ⟨found, -, he⟩ := Option.map_eq_some_iff.mp h
  obtain ⟨rfl, -⟩ := Prod.mk.inj he
  refine ⟨lazyBridgeSetup_ready hsetup, ?_⟩
  intro hready
  exact (Option.some.inj (hready.symm.trans hsetup)).symm

theorem countSockets_connected {fds : List Nat} {count count' : SocketCount}
    (h : countSockets sets fds bridge count = some (bridge', count')) :
    count.normalCount ≤ count'.normalCount ∧
      (lazyBridgeSetup bridge = some bridge → bridge' = bridge) ∧
      (count'.normalCount = 0 → ∀ fd ∈ fds, isInAnySet fd sets = true →
        ∃ session, bridgeLookup bridge' fd = some (bridge', session) ∧
          session.connection.isSome = true) := by
  induction fds generalizing bridge count with
  | nil =>
    obtain ⟨rfl, rfl⟩ := Prod.mk.inj (Option.some.inj h)
    exact ⟨Nat.le_refl _, fun _ => rfl, by simp⟩
  | cons fd fds ih =>
    unfold countSockets at h
    split at h
    · obtain ⟨⟨middle, hasConnection⟩, hhas, h⟩ := Option.bind_eq_some_iff.mp h
      obtain ⟨⟨_, session⟩, hlookup, he⟩ := Option.map_eq_some_iff.mp hhas
      obtain ⟨rfl, rfl⟩ := Prod.mk.inj he
      obtain ⟨hready, hsame⟩ := bridgeLookup_ready hlookup
      obtain ⟨hle, hkeep, hconnected⟩ := ih h
      obtain rfl := hkeep hready
      refine ⟨?_, hsame, ?_⟩
      · refine Nat.le_trans ?_ hle
        split <;> split <;> simp
      · intro hzero other ho hother
        rcases List.mem_cons.mp ho with rfl | ho
        · refine ⟨session, ?_, ?_⟩
          · obtain ⟨_, hsetup, hget⟩ := Option.bind_eq_some_iff.mp hlookup
            obtain ⟨_, hget, he⟩ := Option.map_eq_some_iff.mp hget
            obtain ⟨rfl, rfl⟩ := Prod.mk.inj he
            simp only [bridgeLookup, hready, Option.bind_some, hget]
          · by_contra hnone
            have hno : sessionHasConnection session = false := Bool.not_eq_true _ |>.mp hnone
            rw [hno] at hle
            simp only [Bool.false_eq_true, if_false] at hle
            omega
        · exact hconnected hzero other ho hother
    · rename_i hnot
      obtain ⟨hle, hkeep, hconnected⟩ := ih h
      refine ⟨hle, hkeep, ?_⟩
      intro hzero other ho hother
      rcases List.mem_cons.mp ho with rfl | ho
      · exact absurd hother hnot
      · exact hconnected hzero other ho hother

end Count

/-! ### The condition -/

/-- There is no gap between the lowest descriptor and `nfds`. -/
def NoGap (sets : DescriptorSets) (lowestFd highestFd : Nat) : Prop :=
  ∀ fd, lowestFd ≤ fd → fd < highestFd → isInAnySet fd sets = true

/-- **The caller gets what it should exactly if there is no gap and nothing to report.** -/
theorem select_correct_iff {bridge bridge' : Bridge} {count : SocketCount}
    {timeout : Option Timeval} {start : Nat} {passes : List SelectPass}
    (hcount : countTssxSockets highestFd sets bridge = some (bridge', count))
    (hnormal : count.normalCount = 0) (htssx : 2 ≤ count.tssxCount) (hp : passes ≠ []) :
    (∃ call, selectOnTssxOnly bridge' sets count highestFd timeout start passes = some call ∧
        SelectCorrect sets highestFd call) ↔
      NoGap sets count.lowestFd highestFd ∧
        QuietUntilTimeout sets (List.range' count.lowestFd (highestFd - count.lowestFd)) start
          (selectMilliseconds timeout) passes := by
  have hconnected := (countSockets_connected hcount).2.2 hnormal
  have hmem : ∀ fd, fd ∈ List.range' count.lowestFd (highestFd - count.lowestFd) ↔
      count.lowestFd ≤ fd ∧ fd < highestFd := by
    intro fd
    rw [List.mem_range'_1]
    omega
  have hquiet : ∀ fds, QuietUntilTimeout (copyAllSets sets) fds start
      (selectMilliseconds timeout) passes ↔
        QuietUntilTimeout sets fds start (selectMilliseconds timeout) passes := by
    intro fds
    simp only [QuietUntilTimeout, selectActive_copy]
  have hgeneral : selectOnTssxOnly bridge' sets count highestFd timeout start passes =
      selectLoop (List.range' count.lowestFd (highestFd - count.lowestFd)) start
        (selectMilliseconds timeout) (clearAllSets sets) passes
        { readyCount := 0, bridge := bridge', sets := copyAllSets sets, examined := [] } :=
    if_neg (by omega)
  rw [hgeneral]
  constructor
  · rintro ⟨call, hcall, hcorrect⟩
    have hsets := (selectLoop_sets hcall).1
    refine ⟨fun fd hle hlt => ?_, ?_⟩
    · have hexamined := selectLoop_examined hp hcall fd ((hmem fd).mpr ⟨hle, hlt⟩)
      exact (hcorrect.examined fd hexamined).2
    by_contra hnot
    obtain ⟨r, hr, hpos⟩ := selectLoop_found hcall rfl (by rwa [hquiet])
    obtain ⟨o, -, hreport⟩ := hcorrect.positive r hr hpos
    -- the sets come back empty
    have hmembers := hreport.members
    rw [hsets, members_clearAllSets] at hmembers
    omega
  · rintro ⟨hgap, hq⟩
    obtain ⟨call, hcall, hsets, hexamined, hzero⟩ := @selectLoop_quiet (clearAllSets sets) _ _ _ _
      { readyCount := 0, bridge := bridge', sets := copyAllSets sets, examined := [] }
      (fun fd hfd => hconnected fd (List.mem_range.mpr ((hmem fd).mp hfd).2)
        (hgap fd ((hmem fd).mp hfd).1 ((hmem fd).mp hfd).2)) ((hquiet _).mpr hq) rfl
    refine ⟨call, hcall, ⟨?_, ?_, ?_, ?_⟩⟩
    · intro fd hfd
      have hin := (hmem fd).mp ((hexamined fd hfd).resolve_left (List.not_mem_nil))
      exact ⟨hin.2, hgap fd hin.1 hin.2⟩
    · rw [hsets]
      exact ⟨clearSet_eq_none _, clearSet_eq_none _, clearSet_eq_none _⟩
    · intro r hr hpos
      rw [hzero r hr] at hpos
      exact absurd hpos (Int.lt_irrefl 0)
    · intro _
      rw [hsets, members_clearAllSets]

/-- A bridge with connections at the descriptors 3 and 4. -/
private def threeAndFour : Bridge where
  isInitialized := true
  connectionCount := 2
  sessionTable := (SessionTable.empty.set 3 { connection := some 0 }).set 4 { connection := some 1 }

/-- The descriptors 3 and 4 for reading. -/
private def readThreeAndFour : DescriptorSets where
  readfds := some {3, 4}
  writefds := none
  errorfds := none

theorem count_threeAndFour : countTssxSockets 5 readThreeAndFour threeAndFour =
    some (threeAndFour, { lowestFd := 3, normalCount := 0, tssxCount := 2 }) := rfl

/-- A pass that finds nothing. -/
private def silence : SelectPass where
  observe := fun _ => { peerDied := false, ready := fun _ => false }
  now := 0

theorem select_correct_iff_silence :
    (∃ call, selectOnTssxOnly threeAndFour readThreeAndFour
          { lowestFd := 3, normalCount := 0, tssxCount := 2 } 5 (some ⟨0, 0⟩) 0 [silence] =
        some call ∧ SelectCorrect readThreeAndFour 5 call) ↔
      NoGap readThreeAndFour 3 5 ∧
        QuietUntilTimeout readThreeAndFour (List.range' 3 (5 - 3)) 0
          (selectMilliseconds (some ⟨0, 0⟩)) [silence] :=
  select_correct_iff count_threeAndFour rfl (Nat.le_refl 2) (List.cons_ne_nil _ _)

/-- **A readable descriptor is reported in an empty set.** -/
theorem ready_set_empty :
    ∃ call, selectOnTssxOnly threeAndFour readThreeAndFour
        { lowestFd := 3, normalCount := 0, tssxCount := 2 } 5 none 0
        [{ observe := fun fd => { peerDied := false, ready := fun _ => fd == 3 }, now := 0 }] =
          some call ∧
      call.returned = some 1 ∧ call.sets.readfds = some ∅ ∧
      ¬ SelectCorrect readThreeAndFour 5 call := by
  refine ⟨_, rfl, rfl, rfl, ?_⟩
  intro hcorrect
  obtain ⟨o, -, hreport⟩ := hcorrect.positive 1 rfl (by decide)
  exact absurd hreport.members (by decide)

end Tssx
