import Tssx.Bridge.Signals

/-!
# The end of a process after a signal

The exit handler walks the table that an interrupted operation has left.
`exitWalk_disconnects`: as long as it meets only intact connections, it takes one decrement for
each session.  `disconnected_once_iff`: the process has made exactly one decrement for each
connection at its end if and only if the signal does not arrive between the decrement of a
connection that is erased and the end of its session, or before a new connection is in the table.

`erase_returns`, `insert_returns` and `addUser_returns`: without a signal the accesses are the
functions of `Bridge.lean`; `terminate_eq`: so is the exit handler.
-/

namespace Tssx

/-! ### The table that the exit handler finds -/

theorem exitWalk_disconnects {sessions : List Session} {memory memory' : Memory}
    {h h' : Holdings} (hw : exitWalk memory h sessions = some (memory', h'))
    (hintact : ∀ entry ∈ h'.entered, entry.2 = .intact) (c : Nat) :
    h'.disconnects c = h.disconnects c + sessions.countP (Session.refersTo c) := by
  induction sessions generalizing memory h with
  | nil =>
    obtain ⟨rfl, rfl⟩ := Prod.mk.inj (Option.some.inj hw)
    rfl
  | cons session sessions ih =>
    obtain ⟨ref⟩ := session
    cases ref with
    | none =>
      rw [List.countP_cons, ih hw]
      rfl
    | some d =>
      simp only [exitWalk] at hw
      split at hw
      · obtain ⟨segment, -, hw⟩ := Option.bind_eq_some_iff.mp hw
        rw [List.countP_cons, ih hw]
        by_cases hdc : c = d
        · subst hdc
          simp only [Holdings.setObject, Holdings.decrement, Holdings.enter, Session.refersTo,
            Function.update_self, decide_true, if_true]
          omega
        · simp [Holdings.setObject, Holdings.decrement, Holdings.enter, Session.refersTo, hdc,
            Ne.symm hdc]
      · rename_i hnot
        obtain ⟨rfl, rfl⟩ := Prod.mk.inj (Option.some.inj hw)
        exact absurd (hintact (d, h.object d) (List.mem_append_right _ List.mem_cons_self)) hnot

theorem exitWalk_intact {sessions : List Session} {memory : Memory} {h : Holdings}
    (hs : ∀ c, 0 < sessions.countP (Session.refersTo c) →
      sessions.countP (Session.refersTo c) = 1 ∧ h.object c = .intact ∧
        (memory.segment c).removed = false) :
    ∃ memory' h', exitWalk memory h sessions = some (memory', h') ∧
      ∀ entry ∈ h'.entered, entry ∈ h.entered ∨ entry.2 = .intact := by
  induction sessions generalizing memory h with
  | nil => exact ⟨memory, h, rfl, fun _ hentry => .inl hentry⟩
  | cons session sessions ih =>
    obtain ⟨ref⟩ := session
    cases ref with
    | none =>
      refine ih fun c hc => ?_
      have hcons := hs c
      rw [List.countP_cons] at hcons
      exact hcons (Nat.lt_of_lt_of_le hc (Nat.le_add_right _ _))
    | some d =>
      have hcons : (({ connection := some d } : Session) :: sessions).countP
          (Session.refersTo d) = sessions.countP (Session.refersTo d) + 1 := by
        rw [List.countP_cons]
        simp [Session.refersTo]
      obtain ⟨hone, hobject, hkept⟩ := hs d (by omega)
      obtain ⟨segment, hsegment⟩ := disconnect_kept hkept
      have hrest : ∀ c, 0 < sessions.countP (Session.refersTo c) → c ≠ d := by
        rintro c hc rfl
        omega
      simp only [exitWalk, if_pos hobject, hsegment, Option.bind_some]
      obtain ⟨memory', h', hw, hentries⟩ := @ih
        { memory.set d segment with freed := memory.freed ++ [d] }
        (((h.enter d).decrement d).setObject d .freed) (by
          intro c hc
          have hcd := hrest c hc
          have hother : (({ connection := some d } : Session) :: sessions).countP
              (Session.refersTo c) = sessions.countP (Session.refersTo c) := by
            rw [List.countP_cons]
            simp [Session.refersTo, Ne.symm hcd]
          have hthere := hs c
          rw [hother] at hthere
          obtain ⟨hone, hobject, hkept⟩ := hthere hc
          refine ⟨hone, ?_, ?_⟩
          · simpa [Holdings.setObject, Holdings.decrement, Holdings.enter,
              Function.update_of_ne hcd] using hobject
          · simpa [Function.update_of_ne hcd] using hkept)
      refine ⟨memory', h', hw, ?_⟩
      intro entry hentry
      rcases hentries entry hentry with hold | hnew
      · rcases List.mem_append.mp hold with hold | hold
        · exact .inl hold
        · rw [List.mem_singleton.mp hold]
          exact .inr hobject
      · exact .inr hnew

namespace SignalledInv

variable {s : SignalledBridge}

/-- The handlers are installed before the bridge is initialised. -/
theorem terminate (h : SignalledInv s) (signal : TerminatingSignal) :
    s.terminate signal = if s.bridge.isInitialized then
      exitWalk s.memory s.holdings s.bridge.sessionTable.sessions
    else some (s.memory, s.holdings) := by
  unfold SignalledBridge.terminate
  cases hinit : s.bridge.isInitialized with
  | true =>
    obtain ⟨hregistered, hinstalled⟩ := h.ready hinit
    rw [hregistered, hinstalled signal]
    rfl
  | false => simp

theorem total (h : SignalledInv s) {signal : TerminatingSignal} {memory : Memory}
    {holdings : Holdings} (ht : s.terminate signal = some (memory, holdings))
    (hintact : ∀ entry ∈ holdings.entered, entry.2 = .intact) (c : Nat) :
    holdings.disconnects c = s.holdings.disconnects c + s.bridge.uses c := by
  rw [h.terminate] at ht
  split at ht
  · exact exitWalk_disconnects ht hintact c
  · rename_i hinit
    obtain ⟨rfl, rfl⟩ := Prod.mk.inj (Option.some.inj ht)
    rw [h.empty (Bool.not_eq_true _ ▸ hinit)]
    rfl

theorem terminates (h : SignalledInv s) (signal : TerminatingSignal)
    (herased : s.pc.erased = none) :
    ∃ memory holdings, s.terminate signal = some (memory, holdings) ∧
      ∀ entry ∈ holdings.entered, entry.2 = .intact := by
  rw [h.terminate]
  split
  · obtain ⟨memory, holdings, hw, hentries⟩ := @exitWalk_intact
      s.bridge.sessionTable.sessions s.memory s.holdings (by
        intro c hc
        have hlt : c < s.nextConnection := by
          by_contra hge
          have hzero := (h.fresh c (Nat.not_lt.mp hge)).1
          exact Nat.ne_of_gt hc hzero
        have hcount := h.counts c hlt
        have hnone : (if s.pc.erased = some c then 1 else 0) = 0 := by rw [herased]; rfl
        rw [hnone] at hcount
        have hzero : s.holdings.disconnects c = 0 := by
          have huses : 0 < s.bridge.uses c := hc
          omega
        refine ⟨?_, h.intact c hzero, h.kept c hlt hzero⟩
        have huses : 0 < s.bridge.uses c := hc
        show s.bridge.uses c = 1
        omega)
    refine ⟨memory, holdings, hw, ?_⟩
    intro entry hentry
    rcases hentries entry hentry with hold | hnew
    · exact h.entered entry hold
    · exact hnew
  · exact ⟨_, _, rfl, h.entered⟩

theorem lt_of_underway (h : SignalledInv s) {c : Nat}
    (hc : s.pc.inserting = some c ∨ s.pc.erased = some c) : c < s.nextConnection := by
  by_contra hge
  obtain ⟨-, hzero, hins⟩ := h.fresh c (Nat.not_lt.mp hge)
  rcases hc with hc | hc
  · exact hins hc
  · rw [h.erased c hc] at hzero
    cases hzero

end SignalledInv

/-- **Exactly one decrement for each connection**, if and only if the signal arrives neither
between the decrement of a connection that is erased and the end of its session, nor before a new
connection is in the table. -/
theorem disconnected_once_iff {s : SignalledBridge} (h : Run.Reaches signalledStep .init s)
    (signal : TerminatingSignal) :
    s.DisconnectedOnce signal ↔ s.pc.inserting = none ∧ s.pc.erased = none := by
  have hinv := signalledInv_reaches h
  constructor
  · rintro ⟨memory, holdings, ht, hone, hintact⟩
    have hboth : ∀ c < s.nextConnection,
        (if s.pc.inserting = some c then 1 else 0) = if s.pc.erased = some c then 1 else 0 := by
      intro c hc
      have hcount := hinv.counts c hc
      have htotal := hinv.total ht hintact c
      rw [hone c hc] at htotal
      omega
    have hexclusive : s.pc.inserting = none ∨ s.pc.erased = none := by
      cases s.pc <;> first | exact .inl rfl | exact .inr rfl
    rcases hexclusive with hins | her
    · refine ⟨hins, ?_⟩
      cases her : s.pc.erased with
      | none => rfl
      | some c =>
        have hc := hboth c (hinv.lt_of_underway (.inr her))
        simp [her, hins] at hc
    · refine ⟨?_, her⟩
      cases hins : s.pc.inserting with
      | none => rfl
      | some c =>
        have hc := hboth c (hinv.lt_of_underway (.inl hins))
        simp [her, hins] at hc
  · rintro ⟨hins, her⟩
    obtain ⟨memory, holdings, ht, hintact⟩ := hinv.terminates signal her
    refine ⟨memory, holdings, ht, ?_, hintact⟩
    intro c hc
    have hcount := hinv.counts c hc
    rw [hins, her] at hcount
    rw [hinv.total ht hintact c]
    exact hcount

/-- The first connection is inserted and erased, up to the decrement. -/
private def halfErased : List SignalledAction :=
  .insert (.ofNat 5) :: List.replicate 10 .access ++
    .erase (.ofNat 5) :: List.replicate 4 .access

/-- Before the decrement the exit handler finds the session whole. -/
theorem disconnected_once_iff_at : ∃ s,
    Run.run signalledStep .init (halfErased.take 15) = some s ∧ s.nextConnection = 1 ∧
      s.DisconnectedOnce .sigterm := by
  have hrun : (Run.run signalledStep .init (halfErased.take 15)).any
      (fun s => s.pc = .subtract (.ofNat 5) 0 ∧ s.nextConnection = 1) = true := by
    decide +kernel
  obtain ⟨s, hs, hat⟩ := (Option.any_eq_true _ _).mp hrun
  obtain ⟨hpc, hnext⟩ := of_decide_eq_true hat
  refine ⟨s, hs, hnext, (disconnected_once_iff ⟨_, hs⟩ .sigterm).mpr ?_⟩
  rw [hpc]
  exact ⟨rfl, rfl⟩

/-- After the decrement it disconnects the same connection again. -/
theorem disconnected_twice : ∃ s, Run.run signalledStep .init halfErased = some s ∧
    (∃ memory holdings, s.terminate .sigterm = some (memory, holdings) ∧
      holdings.disconnects 0 = 2) ∧ ¬ s.DisconnectedOnce .sigterm := by
  have hrun : (Run.run signalledStep .init halfErased).any
      (fun s => decide (s.nextConnection = 1) &&
        (s.terminate .sigterm).any fun last => last.2.disconnects 0 = 2) = true := by
    decide +kernel
  obtain ⟨s, hs, hat⟩ := (Option.any_eq_true _ _).mp hrun
  obtain ⟨hnext, hlast⟩ := (Bool.and_eq_true _ _).mp hat
  obtain ⟨⟨memory, holdings⟩, ht, htwo⟩ := (Option.any_eq_true _ _).mp hlast
  have htwo : holdings.disconnects 0 = 2 := of_decide_eq_true htwo
  refine ⟨s, hs, ⟨memory, holdings, ht, htwo⟩, ?_⟩
  rintro ⟨memory', holdings', ht', hone, -⟩
  rw [ht] at ht'
  obtain ⟨-, rfl⟩ := Prod.mk.inj (Option.some.inj ht')
  have hzero := hone 0 (by rw [of_decide_eq_true hnext]; exact Nat.one_pos)
  rw [htwo] at hzero
  cases hzero

/-! ### Without a signal -/

/-- Uninterrupted, the process gets to the end of its operation with this memory and bridge. -/
def SignalledBridge.Returns (s : SignalledBridge) (memory : Memory) (bridge : Bridge) : Prop :=
  ∃ n t, Run.run signalledStep s (List.replicate n .access) = some t ∧ t.pc = .idle ∧
    t.memory = memory ∧ t.bridge = bridge

namespace SignalledBridge.Returns

variable {s : SignalledBridge} {memory : Memory} {bridge : Bridge} {fd : CInt} {c : Nat}

theorem idle (hpc : s.pc = .idle) : s.Returns s.memory s.bridge := ⟨0, s, rfl, hpc, rfl, rfl⟩

theorem access (h : ∃ t, accessStep s = some t ∧ t.Returns memory bridge) :
    s.Returns memory bridge := by
  obtain ⟨t, ht, n, u, hrun, hu⟩ := h
  exact ⟨n + 1, u, Run.run_cons.mpr ⟨t, ht, hrun⟩, hu⟩

theorem setup (h : SignalledInv s) {operation : BridgeOperation} {middle : Bridge}
    (hpc : s.pc = .lazySetup operation) (hsetup : lazyBridgeSetup s.bridge = some middle)
    (hr : ∀ t, SignalledInv t → t.pc = operation.begin → t.bridge = middle →
      t.memory = s.memory → t.Returns memory bridge) : s.Returns memory bridge := by
  unfold lazyBridgeSetup at hsetup
  refine access ⟨_, by rw [accessStep, hpc], ?_⟩
  split at hsetup
  · rename_i hinit
    obtain rfl := Option.some.inj hsetup
    refine hr _ (h.accessStep (by rw [accessStep, hpc])) ?_ rfl rfl
    exact if_pos hinit
  · rename_i hinit
    have hstart := h.accessStep (by rw [accessStep, hpc])
    rw [if_neg hinit] at hstart ⊢
    obtain ⟨table, htable, rfl⟩ : ∃ table, sessionTableSetup s.bridge.sessionTable = some table ∧
        { isInitialized := true, connectionCount := 0, sessionTable := table } = middle := by
      simpa [bridgeSetup, hinit] using hsetup
    have hfirst := hstart.accessStep (Option.map_eq_some_iff.mpr ⟨table, htable, rfl⟩)
    refine access ⟨_, Option.map_eq_some_iff.mpr ⟨table, htable, rfl⟩, ?_⟩
    refine access ⟨_, rfl, access ⟨_, rfl, access ⟨_, rfl, access ⟨_, rfl, access ⟨_, rfl,
      access ⟨_, rfl, ?_⟩⟩⟩⟩⟩⟩
    refine hr _ ?_ rfl rfl rfl
    have hsigint := hfirst.accessStep rfl
    have hsigterm := hsigint.accessStep rfl
    have hsigabrt := hsigterm.accessStep rfl
    have hatexit := hsigabrt.accessStep rfl
    have hinitialized := hatexit.accessStep rfl
    exact hinitialized.accessStep rfl

theorem free (hpc : s.pc = .free fd c) :
    s.Returns { s.memory with freed := s.memory.freed ++ [c] }
      { s.bridge with sessionTable := s.bridge.sessionTable.set (sizeT fd) {} } := by
  refine access ⟨_, by rw [accessStep, hpc], ?_⟩
  exact access ⟨_, rfl, idle rfl⟩

/-- From `_detach_connection` on, where the segment is not destroyed. -/
theorem detach (hpc : s.pc = .detach fd c false) :
    s.Returns { s.memory with freed := s.memory.freed ++ [c] }
      { s.bridge with sessionTable := s.bridge.sessionTable.set (sizeT fd) {} } := by
  refine access ⟨_, by rw [accessStep, hpc], ?_⟩
  exact access ⟨_, rfl, access ⟨_, rfl, access ⟨_, rfl, access ⟨_, rfl, free rfl⟩⟩⟩⟩

theorem destroy {segment : Segment} (hpc : s.pc = .detach fd c true)
    (hsegment : destroySegment (s.memory.segment c) = some segment) :
    s.Returns { s.memory.set c segment with freed := s.memory.freed ++ [c] }
      { s.bridge with sessionTable := s.bridge.sessionTable.set (sizeT fd) {} } := by
  refine access ⟨_, by rw [accessStep, hpc], ?_⟩
  refine access ⟨_, rfl, access ⟨_, rfl, access ⟨_, rfl, access ⟨_, rfl, ?_⟩⟩⟩⟩
  exact access ⟨_, Option.map_eq_some_iff.mpr ⟨segment, hsegment, rfl⟩, free rfl⟩

theorem invalidate {segment : Segment} (hpc : s.pc = .subtract fd c)
    (hintact : s.holdings.object c = .intact)
    (hsegment : disconnect (s.memory.segment c) = some segment) :
    s.Returns { s.memory.set c segment with freed := s.memory.freed ++ [c] }
      { s.bridge with sessionTable := s.bridge.sessionTable.set (sizeT fd) {} } := by
  refine access ⟨_, by rw [accessStep, hpc]; exact if_pos hintact, ?_⟩
  refine access ⟨_, rfl, ?_⟩
  have hself : ((s.memory.set c (s.memory.segment c).fetchSub).segment c) =
      (s.memory.segment c).fetchSub := by
    rw [Memory.set_segment, Function.update_self]
  unfold disconnect at hsegment
  dsimp only at hsegment
  split at hsegment
  · rename_i hlast
    have hdestroy := destroy (s := { s with
        memory := s.memory.set c (s.memory.segment c).fetchSub
        holdings := s.holdings.decrement c
        pc := .detach fd c true }) rfl (by rw [hself]; exact hsegment)
    dsimp only at hdestroy
    rw [Memory.set_set] at hdestroy
    rw [hself, hlast]
    exact hdestroy
  · rename_i hlast
    obtain rfl := Option.some.inj hsegment
    rw [hself, decide_eq_false hlast]
    exact detach rfl

end SignalledBridge.Returns

section Uninterrupted

variable {s : SignalledBridge} {memory : Memory} {bridge : Bridge} {fd : CInt} {c : Nat}

/-- Run alone, the accesses are `bridge_erase`. -/
theorem erase_returns (h : SignalledInv s) (hpc : s.pc = .lazySetup (.erase fd))
    (he : bridgeErase s.memory s.bridge fd = some (memory, bridge)) :
    s.Returns memory bridge := by
  obtain ⟨middle, hsetup, he⟩ := Option.bind_eq_some_iff.mp he
  refine .setup h hpc hsetup ?_
  intro t ht hpc' hmiddle hmemory
  subst hmiddle
  rw [← hmemory] at he
  obtain ⟨⟨ref⟩, hget, he⟩ := Option.bind_eq_some_iff.mp he
  obtain ⟨⟨memory', session'⟩, hinv, he⟩ := Option.map_eq_some_iff.mp he
  obtain ⟨rfl, rfl⟩ := Prod.mk.inj he
  refine .access ⟨_, by rw [accessStep, hpc']; exact Option.map_eq_some_iff.mpr ⟨_, hget, rfl⟩, ?_⟩
  have hstep := ht.accessStep (by
    rw [accessStep, hpc']
    exact Option.map_eq_some_iff.mpr ⟨_, hget, rfl⟩)
  cases ref with
  | none =>
    obtain ⟨rfl, rfl⟩ := Prod.mk.inj (Option.some.inj hinv)
    rw [SessionTable.set_self hget]
    exact .idle rfl
  | some c =>
    obtain ⟨segment, hsegment, he⟩ := Option.map_eq_some_iff.mp hinv
    obtain ⟨rfl, rfl⟩ := Prod.mk.inj he
    refine .access ⟨_, rfl, ?_⟩
    exact .invalidate rfl (hstep.held hget (Option.some_ne_none c).symm).2.2.2 hsegment

theorem insert_returns (h : SignalledInv s) (hpc : s.pc = .lazySetup (.insert fd c))
    (hi : bridgeInsert s.bridge fd { connection := some c } = some bridge) :
    s.Returns s.memory bridge := by
  obtain ⟨middle, hsetup, hi⟩ := Option.bind_eq_some_iff.mp hi
  obtain ⟨table, htable, rfl⟩ := Option.map_eq_some_iff.mp hi
  refine .setup h hpc hsetup ?_
  intro t ht hpc' hmiddle hmemory
  subst hmiddle
  rw [← hmemory]
  refine .access ⟨_, by
    rw [accessStep, hpc']
    exact Option.map_eq_some_iff.mpr ⟨table, htable, rfl⟩, ?_⟩
  exact .access ⟨_, rfl, .idle rfl⟩

theorem loop_returns (sessions : List Session) {index : Nat}
    (hpc : s.pc = .addUser index) (hs : s.bridge.sessionTable.sessions.drop index = sessions) :
    s.Returns (sessionsAddUser s.memory sessions) s.bridge := by
  induction sessions generalizing s index with
  | nil =>
    have hend : s.bridge.sessionTable.sessions[index]? = none :=
      List.getElem?_eq_none (List.drop_eq_nil_iff.mp hs)
    refine .access ⟨{ s with pc := .idle }, ?_, .idle rfl⟩
    rw [accessStep, hpc]
    simp only [hend]
  | cons session sessions ih =>
    have hat : s.bridge.sessionTable.sessions[index]? = some session := by
      rw [← List.head?_drop, hs]
      rfl
    have hrest : s.bridge.sessionTable.sessions.drop (index + 1) = sessions := by
      rw [← List.tail_drop, hs]
      rfl
    obtain ⟨ref⟩ := session
    cases ref with
    | none =>
      refine .access ⟨{ s with pc := .addUser (index + 1) }, ?_, ih rfl hrest⟩
      rw [accessStep, hpc]
      simp only [hat]
    | some c =>
      refine .access ⟨{ s with
        memory := s.memory.set c (connectionAddUser (s.memory.segment c))
        pc := .addUser (index + 1) }, ?_, ih rfl hrest⟩
      rw [accessStep, hpc]
      simp only [hat]

theorem addUser_returns (h : SignalledInv s) (hpc : s.pc = .lazySetup .addUser)
    (ha : bridgeAddUser s.memory s.bridge = some (memory, bridge)) : s.Returns memory bridge := by
  obtain ⟨middle, hsetup, he⟩ := Option.map_eq_some_iff.mp ha
  refine .setup h hpc hsetup ?_
  intro t ht hpc' hmiddle hmemory
  subst hmiddle
  rw [← hmemory] at he
  refine .access ⟨_, by rw [accessStep, hpc']; rfl, ?_⟩
  split at he
  · rename_i hcount
    obtain ⟨rfl, rfl⟩ := Prod.mk.inj he
    exact .idle (if_pos hcount)
  · rename_i hcount
    obtain ⟨rfl, rfl⟩ := Prod.mk.inj he
    exact loop_returns t.bridge.sessionTable.sessions (if_neg hcount) rfl

/-- On intact connections the exit handler is `bridge_destroy`. -/
theorem exitWalk_destroy {sessions : List Session} {memory memory' : Memory} {h h' : Holdings}
    (hw : exitWalk memory h sessions = some (memory', h'))
    (hintact : ∀ entry ∈ h'.entered, entry.2 = .intact) :
    (sessionsDestroy memory sessions).map Prod.fst = some memory' := by
  induction sessions generalizing memory h with
  | nil =>
    obtain ⟨rfl, rfl⟩ := Prod.mk.inj (Option.some.inj hw)
    rfl
  | cons session sessions ih =>
    obtain ⟨ref⟩ := session
    cases ref with
    | none =>
      obtain ⟨⟨last, rest⟩, hrest, rfl⟩ := Option.map_eq_some_iff.mp (ih hw)
      simp [sessionsDestroy, sessionInvalidate, hrest]
    | some d =>
      simp only [exitWalk] at hw
      split at hw
      · obtain ⟨segment, hsegment, hw⟩ := Option.bind_eq_some_iff.mp hw
        obtain ⟨⟨last, rest⟩, hrest, rfl⟩ := Option.map_eq_some_iff.mp (ih hw)
        simp only [sessionsDestroy, sessionInvalidate, hsegment, hrest, Option.map_some,
          Option.bind_some]
      · rename_i hnot
        obtain ⟨rfl, rfl⟩ := Prod.mk.inj (Option.some.inj hw)
        exact absurd (hintact (d, h.object d) (List.mem_append_right _ List.mem_cons_self)) hnot

/-- Unless a connection is being erased, the exit handler is `bridge_destroy`. -/
theorem terminate_eq (h : SignalledInv s) (herased : s.pc.erased = none)
    (hinit : s.bridge.isInitialized = true) (signal : TerminatingSignal) :
    (s.terminate signal).map Prod.fst = bridgeDestroy s.memory s.bridge := by
  obtain ⟨memory, holdings, ht, hintact⟩ := h.terminates signal herased
  rw [ht, bridgeDestroy, if_pos hinit]
  rw [h.terminate, if_pos hinit] at ht
  exact (exitWalk_destroy ht hintact).symm

end Uninterrupted

end Tssx
