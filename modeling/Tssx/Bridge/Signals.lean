import Tssx.Bridge
import Tssx.Lib.Run

/-!
# Signals during an operation of the bridge

`bridge_insert`, `bridge_erase` and `bridge_add_user` access by access, with `disconnect` and
the set-up of the bridge inside them, and a `SIGINT` or `SIGTERM` that arrives between two
accesses.  Both have their default disposition before the bridge is set up, so the bridge's
handler calls `exit`, and the exit handler walks the table as it is.

`Holdings` counts the decrements of `open_count` that the process has made for a connection,
and has the state of each `Connection` object when `disconnect` was entered with it.  Other
processes change the segments between the accesses; they do not remove one in which this process
is counted.  `SignalledInv` holds in every state that the accesses reach: a connection is in the
table, or is being inserted, or has been decremented once, and only the one that is being erased
is in the table and decremented.  `Bridge/Exit.lean` has the walk over such a table.
-/

namespace Tssx

/-- What has become of a `Connection`. -/
inductive ObjectState
  | intact
  /-- `_detach_connection` has overwritten fields. -/
  | invalidated
  | freed
  deriving DecidableEq

structure Holdings where
  /-- The decrements of `open_count` by this process. -/
  disconnects : Nat → Nat
  object : Nat → ObjectState
  /-- The connections with which `disconnect` was entered, and their state then. -/
  entered : List (Nat × ObjectState)

def Holdings.enter (h : Holdings) (connection : Nat) : Holdings :=
  { h with entered := h.entered ++ [(connection, h.object connection)] }

def Holdings.decrement (h : Holdings) (connection : Nat) : Holdings :=
  { h with
    disconnects := Function.update h.disconnects connection (h.disconnects connection + 1) }

def Holdings.setObject (h : Holdings) (connection : Nat) (object : ObjectState) : Holdings :=
  { h with object := Function.update h.object connection object }

/-! ### The exit handler -/

/-- The loop of `session_table_destroy`.  A process that uses an invalidated or freed connection
ends there; `none` is a `throw`. -/
def exitWalk (memory : Memory) (h : Holdings) : List Session → Option (Memory × Holdings)
  | [] => some (memory, h)
  | session :: sessions =>
    match session.connection with
    | none => exitWalk memory h sessions
    | some connection =>
      if h.object connection = .intact then
        (disconnect (memory.segment connection)).bind fun segment =>
          exitWalk { memory.set connection segment with freed := memory.freed ++ [connection] }
            (((h.enter connection).decrement connection).setObject connection .freed) sessions
      else some (memory, h.enter connection)

/-! ### The operations -/

/-- `bridge_insert`, `bridge_erase` and `bridge_add_user`. -/
inductive BridgeOperation
  | insert (fd : CInt) (connection : Nat)
  | erase (fd : CInt)
  | addUser
  deriving DecidableEq

/-- The next access of `bridge_setup`. -/
inductive SetupPc
  | table
  | sigint
  | sigterm
  | sigabrt
  | atexit
  | initialized
  | count
  deriving DecidableEq

/-- The fields of a connection, in the order in which `_detach_connection` overwrites them. -/
inductive ConnectionField
  | segmentId
  | openCount
  | serverBuffer
  | clientBuffer
  deriving DecidableEq

/-- The next access. -/
inductive BridgePc
  | idle
  | lazySetup (operation : BridgeOperation)
  | setup (pc : SetupPc) (operation : BridgeOperation)
  | assign (fd : CInt) (connection : Nat)
  | countUp
  | get (fd : CInt)
  | countDown (fd : CInt) (connection : Nat)
  /-- `atomic_fetch_sub` of `disconnect`. -/
  | subtract (fd : CInt) (connection : Nat)
  | load (fd : CInt) (connection : Nat)
  /-- `shmdt`; whether the segment is going to be destroyed. -/
  | detach (fd : CInt) (connection : Nat) (last : Bool)
  | invalidate (fd : CInt) (connection : Nat) (last : Bool) (field : ConnectionField)
  | remove (fd : CInt) (connection : Nat)
  | free (fd : CInt) (connection : Nat)
  /-- `session->connection = NULL`. -/
  | clear (fd : CInt) (connection : Nat)
  | testCount
  | addUser (index : Nat)
  deriving DecidableEq

/-- The operation behind `_lazy_bridge_setup`. -/
def BridgeOperation.begin : BridgeOperation → BridgePc
  | .insert fd connection => .assign fd connection
  | .erase fd => .get fd
  | .addUser => .testCount

inductive TerminatingSignal
  | sigint
  | sigterm
  deriving DecidableEq

structure SignalledBridge where
  memory : Memory
  bridge : Bridge
  /-- The handler of the bridge is installed. -/
  installed : TerminatingSignal → Bool
  /-- `atexit` has registered `_bridge_exit_handler`. -/
  registered : Bool
  holdings : Holdings
  /-- The number of connections that the process has acquired, which names the next one. -/
  nextConnection : Nat
  pc : BridgePc

def SignalledBridge.init : SignalledBridge where
  memory := { segment := fun _ => { openCount := 0 } }
  bridge := .initial
  installed := fun _ => false
  registered := false
  holdings := { disconnects := fun _ => 0, object := fun _ => .intact, entered := [] }
  nextConnection := 0
  pc := .idle

def bridgeSetupStep (s : SignalledBridge) (operation : BridgeOperation) :
    SetupPc → Option SignalledBridge
  | .table => (sessionTableSetup s.bridge.sessionTable).map fun sessionTable =>
      { s with bridge := { s.bridge with sessionTable }, pc := .setup .sigint operation }
  | .sigint => some { s with
      installed := Function.update s.installed .sigint true, pc := .setup .sigterm operation }
  | .sigterm => some { s with
      installed := Function.update s.installed .sigterm true, pc := .setup .sigabrt operation }
  | .sigabrt => some { s with pc := .setup .atexit operation }
  | .atexit => some { s with registered := true, pc := .setup .initialized operation }
  | .initialized => some { s with
      bridge := { s.bridge with isInitialized := true }, pc := .setup .count operation }
  | .count => some { s with
      bridge := { s.bridge with connectionCount := 0 }, pc := operation.begin }

/-- The next access of an operation; `none` is a failed assertion, a `throw` or the use of an
invalidated connection. -/
def accessStep (s : SignalledBridge) : Option SignalledBridge :=
  match s.pc with
  | .idle => none
  | .lazySetup operation =>
    some { s with
      pc := if s.bridge.isInitialized then operation.begin else .setup .table operation }
  | .setup pc operation => bridgeSetupStep s operation pc
  | .assign fd connection =>
    (sessionTableAssign s.bridge.sessionTable (sizeT fd) { connection := some connection }).map
      fun sessionTable => { s with bridge := { s.bridge with sessionTable }, pc := .countUp }
  | .countUp => some { s with
      bridge := { s.bridge with connectionCount := sizeT (s.bridge.connectionCount + 1) }
      pc := .idle }
  | .get fd =>
    (sessionTableGet s.bridge.sessionTable (sizeT fd)).map fun session =>
      match session.connection with
      | some connection => { s with pc := .countDown fd connection }
      | none => { s with pc := .idle }
  | .countDown fd connection => some { s with
      bridge := { s.bridge with connectionCount := sizeT (s.bridge.connectionCount - 1) }
      holdings := s.holdings.enter connection
      pc := .subtract fd connection }
  | .subtract fd connection =>
    if s.holdings.object connection = .intact then some { s with
      memory := s.memory.set connection (s.memory.segment connection).fetchSub
      holdings := s.holdings.decrement connection
      pc := .load fd connection }
    else none
  | .load fd connection =>
    some { s with pc := .detach fd connection ((s.memory.segment connection).openCount = 0) }
  | .detach fd connection last => some { s with pc := .invalidate fd connection last .segmentId }
  | .invalidate fd connection last field => some { s with
      holdings := s.holdings.setObject connection .invalidated
      pc := match field with
        | .segmentId => .invalidate fd connection last .openCount
        | .openCount => .invalidate fd connection last .serverBuffer
        | .serverBuffer => .invalidate fd connection last .clientBuffer
        | .clientBuffer => if last then .remove fd connection else .free fd connection }
  | .remove fd connection =>
    (destroySegment (s.memory.segment connection)).map fun segment =>
      { s with memory := s.memory.set connection segment, pc := .free fd connection }
  | .free fd connection => some { s with
      memory := { s.memory with freed := s.memory.freed ++ [connection] }
      holdings := s.holdings.setObject connection .freed
      pc := .clear fd connection }
  | .clear fd _ => some { s with
      bridge := { s.bridge with sessionTable := s.bridge.sessionTable.set (sizeT fd) {} }
      pc := .idle }
  | .testCount => some { s with pc := if s.bridge.connectionCount = 0 then .idle else .addUser 0 }
  | .addUser index =>
    match s.bridge.sessionTable.sessions[index]? with
    | none => some { s with pc := .idle }
    | some session =>
      match session.connection with
      | none => some { s with pc := .addUser (index + 1) }
      | some connection => some { s with
          memory := s.memory.set connection (connectionAddUser (s.memory.segment connection))
          pc := .addUser (index + 1) }

inductive SignalledAction
  /-- A new connection has been set up, and is inserted. -/
  | insert (fd : CInt)
  | erase (fd : CInt)
  | addUser
  | access
  /-- Other processes change a segment. -/
  | others (connection : Nat) (segment : Segment)

/-- This process is counted in the segment of the connection. -/
def SignalledBridge.counted (s : SignalledBridge) (connection : Nat) : Bool :=
  connection < s.nextConnection && s.holdings.disconnects connection == 0

/-- An operation of the process between operations. -/
def SignalledBridge.begin (s : SignalledBridge) (operation : BridgeOperation) :
    Option SignalledBridge :=
  if s.pc = .idle then some { s with pc := .lazySetup operation } else none

def signalledStep (s : SignalledBridge) : SignalledAction → Option SignalledBridge
  | .insert fd => (s.begin (.insert fd s.nextConnection)).map fun t =>
      { t with
        memory := s.memory.set s.nextConnection (setupConnection createConnection)
        nextConnection := s.nextConnection + 1 }
  | .erase fd => s.begin (.erase fd)
  | .addUser => s.begin .addUser
  | .access => accessStep s
  | .others connection segment =>
    if s.counted connection && segment.removed then none
    else some { s with memory := s.memory.set connection segment }

/-- The end of the process after a signal.  Without the handler the signal kills it; without the
registration `exit` calls nothing; and `bridge_destroy` asserts an initialised bridge. -/
def SignalledBridge.terminate (s : SignalledBridge) (signal : TerminatingSignal) :
    Option (Memory × Holdings) :=
  if s.installed signal && s.registered && s.bridge.isInitialized then
    exitWalk s.memory s.holdings s.bridge.sessionTable.sessions
  else some (s.memory, s.holdings)

/-- A signal now leads to exactly one decrement for each connection that was ever acquired, and
`disconnect` was always entered with an intact connection. -/
def SignalledBridge.DisconnectedOnce (s : SignalledBridge) (signal : TerminatingSignal) : Prop :=
  ∃ memory h, s.terminate signal = some (memory, h) ∧
    (∀ c < s.nextConnection, h.disconnects c = 1) ∧ ∀ entry ∈ h.entered, entry.2 = .intact

/-- The connection that `bridge_insert` has not yet put into the table. -/
def BridgePc.inserting : BridgePc → Option Nat
  | .lazySetup (.insert _ connection) | .setup _ (.insert _ connection)
  | .assign _ connection => some connection
  | _ => none

/-- The connection that `bridge_erase` has decremented and not yet taken from the table. -/
def BridgePc.erased : BridgePc → Option Nat
  | .load _ connection | .detach _ connection _ | .invalidate _ connection _ _
  | .remove _ connection | .free _ connection | .clear _ connection => some connection
  | _ => none

/-! ### The invariant -/

/-- The session of the connection that `bridge_erase` is at. -/
def BridgePc.session : BridgePc → Option (CInt × Nat)
  | .countDown fd connection | .subtract fd connection | .load fd connection
  | .detach fd connection _ | .invalidate fd connection _ _ | .remove fd connection
  | .free fd connection | .clear fd connection => some (fd, connection)
  | _ => none

/-- `_lazy_bridge_setup` of the operation has returned. -/
def BridgePc.running : BridgePc → Bool
  | .idle | .lazySetup _ | .setup _ _ => false
  | _ => true

/-- What `bridge_setup` has done so far. -/
def SignalledBridge.SetUpSoFar (s : SignalledBridge) : Prop :=
  match s.pc with
  | .setup .sigterm _ => s.installed .sigint = true
  | .setup .sigabrt _ | .setup .atexit _ => ∀ signal, s.installed signal = true
  | .setup .initialized _ => s.registered = true ∧ ∀ signal, s.installed signal = true
  | .setup .count _ => s.bridge.isInitialized = true
  | _ => True

structure SignalledInv (s : SignalledBridge) : Prop where
  /-- A connection is in the table or has been disconnected, or it is being inserted; the one
  that is being erased is both. -/
  counts : ∀ c < s.nextConnection, s.holdings.disconnects c + s.bridge.uses c +
    (if s.pc.inserting = some c then 1 else 0) = 1 + if s.pc.erased = some c then 1 else 0
  fresh : ∀ c, s.nextConnection ≤ c → s.bridge.uses c = 0 ∧ s.holdings.disconnects c = 0 ∧
    s.pc.inserting ≠ some c
  erased : ∀ c, s.pc.erased = some c → s.holdings.disconnects c = 1
  session : ∀ fd c, s.pc.session = some (fd, c) →
    s.bridge.sessionTable.sessions[sizeT (fd : CInt)]? = some { connection := some c }
  intact : ∀ c, s.holdings.disconnects c = 0 → s.holdings.object c = .intact
  entered : ∀ entry ∈ s.holdings.entered, entry.2 = .intact
  kept : ∀ c < s.nextConnection, s.holdings.disconnects c = 0 →
    (s.memory.segment c).removed = false
  ready : s.bridge.isInitialized = true →
    s.registered = true ∧ ∀ signal, s.installed signal = true
  empty : s.bridge.isInitialized = false → ∀ c, s.bridge.uses c = 0
  running : s.pc.running = true → s.bridge.isInitialized = true
  setup : s.SetUpSoFar

theorem signalledInv_init : SignalledInv .init where
  counts := fun c hc => absurd hc (Nat.not_lt_zero c)
  fresh := by
    intro c _
    exact ⟨uses_initial c, rfl, by simp [SignalledBridge.init, BridgePc.inserting]⟩
  erased := by simp [SignalledBridge.init, BridgePc.erased]
  session := by simp [SignalledBridge.init, BridgePc.session]
  intact := fun _ _ => rfl
  entered := nofun
  kept := fun c hc => absurd hc (Nat.not_lt_zero c)
  ready := by simp [SignalledBridge.init, Bridge.initial]
  empty := fun _ c => uses_initial c
  running := by simp [SignalledBridge.init, BridgePc.running]
  setup := trivial

theorem uses_of_session {bridge : Bridge} {index c : Nat}
    (h : bridge.sessionTable.sessions[index]? = some { connection := some c }) :
    0 < bridge.uses c :=
  List.countP_pos_iff.mpr ⟨_, List.mem_of_getElem? h, by simp [Session.refersTo]⟩

theorem BridgePc.not_running {pc : BridgePc} {P : Prop} (hpc : pc.running = false)
    (h : pc.running = true) : P := by
  rw [hpc] at h
  cases h

namespace SignalledInv

variable {s t : SignalledBridge} {c : Nat}

theorem held (h : SignalledInv s) {index : Nat}
    (hs : s.bridge.sessionTable.sessions[index]? = some { connection := some c })
    (he : s.pc.erased ≠ some c) :
    c < s.nextConnection ∧ s.holdings.disconnects c = 0 ∧ s.bridge.uses c = 1 ∧
      s.holdings.object c = .intact := by
  have huses := uses_of_session hs
  have hlt : c < s.nextConnection := by
    by_contra hge
    have hzero := (h.fresh c (Nat.not_lt.mp hge)).1
    omega
  have hcount := h.counts c hlt
  rw [if_neg he] at hcount
  have hzero : s.holdings.disconnects c = 0 := by omega
  exact ⟨hlt, hzero, by omega, h.intact c hzero⟩

/-- An access that leaves the table and the holdings alone. -/
theorem stay (h : SignalledInv s) {memory : Memory} {count : Nat} {pc : BridgePc}
    (hinserting : pc.inserting = s.pc.inserting) (herased : pc.erased = s.pc.erased)
    (hmemory : ∀ c, (memory.segment c).removed = (s.memory.segment c).removed)
    (hsession : ∀ fd c, pc.session = some (fd, c) →
      s.bridge.sessionTable.sessions[sizeT (fd : CInt)]? = some { connection := some c })
    (hrunning : pc.running = true → s.bridge.isInitialized = true)
    (hsetup : SignalledBridge.SetUpSoFar { s with
      memory, bridge := { s.bridge with connectionCount := count }, pc }) :
    SignalledInv { s with
      memory, bridge := { s.bridge with connectionCount := count }, pc } where
  counts := by
    intro c hc
    show s.holdings.disconnects c + s.bridge.uses c + (if pc.inserting = some c then 1 else 0) =
      1 + if pc.erased = some c then 1 else 0
    rw [hinserting, herased]
    exact h.counts c hc
  fresh := by
    intro c hc
    rw [hinserting]
    exact h.fresh c hc
  erased := fun c hc => h.erased c (herased.symm.trans hc)
  session := hsession
  intact := h.intact
  entered := h.entered
  kept := fun c hc hd => (hmemory c).trans (h.kept c hc hd)
  ready := h.ready
  empty := h.empty
  running := hrunning
  setup := hsetup

theorem setUp (h : SignalledInv s) {pc : SetupPc} {operation : BridgeOperation}
    (hpc : s.pc = .setup pc operation) {installed : TerminatingSignal → Bool} {registered : Bool}
    {bridge : Bridge} {pc' : BridgePc} (hinserting : pc'.inserting = s.pc.inserting)
    (herased : pc'.erased = none) (hsession : pc'.session = none)
    (huses : ∀ c, bridge.uses c = s.bridge.uses c)
    (hready : bridge.isInitialized = true → registered = true ∧ ∀ signal, installed signal = true)
    (hempty : bridge.isInitialized = false → s.bridge.isInitialized = false)
    (hrunning : pc'.running = true → bridge.isInitialized = true)
    (hsetup : SignalledBridge.SetUpSoFar { s with installed, registered, bridge, pc := pc' }) :
    SignalledInv { s with installed, registered, bridge, pc := pc' } where
  counts := by
    intro c hc
    show s.holdings.disconnects c + bridge.uses c + (if pc'.inserting = some c then 1 else 0) =
      1 + if pc'.erased = some c then 1 else 0
    have hcount := h.counts c hc
    rw [hpc] at hcount
    rw [hinserting, herased, huses, hpc]
    exact hcount
  fresh := by
    intro c hc
    rw [hinserting, huses]
    exact h.fresh c hc
  erased := by
    intro c hc
    rw [herased] at hc
    cases hc
  session := by
    intro fd c hc
    rw [hsession] at hc
    cases hc
  intact := h.intact
  entered := h.entered
  kept := h.kept
  ready := hready
  empty := by
    intro hi c
    rw [huses]
    exact h.empty (hempty hi) c
  running := hrunning
  setup := hsetup

theorem begin_inserting (operation : BridgeOperation) (pc : SetupPc) :
    operation.begin.inserting = (BridgePc.setup pc operation).inserting := by
  cases operation <;> rfl

theorem begin_erased (operation : BridgeOperation) : operation.begin.erased = none := by
  cases operation <;> rfl

theorem begin_session (operation : BridgeOperation) : operation.begin.session = none := by
  cases operation <;> rfl

theorem setUpSoFar_running (h : s.pc.running = true) : s.SetUpSoFar := by
  unfold SignalledBridge.SetUpSoFar
  split <;> first | trivial | (rename_i hpc; rw [hpc] at h; cases h)

theorem begin_running (operation : BridgeOperation) : operation.begin.running = true := by
  cases operation <;> rfl

theorem bridgeSetupStep (h : SignalledInv s) {pc : SetupPc} {operation : BridgeOperation}
    (hpc : s.pc = .setup pc operation) (hs : bridgeSetupStep s operation pc = some t) :
    SignalledInv t := by
  have hsetup := h.setup
  simp only [SignalledBridge.SetUpSoFar, hpc] at hsetup
  have hins : ∀ pc' : SetupPc, (BridgePc.setup pc' operation).inserting = s.pc.inserting :=
    fun pc' => by rw [hpc]; cases operation <;> rfl
  cases pc with
  | table =>
    obtain ⟨table, htable, rfl⟩ := Option.map_eq_some_iff.mp hs
    unfold sessionTableSetup at htable
    split at htable
    · cases htable
    · rename_i hnone
      obtain rfl := Option.some.inj htable
      have huses : ∀ c, s.bridge.uses c = 0 := by
        intro c
        rw [Bridge.uses, Parties.countP_eq_zero_iff]
        intro session hsession
        rw [Bool.not_eq_true, List.any_eq_false] at hnone
        have hempty := hnone session hsession
        cases hr : session.connection with
        | none => simp [Session.refersTo, hr]
        | some ref => simp [sessionHasConnection, hr] at hempty
      refine h.setUp hpc (hins .sigint) rfl rfl ?_ h.ready id
        (BridgePc.not_running rfl) trivial
      intro c
      rw [huses]
      exact uses_initial c
  | sigint =>
    obtain rfl := Option.some.inj hs
    refine h.setUp hpc (hins .sigterm) rfl rfl (fun _ => rfl) ?_ id
      (BridgePc.not_running rfl) ?_
    · intro hi
      obtain ⟨hregistered, hall⟩ := h.ready hi
      refine ⟨hregistered, ?_⟩
      intro signal
      cases signal with
      | sigint => exact Function.update_self ..
      | sigterm => exact hall .sigterm
    · show Function.update s.installed .sigint true .sigint = true
      exact Function.update_self ..
  | sigterm =>
    obtain rfl := Option.some.inj hs
    have hall : ∀ signal, Function.update s.installed .sigterm true signal = true := by
      intro signal
      cases signal with
      | sigint => exact hsetup
      | sigterm => exact Function.update_self ..
    exact h.setUp hpc (hins .sigabrt) rfl rfl (fun _ => rfl)
      (fun hi => ⟨(h.ready hi).1, hall⟩) id (BridgePc.not_running rfl) hall
  | sigabrt =>
    obtain rfl := Option.some.inj hs
    exact h.setUp hpc (hins .atexit) rfl rfl (fun _ => rfl) h.ready id
      (BridgePc.not_running rfl) hsetup
  | atexit =>
    obtain rfl := Option.some.inj hs
    exact h.setUp hpc (hins .initialized) rfl rfl (fun _ => rfl) (fun _ => ⟨rfl, hsetup⟩) id
      (BridgePc.not_running rfl) ⟨rfl, hsetup⟩
  | initialized =>
    obtain rfl := Option.some.inj hs
    exact h.setUp hpc (hins .count) rfl rfl (fun _ => rfl) (fun _ => hsetup)
      (fun hi => Bool.noConfusion hi) (BridgePc.not_running rfl) rfl
  | count =>
    obtain rfl := Option.some.inj hs
    refine h.setUp hpc ?_ (begin_erased operation) (begin_session operation) (fun _ => rfl) h.ready
      id (fun _ => hsetup) (setUpSoFar_running (begin_running operation))
    rw [hpc]
    exact begin_inserting operation .count

theorem assign (h : SignalledInv s) {fd : CInt} {table : SessionTable} (hpc : s.pc = .assign fd c)
    (htable : sessionTableAssign s.bridge.sessionTable (sizeT fd) { connection := some c } =
      some table) :
    SignalledInv { s with bridge := { s.bridge with sessionTable := table }, pc := .countUp } := by
  have hinit := h.running (by rw [hpc]; rfl)
  unfold sessionTableAssign at htable
  split at htable
  · rename_i hfree
    obtain rfl := Option.some.inj htable
    have huses : ∀ d, (s.bridge.sessionTable.sessions.set (sizeT fd)
        { connection := some c }).countP (Session.refersTo d) =
          s.bridge.uses d + if s.pc.inserting = some d then 1 else 0 := by
      intro d
      have hset := @Parties.countP_set _ _ _ _ { connection := some c } (Session.refersTo d) hfree
      rw [hpc]
      simpa [Bridge.uses, Session.refersTo, BridgePc.inserting] using hset
    have herased : s.pc.erased = none := by rw [hpc]; rfl
    refine { h with
      counts := ?_, fresh := ?_, erased := by simp [BridgePc.erased]
      session := by simp [BridgePc.session], running := fun _ => hinit, empty := ?_
      setup := trivial }
    · intro d hd
      have hcount := h.counts d hd
      rw [herased] at hcount
      show s.holdings.disconnects d + (s.bridge.sessionTable.sessions.set _ _).countP _ + 0 = 1 + 0
      rw [huses d]
      simpa [Nat.add_assoc] using hcount
    · intro d hd
      obtain ⟨hzero, hdisconnects, hinserting⟩ := h.fresh d hd
      refine ⟨?_, hdisconnects, (Option.some_ne_none d).symm⟩
      show (s.bridge.sessionTable.sessions.set _ _).countP _ = 0
      rw [huses d, hzero, if_neg hinserting]
    · intro hi
      rw [show s.bridge.isInitialized = false from hi] at hinit
      cases hinit
  · cases htable

theorem subtract (h : SignalledInv s) {fd : CInt} (hpc : s.pc = .subtract fd c) :
    SignalledInv { s with
      memory := s.memory.set c (s.memory.segment c).fetchSub
      holdings := s.holdings.decrement c
      pc := .load fd c } := by
  have hsession := h.session fd c (by rw [hpc]; rfl)
  have herased : s.pc.erased = none := by rw [hpc]; rfl
  obtain ⟨hlt, hzero, huses, -⟩ := h.held hsession
    (by rw [herased]; exact (Option.some_ne_none c).symm)
  have hother : ∀ d, d ≠ c → (s.holdings.decrement c).disconnects d = s.holdings.disconnects d :=
    fun d hd => Function.update_of_ne hd _ _
  have hself : (s.holdings.decrement c).disconnects c = 1 := by
    simp [Holdings.decrement, hzero]
  refine { h with
    counts := ?_, fresh := ?_, erased := ?_, session := ?_, intact := ?_, kept := ?_
    running := fun _ => h.running (by rw [hpc]; rfl), setup := trivial }
  · intro d hd
    have hcount := h.counts d hd
    rw [hpc] at hcount
    by_cases hdc : d = c
    · subst hdc
      show (s.holdings.decrement d).disconnects d + s.bridge.uses d + 0 =
        1 + if some d = some d then 1 else 0
      rw [hself, huses, if_pos rfl]
    · show (s.holdings.decrement c).disconnects d + s.bridge.uses d + 0 =
        1 + if some c = some d then 1 else 0
      rw [hother d hdc, if_neg (by simpa using Ne.symm hdc)]
      exact hcount
  · intro d hd
    obtain ⟨huses, hdisconnects, -⟩ := h.fresh d hd
    have hdc : d ≠ c := Nat.ne_of_gt (Nat.lt_of_lt_of_le hlt hd)
    exact ⟨huses, (hother d hdc).trans hdisconnects, (Option.some_ne_none d).symm⟩
  · intro d hd
    obtain rfl := Option.some.inj hd
    exact hself
  · intro fd' d hd
    obtain ⟨rfl, rfl⟩ := Prod.mk.inj (Option.some.inj hd)
    exact hsession
  · intro d hd
    by_cases hdc : d = c
    · rw [hdc, hself] at hd
      cases hd
    · exact h.intact d ((hother d hdc).symm.trans hd)
  · intro d hd hzero
    by_cases hdc : d = c
    · rw [hdc, hself] at hzero
      cases hzero
    · rw [Memory.set_segment, Function.update_of_ne hdc]
      exact h.kept d hd ((hother d hdc).symm.trans hzero)

/-- What is done to the connection of a session that is erased, after the decrement. -/
theorem erasing (h : SignalledInv s) {fd : CInt} (hsession : s.pc.session = some (fd, c))
    (herased : s.pc.erased = some c) {memory : Memory} {object : ObjectState} {pc : BridgePc}
    (hmemory : ∀ d ≠ c, (memory.segment d).removed = (s.memory.segment d).removed)
    (hpc : pc.session = some (fd, c)) (hpc' : pc.erased = some c) (hinserting : pc.inserting = none)
    (hrunning : pc.running = true) :
    SignalledInv { s with memory, holdings := s.holdings.setObject c object, pc } := by
  have hone := h.erased c herased
  have hrun : s.bridge.isInitialized = true := by
    refine h.running ?_
    cases hp : s.pc <;> rw [hp] at herased <;> first | rfl | cases herased
  have hins : s.pc.inserting = none := by
    cases hp : s.pc <;> rw [hp] at herased <;> first | rfl | cases herased
  refine { h with
    counts := ?_, fresh := ?_, erased := ?_, session := ?_, intact := ?_, kept := ?_
    running := fun _ => hrun, setup := setUpSoFar_running hrunning }
  · intro d hd
    have hcount := h.counts d hd
    rw [hins, herased] at hcount
    show s.holdings.disconnects d + s.bridge.uses d + (if pc.inserting = some d then 1 else 0) =
      1 + if pc.erased = some d then 1 else 0
    rw [hinserting, hpc']
    exact hcount
  · intro d hd
    obtain ⟨huses, hdisconnects, -⟩ := h.fresh d hd
    exact ⟨huses, hdisconnects, by rw [hinserting]; exact (Option.some_ne_none d).symm⟩
  · intro d hd
    rw [hpc'] at hd
    obtain rfl := Option.some.inj hd
    exact hone
  · intro fd' d hd
    rw [hpc] at hd
    exact h.session fd' d (hsession.trans hd)
  · intro d hd
    have hdc : d ≠ c := by
      rintro rfl
      rw [show s.holdings.disconnects d = 0 from hd] at hone
      cases hone
    show Function.update s.holdings.object c object d = .intact
    rw [Function.update_of_ne hdc]
    exact h.intact d hd
  · intro d hd hzero
    have hdc : d ≠ c := by
      rintro rfl
      rw [show s.holdings.disconnects d = 0 from hzero] at hone
      cases hone
    exact (hmemory d hdc).trans (h.kept d hd hzero)

theorem clear (h : SignalledInv s) {fd : CInt} (hpc : s.pc = .clear fd c) :
    SignalledInv { s with
      bridge := { s.bridge with sessionTable := s.bridge.sessionTable.set (sizeT fd) {} }
      pc := .idle } := by
  have hsession := h.session fd c (by rw [hpc]; rfl)
  have hinit := h.running (by rw [hpc]; rfl)
  have huses : ∀ d, (s.bridge.sessionTable.sessions.set (sizeT fd) {}).countP
      (Session.refersTo d) + (if s.pc.erased = some d then 1 else 0) = s.bridge.uses d := by
    intro d
    have hset := @Parties.countP_set _ _ _ _ {} (Session.refersTo d) hsession
    rw [hpc]
    simpa [Bridge.uses, Session.refersTo, BridgePc.erased] using hset
  have hins : s.pc.inserting = none := by rw [hpc]; rfl
  refine { h with
    counts := ?_, fresh := ?_, erased := by simp [BridgePc.erased]
    session := by simp [BridgePc.session], empty := ?_, running := by simp [BridgePc.running]
    setup := trivial }
  · intro d hd
    have hcount := h.counts d hd
    have hset := huses d
    rw [hins] at hcount
    show s.holdings.disconnects d + (s.bridge.sessionTable.sessions.set _ {}).countP _ + 0 = 1 + 0
    rw [if_neg (Option.some_ne_none d).symm] at hcount
    omega
  · intro d hd
    obtain ⟨hzero, hdisconnects, -⟩ := h.fresh d hd
    have hset := huses d
    refine ⟨?_, hdisconnects, (Option.some_ne_none d).symm⟩
    show (s.bridge.sessionTable.sessions.set _ {}).countP _ = 0
    omega
  · intro hi
    rw [show s.bridge.isInitialized = false from hi] at hinit
    cases hinit

theorem enter (h : SignalledInv s) (hintact : s.holdings.object c = .intact) :
    SignalledInv { s with holdings := s.holdings.enter c } := by
  refine { h with entered := ?_ }
  intro entry hentry
  rcases List.mem_append.mp hentry with hentry | hentry
  · exact h.entered entry hentry
  · rw [List.mem_singleton.mp hentry]
    exact hintact

theorem set_removed {memory : Memory} {segment : Segment} {d : Nat} (hd : d ≠ c) :
    ((memory.set c segment).segment d).removed = (memory.segment d).removed := by
  rw [Memory.set_segment, Function.update_of_ne hd]

theorem at_none {pc : BridgePc} (hpc : pc.session = none) (fd : CInt) (d : Nat)
    (hd : pc.session = some (fd, d)) :
    s.bridge.sessionTable.sessions[sizeT fd]? = some { connection := some d } := by
  rw [hpc] at hd
  cases hd

theorem at_session {pc : BridgePc} {fd : CInt} (hpc : pc.session = some (fd, c))
    (hs : s.bridge.sessionTable.sessions[sizeT fd]? = some { connection := some c })
    (fd' : CInt) (d : Nat) (hd : pc.session = some (fd', d)) :
    s.bridge.sessionTable.sessions[sizeT fd']? = some { connection := some d } := by
  rw [hpc] at hd
  obtain ⟨rfl, rfl⟩ := Prod.mk.inj (Option.some.inj hd)
  exact hs

theorem leave (h : SignalledInv s) {count : Nat} (hinserting : s.pc.inserting = none)
    (herased : s.pc.erased = none) :
    SignalledInv { s with bridge := { s.bridge with connectionCount := count }, pc := .idle } :=
  h.stay hinserting.symm herased.symm (fun _ => rfl) (at_none rfl) (BridgePc.not_running rfl)
    trivial

theorem lazySetup (h : SignalledInv s) {operation : BridgeOperation}
    (hpc : s.pc = .lazySetup operation) :
    SignalledInv { s with
      pc := if s.bridge.isInitialized then operation.begin else .setup .table operation } := by
  by_cases hinit : s.bridge.isInitialized = true
  · rw [if_pos hinit]
    refine h.stay ?_ ?_ (fun _ => rfl) (at_none (begin_session operation)) (fun _ => hinit)
      (setUpSoFar_running (begin_running operation))
    · rw [hpc]
      cases operation <;> rfl
    · rw [hpc]
      exact begin_erased operation
  · rw [if_neg hinit]
    refine h.stay ?_ ?_ (fun _ => rfl) (at_none rfl) (BridgePc.not_running rfl) trivial
    · rw [hpc]
      cases operation <;> rfl
    · rw [hpc]
      rfl

theorem get (h : SignalledInv s) {fd : CInt} (hpc : s.pc = .get fd)
    (hget : sessionTableGet s.bridge.sessionTable (sizeT fd) = some { connection := some c }) :
    SignalledInv { s with pc := .countDown fd c } := by
  have hinit := h.running (by rw [hpc]; rfl)
  exact h.stay (by rw [hpc]; rfl) (by rw [hpc]; rfl) (fun _ => rfl) (at_session rfl hget)
    (fun _ => hinit) trivial

/-- The connection of the session that `bridge_erase` is at, before the decrement. -/
theorem object_intact (h : SignalledInv s) {fd : CInt} (hsession : s.pc.session = some (fd, c))
    (herased : s.pc.erased = none) : s.holdings.object c = .intact :=
  (h.held (h.session fd c hsession) (by rw [herased]; exact (Option.some_ne_none c).symm)).2.2.2

theorem countDown (h : SignalledInv s) {fd : CInt} (hpc : s.pc = .countDown fd c) :
    SignalledInv { s with
      bridge := { s.bridge with connectionCount := sizeT (s.bridge.connectionCount - 1) }
      holdings := s.holdings.enter c
      pc := .subtract fd c } := by
  have hinit := h.running (by rw [hpc]; rfl)
  have hsession := h.session fd c (by rw [hpc]; rfl)
  have hintact := @object_intact s c h fd (by rw [hpc]; rfl) (by rw [hpc]; rfl)
  have hstay := @stay s h s.memory (sizeT (s.bridge.connectionCount - 1)) (.subtract fd c)
    (by rw [hpc]; rfl) (by rw [hpc]; rfl) (fun _ => rfl) (at_session rfl hsession)
    (fun _ => hinit) trivial
  exact hstay.enter hintact

theorem stayAt (h : SignalledInv s) {fd : CInt} {pc : BridgePc}
    (hsession : s.pc.session = some (fd, c)) (hpc : pc.session = s.pc.session)
    (hinserting : pc.inserting = s.pc.inserting) (herased : pc.erased = s.pc.erased)
    (hrunning : s.pc.running = true) (hrunning' : pc.running = true) :
    SignalledInv { s with pc } :=
  h.stay hinserting herased (fun _ => rfl)
    (at_session (hpc.trans hsession) (h.session fd c hsession)) (fun _ => h.running hrunning)
    (setUpSoFar_running hrunning')

theorem remove (h : SignalledInv s) {fd : CInt} (hpc : s.pc = .remove fd c) (segment : Segment) :
    SignalledInv { s with memory := s.memory.set c segment, pc := .free fd c } := by
  have herasing := @erasing s c h fd (by rw [hpc]; rfl) (by rw [hpc]; rfl)
    (s.memory.set c segment) (s.holdings.object c) (.free fd c)
    (fun d hd => set_removed hd) rfl rfl rfl rfl
  rwa [Holdings.setObject, Function.update_eq_self] at herasing

theorem toUser (h : SignalledInv s) {memory : Memory} {next : Nat}
    (hpc : s.pc = .testCount ∨ ∃ index, s.pc = .addUser index)
    (hmemory : ∀ d, (memory.segment d).removed = (s.memory.segment d).removed) :
    SignalledInv { s with memory, pc := .addUser next } := by
  have hwhere : s.pc.inserting = none ∧ s.pc.erased = none ∧ s.pc.running = true := by
    rcases hpc with hpc | ⟨index, hpc⟩ <;> rw [hpc] <;> exact ⟨rfl, rfl, rfl⟩
  obtain ⟨hinserting, herased, hrunning⟩ := hwhere
  exact h.stay hinserting.symm herased.symm hmemory (at_none rfl) (fun _ => h.running hrunning)
    trivial

theorem removed_addUser (memory : Memory) (d : Nat) :
    ((memory.set c (connectionAddUser (memory.segment c))).segment d).removed =
      (memory.segment d).removed := by
  by_cases hd : d = c
  · subst hd
    simp [connectionAddUser]
  · exact set_removed hd

theorem accessStep (h : SignalledInv s) (hs : accessStep s = some t) : SignalledInv t := by
  unfold Tssx.accessStep at hs
  cases hpc : s.pc with
  | idle =>
    rw [hpc] at hs
    cases hs
  | lazySetup operation =>
    rw [hpc] at hs
    obtain rfl := Option.some.inj hs
    exact h.lazySetup hpc
  | setup pc operation =>
    rw [hpc] at hs
    exact h.bridgeSetupStep hpc hs
  | assign fd c =>
    rw [hpc] at hs
    obtain ⟨table, htable, rfl⟩ := Option.map_eq_some_iff.mp hs
    exact h.assign hpc htable
  | countUp =>
    rw [hpc] at hs
    obtain rfl := Option.some.inj hs
    exact h.leave (by rw [hpc]; rfl) (by rw [hpc]; rfl)
  | get fd =>
    rw [hpc] at hs
    obtain ⟨session, hget, rfl⟩ := Option.map_eq_some_iff.mp hs
    obtain ⟨ref⟩ := session
    cases ref with
    | none => exact h.leave (by rw [hpc]; rfl) (by rw [hpc]; rfl)
    | some c => exact h.get hpc hget
  | countDown fd c =>
    rw [hpc] at hs
    obtain rfl := Option.some.inj hs
    exact h.countDown hpc
  | subtract fd c =>
    rw [hpc] at hs
    dsimp only at hs
    rw [if_pos (@object_intact s c h fd (by rw [hpc]; rfl) (by rw [hpc]; rfl))] at hs
    obtain rfl := Option.some.inj hs
    exact h.subtract hpc
  | load fd c | detach fd c last =>
    rw [hpc] at hs
    obtain rfl := Option.some.inj hs
    refine h.stayAt (by rw [hpc]; rfl) ?_ ?_ ?_ ?_ rfl <;> rw [hpc] <;> rfl
  | invalidate fd c last field =>
    rw [hpc] at hs
    obtain rfl := Option.some.inj hs
    refine h.erasing (by rw [hpc]; rfl) (by rw [hpc]; rfl) (fun _ _ => rfl) ?_ ?_ ?_ ?_ <;>
      cases field <;> cases last <;> rfl
  | remove fd c =>
    rw [hpc] at hs
    obtain ⟨segment, -, rfl⟩ := Option.map_eq_some_iff.mp hs
    exact h.remove hpc segment
  | free fd c =>
    rw [hpc] at hs
    obtain rfl := Option.some.inj hs
    exact h.erasing (by rw [hpc]; rfl) (by rw [hpc]; rfl) (fun _ _ => rfl) rfl rfl rfl rfl
  | clear fd c =>
    rw [hpc] at hs
    obtain rfl := Option.some.inj hs
    exact h.clear hpc
  | testCount =>
    rw [hpc] at hs
    obtain rfl := Option.some.inj hs
    by_cases hcount : s.bridge.connectionCount = 0
    · rw [if_pos hcount]
      exact h.leave (by rw [hpc]; rfl) (by rw [hpc]; rfl)
    · rw [if_neg hcount]
      exact h.toUser (.inl hpc) fun _ => rfl
  | addUser index =>
    rw [hpc] at hs
    dsimp only at hs
    split at hs
    · obtain rfl := Option.some.inj hs
      exact h.leave (by rw [hpc]; rfl) (by rw [hpc]; rfl)
    · split at hs
      · obtain rfl := Option.some.inj hs
        exact h.toUser (.inr ⟨index, hpc⟩) fun _ => rfl
      · obtain rfl := Option.some.inj hs
        exact h.toUser (.inr ⟨index, hpc⟩) (removed_addUser s.memory)

/-- A new connection, which `bridge_insert` is going to put into the table. -/
theorem insert (h : SignalledInv s) (hpc : s.pc = .idle) (fd : CInt) :
    SignalledInv { s with
      pc := .lazySetup (.insert fd s.nextConnection)
      memory := s.memory.set s.nextConnection (setupConnection createConnection)
      nextConnection := s.nextConnection + 1 } := by
  have hins : s.pc.inserting = none := by rw [hpc]; rfl
  have herased : s.pc.erased = none := by rw [hpc]; rfl
  refine { h with
    counts := ?_, fresh := ?_, erased := by simp [BridgePc.erased]
    session := by simp [BridgePc.session], kept := ?_, running := by simp [BridgePc.running]
    setup := trivial }
  · intro d hd
    show s.holdings.disconnects d + s.bridge.uses d +
      (if some s.nextConnection = some d then 1 else 0) = 1 + 0
    by_cases hnext : d = s.nextConnection
    · obtain ⟨huses, hdisconnects, -⟩ := h.fresh d (Nat.le_of_eq hnext.symm)
      rw [huses, hdisconnects, hnext, if_pos rfl]
    · have hcount := h.counts d (Nat.lt_of_le_of_ne (Nat.le_of_lt_succ hd) hnext)
      rw [hins, herased] at hcount
      rw [if_neg (by simpa using Ne.symm hnext)]
      simpa using hcount
  · intro d hd
    obtain ⟨huses, hdisconnects, -⟩ := h.fresh d (Nat.le_of_succ_le hd)
    refine ⟨huses, hdisconnects, ?_⟩
    show some s.nextConnection ≠ some d
    simpa using Nat.ne_of_lt hd
  · intro d hd hzero
    by_cases hnext : d = s.nextConnection
    · subst hnext
      simp [setupConnection, createConnection]
    · exact (set_removed hnext).trans
        (h.kept d (Nat.lt_of_le_of_ne (Nat.le_of_lt_succ hd) hnext) hzero)

theorem begin {operation : BridgeOperation} (h : SignalledInv s)
    (hnew : (BridgePc.lazySetup operation).inserting = none)
    (hs : s.begin operation = some t) : SignalledInv t := by
  unfold SignalledBridge.begin at hs
  split at hs
  · rename_i hpc
    obtain rfl := Option.some.inj hs
    exact h.stay (by rw [hnew, hpc]; rfl) (by rw [hpc]; rfl) (fun _ => rfl) (at_none rfl)
      (BridgePc.not_running rfl) trivial
  · cases hs

/-- Other processes do not remove a segment in which this process is counted. -/
theorem others (h : SignalledInv s) {segment : Segment}
    (hcounted : (s.counted c && segment.removed) = false) :
    SignalledInv { s with memory := s.memory.set c segment } := by
  refine { h with kept := ?_ }
  intro d hd hzero
  by_cases hdc : d = c
  · subst hdc
    have hself : s.counted d = true := by
      rw [SignalledBridge.counted, Bool.and_eq_true, decide_eq_true_eq, beq_iff_eq]
      exact ⟨hd, hzero⟩
    rw [hself, Bool.true_and] at hcounted
    rw [Memory.set_segment, Function.update_self]
    exact hcounted
  · exact (set_removed hdc).trans (h.kept d hd hzero)

theorem step (h : SignalledInv s) {action : SignalledAction}
    (hs : signalledStep s action = some t) : SignalledInv t := by
  cases action with
  | insert fd =>
    obtain ⟨u, hu, rfl⟩ := Option.map_eq_some_iff.mp hs
    unfold SignalledBridge.begin at hu
    split at hu
    · rename_i hpc
      obtain rfl := Option.some.inj hu
      exact h.insert hpc fd
    · cases hu
  | erase fd => exact h.begin rfl hs
  | addUser => exact h.begin rfl hs
  | access => exact h.accessStep hs
  | others c segment =>
    simp only [signalledStep] at hs
    split at hs
    · cases hs
    · rename_i hcounted
      obtain rfl := Option.some.inj hs
      exact h.others (Bool.eq_false_iff.mpr hcounted)

end SignalledInv

theorem signalledInv_reaches {s : SignalledBridge} (h : Run.Reaches signalledStep .init s) :
    SignalledInv s :=
  h.induct (fun _ _ _ hs hstep => hs.step hstep) signalledInv_init

end Tssx
