import Mathlib.Logic.Function.Basic
import Tssx.Connection
import Tssx.Lib.Parties

/-!
# The bridge

`session.c`, `session-table.c` and `bridge.c`: the table that maps the descriptors of a
process to their connections.  The functions take the memory of the connections and the
bridge of the process and return both.  A failed assertion, and a `throw`, is `none`.

`uses` counts the descriptors of a table that refer to a connection.  Each operation has a
lemma that says what it does to `uses` and to `open_count` together, which is all that the
processes of a connection need to know of each other.
-/

namespace Tssx

/-- The segments of all connections, and the `free(connection)` calls made.  A connection is
named by the number of its segment: the `Connection` objects of the processes that share a
segment have the same name. -/
structure Memory where
  segment : Nat → Segment
  freed : List Nat := []

def Memory.set (memory : Memory) (connection : Nat) (segment : Segment) : Memory :=
  { memory with segment := Function.update memory.segment connection segment }

structure Session where
  connection : Option Nat := none
  deriving DecidableEq

def SESSION_TABLE_SIZE : Nat := 1024

structure SessionTable where
  sessions : List Session
  size : sessions.length = SESSION_TABLE_SIZE
  deriving DecidableEq

structure Bridge where
  isInitialized : Bool
  connectionCount : Nat
  sessionTable : SessionTable
  deriving DecidableEq

/-! ### Sessions -/

def sessionHasConnection (session : Session) : Bool := session.connection.isSome

def sessionInvalidate (memory : Memory) (session : Session) : Option (Memory × Session) :=
  match session.connection with
  | none => some (memory, session)
  | some connection =>
    (disconnect (memory.segment connection)).map fun segment =>
      ({ memory.set connection segment with freed := memory.freed ++ [connection] }, {})

def SessionTable.set (table : SessionTable) (index : Nat) (session : Session) : SessionTable where
  sessions := table.sessions.set index session
  size := by rw [List.length_set, table.size]

@[simp] theorem SessionTable.set_sessions (table : SessionTable) (index : Nat)
    (session : Session) : (table.set index session).sessions = table.sessions.set index session :=
  rfl

/-- The zero-initialised array. -/
def SessionTable.empty : SessionTable where
  sessions := List.replicate SESSION_TABLE_SIZE {}
  size := List.length_replicate

/-- `session_table_setup` asserts that no session has a connection. -/
def sessionTableSetup (table : SessionTable) : Option SessionTable :=
  if table.sessions.any sessionHasConnection then none else some .empty

def sessionTableGet (table : SessionTable) (index : Nat) : Option Session := table.sessions[index]?

def sessionTableAssign (table : SessionTable) (index : Nat) (session : Session) :
    Option SessionTable :=
  if table.sessions[index]? = some {} then some (table.set index session) else none

/-- The loop of `session_table_destroy`. -/
def sessionsDestroy (memory : Memory) : List Session → Option (Memory × List Session)
  | [] => some (memory, [])
  | session :: sessions =>
    (sessionInvalidate memory session).bind fun (memory, session) =>
      (sessionsDestroy memory sessions).map fun (memory, sessions) =>
        (memory, session :: sessions)

/-! ### The bridge -/

/-- `BRIDGE_INITIALIZER`. -/
def Bridge.initial : Bridge :=
  { isInitialized := false, connectionCount := 0, sessionTable := .empty }

def bridgeSetup (bridge : Bridge) : Option Bridge :=
  if bridge.isInitialized then none
  else (sessionTableSetup bridge.sessionTable).map fun sessionTable =>
    { isInitialized := true, connectionCount := 0, sessionTable }

def lazyBridgeSetup (bridge : Bridge) : Option Bridge :=
  if bridge.isInitialized then some bridge else bridgeSetup bridge

/-- The loop of `bridge_add_user`. -/
def sessionsAddUser (memory : Memory) : List Session → Memory
  | [] => memory
  | session :: sessions =>
    match session.connection with
    | none => sessionsAddUser memory sessions
    | some connection =>
      sessionsAddUser (memory.set connection (connectionAddUser (memory.segment connection)))
        sessions

def bridgeAddUser (memory : Memory) (bridge : Bridge) : Option (Memory × Bridge) :=
  (lazyBridgeSetup bridge).map fun bridge =>
    if bridge.connectionCount = 0 then (memory, bridge)
    else (sessionsAddUser memory bridge.sessionTable.sessions, bridge)

def bridgeInsert (bridge : Bridge) (fd : Int) (session : Session) : Option Bridge :=
  (lazyBridgeSetup bridge).bind fun bridge =>
    (sessionTableAssign bridge.sessionTable (sizeT fd) session).map fun sessionTable =>
      { bridge with
        sessionTable
        connectionCount :=
          if sessionHasConnection session then sizeT (bridge.connectionCount + 1)
          else bridge.connectionCount }

def bridgeErase (memory : Memory) (bridge : Bridge) (fd : Int) : Option (Memory × Bridge) :=
  (lazyBridgeSetup bridge).bind fun bridge =>
    (sessionTableGet bridge.sessionTable (sizeT fd)).bind fun session =>
      (sessionInvalidate memory session).map fun (memory, session') =>
        (memory, { bridge with
          sessionTable := bridge.sessionTable.set (sizeT fd) session'
          connectionCount :=
            if sessionHasConnection session then sizeT (bridge.connectionCount - 1)
            else bridge.connectionCount })

def bridgeLookup (bridge : Bridge) (fd : Int) : Option (Bridge × Session) :=
  (lazyBridgeSetup bridge).bind fun bridge =>
    (sessionTableGet bridge.sessionTable (sizeT fd)).map fun session => (bridge, session)

def bridgeHasConnection (bridge : Bridge) (fd : Int) : Option (Bridge × Bool) :=
  (bridgeLookup bridge fd).map fun (bridge, session) => (bridge, sessionHasConnection session)

/-- `bridge_destroy` asserts an initialised bridge; only the sessions change. -/
def bridgeDestroy (memory : Memory) (bridge : Bridge) : Option Memory :=
  if bridge.isInitialized then
    (sessionsDestroy memory bridge.sessionTable.sessions).map Prod.fst
  else none

/-! ### The uses of a connection -/

def Session.refersTo (connection : Nat) (session : Session) : Bool :=
  session.connection = some connection

/-- The descriptors of a bridge that refer to a connection. -/
def Bridge.uses (bridge : Bridge) (connection : Nat) : Nat :=
  bridge.sessionTable.sessions.countP (Session.refersTo connection)

/-- What every operation keeps: the counter is the number of sessions with a connection, and
there are none before the set-up. -/
structure BridgeInv (bridge : Bridge) : Prop where
  count : bridge.connectionCount =
    bridge.sessionTable.sessions.countP sessionHasConnection
  initial : bridge.isInitialized = false → bridge.sessionTable = .empty

/-- No session before the set-up. -/
def Bridge.SetUp (bridge : Bridge) : Prop :=
  bridge.isInitialized = false → bridge.sessionTable = .empty

/-- The bridge after `_lazy_bridge_setup`. -/
def Bridge.ready (bridge : Bridge) : Bridge :=
  if bridge.isInitialized then bridge
  else { isInitialized := true, connectionCount := 0, sessionTable := .empty }

theorem bridgeInv_initial : BridgeInv .initial where
  count := by simp [Bridge.initial, SessionTable.empty, List.countP_replicate,
    sessionHasConnection]
  initial := fun _ => rfl

@[simp] theorem uses_initial (connection : Nat) : Bridge.initial.uses connection = 0 := by
  simp [Bridge.uses, Bridge.initial, SessionTable.empty, List.countP_replicate,
    Session.refersTo]

@[simp] theorem Memory.set_segment (memory : Memory) (connection : Nat)
    (segment : Segment) :
    (memory.set connection segment).segment = Function.update memory.segment connection segment :=
  rfl

theorem Memory.set_set (memory : Memory) (connection : Nat) (segment segment' : Segment) :
    (memory.set connection segment).set connection segment' = memory.set connection segment' := by
  simp only [Memory.set, Function.update_idem]

theorem SessionTable.set_self {table : SessionTable} {index : Nat} {session : Session}
    (h : table.sessions[index]? = some session) : table.set index session = table := by
  obtain ⟨hlt, rfl⟩ := List.getElem?_eq_some_iff.mp h
  cases table
  simp only [SessionTable.set, List.set_getElem_self]

theorem SessionTable.count_le (table : SessionTable) (p : Session → Bool) :
    table.sessions.countP p ≤ 1024 :=
  Nat.le_trans List.countP_le_length (Nat.le_of_eq table.size)

section Operations

variable {memory memory' : Memory} {bridge bridge' : Bridge} {session session' : Session}
  {fd : Int} {connection : Nat}

theorem empty_no_connection : SessionTable.empty.sessions.any sessionHasConnection = false := by
  simp [SessionTable.empty, sessionHasConnection]

theorem Bridge.SetUp.of_ready (h : bridge.isInitialized = true) : bridge.SetUp :=
  fun hn => Bool.noConfusion (h.symm.trans hn)

theorem ready_initialized (bridge : Bridge) : bridge.ready.isInitialized = true := by
  unfold Bridge.ready
  split
  · assumption
  · rfl

theorem ready_table (hs : bridge.SetUp) : bridge.ready.sessionTable = bridge.sessionTable := by
  unfold Bridge.ready
  split
  · rfl
  · exact (hs (Bool.not_eq_true _ |>.mp ‹_›)).symm

theorem lazyBridgeSetup_eq_ready (hs : bridge.SetUp) :
    lazyBridgeSetup bridge = some bridge.ready := by
  unfold lazyBridgeSetup Bridge.ready
  cases hi : bridge.isInitialized with
  | true => rfl
  | false => simp [bridgeSetup, hi, sessionTableSetup, hs hi, empty_no_connection]

theorem lazyBridgeSetup_initialized
    (h : lazyBridgeSetup bridge = some bridge') : bridge'.isInitialized = true := by
  unfold lazyBridgeSetup at h
  split at h
  · obtain rfl := Option.some.inj h
    assumption
  · unfold bridgeSetup at h
    split at h
    · cases h
    · obtain ⟨_, -, rfl⟩ := Option.map_eq_some_iff.mp h
      rfl

theorem BridgeInv.ready (hb : BridgeInv bridge) : BridgeInv bridge.ready := by
  unfold Bridge.ready
  split
  · exact hb
  · exact ⟨bridgeInv_initial.count, fun h => (by cases h)⟩

theorem lazyBridgeSetup_spec (hb : BridgeInv bridge) (h : lazyBridgeSetup bridge = some bridge') :
    BridgeInv bridge' ∧ bridge'.isInitialized = true ∧
      bridge'.sessionTable = bridge.sessionTable := by
  obtain rfl := Option.some.inj ((lazyBridgeSetup_eq_ready hb.initial).symm.trans h)
  exact ⟨hb.ready, ready_initialized bridge, ready_table hb.initial⟩

theorem disconnect_openCount {segment segment' : Segment} (h : disconnect segment = some segment') :
    segment'.openCount = segment.openCount - 1 := by
  unfold disconnect at h
  dsimp only at h
  split at h
  · simp only [destroyConnection, destroySegment] at h
    split at h
    · cases h
    · obtain rfl := Option.some.inj h
      rfl
  · obtain rfl := Option.some.inj h
    rfl

theorem sessionInvalidate_spec (h : sessionInvalidate memory session = some (memory', session')) :
    session' = {} ∧ (memory'.segment connection).openCount +
      (if session.refersTo connection then 1 else 0) = (memory.segment connection).openCount := by
  obtain ⟨ref⟩ := session
  cases ref with
  | none =>
    obtain ⟨rfl, rfl⟩ := Prod.mk.inj (Option.some.inj h)
    exact ⟨rfl, by simp [Session.refersTo]⟩
  | some ref =>
    obtain ⟨segment, hd, he⟩ := Option.map_eq_some_iff.mp h
    obtain ⟨rfl, rfl⟩ := Prod.mk.inj he
    refine ⟨rfl, ?_⟩
    have hcount := disconnect_openCount hd
    by_cases hc : connection = ref
    · subst hc
      simp [Session.refersTo, hcount]
    · simp [Session.refersTo, Function.update_of_ne hc, Ne.symm hc]

theorem sessionsDestroy_spec {sessions sessions' : List Session}
    (h : sessionsDestroy memory sessions = some (memory', sessions')) :
    (memory'.segment connection).openCount + sessions.countP (Session.refersTo connection) =
      (memory.segment connection).openCount := by
  induction sessions generalizing memory memory' sessions' with
  | nil =>
    obtain ⟨rfl, rfl⟩ := Prod.mk.inj (Option.some.inj h)
    exact Int.add_zero _
  | cons session sessions ih =>
    obtain ⟨⟨middle, session'⟩, hone, h⟩ := Option.bind_eq_some_iff.mp h
    obtain ⟨⟨last, rest⟩, hrest, he⟩ := Option.map_eq_some_iff.mp h
    obtain ⟨rfl, rfl⟩ := Prod.mk.inj he
    have h1 := (@sessionInvalidate_spec _ _ _ _ connection hone).2
    have h2 := ih hrest
    rw [List.countP_cons]
    cases hr : session.refersTo connection with
    | true =>
      rw [hr, if_pos rfl] at h1
      rw [if_pos rfl]
      omega
    | false =>
      rw [hr, if_neg Bool.false_ne_true] at h1
      rw [if_neg Bool.false_ne_true]
      omega

theorem sessionsAddUser_spec (memory : Memory) (sessions : List Session)
    (connection : Nat) :
    ((sessionsAddUser memory sessions).segment connection).openCount =
      (memory.segment connection).openCount +
        sessions.countP (Session.refersTo connection) := by
  induction sessions generalizing memory with
  | nil => exact (Int.add_zero _).symm
  | cons session sessions ih =>
    obtain ⟨ref⟩ := session
    cases ref with
    | none =>
      rw [sessionsAddUser, ih, List.countP_cons]
      simp [Session.refersTo]
    | some ref =>
      rw [sessionsAddUser, ih, List.countP_cons]
      by_cases hc : connection = ref
      · subst hc
        simp only [Memory.set_segment, Function.update_self, connectionAddUser,
          Session.refersTo, decide_true, if_true]
        omega
      · simp [Session.refersTo, Function.update_of_ne hc, Ne.symm hc]

theorem uses_of_none (h : bridge.sessionTable.sessions.countP sessionHasConnection = 0) :
    bridge.uses connection = 0 := by
  rw [Bridge.uses, Parties.countP_eq_zero_iff]
  intro session hs
  have hnone := Parties.countP_eq_zero_iff.mp h session hs
  rw [sessionHasConnection, Option.isSome_eq_false_iff, Option.isNone_iff_eq_none] at hnone
  simp [Session.refersTo, hnone]

theorem BridgeInv.no_uses (hb : BridgeInv bridge) (h0 : bridge.connectionCount = 0) :
    bridge.uses connection = 0 := uses_of_none (hb.count.symm.trans h0)

theorem uses_ready (hs : bridge.SetUp) : bridge.ready.uses connection = bridge.uses connection := by
  rw [Bridge.uses, ready_table hs, Bridge.uses]

variable (connection) in
/-- **`bridge_add_user` counts every use again**, if the counter is right about there being any. -/
theorem bridgeAddUser_uses (hs : bridge.SetUp)
    (h0 : bridge.ready.connectionCount = 0 → bridge.uses connection = 0)
    (h : bridgeAddUser memory bridge = some (memory', bridge')) :
    bridge' = bridge.ready ∧ (memory'.segment connection).openCount =
      (memory.segment connection).openCount + bridge.uses connection := by
  rw [bridgeAddUser, lazyBridgeSetup_eq_ready hs, Option.map_some, Option.some.injEq] at h
  split at h
  · obtain ⟨rfl, rfl⟩ := Prod.mk.inj h
    rw [h0 ‹_›]
    exact ⟨rfl, (Int.add_zero _).symm⟩
  · obtain ⟨rfl, rfl⟩ := Prod.mk.inj h
    rw [sessionsAddUser_spec, ready_table hs, Bridge.uses]
    exact ⟨rfl, rfl⟩

theorem bridgeAddUser_spec (hb : BridgeInv bridge)
    (h : bridgeAddUser memory bridge = some (memory', bridge')) :
    BridgeInv bridge' ∧ bridge'.sessionTable = bridge.sessionTable ∧
      (memory'.segment connection).openCount =
        (memory.segment connection).openCount + bridge.uses connection := by
  obtain ⟨rfl, hopen⟩ := bridgeAddUser_uses connection hb.initial
    (fun h0 => uses_ready hb.initial ▸ hb.ready.no_uses h0) h
  exact ⟨hb.ready, ready_table hb.initial, hopen⟩

theorem bridgeInsert_eq (hs : bridge.SetUp) (h : bridgeInsert bridge fd session = some bridge') :
    bridge.ready.sessionTable.sessions[sizeT fd]? = some {} ∧ bridge' = { bridge.ready with
      sessionTable := bridge.ready.sessionTable.set (sizeT fd) session
      connectionCount :=
        if sessionHasConnection session then sizeT (bridge.ready.connectionCount + 1)
        else bridge.ready.connectionCount } := by
  rw [bridgeInsert, lazyBridgeSetup_eq_ready hs, Option.bind_some] at h
  obtain ⟨table, hassign, rfl⟩ := Option.map_eq_some_iff.mp h
  unfold sessionTableAssign at hassign
  split at hassign
  · obtain rfl := Option.some.inj hassign
    exact ⟨‹_›, rfl⟩
  · cases hassign

theorem bridgeInsert_uses (hs : bridge.SetUp)
    (h : bridgeInsert bridge fd session = some bridge') :
    bridge'.uses connection =
      bridge.uses connection + if session.refersTo connection then 1 else 0 := by
  obtain ⟨hfree, rfl⟩ := bridgeInsert_eq hs h
  have huses := @Parties.countP_set _ _ _ _ session (Session.refersTo connection) hfree
  rw [← uses_ready hs, Bridge.uses, Bridge.uses]
  simpa [Session.refersTo] using huses

theorem countP_insert (hs : bridge.SetUp) (h : bridgeInsert bridge fd session = some bridge') :
    bridge'.sessionTable.sessions.countP sessionHasConnection =
      bridge.ready.sessionTable.sessions.countP sessionHasConnection +
        if sessionHasConnection session then 1 else 0 := by
  obtain ⟨hfree, rfl⟩ := bridgeInsert_eq hs h
  have hcount := @Parties.countP_set _ _ _ _ session sessionHasConnection hfree
  simpa [sessionHasConnection] using hcount

theorem bridgeInsert_spec (hb : BridgeInv bridge)
    (h : bridgeInsert bridge fd session = some bridge') :
    BridgeInv bridge' ∧ bridge'.uses connection =
      bridge.uses connection + if session.refersTo connection then 1 else 0 := by
  refine ⟨?_, bridgeInsert_uses hb.initial h⟩
  have hcount := countP_insert hb.initial h
  obtain ⟨-, rfl⟩ := bridgeInsert_eq hb.initial h
  have hsize := bridge.ready.sessionTable.count_le sessionHasConnection
  refine ⟨?_, Bridge.SetUp.of_ready (ready_initialized bridge)⟩
  rw [hcount, ← hb.ready.count]
  rw [← hb.ready.count] at hsize
  show (if sessionHasConnection session then sizeT (bridge.ready.connectionCount + 1)
    else bridge.ready.connectionCount) = _
  cases hs : sessionHasConnection session with
  | true =>
    rw [if_pos rfl, sizeT_eq (n := bridge.ready.connectionCount + 1) (by omega) (by omega)]
    rfl
  | false => rfl

theorem bridgeErase_eq (hs : bridge.SetUp)
    (h : bridgeErase memory bridge fd = some (memory', bridge')) :
    ∃ session, bridge.ready.sessionTable.sessions[sizeT fd]? = some session ∧
      sessionInvalidate memory session = some (memory', {}) ∧ bridge' = { bridge.ready with
        sessionTable := bridge.ready.sessionTable.set (sizeT fd) {}
        connectionCount :=
          if sessionHasConnection session then sizeT (bridge.ready.connectionCount - 1)
          else bridge.ready.connectionCount } := by
  rw [bridgeErase, lazyBridgeSetup_eq_ready hs, Option.bind_some] at h
  obtain ⟨session, hget, h⟩ := Option.bind_eq_some_iff.mp h
  obtain ⟨⟨memory₁, session'⟩, hinv, he⟩ := Option.map_eq_some_iff.mp h
  obtain ⟨rfl, rfl⟩ := Prod.mk.inj he
  obtain ⟨rfl, -⟩ := @sessionInvalidate_spec _ _ _ _ 0 hinv
  exact ⟨session, hget, hinv, rfl⟩

variable (connection) in
/-- **`bridge_erase` takes the use of the descriptor** from the table and from `open_count`. -/
theorem bridgeErase_uses (hs : bridge.SetUp)
    (h : bridgeErase memory bridge fd = some (memory', bridge')) :
    (memory'.segment connection).openCount + bridge.uses connection =
        (memory.segment connection).openCount + bridge'.uses connection ∧
      bridge'.uses connection ≤ bridge.uses connection := by
  obtain ⟨session, hget, hinv, rfl⟩ := bridgeErase_eq hs h
  obtain ⟨-, hopen⟩ := @sessionInvalidate_spec _ _ _ _ connection hinv
  have huses := @Parties.countP_set _ _ _ _ {} (Session.refersTo connection) hget
  have hnone : Session.refersTo connection {} = false := by simp [Session.refersTo]
  rw [hnone, if_neg Bool.false_ne_true] at huses
  rw [← uses_ready hs, Bridge.uses, Bridge.uses, SessionTable.set_sessions]
  cases hr : session.refersTo connection with
  | true =>
    rw [hr, if_pos rfl] at hopen huses
    omega
  | false =>
    rw [hr, if_neg Bool.false_ne_true] at hopen huses
    omega

theorem countP_erase {index : Nat} {table : SessionTable}
    (hget : table.sessions[index]? = some session) :
    (table.set index {}).sessions.countP sessionHasConnection +
      (if sessionHasConnection session then 1 else 0) =
        table.sessions.countP sessionHasConnection := by
  have hcount := @Parties.countP_set _ _ _ _ {} sessionHasConnection hget
  have hnone : sessionHasConnection {} = false := rfl
  rw [hnone, if_neg Bool.false_ne_true] at hcount
  rw [SessionTable.set_sessions]
  omega

theorem bridgeErase_spec (hb : BridgeInv bridge)
    (h : bridgeErase memory bridge fd = some (memory', bridge')) :
    BridgeInv bridge' ∧
      (memory'.segment connection).openCount + bridge.uses connection =
        (memory.segment connection).openCount + bridge'.uses connection ∧
      bridge'.uses connection ≤ bridge.uses connection := by
  refine ⟨?_, bridgeErase_uses connection hb.initial h⟩
  obtain ⟨session, hget, -, rfl⟩ := bridgeErase_eq hb.initial h
  have hcount := countP_erase hget
  have hsize := bridge.ready.sessionTable.count_le sessionHasConnection
  refine ⟨?_, Bridge.SetUp.of_ready (ready_initialized bridge)⟩
  show (if sessionHasConnection session then sizeT (bridge.ready.connectionCount - 1)
    else bridge.ready.connectionCount) =
      (bridge.ready.sessionTable.set (sizeT fd) {}).sessions.countP _
  rw [← hb.ready.count] at hcount hsize
  cases hs : sessionHasConnection session with
  | true =>
    rw [hs, if_pos rfl] at hcount
    rw [if_pos rfl, sizeT_eq (n := bridge.ready.connectionCount - 1) (by omega) (by omega)]
    omega
  | false =>
    rw [hs] at hcount
    exact hcount.symm

/-- **`bridge_destroy` takes every use** from `open_count`. -/
theorem bridgeDestroy_spec (h : bridgeDestroy memory bridge = some memory') :
    (memory'.segment connection).openCount + bridge.uses connection =
      (memory.segment connection).openCount := by
  unfold bridgeDestroy at h
  split at h
  · obtain ⟨⟨memory₁, sessions⟩, hd, rfl⟩ := Option.map_eq_some_iff.mp h
    exact sessionsDestroy_spec hd
  · cases h

/-! ### The table after an operation -/

theorem bridgeInsert_table (hb : BridgeInv bridge)
    (h : bridgeInsert bridge fd session = some bridge') :
    bridge.sessionTable.sessions[sizeT fd]? = some {} ∧
      bridge'.sessionTable.sessions = bridge.sessionTable.sessions.set (sizeT fd) session := by
  obtain ⟨middle, hsetup, h⟩ := Option.bind_eq_some_iff.mp h
  obtain ⟨-, -, htable⟩ := lazyBridgeSetup_spec hb hsetup
  obtain ⟨table, hassign, rfl⟩ := Option.map_eq_some_iff.mp h
  unfold sessionTableAssign at hassign
  rw [htable] at hassign
  split at hassign
  · rename_i hfree
    obtain rfl := Option.some.inj hassign
    exact ⟨hfree, rfl⟩
  · cases hassign

theorem bridgeErase_table (hb : BridgeInv bridge)
    (h : bridgeErase memory bridge fd = some (memory', bridge')) :
    ∃ session, bridge.sessionTable.sessions[sizeT fd]? = some session ∧
      bridge'.sessionTable.sessions = bridge.sessionTable.sessions.set (sizeT fd) {} ∧
      memory'.freed = memory.freed ++ session.connection.toList := by
  obtain ⟨middle, hsetup, h⟩ := Option.bind_eq_some_iff.mp h
  obtain ⟨-, -, htable⟩ := lazyBridgeSetup_spec hb hsetup
  obtain ⟨session, hget, h⟩ := Option.bind_eq_some_iff.mp h
  obtain ⟨⟨memory₁, session'⟩, hinv, he⟩ := Option.map_eq_some_iff.mp h
  obtain ⟨rfl, rfl⟩ := Prod.mk.inj he
  rw [htable] at hget
  obtain ⟨rfl, -⟩ := @sessionInvalidate_spec _ _ _ _ 0 hinv
  refine ⟨session, hget, ?_, ?_⟩
  · show middle.sessionTable.sessions.set (sizeT fd) {} = _
    rw [htable]
  · obtain ⟨ref⟩ := session
    cases ref with
    | none =>
      obtain ⟨rfl, -⟩ := Prod.mk.inj (Option.some.inj hinv)
      exact (List.append_nil _).symm
    | some ref =>
      obtain ⟨segment, -, he⟩ := Option.map_eq_some_iff.mp hinv
      obtain ⟨rfl, -⟩ := Prod.mk.inj he
      rfl

theorem bridgeLookup_table (hb : BridgeInv bridge)
    (h : bridgeLookup bridge fd = some (bridge', session)) :
    BridgeInv bridge' ∧ bridge'.sessionTable = bridge.sessionTable ∧
      bridge.sessionTable.sessions[sizeT fd]? = some session := by
  obtain ⟨middle, hsetup, h⟩ := Option.bind_eq_some_iff.mp h
  obtain ⟨hm, -, htable⟩ := lazyBridgeSetup_spec hb hsetup
  obtain ⟨found, hget, he⟩ := Option.map_eq_some_iff.mp h
  obtain ⟨rfl, rfl⟩ := Prod.mk.inj he
  exact ⟨hm, htable, htable ▸ hget⟩

end Operations

end Tssx
