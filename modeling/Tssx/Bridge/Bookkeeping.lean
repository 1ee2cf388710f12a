import Tssx.Bridge
import Tssx.Lib.Run

/-!
# The bookkeeping of the bridge

The functions of `bridge.c` called in any order, `bridge_destroy` also more than once, while
other processes change the segments between the calls.  Each insertion of a connection has a
number, the place of its call, and `Release` says which call disconnects the connection of
which insertion.

`bridge_bookkeeping`: the first `bridge_erase` of the descriptor or `bridge_destroy` after an
insertion disconnects its connection, and no other call does; the counter is right until the
first `bridge_destroy`, so `bridge_add_user` counts every connected slot once.
-/

namespace Tssx

/-! ### The calls -/

theorem sessionsDestroy_sessions {sessions sessions' : List Session} {memory memory' : Memory}
    (h : sessionsDestroy memory sessions = some (memory', sessions')) :
    sessions' = sessions.map fun _ => {} := by
  induction sessions generalizing memory memory' sessions' with
  | nil =>
    obtain ⟨rfl, rfl⟩ := Prod.mk.inj (Option.some.inj h)
    rfl
  | cons session sessions ih =>
    obtain ⟨⟨middle, session'⟩, hone, h⟩ := Option.bind_eq_some_iff.mp h
    obtain ⟨⟨last, rest⟩, hrest, he⟩ := Option.map_eq_some_iff.mp h
    obtain ⟨rfl, rfl⟩ := Prod.mk.inj he
    obtain ⟨rfl, -⟩ := @sessionInvalidate_spec _ _ _ _ 0 hone
    rw [ih hrest, List.map_cons]

theorem sessionsDestroy_size {table : SessionTable} {sessions : List Session}
    {memory memory' : Memory}
    (h : sessionsDestroy memory table.sessions = some (memory', sessions)) :
    sessions.length = SESSION_TABLE_SIZE := by
  rw [sessionsDestroy_sessions h, List.length_map, table.size]

/-- `bridge_destroy` with the table that it leaves: neither `is_initialized` nor
`connection_count` is reset. -/
def bridgeDestroyTable (memory : Memory) (bridge : Bridge) : Option (Memory × Bridge) :=
  if bridge.isInitialized then
    match h : sessionsDestroy memory bridge.sessionTable.sessions with
    | none => none
    | some (memory', sessions) =>
      some (memory', { bridge with sessionTable := ⟨sessions, sessionsDestroy_size h⟩ })
  else none

/-- A call, or what other processes do to the segments in between. -/
inductive BridgeCall
  | insert (fd : CInt) (session : Session)
  | erase (fd : CInt)
  | lookup (fd : CInt)
  | hasConnection (fd : CInt)
  | addUser
  | destroy
  | others (segment : Nat → Segment)

def BridgeCall.run (memory : Memory) (bridge : Bridge) : BridgeCall → Option (Memory × Bridge)
  | .insert fd session => (bridgeInsert bridge fd session).map fun bridge => (memory, bridge)
  | .erase fd => bridgeErase memory bridge fd
  | .lookup fd => (bridgeLookup bridge fd).map fun r => (memory, r.1)
  | .hasConnection fd => (bridgeHasConnection bridge fd).map fun r => (memory, r.1)
  | .addUser => bridgeAddUser memory bridge
  | .destroy => bridgeDestroyTable memory bridge
  | .others segment => some ({ memory with segment }, bridge)

/-- The call disconnects what is in the slot. -/
def BridgeCall.clears (index : Nat) : BridgeCall → Bool
  | .erase fd => sizeT fd == index
  | .destroy => true
  | _ => false

/-- The calls that made and ended an insertion. -/
structure Release where
  insertion : Nat
  call : Nat
  connection : Nat
  deriving DecidableEq

/-- What a call releases from the table, `origin` being the insertion of each slot. -/
def BridgeCall.releases (call : BridgeCall) (origin : Nat → Nat) (number : Nat)
    (sessions : List Session) : List Release :=
  sessions.zipIdx.filterMap fun (session, index) =>
    if call.clears index then
      session.connection.map fun connection => ⟨origin index, number, connection⟩
    else none

/-- The insertion of each slot after a call. -/
def BridgeCall.origin (origin : Nat → Nat) (number : Nat) : BridgeCall → Nat → Nat
  | .insert fd _ => Function.update origin (sizeT fd) number
  | _ => origin

/-- A process with its calls so far. -/
structure BookState where
  memory : Memory
  bridge : Bridge
  past : List BridgeCall := []
  origin : Nat → Nat := fun _ => 0
  releases : List Release := []

def BookState.init (segment : Nat → Segment) : BookState where
  memory := { segment }
  bridge := .initial

def bookStep (s : BookState) (call : BridgeCall) : Option BookState :=
  (call.run s.memory s.bridge).map fun (memory, bridge) =>
    { memory, bridge
      past := s.past ++ [call]
      origin := call.origin s.origin s.past.length
      releases := s.releases ++
        call.releases s.origin s.past.length s.bridge.sessionTable.sessions }

def InRange (fd : CInt) : Prop := 0 ≤ fd.val ∧ fd.val < SESSION_TABLE_SIZE

/-- Each of the `n` uses of a connection by the bridge is counted in its segment. -/
def Segment.Counts (segment : Segment) (n : Nat) : Prop :=
  n ≤ segment.openCount ∧ segment.removed = false

/-- The calls that may be made: on descriptors in range, an insertion on a free one and of a
connection that has been counted, `bridge_destroy` after the set-up.  The other processes leave
the connections of the bridge counted. -/
def BridgeCall.Allowed (s : BookState) : BridgeCall → Prop
  | .insert fd session =>
    InRange fd ∧ s.bridge.sessionTable.sessions[sizeT fd]? = some {} ∧
      ∀ c, session.connection = some c → (s.memory.segment c).Counts (s.bridge.uses c + 1)
  | .erase fd | .lookup fd | .hasConnection fd => InRange fd
  | .addUser => True
  | .destroy => s.bridge.isInitialized = true
  | .others segment => ∀ c, 0 < s.bridge.uses c → (segment c).Counts (s.bridge.uses c)

/-! ### What a call does -/

section Calls

variable {memory memory' : Memory} {bridge bridge' : Bridge} {call : BridgeCall} {fd : CInt}

theorem lazyBridgeSetup_eq (hb : bridge.SetUp) :
    ∃ count, lazyBridgeSetup bridge =
      some { bridge with isInitialized := true, connectionCount := count } := by
  unfold lazyBridgeSetup
  cases hi : bridge.isInitialized with
  | true => exact ⟨bridge.connectionCount, by simp [← hi]⟩
  | false =>
    refine ⟨0, ?_⟩
    simp [bridgeSetup, hi, sessionTableSetup, hb hi, empty_no_connection]

/-- The connection of a descriptor. -/
def Bridge.connection (bridge : Bridge) (fd : Int) : Option Nat :=
  bridge.sessionTable.sessions[sizeT fd]?.bind Session.connection

theorem bridgeLookup_eq (hb : bridge.SetUp) :
    ∃ bridge', bridge'.SetUp ∧ bridge'.sessionTable = bridge.sessionTable ∧
      ∀ fd, bridgeLookup bridge fd =
        bridge.sessionTable.sessions[sizeT fd]?.map fun session => (bridge', session) := by
  obtain ⟨count, hsetup⟩ := lazyBridgeSetup_eq hb
  refine ⟨_, @Bridge.SetUp.of_ready { bridge with isInitialized := true, connectionCount := count }
    rfl, rfl, ?_⟩
  intro fd
  rw [bridgeLookup, hsetup]
  rfl

/-- The sessions after a call. -/
def BridgeCall.table : BridgeCall → List Session → List Session
  | .insert fd session, sessions => sessions.set (sizeT fd) session
  | .erase fd, sessions => sessions.set (sizeT fd) {}
  | .destroy, sessions => sessions.map fun _ => {}
  | _, sessions => sessions

theorem run_table (hb : bridge.SetUp) (h : call.run memory bridge = some (memory', bridge')) :
    bridge'.SetUp ∧ bridge'.sessionTable.sessions = call.table bridge.sessionTable.sessions := by
  obtain ⟨count, hlazy⟩ := lazyBridgeSetup_eq hb
  cases call with
  | insert fd session =>
    obtain ⟨_, hinsert, he⟩ := Option.map_eq_some_iff.mp h
    obtain ⟨rfl, rfl⟩ := Prod.mk.inj he
    simp only [bridgeInsert, hlazy, Option.bind_some] at hinsert
    obtain ⟨table, hassign, rfl⟩ := Option.map_eq_some_iff.mp hinsert
    unfold sessionTableAssign at hassign
    split at hassign
    · obtain rfl := Option.some.inj hassign
      exact ⟨.of_ready rfl, rfl⟩
    · cases hassign
  | erase fd =>
    simp only [BridgeCall.run, bridgeErase, hlazy, Option.bind_some] at h
    obtain ⟨session, -, h⟩ := Option.bind_eq_some_iff.mp h
    obtain ⟨⟨_, session'⟩, hinv, he⟩ := Option.map_eq_some_iff.mp h
    obtain ⟨rfl, rfl⟩ := Prod.mk.inj he
    obtain ⟨rfl, -⟩ := @sessionInvalidate_spec _ _ _ _ 0 hinv
    exact ⟨.of_ready rfl, rfl⟩
  | lookup fd =>
    obtain ⟨_, hlookup, he⟩ := Option.map_eq_some_iff.mp h
    obtain ⟨rfl, rfl⟩ := Prod.mk.inj he
    simp only [bridgeLookup, hlazy, Option.bind_some] at hlookup
    obtain ⟨session, -, rfl⟩ := Option.map_eq_some_iff.mp hlookup
    exact ⟨.of_ready rfl, rfl⟩
  | hasConnection fd =>
    obtain ⟨_, hhas, he⟩ := Option.map_eq_some_iff.mp h
    obtain ⟨rfl, rfl⟩ := Prod.mk.inj he
    simp only [bridgeHasConnection, bridgeLookup, hlazy, Option.bind_some] at hhas
    obtain ⟨_, hlookup, rfl⟩ := Option.map_eq_some_iff.mp hhas
    obtain ⟨session, -, rfl⟩ := Option.map_eq_some_iff.mp hlookup
    exact ⟨.of_ready rfl, rfl⟩
  | addUser =>
    simp only [BridgeCall.run, bridgeAddUser, hlazy, Option.map_some] at h
    split at h <;> obtain ⟨rfl, rfl⟩ := Prod.mk.inj (Option.some.inj h) <;>
      exact ⟨.of_ready rfl, rfl⟩
  | destroy =>
    simp only [BridgeCall.run, bridgeDestroyTable] at h
    split at h
    · rename_i hi
      split at h
      · cases h
      · rename_i hd
        obtain ⟨rfl, rfl⟩ := Prod.mk.inj (Option.some.inj h)
        exact ⟨.of_ready hi, sessionsDestroy_sessions hd⟩
    · cases h
  | others segment =>
    obtain ⟨rfl, rfl⟩ := Prod.mk.inj (Option.some.inj h)
    exact ⟨hb, rfl⟩

theorem sessionInvalidate_freed {session session' : Session}
    (h : sessionInvalidate memory session = some (memory', session')) :
    memory'.freed = memory.freed ++ session.connection.toList := by
  obtain ⟨ref⟩ := session
  cases ref with
  | none =>
    obtain ⟨rfl, -⟩ := Prod.mk.inj (Option.some.inj h)
    exact (List.append_nil _).symm
  | some ref =>
    obtain ⟨segment, -, he⟩ := Option.map_eq_some_iff.mp h
    obtain ⟨rfl, -⟩ := Prod.mk.inj he
    rfl

theorem sessionsDestroy_freed {sessions sessions' : List Session}
    (h : sessionsDestroy memory sessions = some (memory', sessions')) :
    memory'.freed = memory.freed ++ sessions.filterMap Session.connection := by
  induction sessions generalizing memory memory' sessions' with
  | nil =>
    obtain ⟨rfl, -⟩ := Prod.mk.inj (Option.some.inj h)
    exact (List.append_nil _).symm
  | cons session sessions ih =>
    obtain ⟨⟨middle, session'⟩, hone, h⟩ := Option.bind_eq_some_iff.mp h
    obtain ⟨⟨last, rest⟩, hrest, he⟩ := Option.map_eq_some_iff.mp h
    obtain ⟨rfl, -⟩ := Prod.mk.inj he
    rw [ih hrest, sessionInvalidate_freed hone, List.append_assoc]
    cases hc : session.connection <;> simp [hc]

theorem count_filterMap_connection (sessions : List Session) (c : Nat) :
    (sessions.filterMap Session.connection).count c = sessions.countP (Session.refersTo c) := by
  rw [List.count, List.countP_filterMap]
  refine List.countP_congr fun session _ => ?_
  cases hc : session.connection <;> simp [Session.refersTo, hc]

theorem sessionsAddUser_freed (memory : Memory) (sessions : List Session) :
    (sessionsAddUser memory sessions).freed = memory.freed := by
  induction sessions generalizing memory with
  | nil => rfl
  | cons session sessions ih =>
    obtain ⟨ref⟩ := session
    cases ref with
    | none => exact ih memory
    | some ref => exact ih _

/-- The connections that a call disconnects. -/
def BridgeCall.cleared : BridgeCall → List Session → List Nat
  | .erase fd, sessions => (sessions[sizeT fd]?.bind Session.connection).toList
  | .destroy, sessions => sessions.filterMap Session.connection
  | _, _ => []

theorem releases_map (call : BridgeCall) (origin : Nat → Nat) (n : Nat) (sessions : List Session) :
    (call.releases origin n sessions).map Release.connection = call.cleared sessions := by
  have hnone : (∀ index, call.clears index = false) → call.releases origin n sessions = [] := by
    intro hc
    simp [BridgeCall.releases, hc]
  cases call with
  | erase fd =>
    rw [BridgeCall.releases, Parties.filterMap_zipIdx_eq (k := sizeT fd)]
    · cases hs : sessions[sizeT fd]? with
      | none => simp [BridgeCall.cleared, hs]
      | some session =>
        cases hc : session.connection <;> simp [BridgeCall.cleared, BridgeCall.clears, hs, hc]
    · intro j z _ hj
      exact if_neg (by simpa [BridgeCall.clears] using Ne.symm hj)
  | destroy =>
    rw [BridgeCall.releases, List.map_filterMap, BridgeCall.cleared]
    conv_rhs => rw [← List.zipIdx_map_fst 0 sessions, List.filterMap_map]
    refine List.filterMap_congr fun z _ => ?_
    cases hc : z.1.connection <;> simp [BridgeCall.clears, hc]
  | _ =>
    rw [hnone fun _ => rfl]
    rfl

/-- Neither `bridge_add_user` nor another process. -/
def BridgeCall.quiet : BridgeCall → Bool
  | .addUser | .others _ => false
  | _ => true

/-- **A call frees and disconnects what it clears**, and nothing else. -/
theorem run_effect (hb : bridge.SetUp) (h : call.run memory bridge = some (memory', bridge')) :
    memory'.freed = memory.freed ++ call.cleared bridge.sessionTable.sessions ∧
      (call.quiet = true → ∀ c, (memory'.segment c).openCount +
        (call.cleared bridge.sessionTable.sessions).count c = (memory.segment c).openCount) := by
  obtain ⟨count, hlazy⟩ := lazyBridgeSetup_eq hb
  have hsame : memory' = memory → call.cleared bridge.sessionTable.sessions = [] →
      memory'.freed = memory.freed ++ call.cleared bridge.sessionTable.sessions ∧
        (call.quiet = true → ∀ c, (memory'.segment c).openCount +
          (call.cleared bridge.sessionTable.sessions).count c =
            (memory.segment c).openCount) := by
    rintro rfl hnil
    rw [hnil]
    exact ⟨(List.append_nil _).symm, fun _ c => Int.add_zero _⟩
  cases call with
  | insert fd session =>
    obtain ⟨_, -, he⟩ := Option.map_eq_some_iff.mp h
    exact hsame (Prod.mk.inj he).1.symm rfl
  | erase fd =>
    simp only [BridgeCall.run, bridgeErase, hlazy, Option.bind_some] at h
    obtain ⟨session, hget, h⟩ := Option.bind_eq_some_iff.mp h
    obtain ⟨⟨_, session'⟩, hinv, he⟩ := Option.map_eq_some_iff.mp h
    obtain ⟨rfl, -⟩ := Prod.mk.inj he
    have hslot : bridge.sessionTable.sessions[sizeT fd]? = some session := hget
    have hclear : (BridgeCall.erase fd).cleared bridge.sessionTable.sessions =
        session.connection.toList := by
      rw [BridgeCall.cleared, hslot, Option.bind_some]
    rw [hclear]
    refine ⟨sessionInvalidate_freed hinv, fun _ c => ?_⟩
    obtain ⟨-, hcount⟩ := @sessionInvalidate_spec _ _ _ _ c hinv
    rw [← hcount]
    cases hc : session.connection with
    | none => simp [Session.refersTo, hc]
    | some d => simp [Session.refersTo, hc, List.count_singleton]
  | lookup fd | hasConnection fd =>
    obtain ⟨_, -, he⟩ := Option.map_eq_some_iff.mp h
    exact hsame (Prod.mk.inj he).1.symm rfl
  | addUser =>
    simp only [BridgeCall.run, bridgeAddUser, hlazy, Option.map_some] at h
    split at h
    · exact hsame (Prod.mk.inj (Option.some.inj h)).1.symm rfl
    · obtain ⟨rfl, -⟩ := Prod.mk.inj (Option.some.inj h)
      exact ⟨(sessionsAddUser_freed _ _).trans (List.append_nil _).symm, Bool.noConfusion⟩
  | destroy =>
    simp only [BridgeCall.run, bridgeDestroyTable] at h
    split at h
    · split at h
      · cases h
      · rename_i hd
        obtain ⟨rfl, -⟩ := Prod.mk.inj (Option.some.inj h)
        refine ⟨sessionsDestroy_freed hd, fun _ c => ?_⟩
        rw [BridgeCall.cleared, count_filterMap_connection]
        exact sessionsDestroy_spec hd
    · cases h
  | others segment =>
    obtain ⟨rfl, -⟩ := Prod.mk.inj (Option.some.inj h)
    exact ⟨(List.append_nil _).symm, Bool.noConfusion⟩

/-! ### Every allowed call returns -/

/-- The connections of the bridge are counted in their segments. -/
def Counted (memory : Memory) (bridge : Bridge) : Prop :=
  ∀ c, 0 < bridge.uses c → (memory.segment c).Counts (bridge.uses c)

theorem Segment.Counts.disconnect {segment segment' : Segment} {n : Nat}
    (h : segment.Counts (n + 1)) (hd : disconnect segment = some segment') (hn : 0 < n) :
    segment'.Counts n := by
  obtain ⟨hle, hkept⟩ := h
  rw [disconnect_eq (by omega)] at hd
  obtain rfl := Option.some.inj hd
  exact ⟨by simp only [Segment.fetchSub]; omega, hkept⟩

theorem sessionInvalidate_counts {session : Session} {n : Nat → Nat}
    (h : ∀ c, 0 < n c + (if session.refersTo c then 1 else 0) →
      (memory.segment c).Counts (n c + if session.refersTo c then 1 else 0)) :
    ∃ memory', sessionInvalidate memory session = some (memory', {}) ∧
      ∀ c, 0 < n c → (memory'.segment c).Counts (n c) := by
  obtain ⟨ref⟩ := session
  cases ref with
  | none => exact ⟨memory, rfl, fun c hc => by simpa [Session.refersTo] using h c (by omega)⟩
  | some d =>
    have hd := h d (by simp [Session.refersTo])
    simp only [Session.refersTo, decide_true, if_true] at hd
    obtain ⟨segment, hsegment⟩ := disconnect_kept hd.2
    refine ⟨{ memory.set d segment with freed := memory.freed ++ [d] }, ?_, ?_⟩
    · simp only [sessionInvalidate, hsegment, Option.map_some]
    · intro c hc
      by_cases hcd : c = d
      · subst hcd
        simpa using hd.disconnect hsegment hc
      · have hother := h c (by omega)
        simp only [Session.refersTo, Option.some.injEq, Ne.symm hcd, decide_false,
          Bool.false_eq_true, if_false, Nat.add_zero] at hother
        simpa [Function.update_of_ne hcd] using hother

theorem sessionsDestroy_isSome {sessions : List Session}
    (h : ∀ c, 0 < sessions.countP (Session.refersTo c) →
      (memory.segment c).Counts (sessions.countP (Session.refersTo c))) :
    ∃ memory' sessions', sessionsDestroy memory sessions = some (memory', sessions') := by
  induction sessions generalizing memory with
  | nil => exact ⟨memory, [], rfl⟩
  | cons session sessions ih =>
    obtain ⟨middle, hone, hcounts⟩ := @sessionInvalidate_counts memory session
      (fun c => sessions.countP (Session.refersTo c)) (by
        intro c hc
        have hcons := h c
        rw [List.countP_cons] at hcons
        exact hcons hc)
    obtain ⟨memory', rest, hrest⟩ := ih hcounts
    exact ⟨memory', {} :: rest, by simp only [sessionsDestroy, hone, hrest, Option.bind_some,
      Option.map_some]⟩

theorem sessionsAddUser_removed (memory : Memory) (sessions : List Session) (c : Nat) :
    ((sessionsAddUser memory sessions).segment c).removed = (memory.segment c).removed := by
  induction sessions generalizing memory with
  | nil => rfl
  | cons session sessions ih =>
    obtain ⟨ref⟩ := session
    cases ref with
    | none => exact ih memory
    | some ref =>
      rw [sessionsAddUser, ih, Memory.set_segment]
      by_cases hc : c = ref
      · subst hc
        rw [Function.update_self]
        rfl
      · rw [Function.update_of_ne hc]

theorem slot_exists (table : SessionTable) (hfd : InRange fd) :
    ∃ session, table.sessions[sizeT fd]? = some session := by
  obtain ⟨h0, hlt⟩ := hfd
  unfold SESSION_TABLE_SIZE at hlt
  have hsize : sizeT fd = fd.val.toNat := sizeT_eq (by omega) (by omega)
  refine ⟨_, List.getElem?_eq_getElem ?_⟩
  rw [table.size, hsize, SESSION_TABLE_SIZE]
  omega

theorem uses_set {sessions : List Session} {index : Nat} {session : Session} (session' : Session)
    (h : sessions[index]? = some session) (c : Nat) :
    (sessions.set index session').countP (Session.refersTo c) +
        (if session.refersTo c then 1 else 0) =
      sessions.countP (Session.refersTo c) + if session'.refersTo c then 1 else 0 :=
  Parties.countP_set h

/-- **An allowed call returns**, and leaves the connections counted. -/
theorem exists_run {s : BookState} (hb : s.bridge.SetUp) (hc : Counted s.memory s.bridge)
    (h : call.Allowed s) : ∃ memory' bridge',
      call.run s.memory s.bridge = some (memory', bridge') ∧ Counted memory' bridge' := by
  obtain ⟨count, hlazy⟩ := lazyBridgeSetup_eq hb
  cases call with
  | insert fd session =>
    obtain ⟨-, hfree, hcounts⟩ := h
    simp only [BridgeCall.run, bridgeInsert, hlazy, sessionTableAssign, hfree, if_true,
      Option.bind_some, Option.map_some]
    refine ⟨_, _, rfl, fun c hpos => ?_⟩
    have huses := uses_set session hfree c
    have hnone : Session.refersTo c {} = false := by simp [Session.refersTo]
    rw [hnone, if_neg Bool.false_ne_true, Nat.add_zero] at huses
    rw [Bridge.uses, SessionTable.set_sessions, huses] at hpos ⊢
    by_cases hr : session.connection = some c
    · simp only [Session.refersTo, hr, decide_true, if_true]
      exact hcounts c hr
    · simp only [Session.refersTo, hr, decide_false, Bool.false_eq_true, if_false,
        Nat.add_zero] at hpos ⊢
      exact hc c hpos
  | erase fd =>
    obtain ⟨session, hget⟩ := slot_exists s.bridge.sessionTable h
    have hnone : ∀ c, Session.refersTo c {} = false := by simp [Session.refersTo]
    have huses := fun c => uses_set {} hget c
    simp only [hnone, Bool.false_eq_true, if_false, Nat.add_zero] at huses
    obtain ⟨memory', hinv, hcounts⟩ := @sessionInvalidate_counts s.memory session
      (fun c => (s.bridge.sessionTable.sessions.set (sizeT fd) {}).countP (Session.refersTo c)) (by
        intro c hpos
        rw [huses] at hpos ⊢
        exact hc c hpos)
    simp only [BridgeCall.run, bridgeErase, hlazy, sessionTableGet, hget, hinv, Option.bind_some,
      Option.map_some]
    exact ⟨memory', _, rfl, hcounts⟩
  | lookup fd =>
    obtain ⟨session, hget⟩ := slot_exists s.bridge.sessionTable h
    simp only [BridgeCall.run, bridgeLookup, hlazy, sessionTableGet, hget, Option.bind_some,
      Option.map_some]
    exact ⟨_, _, rfl, hc⟩
  | hasConnection fd =>
    obtain ⟨session, hget⟩ := slot_exists s.bridge.sessionTable h
    simp only [BridgeCall.run, bridgeHasConnection, bridgeLookup, hlazy, sessionTableGet, hget,
      Option.bind_some, Option.map_some]
    exact ⟨_, _, rfl, hc⟩
  | addUser =>
    simp only [BridgeCall.run, bridgeAddUser, hlazy, Option.map_some]
    split
    · exact ⟨_, _, rfl, hc⟩
    · refine ⟨_, _, rfl, fun c hpos => ?_⟩
      have hcount := sessionsAddUser_spec s.memory s.bridge.sessionTable.sessions c
      have hold := hc c hpos
      refine ⟨?_, (sessionsAddUser_removed ..).trans hold.2⟩
      have := hold.1
      rw [hcount]
      show (s.bridge.uses c : Int) ≤ _
      omega
  | destroy =>
    obtain ⟨memory', sessions, hd⟩ := sessionsDestroy_isSome hc
    have hsessions := sessionsDestroy_sessions hd
    have hinit : s.bridge.isInitialized = true := h
    refine ⟨memory', { s.bridge with sessionTable := ⟨sessions, sessionsDestroy_size hd⟩ }, ?_, ?_⟩
    · simp only [BridgeCall.run, bridgeDestroyTable, hinit, if_true]
      split
      · rename_i hnone
        rw [hd] at hnone
        cases hnone
      · rename_i hsome
        rw [hd] at hsome
        obtain ⟨rfl, rfl⟩ := Prod.mk.inj (Option.some.inj hsome)
        rfl
    · intro c hpos
      rw [Bridge.uses] at hpos
      simp [hsessions, Session.refersTo] at hpos
  | others segment => exact ⟨_, _, rfl, h⟩

end Calls

/-! ### Insertions and releases -/

/-- The call ends an insertion at the descriptor. -/
def BridgeCall.ends (fd : CInt) : BridgeCall → Bool
  | .erase other => other == fd
  | .destroy => true
  | _ => false

theorem clears_slot (call : BridgeCall) (fd : CInt) : call.clears (sizeT fd) = call.ends fd := by
  cases call with
  | erase other =>
    rw [BridgeCall.clears, BridgeCall.ends, Bool.eq_iff_iff, beq_iff_eq, beq_iff_eq]
    exact ⟨sizeT_inj, fun h => h ▸ rfl⟩
  | _ => rfl

/-- The first of the calls behind call `i` that ends an insertion at the descriptor. -/
def firstEnd (calls : List BridgeCall) (i : Nat) (fd : CInt) : Option Nat :=
  ((calls.drop (i + 1)).findIdx? (BridgeCall.ends fd)).map (i + 1 + ·)

theorem firstEnd_append {calls : List BridgeCall} {i : Nat} (hi : i < calls.length)
    (call : BridgeCall) (fd : CInt) :
    firstEnd (calls ++ [call]) i fd =
      (firstEnd calls i fd).or (if call.ends fd then some calls.length else none) := by
  unfold firstEnd
  rw [List.drop_append_of_le_length hi, List.findIdx?_append]
  cases List.findIdx? (BridgeCall.ends fd) (calls.drop (i + 1)) with
  | some j => rfl
  | none =>
    have hlen : i + 1 + (calls.length - (i + 1)) = calls.length := Nat.add_sub_of_le hi
    cases he : call.ends fd <;> simp [he, hlen]

theorem firstEnd_last (calls : List BridgeCall) (call : BridgeCall) (fd : CInt) :
    firstEnd (calls ++ [call]) calls.length fd = none := by
  simp [firstEnd]

/-- Call `i` inserts the connection `c` at the descriptor. -/
def Inserts (calls : List BridgeCall) (i : Nat) (fd : CInt) (c : Nat) : Prop :=
  calls[i]? = some (.insert fd { connection := some c })

/-- The slot has the connection of insertion `i`. -/
def BookState.Holds (s : BookState) (index i c : Nat) : Prop :=
  s.bridge.sessionTable.sessions[index]? = some { connection := some c } ∧ s.origin index = i

structure BookInv (s : BookState) : Prop where
  setUp : s.bridge.SetUp
  counted : Counted s.memory s.bridge
  count : .destroy ∉ s.past → BridgeInv s.bridge
  held : ∀ index i c, s.Holds index i c →
    ∃ fd : CInt, sizeT fd = index ∧ Inserts s.past i fd c ∧ firstEnd s.past i fd = none
  kept : ∀ i fd c, Inserts s.past i fd c → firstEnd s.past i fd = none → s.Holds (sizeT fd) i c
  released : ∀ i fd c, Inserts s.past i fd c →
    s.releases.filter (·.insertion == i) =
      ((firstEnd s.past i fd).map fun j => ⟨i, j, c⟩).toList
  early : ∀ r ∈ s.releases, r.insertion < s.past.length
  freed : s.memory.freed = s.releases.map Release.connection

theorem bookInv_init (segment : Nat → Segment) : BookInv (.init segment) where
  setUp := fun _ => rfl
  counted := fun c hc => by
    rw [show (BookState.init segment).bridge.uses c = 0 from uses_initial c] at hc
    exact absurd hc (Nat.lt_irrefl 0)
  count := fun _ => bridgeInv_initial
  held := by
    rintro index i c ⟨hs, -⟩
    simp [BookState.init, Bridge.initial, SessionTable.empty, List.getElem?_replicate] at hs
  kept := fun _ _ _ h => by simp [Inserts, BookState.init] at h
  released := fun _ _ _ h => by simp [Inserts, BookState.init] at h
  early := fun _ h => by simp [BookState.init] at h
  freed := rfl

theorem Inserts.lt {calls : List BridgeCall} {i c : Nat} {fd : CInt} (h : Inserts calls i fd c) :
    i < calls.length := (List.getElem?_eq_some_iff.mp h).1

theorem inserts_append {calls : List BridgeCall} {call : BridgeCall} {i c : Nat} {fd : CInt} :
    Inserts (calls ++ [call]) i fd c ↔
      Inserts calls i fd c ∨ i = calls.length ∧ call = .insert fd { connection := some c } := by
  unfold Inserts
  rcases Nat.lt_trichotomy i calls.length with hi | rfl | hi
  · rw [List.getElem?_append_left hi]
    exact (or_iff_left (by omega)).symm
  · simp
  · rw [List.getElem?_eq_none (by simp; omega), List.getElem?_eq_none (by omega)]
    simp only [reduceCtorEq, false_or, false_iff, not_and]
    omega

theorem Inserts.inj {calls : List BridgeCall} {i c c' : Nat} {fd fd' : CInt}
    (h : Inserts calls i fd c) (h' : Inserts calls i fd' c') : fd = fd' ∧ c = c' := by
  have he := h.symm.trans h'
  simpa using he

section Step

variable {s t : BookState} {call : BridgeCall}

theorem bookStep_cases (h : bookStep s call = some t) :
    call.run s.memory s.bridge = some (t.memory, t.bridge) ∧ t.past = s.past ++ [call] ∧
      t.releases = s.releases ++
        call.releases s.origin s.past.length s.bridge.sessionTable.sessions ∧
      t.origin = call.origin s.origin s.past.length := by
  obtain ⟨⟨memory, bridge⟩, hrun, rfl⟩ := Option.map_eq_some_iff.mp h
  exact ⟨hrun, rfl, rfl, rfl⟩

/-- **What a slot holds after a call**: what it held, if the call does not clear it, or the
connection that the call inserts. -/
theorem holds_step (h : bookStep s call = some t) (hs : BookInv s) (ha : call.Allowed s)
    {index i c : Nat} : t.Holds index i c ↔
      s.Holds index i c ∧ call.clears index = false ∨
        i = s.past.length ∧ ∃ fd : CInt, sizeT fd = index ∧
          call = .insert fd { connection := some c } := by
  obtain ⟨hrun, -, -, horigin⟩ := bookStep_cases h
  obtain ⟨-, htable⟩ := run_table hs.setUp hrun
  unfold BookState.Holds
  rw [htable, horigin]
  cases call with
  | insert fd session =>
    obtain ⟨-, hfree, -⟩ := ha
    by_cases hi : sizeT fd = index
    · subst hi
      have hslot := @Parties.getElem?_set_self _ _ _ _ session hfree
      simp only [BridgeCall.table, BridgeCall.clears, BridgeCall.origin, hslot, hfree,
        Function.update_self, Option.some.injEq, BridgeCall.insert.injEq]
      constructor
      · rintro ⟨rfl, rfl⟩
        exact .inr ⟨rfl, fd, rfl, rfl, rfl⟩
      · rintro (⟨⟨hc, -⟩, -⟩ | ⟨rfl, -, -, -, rfl⟩)
        · cases hc
        · exact ⟨rfl, rfl⟩
    · have hslot : (s.bridge.sessionTable.sessions.set (sizeT fd) session)[index]? =
          s.bridge.sessionTable.sessions[index]? := List.getElem?_set_ne hi
      simp only [BridgeCall.table, BridgeCall.clears, BridgeCall.origin, hslot,
        Function.update_of_ne (Ne.symm hi), BridgeCall.insert.injEq, and_true]
      refine ⟨.inl, ?_⟩
      rintro (hc | ⟨-, other, he, rfl, -⟩)
      · exact hc
      · exact absurd he hi
  | erase fd =>
    by_cases hi : sizeT fd = index
    · subst hi
      simp [BridgeCall.table, BridgeCall.clears, List.getElem?_set]
    · simp [BridgeCall.table, BridgeCall.clears, BridgeCall.origin, List.getElem?_set_ne hi, hi]
  | destroy => simp [BridgeCall.table, BridgeCall.clears, List.getElem?_replicate]
  | _ => simp [BridgeCall.table, BridgeCall.clears, BridgeCall.origin]

/-- **The releases of an insertion by one call.** -/
theorem BookInv.releases_filter (hs : BookInv s) {i c : Nat} {fd : CInt}
    (hi : Inserts s.past i fd c) :
    (call.releases s.origin s.past.length s.bridge.sessionTable.sessions).filter
        (·.insertion == i) =
      if firstEnd s.past i fd = none ∧ call.ends fd = true then [⟨i, s.past.length, c⟩]
      else [] := by
  rw [BridgeCall.releases, List.filter_filterMap,
    Parties.filterMap_zipIdx_eq (k := sizeT fd)]
  · cases hend : firstEnd s.past i fd with
    | none =>
      obtain ⟨hslot, horigin⟩ := hs.kept i fd c hi hend
      rw [hslot, ← clears_slot call fd]
      cases hc : call.clears (sizeT fd) <;> simp [hc, horigin]
    | some j =>
      have hnot : ∀ c, ¬ s.Holds (sizeT fd) i c := by
        intro c' hheld
        obtain ⟨fd', -, hi', hnone⟩ := hs.held _ _ _ hheld
        obtain ⟨rfl, -⟩ := hi.inj hi'
        rw [hnone] at hend
        cases hend
      cases hslot : s.bridge.sessionTable.sessions[sizeT fd]? with
      | none => simp
      | some session =>
        obtain ⟨ref⟩ := session
        cases ref with
        | none => simp
        | some c' =>
          have horigin : s.origin (sizeT fd) ≠ i := fun he => hnot c' ⟨hslot, he⟩
          cases hc : call.clears (sizeT fd) <;> simp [hc, horigin]
  · intro index session hslot hne
    obtain ⟨ref⟩ := session
    cases ref with
    | none => simp
    | some c' =>
      have horigin : s.origin index ≠ i := by
        intro he
        obtain ⟨fd', hfd', hi', -⟩ := hs.held _ _ _ ⟨hslot, he⟩
        obtain ⟨rfl, -⟩ := hi.inj hi'
        exact hne hfd'.symm
      cases hc : call.clears index <;> simp [hc, horigin]

theorem run_count {memory memory' : Memory} {bridge bridge' : Bridge} (hb : BridgeInv bridge)
    (h : call.run memory bridge = some (memory', bridge')) (hne : call ≠ .destroy) :
    BridgeInv bridge' := by
  cases call with
  | insert fd session =>
    obtain ⟨_, hinsert, he⟩ := Option.map_eq_some_iff.mp h
    obtain ⟨rfl, rfl⟩ := Prod.mk.inj he
    exact (@bridgeInsert_spec _ _ _ _ 0 hb hinsert).1
  | erase fd => exact (@bridgeErase_spec _ _ _ _ _ 0 hb h).1
  | lookup fd =>
    obtain ⟨⟨_, _⟩, hlookup, he⟩ := Option.map_eq_some_iff.mp h
    obtain ⟨rfl, rfl⟩ := Prod.mk.inj he
    exact (bridgeLookup_table hb hlookup).1
  | hasConnection fd =>
    obtain ⟨_, hhas, he⟩ := Option.map_eq_some_iff.mp h
    obtain ⟨rfl, rfl⟩ := Prod.mk.inj he
    obtain ⟨⟨_, _⟩, hlookup, rfl⟩ := Option.map_eq_some_iff.mp hhas
    exact (bridgeLookup_table hb hlookup).1
  | addUser => exact (@bridgeAddUser_spec _ _ _ _ 0 hb h).1
  | destroy => exact absurd rfl hne
  | others segment =>
    obtain ⟨rfl, rfl⟩ := Prod.mk.inj (Option.some.inj h)
    exact hb

theorem BookInv.step (hs : BookInv s) (ha : call.Allowed s) :
    ∃ t, bookStep s call = some t ∧ BookInv t := by
  obtain ⟨memory', bridge', hrun, hcounted⟩ := exists_run hs.setUp hs.counted ha
  obtain ⟨t, ht⟩ : ∃ t, bookStep s call = some t := ⟨_, Option.map_eq_some_iff.mpr ⟨_, hrun, rfl⟩⟩
  obtain ⟨hrun', hpast, hreleases, -⟩ := bookStep_cases ht
  obtain ⟨rfl, rfl⟩ := Prod.mk.inj (Option.some.inj (hrun.symm.trans hrun'))
  have hholds := fun {index i c} => @holds_step s t call ht hs ha index i c
  refine ⟨t, ht, ⟨(run_table hs.setUp hrun').1, hcounted, ?_, ?_, ?_, ?_, ?_, ?_⟩⟩
  · rw [hpast]
    intro hne
    rw [List.mem_append, List.mem_singleton, not_or] at hne
    exact run_count (hs.count hne.1) hrun' (Ne.symm hne.2)
  · intro index i c hh
    rw [hpast]
    rcases hholds.mp hh with ⟨hold, hclear⟩ | ⟨rfl, fd, hfd, hcall⟩
    · obtain ⟨fd, rfl, hi, hend⟩ := hs.held index i c hold
      rw [clears_slot] at hclear
      refine ⟨fd, rfl, inserts_append.mpr (.inl hi), ?_⟩
      rw [firstEnd_append hi.lt, hend, hclear]
      rfl
    · exact ⟨fd, hfd, inserts_append.mpr (.inr ⟨rfl, hcall⟩), firstEnd_last ..⟩
  · intro i fd c hi hend
    rw [hpast] at hi hend
    rcases inserts_append.mp hi with hi | ⟨rfl, hcall⟩
    · rw [firstEnd_append hi.lt, Option.or_eq_none_iff] at hend
      refine hholds.mpr (.inl ⟨hs.kept i fd c hi hend.1, ?_⟩)
      rw [clears_slot]
      simpa using hend.2
    · exact hholds.mpr (.inr ⟨rfl, fd, rfl, hcall⟩)
  · intro i fd c hi
    rw [hpast] at hi ⊢
    rw [hreleases, List.filter_append]
    rcases inserts_append.mp hi with hi | ⟨rfl, hcall⟩
    · rw [hs.released i fd c hi, hs.releases_filter hi, firstEnd_append hi.lt]
      cases hend : firstEnd s.past i fd with
      | none => cases call.ends fd <;> simp
      | some j => simp
    · have hnew : call.releases s.origin s.past.length s.bridge.sessionTable.sessions = [] := by
        simp [hcall, BridgeCall.releases, BridgeCall.clears]
      have hold : s.releases.filter (·.insertion == s.past.length) = [] := by
        rw [List.filter_eq_nil_iff]
        intro r hr
        have := hs.early r hr
        rw [beq_iff_eq]
        omega
      rw [firstEnd_last, hnew, hold]
      rfl
  · intro r hr
    rw [hpast, List.length_append, List.length_singleton]
    rw [hreleases] at hr
    rcases List.mem_append.mp hr with hr | hr
    · exact Nat.lt_succ_of_lt (hs.early r hr)
    · obtain ⟨⟨session, index⟩, hmem, hsome⟩ := List.mem_filterMap.mp hr
      dsimp only at hsome
      split at hsome
      · obtain ⟨c, hc, rfl⟩ := Option.map_eq_some_iff.mp hsome
        have hslot := List.mem_zipIdx_iff_getElem?.mp hmem
        obtain ⟨fd, -, hi, -⟩ := hs.held index _ c
          ⟨by rw [hslot, ← hc], rfl⟩
        exact Nat.lt_succ_of_lt hi.lt
      · cases hsome
  · rw [(run_effect hs.setUp hrun').1, hreleases, List.map_append, releases_map, ← hs.freed]

end Step

/-! ### The books -/

theorem past_of_run {s t : BookState} {calls : List BridgeCall}
    (h : Run.run bookStep s calls = some t) : t.past = s.past ++ calls := by
  induction calls generalizing s with
  | nil =>
    cases h
    exact (List.append_nil _).symm
  | cons call calls ih =>
    obtain ⟨m, hm, hrest⟩ := Run.run_cons.mp h
    rw [ih hrest, (bookStep_cases hm).2.1, List.append_assoc]
    rfl

/-- The books of a process after the calls. -/
structure Bookkeeping (calls : List BridgeCall) (s : BookState) : Prop where
  /-- Until the first `bridge_destroy` the counter is the number of connected slots, -/
  count : .destroy ∉ calls → s.bridge.connectionCount =
    s.bridge.sessionTable.sessions.countP sessionHasConnection
  /-- and `bridge_add_user` adds one for every connected slot, and changes nothing else. -/
  addUser : .destroy ∉ calls → ∀ t, bookStep s .addUser = some t →
    (∀ c, (t.memory.segment c).openCount = (s.memory.segment c).openCount + s.bridge.uses c ∧
      (t.memory.segment c).removed = (s.memory.segment c).removed) ∧
      t.memory.freed = s.memory.freed ∧ t.bridge.sessionTable = s.bridge.sessionTable
  /-- The first call that ends an insertion has released it, and no other. -/
  released : ∀ i fd c, Inserts calls i fd c →
    s.releases.filter (·.insertion == i) = ((firstEnd calls i fd).map fun j => ⟨i, j, c⟩).toList
  /-- A release is a `free`, -/
  freed : s.memory.freed = s.releases.map Release.connection
  /-- and a decrement of `open_count`. -/
  disconnected : ∀ call t, call.quiet = true → bookStep s call = some t → ∀ c,
    (t.memory.segment c).openCount +
        (t.releases.drop s.releases.length).countP (·.connection == c) =
      (s.memory.segment c).openCount

theorem BookInv.books {s : BookState} (hs : BookInv s) : Bookkeeping s.past s where
  count := fun hne => (hs.count hne).count
  addUser := by
    intro hne t ht
    obtain ⟨hrun, -⟩ := bookStep_cases ht
    have hspec := fun c => @bridgeAddUser_spec _ _ _ _ c (hs.count hne) hrun
    refine ⟨fun c => ⟨(hspec c).2.2, ?_⟩, ?_, (hspec 0).2.1⟩
    · obtain ⟨middle, -, he⟩ := Option.map_eq_some_iff.mp hrun
      split at he <;> rw [← (Prod.mk.inj he).1]
      exact sessionsAddUser_removed ..
    · rw [(run_effect hs.setUp hrun).1]
      exact List.append_nil _
  released := hs.released
  freed := hs.freed
  disconnected := by
    intro call t hquiet ht c
    obtain ⟨hrun, -, hreleases, -⟩ := bookStep_cases ht
    rw [← (run_effect hs.setUp hrun).2 hquiet c, hreleases, List.drop_left, ← releases_map call
      s.origin s.past.length, List.count, List.countP_map]
    rfl

/-- **The bookkeeping of the bridge**: the allowed calls all return, and the books are right
after them. -/
theorem bridge_bookkeeping (segment : Nat → Segment) {calls : List BridgeCall}
    (h : Run.Meets bookStep BridgeCall.Allowed (.init segment) calls) :
    ∃ s, Run.run bookStep (.init segment) calls = some s ∧ Bookkeeping calls s := by
  obtain ⟨s, hrun, hs⟩ := Run.exists_of_meets (fun _ _ hi ha => BookInv.step hi ha)
    (bookInv_init segment) h
  have hpast : s.past = calls := past_of_run hrun
  exact ⟨s, hrun, hpast ▸ hs.books⟩

/-- An insertion with a second `bridge_erase` after the first. -/
private def erasedTwice : List BridgeCall :=
  [.insert (.ofNat 5) { connection := some 0 }, .addUser, .erase (.ofNat 5), .erase (.ofNat 5)]

theorem bridge_bookkeeping_at :
    ∃ s, Run.run bookStep (.init fun _ => { openCount := 1 }) erasedTwice = some s ∧
      Bookkeeping erasedTwice s := by
  have hfive : InRange (.ofNat 5) := ⟨by decide, by decide⟩
  refine bridge_bookkeeping (fun _ => { openCount := 1 }) ⟨⟨hfive, by decide, ?_⟩, fun _ _ =>
    ⟨trivial, fun _ _ => ⟨hfive, fun _ _ => ⟨hfive, fun _ _ => trivial⟩⟩⟩⟩
  intro c _
  rw [show (BookState.init fun _ => { openCount := 1 }).bridge.uses c = 0 from uses_initial c]
  exact ⟨Int.le_refl 1, rfl⟩

end Tssx
