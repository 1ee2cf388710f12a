import Tssx.Connection.Ready
import Tssx.Lib.Parties

/-!
# The processes that share a connection

After a `fork` both processes hold the connection, and a process may read in one thread while it
writes in another: a server that accepts and leaves the descriptor to its children is of this kind.
The positions of the rings are in the segment, so that any process of a side can go on where another
has stopped.  What the rings ask for is that the reads of a side take turns, and its writes.

Every access is a step of its own: `connection_peer_died`, those of `buffer_read` and
`buffer_write`, the addition of `bridge_add_user`, and the decrement and the load of `disconnect`.

`users_share`: as long as the calls take turns, the processes of a side together read what those of
the other side together write, and nobody is told that its peer has died before it is the last one
that has the connection.  One failed `real_fork` is enough for nobody to be told any more.
-/

namespace Tssx

/-- The next step of the thread of a process that reads, or of the one that writes. -/
inductive ThreadPc (κ : Type)
  | idle
  | check (argument : κ)
  | transferring
  deriving DecidableEq

inductive UserPc
  | running
  /-- Between `bridge_add_user` and `real_fork`. -/
  | forking
  /-- Between the decrement of `disconnect` and its load. -/
  | test
  | gone
  deriving DecidableEq

/-- A process that uses the connection. -/
structure User where
  side : Side
  pc : UserPc := .running
  reading : ThreadPc Nat := .idle
  writing : ThreadPc (List UInt8) := .idle
  deriving DecidableEq

structure Users where
  segment : Segment
  ring : Side → RingState
  users : List User
  /-- The forks that have failed. -/
  lost : Nat
  /-- The finished calls of each side, by whichever process.  `peerGone` is what
  `connection_peer_died` has returned. -/
  reads : Side → List ReadRecord
  writes : Side → List (List UInt8 × Int)

/-- After the handshake: one process on each side. -/
def Users.init (buffer : Side → Buffer) : Users where
  segment := setupConnection createConnection
  ring := fun side => .init (buffer side)
  users := [{ side := .server }, { side := .client }]
  lost := 0
  reads := fun _ => []
  writes := fun _ => []

/-- The process has not made its decrement. -/
def UserPc.holds (pc : UserPc) : Bool := pc = .running ∨ pc = .forking

def User.inCall (u : User) : Operation → Bool
  | .read => u.reading ≠ .idle
  | .write => u.writing ≠ .idle

def Users.setUser (s : Users) (i : Nat) (u : User) : Users := { s with users := s.users.set i u }

def Users.logRead (s : Users) (side : Side) (record : ReadRecord) : Users :=
  { s with reads := Function.update s.reads side (s.reads side ++ [record]) }

def Users.logWrite (s : Users) (side : Side) (data : List UInt8) (returned : Int) : Users :=
  { s with writes := Function.update s.writes side (s.writes side ++ [(data, returned)]) }

/-- After an access of `buffer_read`: the return, if there is no next one. -/
def Users.afterRead (s : Users) (i : Nat) (u : User) (ring : RingState) : Users :=
  let s := { s with ring := Function.update s.ring u.side.peer ring }
  match ring.reader, ring.history.reads.getLast? with
  | .idle, some r =>
    (s.logRead u.side
      { requested := r.requested, peerGone := false, available := r.available
        returned := ssizeT r.returned, bytes := r.bytes }).setUser i { u with reading := .idle }
  | _, _ => s.setUser i { u with reading := .transferring }

def Users.afterWrite (s : Users) (i : Nat) (u : User) (ring : RingState) : Users :=
  let s := { s with ring := Function.update s.ring u.side ring }
  match ring.writer, ring.history.writes.getLast? with
  | .idle, some w =>
    (s.logWrite u.side w.1 (ssizeT w.2)).setUser i { u with writing := .idle }
  | _, _ => s.setUser i { u with writing := .transferring }

/-- The next step of a thread of process `i`, which is `u`. -/
def userStep (s : Users) (i : Nat) (u : User) : Operation → Option Users
  | .read =>
    match u.reading with
    | .idle => none
    | .check requestedBytes =>
      if connectionPeerDied s.segment then
        some ((s.logRead u.side { requested := requestedBytes, peerGone := true }).setUser i
          { u with reading := .idle })
      else (readerCall (s.ring u.side.peer) requestedBytes).map (s.afterRead i u)
    | .transferring => (readerStep (s.ring u.side.peer)).map (s.afterRead i u)
  | .write =>
    match u.writing with
    | .idle => none
    | .check data =>
      if connectionPeerDied s.segment then
        some ((s.logWrite u.side data 0).setUser i { u with writing := .idle })
      else (writerCall (s.ring u.side) data).map (s.afterWrite i u)
    | .transferring => (writerStep (s.ring u.side)).map (s.afterWrite i u)

inductive UsersAction
  | read (i : Nat) (requestedBytes : Nat)
  | write (i : Nat) (data : List UInt8)
  /-- `bridge_add_user`, for this connection. -/
  | fork (i : Nat)
  /-- `real_fork`. -/
  | forked (i : Nat) (succeeds : Bool)
  /-- The decrement of `disconnect`. -/
  | close (i : Nat)
  /-- Its load of `open_count`, and what follows. -/
  | test (i : Nat)
  | step (i : Nat) (operation : Operation)
  deriving DecidableEq

/-- The process that moves. -/
def UsersAction.user : UsersAction → Nat
  | .read i _ | .write i _ | .fork i | .forked i _ | .close i | .test i | .step i _ => i

/-- The next step of process `i`, which is `u`. -/
def userAction (s : Users) (i : Nat) (u : User) : UsersAction → Option Users
  | .read _ requestedBytes =>
    if u.pc.holds ∧ u.reading = .idle then
      some (s.setUser i { u with reading := .check requestedBytes })
    else none
  | .write _ data =>
    if u.pc.holds ∧ u.writing = .idle then some (s.setUser i { u with writing := .check data })
    else none
  | .fork _ =>
    if u.pc = .running then
      some ({ s with segment := connectionAddUser s.segment }.setUser i { u with pc := .forking })
    else none
  | .forked _ succeeds =>
    if u.pc = .forking then
      let s := s.setUser i { u with pc := .running }
      -- a forked process has one thread
      some (if succeeds then { s with users := s.users ++ [{ side := u.side }] }
        else { s with lost := s.lost + 1 })
    else none
  | .close _ =>
    if u.pc = .running then
      some ({ s with segment := s.segment.fetchSub }.setUser i { u with pc := .test })
    else none
  | .test _ =>
    if u.pc = .test then
      let s := s.setUser i { u with pc := .gone }
      some (if s.segment.openCount = 0 then { s with segment := { s.segment with removed := true } }
        else s)
    else none
  | .step _ operation => userStep s i u operation

def usersStep (s : Users) (a : UsersAction) : Option Users :=
  s.users[a.user]?.bind fun u => userAction s a.user u a

/-- The reads of a side take turns, and its writes, and a process that closes the connection is not
inside a call. -/
def TakesTurns (s : Users) : UsersAction → Prop
  | .read i _ => ∀ u ∈ s.users, s.users[i]?.map User.side = some u.side → u.reading = .idle
  | .write i _ => ∀ u ∈ s.users, s.users[i]?.map User.side = some u.side → u.writing = .idle
  | .close i => ∀ u ∈ s.users[i]?, u.reading = .idle ∧ u.writing = .idle
  | _ => True

instance (s : Users) : ∀ a, Decidable (TakesTurns s a)
  | .read _ _ | .write _ _ => inferInstanceAs (Decidable (∀ u ∈ s.users, _ → _))
  | .close i => inferInstanceAs (Decidable (∀ u ∈ s.users[i]?, _ ∧ _))
  | .fork _ | .forked .. | .test _ | .step .. => inferInstanceAs (Decidable True)

/-! ### The invariant -/

/-- The part of a process in `open_count`. -/
def User.share (u : User) : Nat :=
  match u.pc with
  | .running => 1
  | .forking => 2
  | .test | .gone => 0

def User.transfers (u : User) : Operation → Bool
  | .read => u.reading = .transferring
  | .write => u.writing = .transferring

/-- A call of one side in one direction. -/
def User.calls (side : Side) (operation : Operation) (u : User) : Bool :=
  u.side = side ∧ u.inCall operation

/-- A transfer of one side in one direction. -/
def User.moves (side : Side) (operation : Operation) (u : User) : Bool :=
  u.side = side ∧ u.transfers operation

/-- The ring is in the middle of a transfer of one side. -/
def transferIn (ring : Side → RingState) (side : Side) : Operation → Prop
  | .read => (ring side.peer).reader ≠ .idle
  | .write => (ring side).writer ≠ .idle

structure UsersInv (capacity : Side → Nat) (s : Users) : Prop where
  ring : ∀ side, RingInv (capacity side) (s.ring side)
  count : s.segment.openCount = ((s.users.map User.share).sum + s.lost : Nat)
  present : ∀ u ∈ s.users, ∀ operation, u.inCall operation = true → u.pc.holds = true
  turns : ∀ side operation, s.users.countP (User.calls side operation) ≤ 1
  transfer : ∀ side operation,
    transferIn s.ring side operation ↔ 0 < s.users.countP (User.moves side operation)
  bytes : ∀ side, (s.reads side).flatMap ReadRecord.bytes =
    (s.ring side.peer).history.reads.flatMap ReadReturn.bytes
  ok : ∀ side, ∀ r ∈ s.reads side, r.Ok
  removed : s.segment.removed = true → s.segment.openCount = 0
  tested : s.segment.openCount = 0 → s.segment.removed = true ∨ ∃ u ∈ s.users, u.pc = .test

theorem usersInv_init {buffer : Side → Buffer} (hc : ∀ side, 1 ≤ (buffer side).capacity)
    (hb : ∀ side, (buffer side).capacity ≤ MAX_CAPACITY) :
    UsersInv (fun side => (buffer side).capacity) (.init buffer) where
  ring := fun side => ringInv_init (hc side) (hb side)
  count := rfl
  present := by
    intro u hu operation hcall
    simp only [Users.init, List.mem_cons, List.not_mem_nil, or_false] at hu
    rcases hu with rfl | rfl <;> rfl
  turns := by
    intro side operation
    cases side <;> cases operation <;>
      simp [Users.init, User.calls, User.inCall]
  transfer := by
    intro side operation
    cases operation <;> cases side <;>
      simp [Users.init, transferIn, RingState.init, User.moves, User.transfers]
  bytes := fun _ => rfl
  ok := fun _ r hr => by cases hr
  removed := by simp [Users.init, setupConnection, createConnection]
  tested := by simp [Users.init, setupConnection, createConnection]

section Counts

variable {users : List User} {i : Nat} {u u' : User}

theorem User.calls_of_moves {side : Side} {operation : Operation}
    (h : u.moves side operation = true) : u.calls side operation = true := by
  simp only [User.moves, decide_eq_true_eq] at h
  obtain ⟨hside, htransfer⟩ := h
  simp only [User.calls, decide_eq_true_eq]
  refine ⟨hside, ?_⟩
  cases operation with
  | read =>
    have hreading : u.reading = .transferring := of_decide_eq_true htransfer
    simp [User.inCall, hreading]
  | write =>
    have hwriting : u.writing = .transferring := of_decide_eq_true htransfer
    simp [User.inCall, hwriting]

theorem turns_set (hi : users[i]? = some u) (hside : u'.side = u.side)
    (hturns : ∀ side operation, users.countP (User.calls side operation) ≤ 1)
    (hcall : ∀ operation, u'.inCall operation = true → u.inCall operation = true ∨
      users.countP (User.calls u.side operation) = 0) (side : Side) (operation : Operation) :
    (users.set i u').countP (User.calls side operation) ≤ 1 := by
  have hset := @Parties.countP_set _ users i u u' (User.calls side operation) hi
  have hle := hturns side operation
  by_cases hmine : u.side = side
  · subst hmine
    cases hnew : u'.inCall operation with
    | false =>
      have : u'.calls u.side operation = false := by simp [User.calls, hnew]
      rw [this] at hset
      simp only [Bool.false_eq_true, if_false] at hset
      omega
    | true =>
      have hcalls : u'.calls u.side operation = true := by simp [User.calls, hnew, hside]
      rw [if_pos hcalls] at hset
      rcases hcall operation hnew with hold | hnone
      · have : u.calls u.side operation = true := by simp [User.calls, hold]
        rw [if_pos this] at hset
        omega
      · omega
  · have hold : u.calls side operation = false := by simp [User.calls, hmine]
    have hnew : u'.calls side operation = false := by simp [User.calls, hside, hmine]
    rw [hold, hnew] at hset
    simp only [Bool.false_eq_true, if_false] at hset
    omega

/-- The transfer of a process that is in a call is the only one of its kind. -/
theorem moves_alone (hi : users[i]? = some u)
    (hturns : ∀ side operation, users.countP (User.calls side operation) ≤ 1)
    {operation : Operation} (hcall : u.inCall operation = true) :
    users.countP (User.moves u.side operation) = if u.moves u.side operation then 1 else 0 := by
  have hcalls : u.calls u.side operation = true := by simp [User.calls, hcall]
  have hpos := List.countP_pos_iff.mpr ⟨u, List.mem_of_getElem? hi, hcalls⟩
  have hle := hturns u.side operation
  have hother := (Parties.countP_eq_one_iff hi hcalls).mp (by omega)
  refine Parties.countP_alone hi ?_
  intro j v hj hv
  by_contra hmoves
  have hv' := User.calls_of_moves (Bool.not_eq_false _ |>.mp hmoves)
  rw [hother j v hj hv] at hv'
  cases hv'

theorem transfer_set {ring ring' : Side → RingState} (hi : users[i]? = some u)
    (hside : u'.side = u.side)
    (hturns : ∀ side operation, users.countP (User.calls side operation) ≤ 1)
    (htransfer : ∀ side operation,
      transferIn ring side operation ↔ 0 < users.countP (User.moves side operation))
    (hown : ∀ operation, u.inCall operation = true ∧
        (transferIn ring' u.side operation ↔ u'.transfers operation = true) ∨
      u'.transfers operation = u.transfers operation ∧
        (transferIn ring' u.side operation ↔ transferIn ring u.side operation))
    (hpeer : ∀ operation, transferIn ring' u.side.peer operation ↔
      transferIn ring u.side.peer operation) (side : Side) (operation : Operation) :
    transferIn ring' side operation ↔
      0 < (users.set i u').countP (User.moves side operation) := by
  have hset := @Parties.countP_set _ users i u u' (User.moves side operation) hi
  rcases Side.eq_or_eq_peer side u.side with rfl | rfl
  · rcases hown operation with ⟨hcall, hiff⟩ | ⟨hsame, hiff⟩
    · have halone := moves_alone hi hturns hcall
      have hnew : u'.moves u.side operation = u'.transfers operation := by
        simp [User.moves, hside]
      rw [hnew] at hset
      rw [hiff]
      cases hmoves : u'.transfers operation with
      | true =>
        rw [hmoves, if_pos rfl] at hset
        exact iff_of_true rfl (by omega)
      | false =>
        rw [hmoves, if_neg Bool.false_ne_true] at hset
        exact iff_of_false Bool.false_ne_true (by omega)
    · have hmoves : u'.moves u.side operation = u.moves u.side operation := by
        simp [User.moves, hside, hsame]
      rw [hiff, htransfer]
      rw [hmoves] at hset
      omega
  · have hold : u.moves u.side.peer operation = false := by
      simp [User.moves, u.side.peer_ne.symm]
    have hnew : u'.moves u.side.peer operation = false := by
      simp [User.moves, hside, u.side.peer_ne.symm]
    rw [hold, hnew] at hset
    rw [hpeer, htransfer]
    omega

end Counts

namespace UsersInv

variable {capacity : Side → Nat} {s t : Users} {i : Nat} {u : User}

theorem ringSet (h : UsersInv capacity s) {side : Side} {ring : RingState}
    (hr : RingInv (capacity side) ring) (b : Side) :
    RingInv (capacity b) (Function.update s.ring side ring b) := by
  rcases Side.eq_or_eq_peer b side with rfl | rfl
  · rw [Function.update_self]
    exact hr
  · rw [Function.update_of_ne side.peer_ne]
    exact h.ring _

/-- Process `i` has changed, but not whether it has the connection. -/
theorem keep (h : UsersInv capacity s) (hi : s.users[i]? = some u) (u' : User)
    (hpc : u'.pc = u.pc) (hcall : ∀ operation, u'.inCall operation = true → u'.pc.holds = true) :
    s.segment.openCount = (((s.users.set i u').map User.share).sum + s.lost : Nat) ∧
      (∀ v ∈ s.users.set i u', ∀ operation, v.inCall operation = true → v.pc.holds = true) ∧
      (s.segment.openCount = 0 →
        s.segment.removed = true ∨ ∃ v ∈ s.users.set i u', v.pc = .test) := by
  have hshare : u'.share = u.share := by rw [User.share, User.share, hpc]
  have hsum := @Parties.sum_map_set _ s.users i u u' User.share hi
  have hcount := h.count
  refine ⟨by omega, Parties.forall_mem_set h.present hcall, fun hzero => ?_⟩
  refine (h.tested hzero).imp_right ?_
  rintro ⟨v, hv, htest⟩
  obtain ⟨j, hj⟩ := List.mem_iff_getElem?.mp hv
  by_cases hji : j = i
  · subst hji
    obtain rfl := Option.some.inj (hi.symm.trans hj)
    exact ⟨u', List.mem_of_getElem? (Parties.getElem?_set_self hi), hpc.trans htest⟩
  · exact ⟨v, List.mem_of_getElem? ((Parties.getElem?_set_other hji).mpr hj), htest⟩

theorem reader (h : UsersInv capacity s) (hi : s.users[i]? = some u)
    (hcall : u.reading ≠ .idle) (pc : ThreadPc Nat) (ring : RingState) (log : List ReadRecord)
    (hring : RingInv (capacity u.side.peer) ring)
    (hwriter : ring.writer = (s.ring u.side.peer).writer)
    (hpc : ring.reader ≠ .idle ↔ pc = .transferring)
    (hbytes : ring.history.reads.flatMap ReadReturn.bytes =
      (s.ring u.side.peer).history.reads.flatMap ReadReturn.bytes ++
        log.flatMap ReadRecord.bytes)
    (hok : ∀ r ∈ log, r.Ok) :
    UsersInv capacity { s with
      ring := Function.update s.ring u.side.peer ring
      users := s.users.set i { u with reading := pc }
      reads := Function.update s.reads u.side (s.reads u.side ++ log) } := by
  have hmem := List.mem_of_getElem? hi
  have hin : u.inCall .read = true := by simpa [User.inCall] using hcall
  have hholds : u.pc.holds = true := h.present u hmem .read hin
  obtain ⟨hcount, hpresent, htested⟩ :=
    h.keep hi { u with reading := pc } rfl fun _ _ => hholds
  have hne : u.side ≠ u.side.peer := u.side.peer_ne.symm
  refine ⟨h.ringSet hring, hcount, hpresent, ?_, ?_, ?_, ?_, h.removed, htested⟩
  · refine turns_set hi rfl h.turns fun operation hnew => ?_
    cases operation with
    | read => exact .inl hin
    | write => exact .inl hnew
  · refine transfer_set hi rfl h.turns h.transfer (fun operation => ?_) fun operation => ?_
    · cases operation with
      | read => exact .inl ⟨hin, by simpa [transferIn, User.transfers] using hpc⟩
      | write =>
        refine .inr ⟨rfl, ?_⟩
        simp only [transferIn]
        rw [Function.update_of_ne hne]
    · cases operation with
      | read =>
        simp only [transferIn, Side.peer_peer]
        rw [Function.update_of_ne hne]
      | write =>
        simp only [transferIn]
        rw [Function.update_self, hwriter]
  · intro side
    rcases Side.eq_or_eq_peer side u.side with rfl | rfl
    · dsimp only
      rw [Function.update_self, Function.update_self, List.flatMap_append, h.bytes, hbytes]
    · dsimp only
      rw [Function.update_of_ne u.side.peer_ne, Side.peer_peer, Function.update_of_ne hne]
      have := h.bytes u.side.peer
      rwa [Side.peer_peer] at this
  · intro side r hr
    rcases Side.eq_or_eq_peer side u.side with rfl | rfl
    · dsimp only at hr
      rw [Function.update_self] at hr
      exact (List.mem_append.mp hr).elim (h.ok _ r) (hok r)
    · dsimp only at hr
      rw [Function.update_of_ne u.side.peer_ne] at hr
      exact h.ok _ r hr

theorem writer (h : UsersInv capacity s) (hi : s.users[i]? = some u)
    (hcall : u.writing ≠ .idle) (pc : ThreadPc (List UInt8)) (ring : RingState)
    (writes : Side → List (List UInt8 × Int)) (hring : RingInv (capacity u.side) ring)
    (hreader : ring.reader = (s.ring u.side).reader)
    (hreads : ring.history.reads = (s.ring u.side).history.reads)
    (hpc : ring.writer ≠ .idle ↔ pc = .transferring) :
    UsersInv capacity { s with
      ring := Function.update s.ring u.side ring
      users := s.users.set i { u with writing := pc }
      writes } := by
  have hmem := List.mem_of_getElem? hi
  have hin : u.inCall .write = true := by simpa [User.inCall] using hcall
  have hholds : u.pc.holds = true := h.present u hmem .write hin
  obtain ⟨hcount, hpresent, htested⟩ :=
    h.keep hi { u with writing := pc } rfl fun _ _ => hholds
  refine ⟨h.ringSet hring, hcount, hpresent, ?_, ?_, ?_, h.ok, h.removed, htested⟩
  · refine turns_set hi rfl h.turns fun operation hnew => ?_
    cases operation with
    | read => exact .inl hnew
    | write => exact .inl hin
  · refine transfer_set hi rfl h.turns h.transfer (fun operation => ?_) fun operation => ?_
    · cases operation with
      | read =>
        refine .inr ⟨rfl, ?_⟩
        simp only [transferIn]
        rw [Function.update_of_ne u.side.peer_ne]
      | write => exact .inl ⟨hin, by simpa [transferIn, User.transfers] using hpc⟩
    · cases operation with
      | read =>
        simp only [transferIn, Side.peer_peer]
        rw [Function.update_self, hreader]
      | write =>
        simp only [transferIn]
        rw [Function.update_of_ne u.side.peer_ne]
  · intro side
    dsimp only
    rw [h.bytes]
    rcases Side.eq_or_eq_peer side.peer u.side with hs | hs
    · rw [hs, Function.update_self, hreads]
    · rw [hs, Function.update_of_ne u.side.peer_ne]

theorem transfers_iff (h : UsersInv capacity s) (hi : s.users[i]? = some u)
    {operation : Operation} (hcall : u.inCall operation = true) :
    transferIn s.ring u.side operation ↔ u.transfers operation = true := by
  rw [h.transfer, moves_alone hi h.turns hcall]
  simp only [User.moves, true_and, Bool.decide_eq_true]
  cases u.transfers operation <;> simp

theorem afterRead (h : UsersInv capacity s) (hi : s.users[i]? = some u)
    (hcall : u.reading ≠ .idle) {ring : RingState} (hring : RingInv (capacity u.side.peer) ring)
    (hmoved : ReaderMoved (capacity u.side.peer) (s.ring u.side.peer) ring)
    (hwriter : ring.writer = (s.ring u.side.peer).writer) :
    UsersInv capacity (s.afterRead i u ring) := by
  rcases hmoved with ⟨hbusy, hreads⟩ | ⟨r, hidle, hreads, hsound, hlen⟩
  · have heq : s.afterRead i u ring = { s with
        ring := Function.update s.ring u.side.peer ring
        users := s.users.set i { u with reading := .transferring }
        reads := Function.update s.reads u.side (s.reads u.side ++ []) } := by
      unfold Users.afterRead
      split
      · exact absurd ‹_› hbusy
      · rw [List.append_nil, Function.update_eq_self]
        rfl
    rw [heq]
    refine h.reader hi hcall _ _ _ hring hwriter (iff_of_true hbusy rfl) ?_ fun r hr => by cases hr
    rw [hreads, List.flatMap_nil, List.append_nil]
  · have hlt : r.bytes.length < 2 ^ 63 := by
      have := hring.bound
      unfold MAX_CAPACITY at this
      omega
    have heq : s.afterRead i u ring = { s with
        ring := Function.update s.ring u.side.peer ring
        users := s.users.set i { u with reading := .idle }
        reads := Function.update s.reads u.side (s.reads u.side ++
          [{ requested := r.requested, peerGone := false, available := r.available
             returned := ssizeT r.returned, bytes := r.bytes }]) } := by
      simp [Users.afterRead, Users.logRead, Users.setUser, hidle, hreads]
    rw [heq]
    refine h.reader hi hcall _ _ _ hring hwriter (by simp [hidle]) ?_ ?_
    · rw [hreads, List.flatMap_append]
      rfl
    · intro record hrec
      rw [List.mem_singleton.mp hrec]
      exact hsound.record hlt

theorem afterWrite (h : UsersInv capacity s) (hi : s.users[i]? = some u)
    (hcall : u.writing ≠ .idle) {ring : RingState} (hring : RingInv (capacity u.side) ring)
    (hreader : ring.reader = (s.ring u.side).reader)
    (hreads : ring.history.reads = (s.ring u.side).history.reads)
    (hreturned : ring.writer = .idle → ring.history.writes ≠ []) :
    UsersInv capacity (s.afterWrite i u ring) := by
  unfold Users.afterWrite
  dsimp only
  split
  · rename_i w hidle _
    exact h.writer hi hcall _ _ _ hring hreader hreads (by simp [hidle])
  · rename_i hnot
    refine h.writer hi hcall _ _ _ hring hreader hreads (iff_of_true (fun hidle => ?_) rfl)
    exact hnot _ hidle (List.getLast?_eq_some_getLast (hreturned hidle))

theorem userStep_inv (h : UsersInv capacity s) (hi : s.users[i]? = some u) {operation : Operation}
    (hs : userStep s i u operation = some t) : UsersInv capacity t := by
  cases operation with
  | read =>
    cases hpc : u.reading with
    | idle =>
      simp only [userStep, hpc] at hs
      cases hs
    | check requestedBytes =>
      have hcall : u.reading ≠ .idle := by simp [hpc]
      simp only [userStep, hpc] at hs
      split at hs
      · obtain rfl := Option.some.inj hs
        have hin : u.inCall .read = true := by simp [User.inCall, hpc]
        have hidle : ¬(s.ring u.side.peer).reader ≠ .idle := by
          have hiff := h.transfers_iff hi hin
          simpa [transferIn, User.transfers, hpc] using hiff
        have hlog := h.reader hi hcall .idle (s.ring u.side.peer)
          [{ requested := requestedBytes, peerGone := true }] (h.ring _) rfl
          (iff_of_false hidle (by simp)) (by simp) (by
            intro r hr
            rw [List.mem_singleton.mp hr]
            exact ⟨fun _ => ⟨rfl, rfl⟩, by simp⟩)
        rw [Function.update_eq_self] at hlog
        exact hlog
      · obtain ⟨ring, hread, rfl⟩ := Option.map_eq_some_iff.mp hs
        obtain ⟨hmoved, hwriter⟩ := readerCall_moved hread
        exact h.afterRead hi hcall ((h.ring _).readerCall_inv hread) hmoved hwriter
    | transferring =>
      simp only [userStep, hpc] at hs
      obtain ⟨ring, hread, rfl⟩ := Option.map_eq_some_iff.mp hs
      obtain ⟨hmoved, hwriter⟩ := readerStep_moved (h.ring _) hread
      exact h.afterRead hi (by simp [hpc]) ((h.ring _).readerStep_inv hread) hmoved hwriter
  | write =>
    cases hpc : u.writing with
    | idle =>
      simp only [userStep, hpc] at hs
      cases hs
    | check data =>
      have hcall : u.writing ≠ .idle := by simp [hpc]
      simp only [userStep, hpc] at hs
      split at hs
      · obtain rfl := Option.some.inj hs
        have hin : u.inCall .write = true := by simp [User.inCall, hpc]
        have hidle : ¬(s.ring u.side).writer ≠ .idle := by
          have hiff := h.transfers_iff hi hin
          simpa [transferIn, User.transfers, hpc] using hiff
        have hlog := h.writer hi hcall .idle (s.ring u.side)
          (Function.update s.writes u.side (s.writes u.side ++ [(data, 0)])) (h.ring _) rfl
          rfl (iff_of_false hidle (by simp))
        rw [Function.update_eq_self] at hlog
        exact hlog
      · obtain ⟨ring, hwrite, rfl⟩ := Option.map_eq_some_iff.mp hs
        obtain ⟨hreader, hreads⟩ := writerCall_reader hwrite
        exact h.afterWrite hi hcall ((h.ring _).writerCall_inv hwrite) hreader hreads
          (begun_returned (writerCall_cases hwrite).2.2.2.2)
    | transferring =>
      simp only [userStep, hpc] at hs
      obtain ⟨ring, hwrite, rfl⟩ := Option.map_eq_some_iff.mp hs
      have haccess := writerStep_access hwrite
      exact h.afterWrite hi (by simp [hpc]) ((h.ring _).writerStep_inv hwrite) haccess.reader
        haccess.reads haccess.returned

theorem share_le (h : UsersInv capacity s) (hi : s.users[i]? = some u) :
    (u.share : Int) ≤ s.segment.openCount := by
  have hsum := @Parties.sum_map_set _ s.users i u { u with pc := .gone } User.share hi
  have hgone : User.share { u with pc := .gone } = 0 := rfl
  have hcount := h.count
  omega

theorem begin_call (h : UsersInv capacity s) (hi : s.users[i]? = some u) {u' : User}
    (hside : u'.side = u.side) (hpc : u'.pc = u.pc) (hholds : u.pc.holds = true)
    (htransfers : ∀ operation, u'.transfers operation = u.transfers operation)
    (hcall : ∀ operation, u'.inCall operation = true → u.inCall operation = true ∨
      s.users.countP (User.calls u.side operation) = 0) :
    UsersInv capacity (s.setUser i u') := by
  obtain ⟨hcount, hpresent, htested⟩ := h.keep hi u' hpc fun _ _ => hpc ▸ hholds
  exact ⟨h.ring, hcount, hpresent, turns_set hi hside h.turns hcall,
    transfer_set hi hside h.turns h.transfer (fun operation => .inr ⟨htransfers operation, Iff.rfl⟩)
      fun _ => Iff.rfl, h.bytes, h.ok, h.removed, htested⟩

/-- Process `i` makes a step that is not of a call. -/
theorem life (h : UsersInv capacity s) (hi : s.users[i]? = some u) (pc : UserPc)
    (segment : Segment) (lost : Nat)
    (hcount : segment.openCount + u.share + s.lost =
      s.segment.openCount + User.share { u with pc } + lost)
    (hpresent : ∀ operation, u.inCall operation = true → pc.holds = true)
    (hremoved : segment.removed = true → segment.openCount = 0)
    (htested : segment.openCount = 0 →
      segment.removed = true ∨ ∃ v ∈ s.users.set i { u with pc }, v.pc = .test) :
    UsersInv capacity { s with segment, lost, users := s.users.set i { u with pc } } := by
  have hsum := @Parties.sum_map_set _ s.users i u { u with pc } User.share hi
  have hold := h.count
  refine ⟨h.ring, ?_, Parties.forall_mem_set h.present hpresent, ?_, ?_, h.bytes, h.ok, hremoved,
    htested⟩
  · show segment.openCount = (((s.users.set i { u with pc }).map User.share).sum + lost : Nat)
    omega
  · exact turns_set hi rfl h.turns fun operation hnew => .inl hnew
  · exact transfer_set hi rfl h.turns h.transfer (fun _ => .inr ⟨rfl, Iff.rfl⟩) fun _ => Iff.rfl

/-- The child of a fork takes the place of a lost one. -/
theorem child {n : Nat} (side : Side) (h : UsersInv capacity { s with lost := n + 1 }) :
    UsersInv capacity { s with lost := n, users := s.users ++ [{ side }] } := by
  have hshare : User.share { side } = 1 := rfl
  refine ⟨h.ring, ?_, ?_, ?_, ?_, h.bytes, h.ok, h.removed, fun hzero => ?_⟩
  · have hcount : s.segment.openCount = ((s.users.map User.share).sum + (n + 1) : Nat) := h.count
    dsimp only
    rw [List.map_append, List.sum_append, List.map_singleton, List.sum_singleton, hshare]
    omega
  · intro u hu operation hcall
    rcases List.mem_append.mp hu with hu | hu
    · exact h.present u hu operation hcall
    · rw [List.mem_singleton.mp hu]
      rfl
  · intro other operation
    have hidle : User.calls other operation { side } = false := by
      cases operation <;> simp [User.calls, User.inCall]
    dsimp only
    rw [List.countP_append, List.countP_singleton, hidle]
    exact h.turns other operation
  · intro other operation
    have hidle : User.moves other operation { side } = false := by
      cases operation <;> simp [User.moves, User.transfers]
    dsimp only
    rw [List.countP_append, List.countP_singleton, hidle]
    exact h.transfer other operation
  · refine (h.tested hzero).imp_right ?_
    rintro ⟨u, hu, htest⟩
    exact ⟨u, List.mem_append_left _ hu, htest⟩

theorem not_removed (h : UsersInv capacity s) (hlive : 0 < s.segment.openCount) :
    s.segment.removed = false := by
  by_contra hremoved
  rw [h.removed (Bool.not_eq_false _ |>.mp hremoved)] at hlive
  exact absurd hlive (lt_irrefl 0)

theorem countP_calls {operation : Operation} (hi : s.users[i]? = some u)
    (hc : ∀ v ∈ s.users, s.users[i]?.map User.side = some v.side → v.inCall operation = false) :
    s.users.countP (User.calls u.side operation) = 0 := by
  refine Parties.countP_eq_zero_iff.mpr fun v hv => ?_
  by_cases hside : v.side = u.side
  · have hidle := hc v hv (by rw [hi, Option.map_some, hside])
    simp [User.calls, hidle]
  · simp [User.calls, hside]

/-- The decrement and the increment of `open_count` are made before the segment is removed. -/
theorem counted (h : UsersInv capacity s) (hlive : 0 < s.segment.openCount) {segment : Segment}
    (hs : segment.removed = s.segment.removed) (hremoved : segment.removed = true) :
    segment.openCount = 0 := by
  rw [hs, h.not_removed hlive] at hremoved
  cases hremoved

theorem beginRead (h : UsersInv capacity s) (hi : s.users[i]? = some u) (requestedBytes : Nat)
    (hholds : u.pc.holds = true) (hidle : u.reading = .idle)
    (hc : TakesTurns s (.read i requestedBytes)) :
    UsersInv capacity (s.setUser i { u with reading := .check requestedBytes }) := by
  refine h.begin_call hi rfl rfl hholds ?_ ?_
  · intro operation
    cases operation with
    | read => simp [User.transfers, hidle]
    | write => rfl
  · intro operation hnew
    cases operation with
    | read =>
      refine .inr (countP_calls hi fun v hv hside => ?_)
      simp [User.inCall, hc v hv hside]
    | write => exact .inl hnew

theorem beginWrite (h : UsersInv capacity s) (hi : s.users[i]? = some u) (data : List UInt8)
    (hholds : u.pc.holds = true) (hidle : u.writing = .idle) (hc : TakesTurns s (.write i data)) :
    UsersInv capacity (s.setUser i { u with writing := .check data }) := by
  refine h.begin_call hi rfl rfl hholds ?_ ?_
  · intro operation
    cases operation with
    | read => rfl
    | write => simp [User.transfers, hidle]
  · intro operation hnew
    cases operation with
    | read => exact .inl hnew
    | write =>
      refine .inr (countP_calls hi fun v hv hside => ?_)
      simp [User.inCall, hc v hv hside]

theorem fork (h : UsersInv capacity s) (hi : s.users[i]? = some u) (hpc : u.pc = .running) :
    UsersInv capacity
      ({ s with segment := connectionAddUser s.segment }.setUser i { u with pc := .forking }) := by
  have hshare := h.share_le hi
  have hone : u.share = 1 := by rw [User.share, hpc]
  refine h.life hi .forking (connectionAddUser s.segment) s.lost ?_ (fun _ _ => rfl)
    (h.counted (by omega) rfl) ?_
  · rw [hone]
    show s.segment.openCount + 1 + 1 + s.lost = s.segment.openCount + 2 + s.lost
    omega
  · intro hzero
    have hzero' : s.segment.openCount + 1 = 0 := hzero
    omega

/-- A failed fork leaves its count behind. -/
theorem forkFails (h : UsersInv capacity s) (hi : s.users[i]? = some u) (hpc : u.pc = .forking) :
    UsersInv capacity { s.setUser i { u with pc := .running } with lost := s.lost + 1 } := by
  have hshare := h.share_le hi
  have htwo : u.share = 2 := by rw [User.share, hpc]
  refine h.life hi .running s.segment (s.lost + 1) ?_ (fun _ _ => rfl) h.removed ?_
  · rw [htwo]
    show s.segment.openCount + 2 + s.lost = s.segment.openCount + 1 + ((s.lost + 1 : Nat) : Int)
    omega
  · intro hzero
    omega

theorem close (h : UsersInv capacity s) (hi : s.users[i]? = some u) (hpc : u.pc = .running)
    (hc : TakesTurns s (.close i)) :
    UsersInv capacity
      ({ s with segment := s.segment.fetchSub }.setUser i { u with pc := .test }) := by
  have hshare := h.share_le hi
  have hone : u.share = 1 := by rw [User.share, hpc]
  obtain ⟨hreading, hwriting⟩ := hc u hi
  refine h.life hi .test s.segment.fetchSub s.lost ?_ ?_ (h.counted (by omega) rfl) ?_
  · rw [hone]
    show s.segment.openCount - 1 + 1 + s.lost = s.segment.openCount + 0 + s.lost
    omega
  · intro operation hcall
    cases operation with
    | read => simp [User.inCall, hreading] at hcall
    | write => simp [User.inCall, hwriting] at hcall
  · intro _
    exact .inr ⟨_, List.mem_of_getElem? (Parties.getElem?_set_self hi), rfl⟩

/-- The load of `disconnect`: the last one removes the segment. -/
theorem gone (h : UsersInv capacity s) (hi : s.users[i]? = some u) (hpc : u.pc = .test)
    {segment : Segment} (hcount : segment.openCount = s.segment.openCount)
    (hremoved : segment.removed = true → segment.openCount = 0)
    (htested : segment.openCount = 0 → segment.removed = true) :
    UsersInv capacity { s.setUser i { u with pc := .gone } with segment } := by
  have hnone : u.share = 0 := by rw [User.share, hpc]
  refine h.life hi .gone segment s.lost ?_ ?_ hremoved fun hzero => .inl (htested hzero)
  · rw [hnone, hcount]
    rfl
  · intro operation hcall
    have hholds := h.present u (List.mem_of_getElem? hi) operation hcall
    rw [hpc] at hholds
    cases hholds

theorem userAction_inv (h : UsersInv capacity s) (hi : s.users[i]? = some u) {a : UsersAction}
    (ha : a.user = i) (hc : TakesTurns s a) (hs : userAction s i u a = some t) :
    UsersInv capacity t := by
  cases a with
  | read j requestedBytes =>
    obtain rfl : j = i := ha
    obtain ⟨hready, hs⟩ := Option.ite_none_right_eq_some.mp hs
    obtain rfl := Option.some.inj hs
    exact h.beginRead hi requestedBytes hready.1 hready.2 hc
  | write j data =>
    obtain rfl : j = i := ha
    obtain ⟨hready, hs⟩ := Option.ite_none_right_eq_some.mp hs
    obtain rfl := Option.some.inj hs
    exact h.beginWrite hi data hready.1 hready.2 hc
  | fork j =>
    obtain ⟨hpc, hs⟩ := Option.ite_none_right_eq_some.mp hs
    obtain rfl := Option.some.inj hs
    exact h.fork hi hpc
  | forked j succeeds =>
    obtain ⟨hpc, hs⟩ := Option.ite_none_right_eq_some.mp hs
    obtain rfl := Option.some.inj hs
    cases succeeds with
    | true => exact child u.side (h.forkFails hi hpc)
    | false => exact h.forkFails hi hpc
  | close j =>
    obtain rfl : j = i := ha
    obtain ⟨hpc, hs⟩ := Option.ite_none_right_eq_some.mp hs
    obtain rfl := Option.some.inj hs
    exact h.close hi hpc hc
  | test j =>
    obtain ⟨hpc, hs⟩ := Option.ite_none_right_eq_some.mp hs
    obtain rfl := Option.some.inj hs
    split
    · rename_i hzero
      exact h.gone hi hpc rfl (fun _ => hzero) fun _ => rfl
    · rename_i hlive
      exact h.gone hi hpc rfl h.removed fun hzero => absurd hzero hlive
  | step j operation => exact h.userStep_inv hi hs

theorem usersStep_inv (h : UsersInv capacity s) {a : UsersAction} (hc : TakesTurns s a)
    (hs : usersStep s a = some t) : UsersInv capacity t := by
  obtain ⟨u, hi, hs⟩ := Option.bind_eq_some_iff.mp hs
  exact h.userAction_inv hi rfl hc hs

theorem step_isSome (h : UsersInv capacity s) (hi : s.users[i]? = some u) {operation : Operation}
    (hcall : u.inCall operation = true) : (usersStep s (.step i operation)).isSome := by
  have htransfer := h.transfers_iff hi hcall
  show (s.users[i]?.bind fun u => userStep s i u operation).isSome
  rw [hi, Option.bind_some]
  cases operation with
  | read =>
    cases hpc : u.reading with
    | idle => simp [User.inCall, hpc] at hcall
    | check requestedBytes =>
      have hidle : (s.ring u.side.peer).reader = .idle := by
        simpa [transferIn, User.transfers, hpc] using htransfer
      simp only [userStep, hpc]
      split
      · rfl
      · simp only [Option.isSome_map, readerCall, hidle]
        split <;> rfl
    | transferring =>
      simp only [userStep, hpc, Option.isSome_map]
      exact (h.ring _).readerStep_isSome (htransfer.mpr (by simp [User.transfers, hpc]))
  | write =>
    cases hpc : u.writing with
    | idle => simp [User.inCall, hpc] at hcall
    | check data =>
      have hidle : (s.ring u.side).writer = .idle := by
        simpa [transferIn, User.transfers, hpc] using htransfer
      simp only [userStep, hpc]
      split
      · rfl
      · simp only [Option.isSome_map, writerCall, hidle]
        split <;> rfl
    | transferring =>
      simp only [userStep, hpc, Option.isSome_map]
      exact (h.ring _).writerStep_isSome (htransfer.mpr (by simp [User.transfers, hpc]))

theorem share_eq_zero {v : User} : v.share = 0 ↔ v.pc.holds = false := by
  cases hpc : v.pc <;> simp [User.share, UserPc.holds, hpc]

/-- **Who is told that its peer has died.** -/
theorem peerDied_iff (h : UsersInv capacity s) (hi : s.users[i]? = some u)
    (hholds : u.pc.holds = true) :
    connectionPeerDied s.segment = true ↔ u.pc = .running ∧ s.lost = 0 ∧
      ∀ j v, j ≠ i → s.users[j]? = some v → v.pc.holds = false := by
  have hsum := @Parties.sum_map_set _ s.users i u { u with pc := .gone } User.share hi
  have hgone : User.share { u with pc := .gone } = 0 := rfl
  have hcount := h.count
  have hrest : ((s.users.set i { u with pc := .gone }).map User.share).sum = 0 ↔
      ∀ j v, j ≠ i → s.users[j]? = some v → v.pc.holds = false := by
    simp only [List.sum_eq_zero_iff_forall_eq_nat, List.forall_mem_map]
    constructor
    · intro hall j v hj hv
      exact share_eq_zero.mp
        (hall v (List.mem_of_getElem? ((Parties.getElem?_set_other hj).mpr hv)))
    · intro hall v hv
      obtain ⟨j, hj⟩ := List.mem_iff_getElem?.mp hv
      exact Parties.forall_getElem?_set (q := fun _ v => v.share = 0) hi hgone
        (fun j v hj hv => share_eq_zero.mpr (hall j v hj hv)) j v hj
  rw [← hrest, connectionPeerDied, beq_iff_eq]
  cases hpc : u.pc with
  | running =>
    have hone : u.share = 1 := by rw [User.share, hpc]
    simp only [true_and]
    omega
  | forking =>
    have htwo : u.share = 2 := by rw [User.share, hpc]
    refine iff_of_false (by omega) ?_
    rintro ⟨hrunning, -⟩
    cases hrunning
  | test | gone => simp [UserPc.holds, hpc] at hholds

end UsersInv

/-! ### Every run in which the calls take turns -/

/-- What the processes of a connection can rely on. -/
structure Shared (s : Users) : Prop where
  /-- The readers of a side have got a prefix of what the writers of the other have written. -/
  bytes : ∀ side, (s.reads side).flatMap ReadRecord.bytes <+: (s.ring side.peer).accepted
  ok : ∀ side, ∀ r ∈ s.reads side, r.Ok
  /-- No call waits for another process of its side. -/
  next : ∀ (i : Nat) (u : User) (operation : Operation), s.users[i]? = some u →
    u.inCall operation = true → (usersStep s (.step i operation)).isSome
  peerDied : ∀ (i : Nat) (u : User), s.users[i]? = some u → u.pc.holds = true →
    (connectionPeerDied s.segment = true ↔ u.pc = .running ∧ s.lost = 0 ∧
      ∀ (j : Nat) (v : User), j ≠ i → s.users[j]? = some v → v.pc.holds = false)
  removed : s.segment.removed = true → ∀ u ∈ s.users, u.pc.holds = false
  /-- The segment outlives its processes if a fork has failed, and otherwise does not. -/
  last : (∀ u ∈ s.users, u.pc = .gone) → (s.segment.removed = true ↔ s.lost = 0)

theorem UsersInv.shared {capacity : Side → Nat} {s : Users} (h : UsersInv capacity s) :
    Shared s where
  bytes := by
    intro side
    rw [h.bytes]
    exact (List.prefix_append _ _).trans (h.ring side.peer).safe.delivered
  ok := h.ok
  next := fun _ _ _ hi hcall => h.step_isSome hi hcall
  peerDied := fun _ _ hi hholds => h.peerDied_iff hi hholds
  removed := by
    intro hremoved u hu
    have hzero := h.removed hremoved
    obtain ⟨i, hi⟩ := List.mem_iff_getElem?.mp hu
    have hle := h.share_le hi
    exact UsersInv.share_eq_zero.mp (by omega)
  last := by
    intro hall
    have hcount := h.count
    have hnone : (s.users.map User.share).sum = 0 := by
      rw [List.sum_eq_zero_iff_forall_eq_nat, List.forall_mem_map]
      intro u hu
      rw [User.share, hall u hu]
    constructor
    · intro hremoved
      have hzero := h.removed hremoved
      omega
    · intro hlost
      refine (h.tested (by omega)).resolve_right ?_
      rintro ⟨u, hu, htest⟩
      rw [hall u hu] at htest
      cases htest

/-- **Any number of processes share a connection.**  If the reads of each side take turns, and its
writes, each side together reads what the other together writes, every call has a next access, and
a process is told that its peer has died exactly if it alone has the connection and no fork has
failed. -/
theorem users_share {buffer : Side → Buffer} {as : List UsersAction} {s : Users}
    (hc : ∀ side, 1 ≤ (buffer side).capacity) (hb : ∀ side, (buffer side).capacity ≤ MAX_CAPACITY)
    (hturns : Run.Meets usersStep TakesTurns (.init buffer) as)
    (hrun : Run.run usersStep (.init buffer) as = some s) : Shared s :=
  (Run.meets_induct (I := UsersInv fun side => (buffer side).capacity)
    (fun _ _ _ h hc hs => h.usersStep_inv hc hs) (usersInv_init hc hb) hturns hrun).shared

/-- Buffers of four bytes. -/
private def fourByteBuffers : Side → Buffer := fun _ => .fresh (fun _ => 0) 4 ⟨fun _ => false⟩

/-- The server forks and closes the connection, while the client writes; the child reads, and
is still in its answer when the client closes. -/
private def servedByChild : List UsersAction :=
  [.fork 0, .forked 0 true, .write 1 [7, 8, 9]] ++ List.replicate 6 (.step 1 .write) ++
    [.close 0, .read 2 3] ++ List.replicate 4 (.step 1 .write) ++ [.test 0] ++
    List.replicate 9 (.step 2 .read) ++ [.write 2 [1], .step 2 .write, .close 1, .test 1] ++
    List.replicate 9 (.step 2 .write) ++ [.read 2 1, .step 2 .read]

theorem users_share_at :
    ∃ s, Run.run usersStep (.init fourByteBuffers) servedByChild = some s ∧ Shared s := by
  have hrun : (Run.run usersStep (.init fourByteBuffers) servedByChild).isSome = true := by
    decide +kernel
  obtain ⟨s, hs⟩ := Option.isSome_iff_exists.mp hrun
  have hturns : Run.Meets usersStep TakesTurns (.init fourByteBuffers) servedByChild := by
    decide +kernel
  exact ⟨s, hs, users_share (fun _ => show 1 ≤ 4 by decide)
    (fun _ => show 4 ≤ MAX_CAPACITY by decide) hturns hs⟩

end Tssx
