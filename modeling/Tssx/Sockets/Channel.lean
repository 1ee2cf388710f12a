import Tssx.Connection.Logs
import Tssx.Sockets

/-!
# One channel for a connection

Two processes with a descriptor each for the same connection, and any sequence of the calls
that the library means to serve: `write`, `read`, and the others with the flags that it knows
and one buffer.  What a call moves goes through the ring buffers of the connection or, if it
ends in an overridden function, through the socket underneath.

`one_channel_iff`: every call is served by the ring, and the bytes arrive in the order in which
they were accepted, in exactly the runs in which no call has an address.
-/

namespace Tssx

/-! ### The channel -/

/-- The flags `0` and `MSG_NOSIGNAL`. -/
abbrev IgnoredFlags := { flags : Int // ignoresFlags flags = true }

/-- The calls that send, without descriptor and buffer. -/
inductive SendForm
  | write
  | send (flags : IgnoredFlags)
  | sendto (flags : IgnoredFlags) (destAddr : Option Nat) (addrlen : Nat)
  | sendmsg (flags : IgnoredFlags) (location : Nat) (msgName : Option Nat) (msgNamelen : Nat)

inductive ReceiveForm
  | read
  | recv (flags : IgnoredFlags)
  | recvfrom (flags : IgnoredFlags) (srcAddr : Option Nat) (addrlen : Option Nat)
  | recvmsg (flags : IgnoredFlags) (location : Nat) (msgName : Option Nat) (msgNamelen : Nat)

/-- The address argument. -/
def SendForm.address : SendForm → Option Nat
  | .write | .send _ => none
  | .sendto _ address _ | .sendmsg _ _ address _ => address

def ReceiveForm.address : ReceiveForm → Option Nat
  | .read | .recv _ => none
  | .recvfrom _ address _ | .recvmsg _ _ address _ => address

def SendForm.call (side : Side) (bridge : Bridge) (fd : Int) (buffer length : Nat) :
    SendForm → Option (Bridge × Service)
  | .write => Sockets.write side bridge fd buffer length
  | .send flags => Sockets.send side bridge fd buffer length flags
  | .sendto flags destAddr addrlen =>
    Sockets.sendto side bridge fd buffer length flags destAddr addrlen
  | .sendmsg flags location msgName msgNamelen =>
    Sockets.sendmsg side bridge fd
      { location, msgName, msgNamelen, msgIov := [{ iovBase := buffer, iovLen := length }] } flags

def ReceiveForm.call (side : Side) (bridge : Bridge) (fd : Int) (buffer length : Nat) :
    ReceiveForm → Option (Bridge × Service)
  | .read => Sockets.read side bridge fd buffer length
  | .recv flags => Sockets.recv side bridge fd buffer length flags
  | .recvfrom flags srcAddr addrlen =>
    Sockets.recvfrom side bridge fd buffer length flags srcAddr addrlen
  | .recvmsg flags location msgName msgNamelen =>
    Sockets.recvmsg side bridge fd
      { location, msgName, msgNamelen, msgIov := [{ iovBase := buffer, iovLen := length }] } flags

/-- Two processes with a descriptor each for the same connection. -/
structure Endpoints where
  fd : Side → CInt
  bridge : Side → Bridge
  connection : Nat
  inv : ∀ side, BridgeInv (bridge side)
  session : ∀ side, (bridge side).sessionTable.sessions[sizeT (fd side)]? =
    some { connection := some connection }

/-- A call that was made, and what served it. -/
structure Served where
  side : Side
  operation : Operation
  service : Service
  deriving DecidableEq

structure Channel where
  sides : Sides
  /-- The bytes on their way through the socket, by sender. -/
  socket : Side → List UInt8
  served : List Served
  /-- The bytes accepted by the finished send calls of a side, in order. -/
  sent : Side → List UInt8
  /-- The bytes returned by its receive calls. -/
  received : Side → List UInt8

def Channel.init (buffer : Side → Buffer) : Channel where
  sides := .init buffer
  socket := fun _ => []
  served := []
  sent := fun _ => []
  received := fun _ => []

/-- `count` is what the overridden function returns, if it is called. -/
inductive ChannelAction
  | send (side : Side) (form : SendForm) (buffer : Nat) (data : List UInt8) (count : Int)
  | receive (side : Side) (form : ReceiveForm) (buffer requestedBytes : Nat) (count : Int)
  /-- The next access of a call, or of the `close` of a side. -/
  | step (side : Side)
  | close (side : Side)

def ChannelAction.address : ChannelAction → Option Nat
  | .send _ form _ _ _ => form.address
  | .receive _ form _ _ _ => form.address
  | .step _ | .close _ => none

/-- A step in the connection; calls that return extend the two streams. -/
def Channel.advance (s : Channel) (sides : Sides) : Channel :=
  { s with
    sides
    sent := fun side =>
      s.sent side ++ ((sides.writes side).drop (s.sides.writes side).length).flatMap acceptedOf
    received := fun side =>
      s.received side ++
        ((sides.reads side).drop (s.sides.reads side).length).flatMap ReadRecord.bytes }

def Channel.serve (s : Channel) (side : Side) (operation : Operation) (service : Service) :
    Channel :=
  { s with served := s.served ++ [{ side, operation, service }] }

/-- The socket has accepted the first bytes of a call. -/
def Channel.realSend (s : Channel) (side : Side) (bytes : List UInt8) : Channel :=
  { s with
    socket := Function.update s.socket side (s.socket side ++ bytes)
    sent := Function.update s.sent side (s.sent side ++ bytes) }

def Channel.realReceive (s : Channel) (side : Side) (n : Nat) : Channel :=
  { s with
    socket := Function.update s.socket side.peer ((s.socket side.peer).drop n)
    received := Function.update s.received side
      (s.received side ++ (s.socket side.peer).take n) }

/-- The ring buffer of the connection that serves an operation of a side. -/
def ringOf (side : Side) : Operation → Side
  | .write => side
  | .read => side.peer

/-- The bridges have been set up, and a call does not change them.  A call that went to the wrong
buffer would be recorded without moving anything. -/
def channelStep (e : Endpoints) (s : Channel) : ChannelAction → Option Channel
  | .send side form buffer data count =>
    (form.call side (e.bridge side) (e.fd side) buffer data.length).bind fun (_, service) =>
      match service with
      | .ring _ ring operation _ _ =>
        if ring = ringOf side .write ∧ operation = .write then
          (sidesStep s.sides (.write side data)).map fun sides =>
            (s.advance sides).serve side .write service
        else some (s.serve side .write service)
      | .real _ =>
        if s.sides.pc side = .ready then
          some ((s.realSend side (data.take count.toNat)).serve side .write service)
        else none
  | .receive side form buffer requestedBytes count =>
    (form.call side (e.bridge side) (e.fd side) buffer requestedBytes).bind fun (_, service) =>
      match service with
      | .ring _ ring operation _ _ =>
        if ring = ringOf side .read ∧ operation = .read then
          (sidesStep s.sides (.read side requestedBytes)).map fun sides =>
            (s.advance sides).serve side .read service
        else some (s.serve side .read service)
      | .real _ =>
        if s.sides.pc side = .ready then
          some ((s.realReceive side (min count.toNat requestedBytes)).serve side .read service)
        else none
  | .step side => (sidesStep s.sides (.step side)).map s.advance
  | .close side => (sidesStep s.sides (.close side)).map s.advance

/-- The call was served by the ring of its direction. -/
def Served.ByRing (e : Endpoints) (call : Served) : Prop :=
  ∃ pointer size, call.service =
    .ring e.connection (ringOf call.side call.operation) call.operation pointer size

/-- Every call was served by the ring of its direction, and what a side has received is a prefix
of what the other has accepted, with the call in progress. -/
structure Channel.One (e : Endpoints) (s : Channel) : Prop where
  served : ∀ call ∈ s.served, call.ByRing e
  ordered : ∀ side, s.received side.peer <+:
    s.sent side ++ WriterPc.accepted (s.sides.ring side).writer

/-! ### Where a call ends up -/

variable {e : Endpoints} {s t : Channel} {side : Side} {capacity : Side → Nat}

/-- A call goes to the ring if it has no address, and to an overridden function if it has. -/
def Routed (e : Endpoints) (side : Side) (operation : Operation) (pointer size : Nat)
    (address : Option Nat) (result : Option (Bridge × Service)) : Prop :=
  ∃ bridge service, result = some (bridge, service) ∧
    if address = none then
      service = .ring e.connection (ringOf side operation) operation pointer size
    else ∃ real, service = .real real

theorem Endpoints.transfer (e : Endpoints) (side : Side) (ring : Nat → Service) (real : RealCall) :
    ∃ bridge, connectionTransfer ring real (e.bridge side) (e.fd side) =
      some (bridge, ring e.connection) := by
  obtain ⟨bridge, hlookup, -⟩ := bridgeLookup_eq_some (e.inv side) (e.session side)
  exact ⟨bridge, by simp [connectionTransfer, hlookup]⟩

theorem write_routed (e : Endpoints) (side : Side) (buffer length : Nat) :
    Routed e side .write buffer length none
      (Sockets.write side (e.bridge side) (e.fd side) buffer length) := by
  obtain ⟨bridge, htransfer⟩ := e.transfer side
    (fun connection => .ring connection side .write buffer length)
    (.write (e.fd side) buffer length)
  exact ⟨bridge, _, htransfer, rfl⟩

theorem read_routed (e : Endpoints) (side : Side) (buffer length : Nat) :
    Routed e side .read buffer length none
      (Sockets.read side (e.bridge side) (e.fd side) buffer length) := by
  obtain ⟨bridge, htransfer⟩ := e.transfer side
    (fun connection => .ring connection side.peer .read buffer length)
    (.read (e.fd side) buffer length)
  exact ⟨bridge, _, htransfer, rfl⟩

theorem SendForm.routed (e : Endpoints) (side : Side) (form : SendForm) (buffer length : Nat) :
    Routed e side .write buffer length form.address
      (form.call side (e.bridge side) (e.fd side) buffer length) := by
  have hwrite := write_routed e side buffer length
  have hsend : ∀ flags : IgnoredFlags, Routed e side .write buffer length none
      (Sockets.send side (e.bridge side) (e.fd side) buffer length flags) := by
    intro flags
    rwa [Sockets.send, if_pos flags.2]
  have hsendto : ∀ (flags : IgnoredFlags) address addrlen,
      Routed e side .write buffer length address
        (Sockets.sendto side (e.bridge side) (e.fd side) buffer length flags address addrlen) := by
    intro flags address addrlen
    cases address with
    | none => exact hsend flags
    | some address => exact ⟨_, _, rfl, _, rfl⟩
  cases form with
  | write => exact hwrite
  | send flags => exact hsend flags
  | sendto flags address addrlen => exact hsendto flags address addrlen
  | sendmsg flags location msgName msgNamelen => exact hsendto flags msgName msgNamelen

theorem ReceiveForm.routed (e : Endpoints) (side : Side) (form : ReceiveForm)
    (buffer length : Nat) :
    Routed e side .read buffer length form.address
      (form.call side (e.bridge side) (e.fd side) buffer length) := by
  have hread := read_routed e side buffer length
  have hrecv : ∀ flags : IgnoredFlags, Routed e side .read buffer length none
      (Sockets.recv side (e.bridge side) (e.fd side) buffer length flags) := by
    intro flags
    rwa [Sockets.recv, if_pos flags.2]
  have hrecvfrom : ∀ (flags : IgnoredFlags) address addrlen,
      Routed e side .read buffer length address
        (Sockets.recvfrom side (e.bridge side) (e.fd side) buffer length flags address
          addrlen) := by
    intro flags address addrlen
    cases address with
    | none => exact hrecv flags
    | some address => exact ⟨_, _, rfl, _, rfl⟩
  cases form with
  | read => exact hread
  | recv flags => exact hrecv flags
  | recvfrom flags address addrlen => exact hrecvfrom flags address addrlen
  | recvmsg flags location msgName msgNamelen => exact hrecvfrom flags msgName _

theorem Routed.bind {operation : Operation} {pointer size : Nat} {address : Option Nat}
    {result : Option (Bridge × Service)} {next : Bridge × Service → Option Channel}
    (h : Routed e side operation pointer size address result) (hs : result.bind next = some t) :
    (address = none ∧ ∃ bridge,
      next (bridge, .ring e.connection (ringOf side operation) operation pointer size) = some t) ∨
    (address ≠ none ∧ ∃ bridge real, next (bridge, .real real) = some t) := by
  obtain ⟨bridge, service, rfl, hservice⟩ := h
  rw [Option.bind_some] at hs
  by_cases haddress : address = none
  · rw [if_pos haddress] at hservice
    subst hservice
    exact .inl ⟨haddress, bridge, hs⟩
  · rw [if_neg haddress] at hservice
    obtain ⟨real, rfl⟩ := hservice
    exact .inr ⟨haddress, bridge, real, hs⟩

/-- **What a step can do**: the connection moves, and a call that begins is served by the ring;
or a call with an address is served by an overridden function. -/
theorem channelStep_cases {a : ChannelAction} (h : channelStep e s a = some t) :
    (a.address = none ∧ ∃ b sides, sidesStep s.sides b = some sides ∧
      (t = s.advance sides ∨ ∃ side operation service,
        t = (s.advance sides).serve side operation service ∧
          Served.ByRing e { side, operation, service })) ∨
    (a.address ≠ none ∧ ∃ side operation real,
      t.served = s.served ++ [{ side, operation, service := .real real }]) := by
  cases a with
  | send side form buffer data count =>
    rcases (form.routed e side buffer data.length).bind h with
      ⟨haddress, bridge, h⟩ | ⟨haddress, bridge, real, h⟩
    · simp only [and_self, if_true] at h
      obtain ⟨sides, hsides, rfl⟩ := Option.map_eq_some_iff.mp h
      exact .inl ⟨haddress, _, sides, hsides, .inr ⟨_, _, _, rfl, _, _, rfl⟩⟩
    · dsimp only at h
      split at h
      · obtain rfl := Option.some.inj h
        exact .inr ⟨haddress, _, _, _, rfl⟩
      · cases h
  | receive side form buffer requestedBytes count =>
    rcases (form.routed e side buffer requestedBytes).bind h with
      ⟨haddress, bridge, h⟩ | ⟨haddress, bridge, real, h⟩
    · simp only [and_self, if_true] at h
      obtain ⟨sides, hsides, rfl⟩ := Option.map_eq_some_iff.mp h
      exact .inl ⟨haddress, _, sides, hsides, .inr ⟨_, _, _, rfl, _, _, rfl⟩⟩
    · dsimp only at h
      split at h
      · obtain rfl := Option.some.inj h
        exact .inr ⟨haddress, _, _, _, rfl⟩
      · cases h
  | step side | close side =>
    obtain ⟨sides, hsides, rfl⟩ := Option.map_eq_some_iff.mp h
    exact .inl ⟨rfl, _, sides, hsides, .inl rfl⟩

/-! ### Runs without addresses -/

/-- Everything has gone through the rings: the streams are what the logs of the sides say. -/
structure ChannelInv (e : Endpoints) (capacity : Side → Nat) (s : Channel) : Prop where
  sides : SidesInv capacity s.sides
  served : ∀ call ∈ s.served, call.ByRing e
  sent : ∀ side, s.sent side = (s.sides.writes side).flatMap acceptedOf
  received : ∀ side, s.received side = (s.sides.reads side).flatMap ReadRecord.bytes
  finished : ∀ side, (s.sides.ring side).finished = s.sent side

theorem channelInv_init {buffer : Side → Buffer} (hc : ∀ side, 1 ≤ (buffer side).capacity)
    (hb : ∀ side, (buffer side).capacity ≤ MAX_CAPACITY) :
    ChannelInv e (fun side => (buffer side).capacity) (.init buffer) where
  sides := sidesInv_init hc hb
  served := fun call hcall => by cases hcall
  sent := fun _ => rfl
  received := fun _ => rfl
  finished := fun _ => rfl

namespace ChannelInv

theorem advance (h : ChannelInv e capacity s) {b : SidesAction} {sides : Sides}
    (hs : sidesStep s.sides b = some sides) : ChannelInv e capacity (s.advance sides) := by
  have hgrow := sidesStep_logs h.sides hs
  refine ⟨h.sides.sidesStep_inv hs, h.served, ?_, ?_, ?_⟩
  · intro side
    obtain ⟨ws, -, hws, -⟩ := hgrow side
    simp only [Channel.advance, hws, h.sent side, List.drop_left, List.flatMap_append]
  · intro side
    obtain ⟨-, rs, -, hrs, -⟩ := hgrow side
    simp only [Channel.advance, hrs, h.received side, List.drop_left, List.flatMap_append]
  · intro side
    obtain ⟨ws, -, hws, -, hfinished⟩ := hgrow side
    simp only [Channel.advance, hws, hfinished, h.finished side, List.drop_left]

theorem step (h : ChannelInv e capacity s) {a : ChannelAction} (ha : a.address = none)
    (hs : channelStep e s a = some t) : ChannelInv e capacity t := by
  rcases channelStep_cases hs with ⟨-, b, sides, hsides, hcases⟩ | ⟨haddress, -⟩
  · have hinv := h.advance hsides
    rcases hcases with rfl | ⟨side, operation, service, rfl, hring⟩
    · exact hinv
    · refine { hinv with served := ?_ }
      intro call hcall
      rcases List.mem_append.mp hcall with hold | hnew
      · exact hinv.served call hold
      · rw [List.mem_singleton.mp hnew]
        exact hring
  · exact absurd ha haddress

theorem one (h : ChannelInv e capacity s) : s.One e where
  served := h.served
  ordered := by
    intro side
    have hread := (h.sides.side side.peer).bytes
    rw [Side.peer_peer] at hread
    have hdelivered := (h.sides.ring side).safe.delivered
    rw [RingState.delivered, ← hread, ← h.received side.peer, RingState.accepted,
      show (s.sides.ring side).history.writes.flatMap _ = s.sent side from h.finished side]
      at hdelivered
    exact (List.prefix_append _ _).trans hdelivered

end ChannelInv

/-! ### The calls with an address -/

theorem served_run {as : List ChannelAction} (h : Run.run (channelStep e) s as = some t) :
    s.served <+: t.served := by
  refine Run.run_induct (I := fun u => s.served <+: u.served) ?_ (List.prefix_refl _) h
  intro u a v hu hstep
  rcases channelStep_cases hstep with ⟨-, b, sides, -, rfl | ⟨_, _, _, rfl, -⟩⟩ | ⟨-, _, _, _, hv⟩
  · exact hu
  · exact hu.trans (List.prefix_append _ _)
  · rw [hv]
    exact hu.trans (List.prefix_append _ _)

theorem address_none {as : List ChannelAction} (h : Run.run (channelStep e) s as = some t)
    (hserved : ∀ call ∈ t.served, call.ByRing e) : ∀ a ∈ as, a.address = none := by
  induction as generalizing s with
  | nil => exact fun a ha => absurd ha List.not_mem_nil
  | cons a as ih =>
    obtain ⟨m, hm, hrest⟩ := Run.run_cons.mp h
    intro b hb
    rcases List.mem_cons.mp hb with rfl | hb
    · rcases channelStep_cases hm with ⟨haddress, -⟩ | ⟨-, side, operation, real, hreal⟩
      · exact haddress
      · have hmem : (⟨side, operation, .real real⟩ : Served) ∈ t.served := by
          apply (served_run hrest).subset
          rw [hreal]
          exact List.mem_append_right _ List.mem_cons_self
        obtain ⟨_, _, hring⟩ := hserved _ hmem
        cases hring
    · exact ih hrest b hb

/-- **One channel for a connection**: in every run of the calls of two sides, all calls are
served by the rings and the bytes arrive in order if and only if no call has an address. -/
theorem one_channel_iff {buffer : Side → Buffer} (hc : ∀ side, 1 ≤ (buffer side).capacity)
    (hb : ∀ side, (buffer side).capacity ≤ MAX_CAPACITY) {as : List ChannelAction}
    (h : Run.run (channelStep e) (.init buffer) as = some t) :
    t.One e ↔ ∀ a ∈ as, a.address = none := by
  constructor
  · intro hone
    exact address_none h hone.served
  · intro hnone
    have hmeets : Run.Meets (channelStep e) (fun _ a => a.address = none) (.init buffer) as :=
      Run.meets_of_forall fun a ha _ => hnone a ha
    have hinv : ChannelInv e (fun side => (buffer side).capacity) t :=
      Run.meets_induct (fun _ _ _ hi ha hs => hi.step ha hs) (channelInv_init hc hb) hmeets h
    exact hinv.one

/-- Descriptor 5 in both processes. -/
private def pair : Endpoints where
  fd := fun _ => .ofNat 5
  bridge := fun _ =>
    { isInitialized := true, connectionCount := 1,
      sessionTable := SessionTable.empty.set 5 { connection := some 0 } }
  connection := 0
  inv := fun _ => { count := by decide +kernel, initial := nofun }
  session := fun _ => by decide +kernel

/-- Rings of two bytes, in non-blocking mode. -/
private def twoBytes : Side → Buffer := fun _ => .fresh (fun _ => 0) 2 ⟨fun _ => true⟩

/-- A byte from the client to the server, with two forms of the calls. -/
private def plain : List ChannelAction :=
  .send .client (.sendto ⟨MSG_NOSIGNAL, by decide⟩ none 0) 64 [7] 0 ::
    List.replicate 10 (.step .client) ++
      .receive .server (.recvmsg ⟨0, by decide⟩ 128 none 0) 64 1 0 ::
        List.replicate 9 (.step .server)

theorem one_channel_iff_at :
    ∃ t, Run.run (channelStep pair) (.init twoBytes) plain = some t ∧ t.received .server = [7] ∧
      t.One pair := by
  have hrun : (Run.run (channelStep pair) (.init twoBytes) plain).any
      (fun t => t.received .server = [7]) = true := by decide +kernel
  obtain ⟨t, ht, hreceived⟩ := (Option.any_eq_true _ _).mp hrun
  refine ⟨t, ht, of_decide_eq_true hreceived, ?_⟩
  have hpos : ∀ side, 1 ≤ (twoBytes side).capacity := fun _ => Nat.le_add_left 1 1
  have hmax : ∀ side, (twoBytes side).capacity ≤ MAX_CAPACITY :=
    fun _ => show 2 ≤ MAX_CAPACITY by decide
  exact (one_channel_iff hpos hmax ht).mpr (by decide)

/-- **A receive with an address looks at the socket**, where the byte in the ring is not. -/
theorem channel_split :
    ∃ t, Run.run (channelStep pair) (.init twoBytes)
        (.send .client .write 64 [7] 0 :: List.replicate 10 (.step .client) ++
          [.receive .server (.recvfrom ⟨0, by decide⟩ (some 256) (some 272)) 64 1 1]) = some t ∧
      t.sent .client = [7] ∧ t.received .server = [] ∧ ¬ t.One pair := by
  have hrun : (Run.run (channelStep pair) (.init twoBytes)
      (.send .client .write 64 [7] 0 :: List.replicate 10 (.step .client) ++
        [.receive .server (.recvfrom ⟨0, by decide⟩ (some 256) (some 272)) 64 1 1])).any
      (fun t => t.sent .client = [7] ∧ t.received .server = [] ∧
        (⟨.server, .read, .real (.recvfrom 5 64 1 0 (some 256) (some 272))⟩ : Served) ∈
          t.served) = true := by decide +kernel
  obtain ⟨t, ht, hbytes⟩ := (Option.any_eq_true _ _).mp hrun
  obtain ⟨hsent, hreceived, hmem⟩ := of_decide_eq_true hbytes
  refine ⟨t, ht, hsent, hreceived, ?_⟩
  intro hone
  obtain ⟨_, _, hring⟩ := hone.served _ hmem
  cases hring

end Tssx
