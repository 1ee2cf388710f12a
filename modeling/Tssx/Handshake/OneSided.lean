import Tssx.Handshake.Hang

/-!
# A server with TSSX and a client without

Nothing in the set-up asks whether the other side uses TSSX.  A client need not be without the
library for that: its path may be missing from `USE_TSSX`, or its `connect` may not block and
return with `EINPROGRESS`, so that `_setup_tssx` is never called.

`only_server`: such a client is given the four bytes of the segment number, and nothing else; the
first byte that it sends is taken for the one of `_synchronize_with_server`, and all others stay in
the socket; and the server, which is alone in the segment, has every read and write return 0 at
once.
-/

namespace Tssx

structure OneSided where
  life : Life
  /-- What the client has written to its socket, and read from it. -/
  written : List UInt8
  got : List UInt8

inductive OneSidedAction
  /-- A step of either program inside the library. -/
  | life (a : LifeAction)
  | write (bytes : List UInt8) (n : Nat)
  | read (size n : Nat)

def OneSided.setHandshake (s : OneSided) (handshake : Handshake) : OneSided :=
  { s with life := { s.life with handshake } }

def oneSidedStep (buffer : Side → Buffer) (s : OneSided) : OneSidedAction → Option OneSided
  | .life a => (lifeStep buffer s.life a).map fun life => { s with life }
  | .write bytes n =>
    (s.life.handshake.write .client bytes n).map fun handshake =>
      { s.setHandshake handshake with written := s.written ++ bytes.take n }
  | .read size n =>
    (s.life.handshake.read .client size n).map fun (handshake, bytes) =>
      { s.setHandshake handshake with got := s.got ++ bytes }

/-- The server has accepted the client, whose call has returned. -/
def OneSided.init (segments : Nat → Option Segment) (bridge : Side → Bridge) (fd : Side → Int)
    (descriptors : Int → Bool) (connections : Nat → Sides) : OneSided where
  life :=
    { handshake :=
        { Handshake.begin segments bridge fd descriptors with client := .returned SUCCESS }
      connections }
  written := []
  got := []

/-- What comes of it. -/
structure OnlyServer (buffer : Side → Buffer) (s : OneSided) : Prop where
  got : s.got ≠ [] → ∃ id, s.life.handshake.created = some id ∧ s.got <+: intBytes id
  written : ∃ k ≤ 1, s.life.handshake.stream .server = s.written.drop k
  /-- `accept` waits for the client. -/
  accepted : ∀ id, s.life.handshake.session .server = some { connection := some id } →
    s.written ≠ [] ∨ s.life.handshake.closed .client = true
  calls : ∀ id, s.life.handshake.session .server = some { connection := some id } →
    (∀ r ∈ (s.life.connections id).reads .server, r.returned = 0 ∧ r.bytes = []) ∧
      ∀ w ∈ (s.life.connections id).writes .server, w.2 = 0
  /-- What the server writes does not come into the buffers. -/
  rings : ∀ id, s.life.handshake.session .server = some { connection := some id } →
    (s.life.connections id).ring = fun side => .init (buffer side)
  /-- The segment does not outlive the server's use of it. -/
  closed : ∀ id segment, s.life.handshake.session .server = some { connection := some id } →
    (s.life.connections id).pc .server = .closed → s.life.handshake.segments id = some segment →
      segment.removed = true

/-! ### The server's side of the connection -/

/-- A connection that only the server has. -/
structure Lone (buffer : Side → Buffer) (s : Sides) : Prop where
  rings : s.ring = fun side => .init (buffer side)
  count : s.segment.openCount = (s.pc .server).share
  reading : ∀ peerGone, s.pc .server ≠ .reading peerGone
  writing : s.pc .server ≠ .writing
  reads : ∀ r ∈ s.reads .server, r.returned = 0 ∧ r.bytes = []
  writes : ∀ w ∈ s.writes .server, w.2 = 0
  closed : s.pc .server = .closed → s.segment.removed = true

theorem lone_init (buffer : Side → Buffer) :
    Lone buffer { Sides.init buffer with segment := createConnection } where
  rings := rfl
  count := rfl
  reading := by simp [Sides.init]
  writing := by simp [Sides.init]
  reads := fun r hr => by cases hr
  writes := fun w hw => by cases hw
  closed := by simp [Sides.init]

namespace Lone

variable {buffer : Side → Buffer} {s t : Sides}

theorem call (h : Lone buffer s) {pc : SidePc} (hshare : pc.share = 1)
    (hpc : (∀ peerGone, pc ≠ .reading peerGone) ∧ pc ≠ .writing ∧ pc ≠ .closed)
    (hs : s.call .server pc = some t) : Lone buffer t := by
  unfold Sides.call at hs
  split at hs
  · rename_i hready
    obtain rfl := Option.some.inj hs
    have hcount := h.count
    rw [hready] at hcount
    have hpc' : (s.goto .server pc).pc .server = pc := by simp [Sides.goto]
    refine ⟨h.rings, ?_, ?_, ?_, h.reads, h.writes, ?_⟩
    · rw [hpc', hshare]
      exact hcount
    · rw [hpc']
      exact hpc.1
    · rw [hpc']
      exact hpc.2.1
    · rw [hpc']
      exact fun hclosed => absurd hclosed hpc.2.2
  · cases hs

theorem peerDied (h : Lone buffer s) (hlive : s.gone .server = false) :
    connectionPeerDied s.segment = true := by
  have hlive' : (s.pc .server).gone = false := hlive
  rw [connectionPeerDied, h.count, SidePc.share, hlive']
  rfl

theorem last (h : Lone buffer s) (hpc : s.pc .server = .test)
    (hs : sideStep s .server = some t) : Lone buffer t := by
  have hzero : s.segment.openCount = 0 := by
    rw [h.count, hpc]
    rfl
  simp only [sideStep, hpc, if_pos hzero] at hs
  obtain rfl := Option.some.inj hs
  refine ⟨h.rings, ?_, by simp [Sides.goto], by simp [Sides.goto], h.reads, h.writes,
    fun _ => rfl⟩
  simp only [Sides.goto, Function.update_self]
  exact hzero

theorem step (h : Lone buffer s) {a : SidesAction} (ha : a.side = .server)
    (hs : sidesStep s a = some t) : Lone buffer t := by
  cases a with
  | read side _ | write side _ | close side =>
    obtain rfl : side = .server := ha
    exact h.call rfl ⟨by simp, by simp, by simp⟩ hs
  | step side =>
    obtain rfl : side = .server := ha
    by_cases htest : s.pc .server = .test
    · exact h.last htest hs
    cases sideStep_cases hs with
    | readGone requestedBytes hpc =>
      have hcount := h.count
      rw [hpc] at hcount
      refine ⟨h.rings, hcount, by simp [Sides.goto], by simp [Sides.goto], fun r hr => ?_,
        h.writes, by simp [Sides.goto]⟩
      simp only [Sides.goto, Sides.logRead, Function.update_self] at hr
      rcases List.mem_append.mp hr with hr | hr
      · exact h.reads r hr
      · rw [List.mem_singleton.mp hr]
        exact ⟨rfl, rfl⟩
    | writeGone data hpc =>
      have hcount := h.count
      rw [hpc] at hcount
      refine ⟨h.rings, hcount, by simp [Sides.goto], by simp [Sides.goto], h.reads,
        fun w hw => ?_, by simp [Sides.goto]⟩
      simp only [Sides.goto, Sides.logWrite, Function.update_self] at hw
      rcases List.mem_append.mp hw with hw | hw
      · exact h.writes w hw
      · rw [List.mem_singleton.mp hw]
    | readCall _ _ hpc hlive | writeCall _ _ hpc hlive =>
      rw [h.peerDied (by rw [Sides.gone, hpc]; rfl)] at hlive
      cases hlive
    | readStep peerGone _ hpc => exact absurd hpc (h.reading peerGone)
    | writeStep _ hpc => exact absurd hpc h.writing
    | subtract hpc =>
      have hcount := h.count
      rw [hpc] at hcount
      refine ⟨h.rings, ?_, by simp [Sides.goto], by simp [Sides.goto], h.reads, h.writes,
        by simp [Sides.goto]⟩
      simp only [Sides.goto, Function.update_self, Segment.fetchSub, hcount]
      rfl
    | destroy hpc | leave hpc => exact absurd hpc htest

end Lone

/-! ### The invariant -/

/-- The segment that `accept` works on. -/
def ServerPc.number : ServerPc → Option Nat
  | .send id | .synchronize id | .insert id => some id
  | _ => none

structure OneSidedInv (buffer : Side → Buffer) (s : OneSided) : Prop where
  client : s.life.handshake.client = .returned SUCCESS
  accepting : s.life.handshake.server ≠ .accept
  bridge : BridgeInv (s.life.handshake.bridge .server)
  plain : s.life.handshake.session .client = some {}
  free : s.life.handshake.server.ended = false → s.life.handshake.session .server = some {}
  connected : ∀ id, s.life.handshake.server.number = some id ∨
    s.life.handshake.session .server = some { connection := some id } →
      s.life.handshake.created = some id ∧
        ∃ sides, s.life.connection id = some sides ∧ Lone buffer sides
  sent : s.got ++ s.life.handshake.stream .client = [] ∨ ∃ id,
    s.life.handshake.created = some id ∧ s.got ++ s.life.handshake.stream .client <+: intBytes id
  unsent : s.life.handshake.server.unsent = true → s.got ++ s.life.handshake.stream .client = []
  received : s.life.handshake.stream .server = s.written.drop (s.life.handshake.consumed .server)
  consumed : s.life.handshake.consumed .server ≤ min 1 s.written.length
  unsynchronized : s.life.handshake.server.unsynchronized = true →
    s.life.handshake.consumed .server = 0
  returned : ∀ id, s.life.handshake.server = .insert id ∨
    s.life.handshake.session .server = some { connection := some id } →
      s.life.handshake.consumed .server = 1 ∨ s.life.handshake.closed .client = true

theorem oneSidedInv_init {buffer : Side → Buffer} {segments : Nat → Option Segment}
    {bridge : Side → Bridge} {fd : Side → Int} {descriptors : Int → Bool}
    {connections : Nat → Sides} (hb : ∀ side, BridgeInv (bridge side))
    (hfree : ∀ side, (bridge side).sessionTable.sessions[sizeT (fd side)]? = some {}) :
    OneSidedInv buffer (.init segments bridge fd descriptors connections) := by
  have hnone : ∀ id, (bridge .server).sessionTable.sessions[sizeT (fd .server)]? ≠
      some { connection := some id } := by
    intro id hid
    rw [hfree .server] at hid
    cases hid
  refine ⟨rfl, fun h => (by cases h), hb .server, hfree .client, fun _ => hfree .server, ?_,
    .inl rfl, fun _ => rfl, rfl, Nat.zero_le _, fun _ => rfl, ?_⟩
  · rintro id (hid | hid)
    · cases hid
    · exact absurd hid (hnone id)
  · rintro id (hid | hid)
    · cases hid
    · exact absurd hid (hnone id)

namespace OneSidedInv

variable {s t : OneSided} {h : Handshake} {a : HandshakeAction} {buffer : Side → Buffer}

theorem unjoined (hs : OneSidedInv buffer s)
    (hrunning : s.life.handshake.server.ended = false) (id : Nat) :
    s.life.handshake.session .server ≠ some { connection := some id } := by
  intro hid
  rw [hs.free hrunning] at hid
  cases hid

theorem goto (hs : OneSidedInv buffer s) (pc : ServerPc) (hpc : pc ≠ .accept)
    (hended : pc.ended = false → s.life.handshake.server.ended = false)
    (hnumber : ∀ id, pc.number = some id → s.life.handshake.server.number = some id)
    (hunsent : pc.unsent = true → s.life.handshake.server.unsent = true)
    (hsync : pc.unsynchronized = true → s.life.handshake.server.unsynchronized = true)
    (hinsert : ∀ id, pc ≠ .insert id) :
    OneSidedInv buffer (s.setHandshake { s.life.handshake with server := pc }) where
  client := hs.client
  accepting := hpc
  bridge := hs.bridge
  plain := hs.plain
  free := fun hrunning => hs.free (hended hrunning)
  connected := fun id hid => hs.connected id (hid.imp_left (hnumber id))
  sent := hs.sent
  unsent := fun h => hs.unsent (hunsent h)
  received := hs.received
  consumed := hs.consumed
  unsynchronized := fun h => hs.unsynchronized (hsync h)
  returned := by
    rintro id (hid | hid)
    · exact absurd hid (hinsert id)
    · exact hs.returned id (.inr hid)

theorem setBridge (hs : OneSidedInv buffer s) {bridge : Bridge} {session : Session}
    (hlookup : bridgeLookup (s.life.handshake.bridge .server) (s.life.handshake.fd .server) =
      some (bridge, session)) :
    OneSidedInv buffer (s.setHandshake (s.life.handshake.setBridge .server bridge)) := by
  obtain ⟨hb, htable, -⟩ := bridgeLookup_table hs.bridge hlookup
  have hsame : (s.life.handshake.setBridge .server bridge).session .server =
      s.life.handshake.session .server := by
    simp only [Handshake.session, Handshake.setBridge, Function.update_self, htable]
  refine ⟨hs.client, hs.accepting, ?_, ?_, fun hrunning => ?_, fun id hid => ?_, hs.sent, hs.unsent,
    hs.received, hs.consumed, hs.unsynchronized, fun id hid => ?_⟩
  · simp only [OneSided.setHandshake, Handshake.setBridge, Function.update_self]
    exact hb
  · exact (s.life.handshake.session_setBridge_peer .client bridge).trans hs.plain
  · exact hsame.trans (hs.free hrunning)
  · exact hs.connected id (hid.imp_right hsame.symm.trans)
  · exact hs.returned id (hid.imp_right hsame.symm.trans)

theorem failed (hs : OneSidedInv buffer s) :
    OneSidedInv buffer (s.setHandshake { s.life.handshake with server := .returned ERROR }) :=
  hs.goto (.returned ERROR) (by simp) (fun hc => by cases hc) (fun id hid => by cases hid)
    (fun hc => by cases hc) (fun hc => by cases hc) (by simp)

theorem usage (hs : OneSidedInv buffer s) (hpc : s.life.handshake.server = .usage)
    (answer : Int) : OneSidedInv buffer (s.setHandshake { s.life.handshake with
      server :=
        if answer = ERROR then .returned ERROR
        else if answer = 0 then .returned (s.life.handshake.fd .server) else .options }) := by
  have hgoto : ∀ pc : ServerPc, pc ≠ .accept → pc.number = none → (∀ id, pc ≠ .insert id) →
      OneSidedInv buffer (s.setHandshake { s.life.handshake with server := pc }) := by
    intro pc haccept hnumber hinsert
    refine hs.goto pc haccept (fun _ => by rw [hpc]; rfl) (fun id hid => ?_)
      (fun _ => by rw [hpc]; rfl) (fun _ => by rw [hpc]; rfl) hinsert
    cases hnumber.symm.trans hid
  refine hgoto _ ?_ ?_ ?_
  · split
    · simp
    · split <;> simp
  · split
    · rfl
    · split <;> rfl
  · intro id
    split
    · simp
    · split <;> simp

theorem created {id : Nat} (hs : OneSidedInv buffer s)
    (hpc : s.life.handshake.server = .create) :
    OneSidedInv buffer { s with
      life := s.life.setUp buffer (.create true id)
        { s.life.handshake.setSegment id createConnection with
          server := .send id, created := some id } } := by
  have hrunning : s.life.handshake.server.ended = false := by rw [hpc]; rfl
  have hempty := hs.unsent (by rw [hpc]; rfl)
  refine ⟨hs.client, fun hc => (by cases hc), hs.bridge, hs.plain, fun _ => hs.free hrunning, ?_,
    .inl hempty, fun _ => hempty, hs.received, hs.consumed,
    fun _ => hs.unsynchronized (by rw [hpc]; rfl), ?_⟩
  · rintro id' (hid' | hid')
    · obtain rfl := Option.some.inj hid'
      refine ⟨rfl, _, ?_, lone_init buffer⟩
      simp [Life.connection, Life.setUp, Handshake.setSegment, HandshakeAction.creates]
    · exact absurd hid' (hs.unjoined hrunning id')
  · rintro id' (hid' | hid')
    · cases hid'
    · exact absurd hid' (hs.unjoined hrunning id')

theorem sent_number {id n : Nat} (hs : OneSidedInv buffer s)
    (hpc : s.life.handshake.server = .send id) :
    OneSidedInv buffer (s.setHandshake { s.life.handshake with
      stream := Function.update s.life.handshake.stream .client
        (s.life.handshake.stream .client ++ (intBytes id).take n)
      server := .synchronize id }) := by
  have hrunning : s.life.handshake.server.ended = false := by rw [hpc]; rfl
  have hempty := hs.unsent (by rw [hpc]; rfl)
  obtain ⟨hgot, hstream⟩ := List.append_eq_nil_iff.mp hempty
  obtain ⟨hcreated, hlone⟩ := hs.connected id (.inl (by rw [hpc]; rfl))
  refine ⟨hs.client, fun hc => (by cases hc), hs.bridge, hs.plain, fun _ => hs.free hrunning, ?_,
    .inr ⟨id, hcreated, ?_⟩, fun hc => (by cases hc), ?_, hs.consumed,
    fun _ => hs.unsynchronized (by rw [hpc]; rfl), ?_⟩
  · rintro id' (hid' | hid')
    · obtain rfl := Option.some.inj hid'
      exact ⟨hcreated, hlone⟩
    · exact absurd hid' (hs.unjoined hrunning id')
  · simp only [OneSided.setHandshake, Function.update_self]
    rw [hgot, hstream]
    exact List.take_prefix n _
  · simp only [OneSided.setHandshake]
    rw [Function.update_of_ne (by simp)]
    exact hs.received
  · rintro id' (hid' | hid')
    · cases hid'
    · exact absurd hid' (hs.unjoined hrunning id')

/-- The number cannot be written, and the segment is given up. -/
theorem notSent {id : Nat} {segment : Segment} (hs : OneSidedInv buffer s)
    (hpc : s.life.handshake.server = .send id) :
    OneSidedInv buffer (s.setHandshake
      { s.life.handshake.setSegment id segment with server := .returned ERROR }) := by
  have hrunning : s.life.handshake.server.ended = false := by rw [hpc]; rfl
  have hempty := hs.unsent (by rw [hpc]; rfl)
  refine ⟨hs.client, fun hc => (by cases hc), hs.bridge, hs.plain, fun hc => (by cases hc), ?_,
    .inl hempty, fun hc => (by cases hc), hs.received, hs.consumed, fun hc => (by cases hc), ?_⟩
  · rintro id' (hid' | hid')
    · cases hid'
    · exact absurd hid' (hs.unjoined hrunning id')
  · rintro id' (hid' | hid')
    · cases hid'
    · exact absurd hid' (hs.unjoined hrunning id')

/-- The first byte of the client is taken for its answer, or the end of its stream. -/
theorem synchronized {id n : Nat} (hs : OneSidedInv buffer s)
    (hpc : s.life.handshake.server = .synchronize id) (hle : n ≤ 1)
    (hlen : n ≤ (s.life.handshake.stream .server).length)
    (hend : n = 0 → s.life.handshake.stream .server = [] ∧
      s.life.handshake.closed .client = true) :
    OneSidedInv buffer (s.setHandshake { s.life.handshake with
      stream := Function.update s.life.handshake.stream .server
        ((s.life.handshake.stream .server).drop n)
      consumed := Function.update s.life.handshake.consumed .server
        (s.life.handshake.consumed .server + n)
      server := .insert id }) := by
  have hrunning : s.life.handshake.server.ended = false := by rw [hpc]; rfl
  have hzero := hs.unsynchronized (by rw [hpc]; rfl)
  have hreceived := hs.received
  rw [hzero, List.drop_zero] at hreceived
  have hconsumed : Function.update s.life.handshake.consumed .server
      (s.life.handshake.consumed .server + n) .server = n := by
    rw [Function.update_self, hzero, Nat.zero_add]
  refine ⟨hs.client, fun hc => (by cases hc), hs.bridge, hs.plain, fun _ => hs.free hrunning, ?_,
    ?_, fun hc => (by cases hc), ?_, ?_, fun hc => (by cases hc), ?_⟩
  · rintro id' (hid' | hid')
    · exact hs.connected id' (.inl (by rw [hpc]; exact hid'))
    · exact absurd hid' (hs.unjoined hrunning id')
  · simp only [OneSided.setHandshake]
    rw [Function.update_of_ne (by simp)]
    exact hs.sent
  · simp only [OneSided.setHandshake]
    rw [hconsumed, Function.update_self, hreceived]
  · simp only [OneSided.setHandshake]
    rw [hconsumed]
    rw [hreceived] at hlen
    exact le_min hle hlen
  · rintro id' -
    simp only [OneSided.setHandshake]
    rw [hconsumed]
    cases n with
    | zero => exact .inr (hend rfl).2
    | succ n => exact .inl (by omega)

theorem inserted {id : Nat} {bridge : Bridge} (hs : OneSidedInv buffer s)
    (hpc : s.life.handshake.server = .insert id)
    (hinsert : bridgeInsert (s.life.handshake.bridge .server) (s.life.handshake.fd .server)
      { connection := some id } = some bridge) :
    OneSidedInv buffer (s.setHandshake { s.life.handshake.setBridge .server bridge with
      server := .returned (s.life.handshake.fd .server) }) := by
  have hnumber : s.life.handshake.server.number = some id := by rw [hpc]; rfl
  have hb := @bridgeInsert_spec _ _ _ _ 0 hs.bridge hinsert
  obtain ⟨hold, htable⟩ := bridgeInsert_table hs.bridge hinsert
  have hlt := (List.getElem?_eq_some_iff.mp hold).1
  have hsession : (s.life.handshake.setBridge .server bridge).session .server =
      some { connection := some id } := by
    simp only [Handshake.session, Handshake.setBridge, Function.update_self, htable]
    exact List.getElem?_set_self hlt
  have hsame : ∀ id', (s.life.handshake.setBridge .server bridge).session .server =
      some { connection := some id' } → id' = id := by
    intro id' hid'
    cases hsession.symm.trans hid'
    rfl
  refine ⟨hs.client, fun hc => (by cases hc), ?_, ?_, fun hc => (by cases hc), ?_, hs.sent,
    fun hc => (by cases hc), hs.received, hs.consumed, fun hc => (by cases hc), ?_⟩
  · simp only [OneSided.setHandshake, Handshake.setBridge, Function.update_self]
    exact hb.1
  · exact (s.life.handshake.session_setBridge_peer .client bridge).trans hs.plain
  · rintro id' (hid' | hid')
    · cases hid'
    · obtain rfl := hsame id' hid'
      exact hs.connected id' (.inl hnumber)
  · rintro id' (hid' | hid')
    · cases hid'
    · exact hs.returned id (.inl hpc)

theorem acceptStep_inv (hs : OneSidedInv buffer s) (hstep : AcceptStep s.life.handshake a h) :
    OneSidedInv buffer { s with life := s.life.setUp buffer a h } := by
  cases hstep with
  | refused hpc | accepted hpc => exact absurd hpc hs.accepting
  | usage hpc => exact hs.usage hpc _
  | options hpc hlookup =>
    exact (hs.setBridge hlookup).goto .create (by simp)
      (fun _ => show s.life.handshake.server.ended = false by rw [hpc]; rfl)
      (fun id hid => by cases hid)
      (fun _ => show s.life.handshake.server.unsent = true by rw [hpc]; rfl)
      (fun _ => show s.life.handshake.server.unsynchronized = true by rw [hpc]; rfl) (by simp)
  | created hpc hid => exact hs.created hpc
  | notCreated hpc => exact hs.failed
  | sent hpc hn hle hopen => exact hs.sent_number hpc
  | notSent hpc hid hd => exact hs.notSent hpc
  | synchronized hpc hle hlen hend => exact hs.synchronized hpc hle hlen hend
  | notSynchronized hpc => exact hs.failed
  | insert hpc hinsert => exact hs.inserted hpc hinsert

/-- The client is not inside the library. -/
theorem not_connectStep (hs : OneSidedInv buffer s)
    (hstep : ConnectStep s.life.handshake a h) : False := by
  have hrunning := SetUpInv.connectStep_running hstep
  rw [Handshake.ended, hs.client] at hrunning
  cases hrunning

theorem shutdown (hs : OneSidedInv buffer s) (side : Side) :
    OneSidedInv buffer (s.setHandshake { s.life.handshake with
      closed := Function.update s.life.handshake.closed side true }) := by
  refine { hs with returned := fun id hid => (hs.returned id hid).imp_right fun hclosed => ?_ }
  simp [OneSided.setHandshake, Function.update_apply, hclosed]

theorem call (hs : OneSidedInv buffer s) {c : SidesAction} {life : Life}
    (hstep : lifeStep buffer s.life (.call c) = some life) :
    OneSidedInv buffer { s with life } := by
  simp only [lifeStep] at hstep
  split at hstep
  · rename_i hsucceeded
    obtain ⟨session, hsession, hstep⟩ := Option.bind_eq_some_iff.mp hstep
    obtain ⟨id, hid, hstep⟩ := Option.bind_eq_some_iff.mp hstep
    obtain ⟨sides, hsides, hstep⟩ := Option.bind_eq_some_iff.mp hstep
    obtain ⟨sides', hmove, rfl⟩ := Option.map_eq_some_iff.mp hstep
    cases hc : c.side with
    | client =>
      rw [hc, hs.plain] at hsession
      obtain rfl := Option.some.inj hsession
      cases hid
    | server =>
      rw [hc] at hsession hsucceeded
      obtain ⟨connection⟩ := session
      obtain rfl : connection = some id := hid
      obtain ⟨code, hpc, -⟩ := hsucceeded
      obtain ⟨hcreated, lone, hlone, halone⟩ := hs.connected id (.inr hsession)
      obtain rfl := Option.some.inj (hlone.symm.trans hsides)
      refine { hs with connected := ?_ }
      rintro id' (hid' | hid')
      · have hnumber : s.life.handshake.server.number = some id' := hid'
        rw [hpc] at hnumber
        cases hnumber
      · have hsame : some ({ connection := some id } : Session) = some { connection := some id' } :=
          hsession.symm.trans hid'
        cases hsame
        refine ⟨hcreated, sides', ?_, halone.step hc hmove⟩
        simp [Life.connection, Life.setConnection, Handshake.setSegment]
  · cases hstep

theorem write (hs : OneSidedInv buffer s) {bytes : List UInt8} {n : Nat}
    (hwrite : s.life.handshake.write .client bytes n = some h) :
    OneSidedInv buffer { s.setHandshake h with written := s.written ++ bytes.take n } := by
  obtain ⟨-, -, -, rfl⟩ := Handshake.write_eq hwrite
  have hle := hs.consumed
  refine { hs with sent := ?_, unsent := ?_, received := ?_, consumed := ?_ }
  · simp only [OneSided.setHandshake, Side.peer]
    rw [Function.update_of_ne (by simp)]
    exact hs.sent
  · simp only [OneSided.setHandshake, Side.peer]
    rw [Function.update_of_ne (by simp)]
    exact hs.unsent
  · simp only [OneSided.setHandshake, Side.peer, Function.update_self]
    rw [hs.received, List.drop_append_of_le_length (hle.trans (min_le_right _ _))]
  · refine hle.trans (min_le_min_left 1 ?_)
    rw [List.length_append]
    exact Nat.le_add_right _ _

theorem read (hs : OneSidedInv buffer s) {size n : Nat} {bytes : List UInt8}
    (hread : s.life.handshake.read .client size n = some (h, bytes)) :
    OneSidedInv buffer { s.setHandshake h with got := s.got ++ bytes } := by
  obtain ⟨-, -, -, rfl, rfl⟩ := Handshake.read_eq hread
  have hwhole : ∀ stream : List UInt8, (s.got ++ stream.take n) ++ stream.drop n =
      s.got ++ stream := by
    intro stream
    rw [List.append_assoc, List.take_append_drop]
  refine { hs with sent := ?_, unsent := ?_, received := ?_, consumed := ?_, unsynchronized := ?_
                   returned := ?_ }
  · simp only [OneSided.setHandshake, Function.update_self, hwhole]
    exact hs.sent
  · simp only [OneSided.setHandshake, Function.update_self, hwhole]
    exact hs.unsent
  · simp only [OneSided.setHandshake]
    rw [Function.update_of_ne (by simp), Function.update_of_ne (by simp)]
    exact hs.received
  · simp only [OneSided.setHandshake]
    rw [Function.update_of_ne (by simp)]
    exact hs.consumed
  · simp only [OneSided.setHandshake]
    rw [Function.update_of_ne (by simp)]
    exact hs.unsynchronized
  · simp only [OneSided.setHandshake]
    rw [Function.update_of_ne (by simp)]
    exact hs.returned

theorem step (hs : OneSidedInv buffer s) {b : OneSidedAction}
    (hstep : oneSidedStep buffer s b = some t) : OneSidedInv buffer t := by
  cases b with
  | life b =>
    obtain ⟨life, hlife, rfl⟩ := Option.map_eq_some_iff.mp hstep
    cases b with
    | call c => exact hs.call hlife
    | setUp b =>
      obtain ⟨h, hsetUp, rfl⟩ := Option.map_eq_some_iff.mp hlife
      unfold handshakeStep at hsetUp
      split at hsetUp
      · obtain rfl := Option.some.inj hsetUp
        exact hs.shutdown _
      · rcases Option.or_eq_some_iff.mp hsetUp with hserver | ⟨-, hclient⟩
        · exact hs.acceptStep_inv (acceptStep hserver)
        · exact (hs.not_connectStep (connectStep hclient)).elim
  | write bytes n =>
    obtain ⟨h, hwrite, rfl⟩ := Option.map_eq_some_iff.mp hstep
    exact hs.write hwrite
  | read size n =>
    obtain ⟨⟨h, bytes⟩, hread, rfl⟩ := Option.map_eq_some_iff.mp hstep
    exact hs.read hread

theorem onlyServer (hs : OneSidedInv buffer s) : OnlyServer buffer s where
  got := by
    intro hgot
    rcases hs.sent with hnil | ⟨id, hcreated, hprefix⟩
    · exact absurd (List.append_eq_nil_iff.mp hnil).1 hgot
    · exact ⟨id, hcreated, (List.prefix_append _ _).trans hprefix⟩
  written := ⟨_, hs.consumed.trans (min_le_left _ _), hs.received⟩
  accepted := by
    intro id hid
    refine (hs.returned id (.inr hid)).imp_left fun hone hnil => ?_
    have hle := hs.consumed
    rw [hone, hnil] at hle
    exact absurd hle (by decide)
  calls := by
    intro id hid
    obtain ⟨-, sides, hsides, hlone⟩ := hs.connected id (.inr hid)
    obtain ⟨segment, -, rfl⟩ := Option.map_eq_some_iff.mp hsides
    exact ⟨hlone.reads, hlone.writes⟩
  rings := by
    intro id hid
    obtain ⟨-, sides, hsides, hlone⟩ := hs.connected id (.inr hid)
    obtain ⟨segment, -, rfl⟩ := Option.map_eq_some_iff.mp hsides
    exact hlone.rings
  closed := by
    intro id segment hid hpc hsegment
    obtain ⟨-, sides, hsides, hlone⟩ := hs.connected id (.inr hid)
    rw [Life.connection, hsegment, Option.map_some, Option.some.injEq] at hsides
    obtain rfl := hsides
    exact hlone.closed hpc

end OneSidedInv

/-- **A client without TSSX** of a server with it: whatever the two do, and in whatever order. -/
theorem only_server {buffer : Side → Buffer} {segments : Nat → Option Segment}
    {bridge : Side → Bridge} {fd : Side → Int} {descriptors : Int → Bool}
    {connections : Nat → Sides} {as : List OneSidedAction} {s : OneSided}
    (hb : ∀ side, BridgeInv (bridge side))
    (hfree : ∀ side, (bridge side).sessionTable.sessions[sizeT (fd side)]? = some {})
    (hrun : Run.run (oneSidedStep buffer) (.init segments bridge fd descriptors connections) as =
      some s) : OnlyServer buffer s :=
  (Run.run_induct (fun _ _ _ hs hstep => OneSidedInv.step hs hstep) (oneSidedInv_init hb hfree)
    hrun).onlyServer

/-- Buffers of two bytes. -/
private def smallBuffers : Side → Buffer := fun _ => .fresh (fun _ => 0) 2 ⟨fun _ => false⟩

/-- A server and a client that has connected without `_setup_tssx`. -/
private def withoutClient : OneSided :=
  .init (fun _ => none) (fun _ => .initial) (fun side => if side = .server then 5 else 3)
    (fun _ => true) fun _ => .init smallBuffers

/-- The client sends "Hi", and reads what it takes for the answer. -/
private def unanswered : List OneSidedAction :=
  [.life (.setUp (.usage .server 1)), .life (.setUp (.options .server)),
    .life (.setUp (.create true 7)), .life (.setUp (.send (.count 4))), .write [72, 105] 2,
    .read 8 4, .life (.setUp (.synchronize (.count 1))), .life (.setUp (.insert .server)),
    .life (.call (.read .server 2)), .life (.call (.step .server)),
    .life (.call (.write .server [1])), .life (.call (.step .server))]

theorem only_server_at :
    ∃ s, Run.run (oneSidedStep smallBuffers) withoutClient unanswered = some s ∧
      s.got = intBytes 7 ∧ OnlyServer smallBuffers s := by
  have hrun : (Run.run (oneSidedStep smallBuffers) withoutClient unanswered).any (fun s =>
      s.got = intBytes 7) = true := by
    decide +kernel
  obtain ⟨s, hs, hgot⟩ := Option.any_eq_true _ _ |>.mp hrun
  refine ⟨s, hs, of_decide_eq_true hgot, only_server (fun _ => bridgeInv_initial) ?_ hs⟩
  intro side
  cases side <;> decide +kernel

end Tssx
