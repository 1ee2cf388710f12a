import Mathlib.Logic.Function.Basic
import Tssx.Buffer.Safety
import Tssx.Connection

/-!
# The two sides of a connection

`connection_read`, `connection_write` and `disconnect` by the server and the client, one
process each.  A side writes the buffer of its own name and reads the other's: `ring side`
is the buffer that `side` writes.  The load of `open_count` in `connection_peer_died` is one
step, every access of `buffer_read` and `buffer_write` is one, and so are the decrement and
the load of `disconnect`.

`SidesInv` holds of every reachable state: both rings satisfy the ring invariant, and
`open_count` counts the sides that have not made their decrement.
-/

namespace Tssx

/-- The next step of a side. -/
inductive SidePc
  | ready
  | checkWrite (data : List UInt8)
  | writing
  | checkRead (requestedBytes : Nat)
  /-- Inside `buffer_read`; whether the peer had disconnected at the check. -/
  | reading (peerGone : Bool)
  | subtract
  | test
  | closed
  deriving DecidableEq

/-- A finished `connection_read`: its argument, whether the peer had made its decrement when
`connection_peer_died` was evaluated, the available space of the transfer, the value
returned and the bytes copied. -/
structure ReadRecord where
  requested : Nat
  peerGone : Bool
  available : Nat := 0
  returned : Int := 0
  bytes : List UInt8 := []
  deriving DecidableEq

structure Sides where
  segment : Segment
  ring : Side → RingState
  pc : Side → SidePc
  /-- The finished calls of each side. -/
  reads : Side → List ReadRecord
  writes : Side → List (List UInt8 × Int)

/-- After the handshake. -/
def Sides.init (buffer : Side → Buffer) : Sides where
  segment := setupConnection createConnection
  ring := fun side => .init (buffer side)
  pc := fun _ => .ready
  reads := fun _ => []
  writes := fun _ => []

/-- The side has made its decrement. -/
def SidePc.gone (pc : SidePc) : Bool := pc = .test ∨ pc = .closed

def Sides.gone (s : Sides) (side : Side) : Bool := (s.pc side).gone

def Sides.goto (s : Sides) (side : Side) (pc : SidePc) : Sides :=
  { s with pc := Function.update s.pc side pc }

def Sides.logRead (s : Sides) (side : Side) (record : ReadRecord) : Sides :=
  { s with reads := Function.update s.reads side (s.reads side ++ [record]) }

def Sides.logWrite (s : Sides) (side : Side) (data : List UInt8) (returned : Int) : Sides :=
  { s with writes := Function.update s.writes side (s.writes side ++ [(data, returned)]) }

/-- After an access of `buffer_read`: the return, if there is no next one. -/
def Sides.afterRead (s : Sides) (side : Side) (peerGone : Bool) (ring : RingState) : Sides :=
  let s := { s with ring := Function.update s.ring side.peer ring }
  match ring.reader, ring.history.reads.getLast? with
  | .idle, some r =>
    (s.logRead side
      { requested := r.requested, peerGone, available := r.available
        returned := ssizeT r.returned, bytes := r.bytes }).goto side .ready
  | _, _ => s.goto side (.reading peerGone)

def Sides.afterWrite (s : Sides) (side : Side) (ring : RingState) : Sides :=
  let s := { s with ring := Function.update s.ring side ring }
  match ring.writer, ring.history.writes.getLast? with
  | .idle, some w => (s.logWrite side w.1 (ssizeT w.2)).goto side .ready
  | _, _ => s.goto side .writing

/-- The next step of a side inside a call. -/
def sideStep (s : Sides) (side : Side) : Option Sides :=
  match s.pc side with
  | .ready | .closed => none
  | .checkRead requestedBytes =>
    let peerGone := s.gone side.peer
    if connectionPeerDied s.segment then
      some ((s.logRead side { requested := requestedBytes, peerGone }).goto side .ready)
    else (readerCall (s.ring side.peer) requestedBytes).map (s.afterRead side peerGone)
  | .reading peerGone => (readerStep (s.ring side.peer)).map (s.afterRead side peerGone)
  | .checkWrite data =>
    if connectionPeerDied s.segment then some ((s.logWrite side data 0).goto side .ready)
    else (writerCall (s.ring side) data).map (s.afterWrite side)
  | .writing => (writerStep (s.ring side)).map (s.afterWrite side)
  | .subtract => some ({ s with segment := s.segment.fetchSub }.goto side .test)
  | .test =>
    -- a second `IPC_RMID` ends the process, which has left the connection either way
    if s.segment.openCount = 0 then
      some ({ s with segment := { s.segment with removed := true } }.goto side .closed)
    else some (s.goto side .closed)

inductive SidesAction
  | read (side : Side) (requestedBytes : Nat)
  | write (side : Side) (data : List UInt8)
  | close (side : Side)
  | step (side : Side)

/-- A side between calls may begin the next one. -/
def Sides.call (s : Sides) (side : Side) (pc : SidePc) : Option Sides :=
  if s.pc side = .ready then some (s.goto side pc) else none

def sidesStep (s : Sides) : SidesAction → Option Sides
  | .read side requestedBytes => s.call side (.checkRead requestedBytes)
  | .write side data => s.call side (.checkWrite data)
  | .close side => s.call side .subtract
  | .step side => sideStep s side

/-- What the next step of a side can be. -/
inductive SideStep (s : Sides) (side : Side) : Sides → Prop
  | readGone (requestedBytes : Nat) (hpc : s.pc side = .checkRead requestedBytes)
      (hdied : connectionPeerDied s.segment = true) :
      SideStep s side ((s.logRead side
        { requested := requestedBytes, peerGone := s.gone side.peer }).goto side .ready)
  | readCall (requestedBytes : Nat) (ring : RingState)
      (hpc : s.pc side = .checkRead requestedBytes) (hlive : connectionPeerDied s.segment = false)
      (hcall : readerCall (s.ring side.peer) requestedBytes = some ring) :
      SideStep s side (s.afterRead side (s.gone side.peer) ring)
  | readStep (peerGone : Bool) (ring : RingState) (hpc : s.pc side = .reading peerGone)
      (hstep : readerStep (s.ring side.peer) = some ring) :
      SideStep s side (s.afterRead side peerGone ring)
  | writeGone (data : List UInt8) (hpc : s.pc side = .checkWrite data)
      (hdied : connectionPeerDied s.segment = true) :
      SideStep s side ((s.logWrite side data 0).goto side .ready)
  | writeCall (data : List UInt8) (ring : RingState) (hpc : s.pc side = .checkWrite data)
      (hlive : connectionPeerDied s.segment = false)
      (hcall : writerCall (s.ring side) data = some ring) : SideStep s side (s.afterWrite side ring)
  | writeStep (ring : RingState) (hpc : s.pc side = .writing)
      (hstep : writerStep (s.ring side) = some ring) : SideStep s side (s.afterWrite side ring)
  | subtract (hpc : s.pc side = .subtract) :
      SideStep s side ({ s with segment := s.segment.fetchSub }.goto side .test)
  | destroy (hpc : s.pc side = .test) :
      SideStep s side ({ s with segment := { s.segment with removed := true } }.goto side .closed)
  | leave (hpc : s.pc side = .test) : SideStep s side (s.goto side .closed)

theorem sideStep_cases {s t : Sides} {side : Side} (hs : sideStep s side = some t) :
    SideStep s side t := by
  cases hpc : s.pc side with
  | ready | closed => simp only [sideStep, hpc] at hs; cases hs
  | checkRead requestedBytes =>
    simp only [sideStep, hpc] at hs
    split at hs
    · obtain rfl := Option.some.inj hs
      exact .readGone requestedBytes hpc ‹_›
    · obtain ⟨ring, hcall, rfl⟩ := Option.map_eq_some_iff.mp hs
      exact .readCall requestedBytes ring hpc (Bool.not_eq_true _ |>.mp ‹_›) hcall
  | reading peerGone =>
    simp only [sideStep, hpc] at hs
    obtain ⟨ring, hstep, rfl⟩ := Option.map_eq_some_iff.mp hs
    exact .readStep peerGone ring hpc hstep
  | checkWrite data =>
    simp only [sideStep, hpc] at hs
    split at hs
    · obtain rfl := Option.some.inj hs
      exact .writeGone data hpc ‹_›
    · obtain ⟨ring, hcall, rfl⟩ := Option.map_eq_some_iff.mp hs
      exact .writeCall data ring hpc (Bool.not_eq_true _ |>.mp ‹_›) hcall
  | writing =>
    simp only [sideStep, hpc] at hs
    obtain ⟨ring, hstep, rfl⟩ := Option.map_eq_some_iff.mp hs
    exact .writeStep ring hpc hstep
  | subtract =>
    simp only [sideStep, hpc] at hs
    obtain rfl := Option.some.inj hs
    exact .subtract hpc
  | test =>
    simp only [sideStep, hpc] at hs
    split at hs <;> obtain rfl := Option.some.inj hs
    · exact .destroy hpc
    · exact .leave hpc

/-! ### What an access of a transfer does to its call -/

section Access

variable {c : Nat} {s t : RingState}

/-- The reader is still inside a call, or has returned from one that moved at most `c` bytes. -/
def ReaderMoved (c : Nat) (s t : RingState) : Prop :=
  (t.reader ≠ .idle ∧ t.history.reads = s.history.reads) ∨
    ∃ r : ReadReturn, t.reader = .idle ∧ t.history.reads = s.history.reads ++ [r] ∧
      r.Sound ∧ r.bytes.length ≤ c

theorem readerCall_moved {requested : Nat} (h : readerCall s requested = some t) :
    ReaderMoved c s t ∧ t.writer = s.writer := by
  obtain ⟨hidle, ⟨-, rfl⟩ | ⟨-, rfl⟩⟩ := readerCall_eq h
  · exact ⟨.inr ⟨_, hidle, rfl, ⟨rfl, rfl⟩, Nat.zero_le c⟩, rfl⟩
  · exact ⟨.inl ⟨by simp, rfl⟩, rfl⟩

theorem readerStep_moved (hs : RingInv c s) (h : readerStep s = some t) :
    ReaderMoved c s t ∧ t.writer = s.writer := by
  have ht := hs.readerStep_inv h
  have haccess := readerStep_access h
  refine ⟨?_, haccess.writer⟩
  rcases haccess.reads with hbusy | ⟨r, record, hpc, hidle, hreads, hbytes⟩
  · exact .inl hbusy
  · have hf := hs.reader
    rw [hpc] at hf
    obtain ⟨-, -, hdest⟩ := hs.readerFits r (by rw [hpc]; rfl)
    have hsound : record.Sound := by
      refine ht.reads _ ?_
      rw [hreads]
      exact List.mem_append_right _ List.mem_cons_self
    refine .inr ⟨record, hidle, hreads, hsound, ?_⟩
    rw [hbytes, hdest, hpc]
    exact hf.1.bytes_le

theorem writerCall_reader {data : List UInt8} (h : writerCall s data = some t) :
    t.reader = s.reader ∧ t.history.reads = s.history.reads := by
  obtain ⟨-, ⟨-, rfl⟩ | ⟨-, rfl⟩⟩ := writerCall_eq h <;> exact ⟨rfl, rfl⟩

end Access

/-! ### The invariant -/

/-- What a finished `connection_read` returned: `0` to a side whose peer had gone, else the
number of bytes that were requested and available, `-1` if there were none. -/
structure ReadRecord.Ok (r : ReadRecord) : Prop where
  gone : r.peerGone = true → r.returned = 0 ∧ r.bytes = []
  live : r.peerGone = false → r.bytes.length = min r.available r.requested ∧
    r.returned = if r.bytes.length = 0 ∧ r.requested ≠ 0 then ERROR else (r.bytes.length : Int)

/-- What holds of a side, the transfers in progress in its two buffers and its finished
reads. -/
structure SideInv (pc : SidePc) (reader : ReaderPc) (writer : WriterPc)
    (reads : List ReadReturn) (log : List ReadRecord) : Prop where
  reader : reader ≠ .idle → pc = .reading false
  writer : writer ≠ .idle → pc = .writing
  live : pc ≠ .reading true
  bytes : log.flatMap ReadRecord.bytes = reads.flatMap ReadReturn.bytes
  ok : ∀ r ∈ log, r.Ok

/-- The part of a side in `open_count`. -/
def SidePc.share (pc : SidePc) : Int := if pc.gone then 0 else 1

structure SidesInv (capacity : Side → Nat) (s : Sides) : Prop where
  ring : ∀ side, RingInv (capacity side) (s.ring side)
  count : s.segment.openCount = (s.pc .server).share + (s.pc .client).share
  side : ∀ side, SideInv (s.pc side) (s.ring side.peer).reader (s.ring side).writer
    (s.ring side.peer).history.reads (s.reads side)

theorem sidesInv_init {buffer : Side → Buffer} (hc : ∀ side, 1 ≤ (buffer side).capacity)
    (hb : ∀ side, (buffer side).capacity ≤ MAX_CAPACITY) :
    SidesInv (fun side => (buffer side).capacity) (.init buffer) where
  ring := fun side => ringInv_init (hc side) (hb side)
  count := rfl
  side := fun side => ⟨fun h => absurd rfl h, fun h => absurd rfl h, by simp [Sides.init], rfl,
    by simp [Sides.init]⟩

theorem ReadReturn.Sound.record {r : ReadReturn} (h : r.Sound) (hr : r.bytes.length < 2 ^ 63) :
    ReadRecord.Ok { requested := r.requested, peerGone := false, available := r.available
                    returned := ssizeT r.returned, bytes := r.bytes } where
  gone := by simp
  live := by
    intro _
    refine ⟨h.1, ?_⟩
    dsimp only
    rw [h.2]
    by_cases hz : r.bytes.length = 0 ∧ r.requested ≠ 0
    · rw [if_pos hz, if_pos hz]
      exact ssizeT_error
    · rw [if_neg hz, if_neg hz]
      exact ssizeT_eq hr

namespace SidesInv

variable {capacity : Side → Nat} {s t : Sides} {side : Side}

theorem count_eq (h : SidesInv capacity s) (side : Side) :
    s.segment.openCount = (s.pc side).share + (s.pc side.peer).share := by
  cases side with
  | server => exact h.count
  | client => rw [Int.add_comm]; exact h.count

/-- **`connection_peer_died` is exact** for a side that has not closed. -/
theorem peerDied_eq (h : SidesInv capacity s) (side : Side) (hs : s.gone side = false) :
    connectionPeerDied s.segment = s.gone side.peer := by
  rw [connectionPeerDied, h.count_eq side]
  simp only [SidePc.share, Sides.gone] at hs ⊢
  rw [hs]
  cases (s.pc side.peer).gone <;> rfl

/-- A step of `side` keeps the invariant if it keeps the rings' and its own part of it, and
leaves what the other side's part is about alone. -/
theorem move (h : SidesInv capacity s) (side : Side)
    (hring : ∀ b, RingInv (capacity b) (t.ring b))
    (hcount : t.segment.openCount - (t.pc side).share = s.segment.openCount - (s.pc side).share)
    (hself : SideInv (t.pc side) (t.ring side.peer).reader (t.ring side).writer
      (t.ring side.peer).history.reads (t.reads side))
    (hpc : t.pc side.peer = s.pc side.peer)
    (hwriter : (t.ring side.peer).writer = (s.ring side.peer).writer)
    (hreader : (t.ring side).reader = (s.ring side).reader)
    (hreads : (t.ring side).history.reads = (s.ring side).history.reads)
    (hlog : t.reads side.peer = s.reads side.peer) : SidesInv capacity t where
  ring := hring
  count := by
    have hs := h.count_eq side
    have ht : t.segment.openCount = (t.pc side).share + (t.pc side.peer).share := by
      rw [hpc]
      omega
    cases side with
    | server => exact ht
    | client => rw [Int.add_comm]; exact ht
  side := by
    intro other
    rcases Side.eq_or_eq_peer other side with rfl | rfl
    · exact hself
    · have := h.side side.peer
      rw [Side.peer_peer] at this ⊢
      rwa [hpc, hwriter, hreader, hreads, hlog]

theorem goto {pc : SidePc} (h : SidesInv capacity s) (hshare : pc.share = (s.pc side).share)
    (hr : (s.ring side.peer).reader = .idle) (hw : (s.ring side).writer = .idle)
    (hlive : pc ≠ .reading true) : SidesInv capacity (s.goto side pc) := by
  have hside := h.side side
  refine h.move side h.ring ?_ ?_ ?_ rfl rfl rfl rfl
  · simp only [Sides.goto, Function.update_self, hshare]
  · simp only [Sides.goto, Function.update_self]
    exact ⟨fun hne => absurd hr hne, fun hne => absurd hw hne, hlive, hside.bytes, hside.ok⟩
  · exact Function.update_of_ne side.peer_ne _ _

theorem reader_idle (h : SidesInv capacity s) (side : Side) (hpc : s.pc side ≠ .reading false) :
    (s.ring side.peer).reader = .idle := by
  by_contra hne
  exact hpc ((h.side side).reader hne)

theorem writer_idle (h : SidesInv capacity s) (side : Side) (hpc : s.pc side ≠ .writing) :
    (s.ring side).writer = .idle := by
  by_contra hne
  exact hpc ((h.side side).writer hne)

theorem idle (h : SidesInv capacity s) (side : Side) (hr : s.pc side ≠ .reading false)
    (hw : s.pc side ≠ .writing) :
    (s.ring side.peer).reader = .idle ∧ (s.ring side).writer = .idle :=
  ⟨h.reader_idle side hr, h.writer_idle side hw⟩

theorem ringSet (h : SidesInv capacity s) {ring : RingState} (hr : RingInv (capacity side) ring)
    (b : Side) : RingInv (capacity b) (Function.update s.ring side ring b) := by
  rcases Side.eq_or_eq_peer b side with rfl | rfl
  · rw [Function.update_self]
    exact hr
  · rw [Function.update_of_ne side.peer_ne]
    exact h.ring _

theorem afterRead {ring : RingState} (h : SidesInv capacity s)
    (hlive : (s.pc side).gone = false) (hw : (s.ring side).writer = .idle)
    (hinv : RingInv (capacity side.peer) ring)
    (hmoved : ReaderMoved (capacity side.peer) (s.ring side.peer) ring)
    (hwriter : ring.writer = (s.ring side.peer).writer) :
    SidesInv capacity (s.afterRead side false ring) := by
  have hside := h.side side
  have hne : side ≠ side.peer := side.peer_ne.symm
  rcases hmoved with ⟨hbusy, hreads⟩ | ⟨r, hidle, hreads, hsound, hlen⟩
  · have heq : s.afterRead side false ring =
        { s with ring := Function.update s.ring side.peer ring }.goto side (.reading false) := by
      unfold Sides.afterRead
      split
      · exact absurd ‹_› hbusy
      · rfl
    rw [heq]
    refine h.move side (h.ringSet hinv) ?_ ?_ ?_ ?_ ?_ ?_ rfl
    · simp only [Sides.goto, Function.update_self]
      simp [SidePc.share, SidePc.gone] at hlive ⊢
      simp [hlive]
    · simp only [Sides.goto, Function.update_self, Function.update_of_ne hne, hw, hreads]
      exact ⟨fun _ => rfl, fun hc => absurd rfl hc, by simp, hside.bytes, hside.ok⟩
    all_goals simp [Sides.goto, side.peer_ne, hne, hwriter]
  · have hlt : r.bytes.length < 2 ^ 63 := by
      have := hinv.bound
      unfold MAX_CAPACITY at this
      omega
    have heq : s.afterRead side false ring =
        ({ s with ring := Function.update s.ring side.peer ring }.logRead side
          { requested := r.requested, peerGone := false, available := r.available
            returned := ssizeT r.returned, bytes := r.bytes }).goto side .ready := by
      simp [Sides.afterRead, hidle, hreads]
    rw [heq]
    refine h.move side (h.ringSet hinv) ?_ ?_ ?_ ?_ ?_ ?_ ?_
    · simp only [Sides.goto, Sides.logRead, Function.update_self]
      simp [SidePc.share, SidePc.gone] at hlive ⊢
      simp [hlive]
    · simp only [Sides.goto, Sides.logRead, Function.update_self, Function.update_of_ne hne, hw,
        hidle, hreads]
      refine ⟨fun hc => absurd rfl hc, fun hc => absurd rfl hc, by simp, ?_, ?_⟩
      · rw [List.flatMap_append, List.flatMap_append, hside.bytes]
        rfl
      · intro record hrec
        rcases List.mem_append.mp hrec with hrec | hrec
        · exact hside.ok record hrec
        · rw [List.mem_singleton.mp hrec]
          exact hsound.record hlt
    all_goals simp [Sides.goto, Sides.logRead, side.peer_ne, hne, hwriter]

theorem afterWrite {ring : RingState} (h : SidesInv capacity s)
    (hlive : (s.pc side).gone = false) (hr : (s.ring side.peer).reader = .idle)
    (hinv : RingInv (capacity side) ring) (hreader : ring.reader = (s.ring side).reader)
    (hreads : ring.history.reads = (s.ring side).history.reads) :
    SidesInv capacity (s.afterWrite side ring) := by
  have hside := h.side side
  unfold Sides.afterWrite
  dsimp only
  split
  · rename_i w hidle _
    refine h.move side (h.ringSet hinv) ?_ ?_ ?_ ?_ ?_ ?_ rfl
    · simp only [Sides.goto, Sides.logWrite, Function.update_self]
      simp [SidePc.share, SidePc.gone] at hlive ⊢
      simp [hlive]
    · simp only [Sides.goto, Sides.logWrite, Function.update_self,
        Function.update_of_ne side.peer_ne, hr, hidle]
      exact ⟨fun hc => absurd rfl hc, fun hc => absurd rfl hc, by simp, hside.bytes, hside.ok⟩
    all_goals simp [Sides.goto, Sides.logWrite, side.peer_ne, hreader, hreads]
  · refine h.move side (h.ringSet hinv) ?_ ?_ ?_ ?_ ?_ ?_ rfl
    · simp only [Sides.goto, Function.update_self]
      simp [SidePc.share, SidePc.gone] at hlive ⊢
      simp [hlive]
    · simp only [Sides.goto, Function.update_self, Function.update_of_ne side.peer_ne, hr]
      exact ⟨fun hc => absurd rfl hc, fun _ => rfl, by simp, hside.bytes, hside.ok⟩
    all_goals simp [Sides.goto, side.peer_ne, hreader, hreads]

theorem returnGone (h : SidesInv capacity s) {log : List ReadRecord}
    (hr : (s.ring side.peer).reader = .idle) (hw : (s.ring side).writer = .idle)
    (hlive : (s.pc side).gone = false) (hreads : t.reads side = log)
    (hbytes : log.flatMap ReadRecord.bytes = (s.reads side).flatMap ReadRecord.bytes)
    (hok : ∀ r ∈ log, r.Ok) (hseg : t.segment = s.segment) (hring : t.ring = s.ring)
    (hpc : t.pc = Function.update s.pc side .ready)
    (hlog : t.reads side.peer = s.reads side.peer) : SidesInv capacity t := by
  refine h.move side (by rw [hring]; exact h.ring) ?_ ?_ ?_ (by rw [hring]) (by rw [hring])
    (by rw [hring]) hlog
  · rw [hseg, hpc, Function.update_self]
    simp only [SidePc.share, hlive]
    rfl
  · rw [hpc, Function.update_self, hring, hreads]
    exact ⟨fun hne => absurd hr hne, fun hne => absurd hw hne, by simp,
      hbytes.trans (h.side side).bytes, hok⟩
  · rw [hpc, Function.update_of_ne side.peer_ne]

theorem sideStep_inv (h : SidesInv capacity s) (hs : sideStep s side = some t) :
    SidesInv capacity t := by
  have hside := h.side side
  cases sideStep_cases hs with
  | readGone requestedBytes hpc hdied =>
    have hlive : (s.pc side).gone = false := by rw [hpc]; rfl
    obtain ⟨hr, hw⟩ := h.idle side (by rw [hpc]; simp) (by rw [hpc]; simp)
    have hgone := (h.peerDied_eq side hlive).symm.trans hdied
    refine h.returnGone hr hw hlive (Function.update_self ..) ?_ ?_ rfl rfl rfl
      (Function.update_of_ne side.peer_ne _ _)
    · rw [List.flatMap_append]
      exact List.append_nil _
    · intro r hrec
      rcases List.mem_append.mp hrec with hrec | hrec
      · exact hside.ok r hrec
      · rw [List.mem_singleton.mp hrec, hgone]
        exact ⟨fun _ => ⟨rfl, rfl⟩, by simp⟩
  | readCall requestedBytes ring hpc hlink hcall =>
    have hlive : (s.pc side).gone = false := by rw [hpc]; rfl
    have hw := h.writer_idle side (by rw [hpc]; simp)
    rw [← h.peerDied_eq side hlive, hlink]
    obtain ⟨hmoved, hwriter⟩ := readerCall_moved hcall
    exact h.afterRead hlive hw ((h.ring side.peer).readerCall_inv hcall) hmoved hwriter
  | readStep peerGone ring hpc hstep =>
    have hlive : (s.pc side).gone = false := by rw [hpc]; rfl
    obtain rfl : peerGone = false := by
      cases peerGone with
      | true => exact absurd hpc hside.live
      | false => rfl
    have hw := h.writer_idle side (by rw [hpc]; simp)
    obtain ⟨hmoved, hwriter⟩ := readerStep_moved (h.ring side.peer) hstep
    exact h.afterRead hlive hw ((h.ring side.peer).readerStep_inv hstep) hmoved hwriter
  | writeGone data hpc hdied =>
    have hlive : (s.pc side).gone = false := by rw [hpc]; rfl
    obtain ⟨hr, hw⟩ := h.idle side (by rw [hpc]; simp) (by rw [hpc]; simp)
    exact h.returnGone hr hw hlive rfl rfl hside.ok rfl rfl rfl rfl
  | writeCall data ring hpc hlink hcall =>
    have hlive : (s.pc side).gone = false := by rw [hpc]; rfl
    have hr := h.reader_idle side (by rw [hpc]; simp)
    obtain ⟨hreader, hreads⟩ := writerCall_reader hcall
    exact h.afterWrite hlive hr ((h.ring side).writerCall_inv hcall) hreader hreads
  | writeStep ring hpc hstep =>
    have hlive : (s.pc side).gone = false := by rw [hpc]; rfl
    have hr := h.reader_idle side (by rw [hpc]; simp)
    have haccess := writerStep_access hstep
    exact h.afterWrite hlive hr ((h.ring side).writerStep_inv hstep) haccess.reader haccess.reads
  | subtract hpc =>
    obtain ⟨hr, hw⟩ := h.idle side (by rw [hpc]; simp) (by rw [hpc]; simp)
    refine h.move side h.ring ?_ ?_ (Function.update_of_ne side.peer_ne _ _) rfl rfl rfl rfl
    · show s.segment.openCount - 1 - SidePc.share (Function.update s.pc side .test side) = _
      rw [Function.update_self, hpc]
      show s.segment.openCount - 1 - 0 = s.segment.openCount - 1
      omega
    · show SideInv (Function.update s.pc side .test side) _ _ _ _
      rw [Function.update_self]
      exact ⟨fun hne => absurd hr hne, fun hne => absurd hw hne, by simp, hside.bytes, hside.ok⟩
  | destroy hpc =>
    obtain ⟨hr, hw⟩ := h.idle side (by rw [hpc]; simp) (by rw [hpc]; simp)
    have hshare : SidePc.closed.share = (s.pc side).share := by rw [hpc]; rfl
    exact { h.goto hshare hr hw (by simp) with }
  | leave hpc =>
    obtain ⟨hr, hw⟩ := h.idle side (by rw [hpc]; simp) (by rw [hpc]; simp)
    exact h.goto (by rw [hpc]; rfl) hr hw (by simp)

theorem sidesStep_inv (h : SidesInv capacity s) {a : SidesAction} (hs : sidesStep s a = some t) :
    SidesInv capacity t := by
  have hcall : ∀ side pc, SidePc.share pc = 1 → pc ≠ .reading true →
      s.call side pc = some t → SidesInv capacity t := by
    intro side pc hshare hlive hs
    unfold Sides.call at hs
    split at hs
    · rename_i hready
      obtain rfl := Option.some.inj hs
      obtain ⟨hr, hw⟩ := h.idle side (by rw [hready]; simp) (by rw [hready]; simp)
      exact h.goto (by rw [hready, hshare]; rfl) hr hw hlive
    · cases hs
  cases a with
  | read side requestedBytes => exact hcall side _ rfl (by simp) hs
  | write side data => exact hcall side _ rfl (by simp) hs
  | close side => exact hcall side _ rfl (by simp) hs
  | step side => exact h.sideStep_inv hs

end SidesInv

theorem sidesInv_reaches {buffer : Side → Buffer} {s : Sides}
    (hc : ∀ side, 1 ≤ (buffer side).capacity) (hb : ∀ side, (buffer side).capacity ≤ MAX_CAPACITY)
    (h : Run.Reaches sidesStep (.init buffer) s) :
    SidesInv (fun side => (buffer side).capacity) s :=
  h.induct (fun _ _ _ hi hs => SidesInv.sidesStep_inv hi hs) (sidesInv_init hc hb)

end Tssx
