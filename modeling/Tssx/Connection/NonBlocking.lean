import Tssx.Buffer.Alone
import Tssx.Connection.Logs

/-!
# A transfer that would block

`connection_write` and `connection_read` of a side in non-blocking mode, as whole calls from any
state that the two sides reach.  The two functions of the buffer compute their results with
different expressions: a read of nothing returns `-1`, a write of nothing `0`, which is what
both return when the peer has gone.  Nothing on the way sets `errno`.

`would_block_iff`: a call is reported as it should exactly if there is something to transfer,
or it is a read and `errno` says `EWOULDBLOCK` already.
-/

namespace Tssx

/-- What a call leaves: its value, `errno`, the bytes copied out and the buffer. -/
structure Transferred where
  returned : Int
  errno : Int
  bytes : List UInt8 := []
  buffer : Buffer

/-- `connection_write` of a session with a connection. -/
def connectionWriteBuffer (segment : Segment) (buffer : Buffer) (errno : Int)
    (source : List UInt8) : Option Transferred :=
  if connectionPeerDied segment then some { returned := 0, errno, buffer }
  else
    (bufferWrite buffer source).map fun (returned, after) =>
      { returned := ssizeT returned, errno, buffer := after }

/-- `connection_read` of a session with a connection. -/
def connectionReadBuffer (segment : Segment) (buffer : Buffer) (errno : Int)
    (requestedBytes : Nat) : Option Transferred :=
  if connectionPeerDied segment then some { returned := 0, errno, buffer }
  else
    (bufferRead buffer requestedBytes).map fun (result, after) =>
      { returned := ssizeT result.returned, errno, bytes := result.bytes, buffer := after }

/-- The call could not transfer anything: `-1` with `EWOULDBLOCK` and nothing changed. -/
structure ReportsWouldBlock (before : Buffer) (result : Transferred) : Prop where
  returned : result.returned = ERROR
  errno : result.errno = EWOULDBLOCK
  buffer : result.buffer = before

/-- A write transfers and returns the smaller of the number of bytes passed and the space
available, or reports that it would block. -/
def WritesUniformly (segment : Segment) (ring : RingState) (errno : Int) (source : List UInt8) :
    Prop :=
  let available := getAvailableSpace ring.buffer .write
  ∃ result, connectionWriteBuffer segment ring.buffer errno source = some result ∧
    if available = 0 then ReportsWouldBlock ring.buffer result
    else
      result.returned = (min source.length available : Nat) ∧
        WriterReady ring.buffer.capacity ring.history.released result.buffer
          (ring.held ++ source.take available)

def ReadsUniformly (segment : Segment) (ring : RingState) (errno : Int) (requestedBytes : Nat) :
    Prop :=
  let available := getAvailableSpace ring.buffer .read
  ∃ result, connectionReadBuffer segment ring.buffer errno requestedBytes = some result ∧
    if available = 0 then ReportsWouldBlock ring.buffer result
    else
      result.returned = (min requestedBytes available : Nat) ∧
        result.bytes = ring.held.take requestedBytes ∧
        ReaderReady ring.buffer.capacity (ring.history.released + min available requestedBytes)
          result.buffer (ring.held.drop requestedBytes)

section Ring

variable {c : Nat} {segment : Segment} {ring : RingState} {errno : Int}

theorem writes_uniformly_iff (h : RingInv c ring) (hidle : ring.writer = .idle)
    (hlive : connectionPeerDied segment = false)
    (hnon : ring.buffer.timeouts.nonBlocking .write = true) (source : List UInt8) :
    WritesUniformly segment ring errno source ↔ 0 < getAvailableSpace ring.buffer .write := by
  have hready := h.writerReady hidle
  obtain ⟨after, hcall, hafter, -, -⟩ := hready.write_call (.inr (.inr hnon))
  have hreturned : ssizeT (min source.length (c - ring.held.length)) =
      (min source.length (c - ring.held.length) : Nat) := by
    have hb := h.bound
    unfold MAX_CAPACITY at hb
    exact ssizeT_eq (by omega)
  have hwrite : connectionWriteBuffer segment ring.buffer errno source =
      some { returned := (min source.length (c - ring.held.length) : Nat), errno
             buffer := after } := by
    rw [connectionWriteBuffer, hlive, hcall]
    simp only [Bool.false_eq_true, if_false, Option.map_some, hreturned]
  unfold WritesUniformly
  dsimp only
  rw [hready.freeSpace, hwrite]
  constructor
  · rintro ⟨result, hresult, hshape⟩
    obtain rfl := Option.some.inj hresult
    by_contra hzero
    rw [if_pos (by omega)] at hshape
    -- a number of bytes is not `-1`
    have := hshape.returned
    dsimp only [ERROR] at this
    omega
  · intro hpos
    refine ⟨_, rfl, ?_⟩
    rw [if_neg (by omega), h.capacity]
    exact ⟨rfl, hafter⟩

theorem reads_uniformly_iff (h : RingInv c ring) (hidle : ring.reader = .idle)
    (hlive : connectionPeerDied segment = false)
    (hnon : ring.buffer.timeouts.nonBlocking .read = true) {requestedBytes : Nat}
    (hn : requestedBytes ≠ 0) :
    ReadsUniformly segment ring errno requestedBytes ↔
      0 < getAvailableSpace ring.buffer .read ∨ errno = EWOULDBLOCK := by
  have hready := h.readerReady hidle
  obtain ⟨after, hcall, hafter, -, hsame⟩ := hready.read_call (n := requestedBytes)
    (.inr (.inr hnon))
  have hread : connectionReadBuffer segment ring.buffer errno requestedBytes =
      some { returned := ssizeT (readResult ring.held requestedBytes).returned, errno
             bytes := (readResult ring.held requestedBytes).bytes, buffer := after } := by
    rw [connectionReadBuffer, hlive, hcall]
    rfl
  unfold ReadsUniformly
  dsimp only
  rw [hready.unread, hread]
  by_cases hempty : ring.held = []
  · have hresult : readResult ring.held requestedBytes = { returned := sizeT (-1) } := by
      rw [readResult, if_pos ⟨hempty, hn⟩]
    have hlen : ring.held.length = 0 := by rw [hempty]; rfl
    simp only [hresult, hlen, ssizeT_error, if_true]
    constructor
    · rintro ⟨result, hresult, hshape⟩
      obtain rfl := Option.some.inj hresult
      exact .inr hshape.errno
    · rintro (hpos | herrno)
      · omega
      · exact ⟨_, rfl, rfl, herrno, hsame hempty⟩
  · have hpos : 0 < ring.held.length := List.length_pos_iff.mpr hempty
    have hresult : readResult ring.held requestedBytes =
        { returned := min requestedBytes ring.held.length
          bytes := ring.held.take requestedBytes } := by
      rw [readResult, if_neg (fun hc => hempty hc.1)]
    have hreturned : ssizeT (min requestedBytes ring.held.length) =
        (min requestedBytes ring.held.length : Nat) := by
      have hb := h.bound
      have hroom := hready.room
      unfold MAX_CAPACITY at hb
      exact ssizeT_eq (by omega)
    simp only [hresult, hreturned, hpos.ne', if_false, h.capacity]
    exact ⟨fun _ => .inl hpos, fun _ => ⟨_, rfl, rfl, rfl, hafter⟩⟩

end Ring

/-- **Would-block is reported as it should** exactly if there is something to transfer, or the
call is a read and `errno` is `EWOULDBLOCK` already: for a side between two calls, in every
state that the two sides reach, with the peer there and possibly inside a call of its own. -/
theorem would_block_iff {buffer : Side → Buffer} (hc : ∀ side, 1 ≤ (buffer side).capacity)
    (hb : ∀ side, (buffer side).capacity ≤ 2 ^ 31 - 1) {s : Sides}
    (h : Run.Reaches sidesStep (.init buffer) s) {side : Side} (hpc : s.pc side = .ready)
    (hlive : s.gone side.peer = false) (errno : Int) :
    ((s.ring side).buffer.timeouts.nonBlocking .write = true →
      ∀ source, source ≠ [] →
        (WritesUniformly s.segment (s.ring side) errno source ↔
          0 < getAvailableSpace (s.ring side).buffer .write)) ∧
    ((s.ring side.peer).buffer.timeouts.nonBlocking .read = true →
      ∀ requestedBytes, requestedBytes ≠ 0 →
        (ReadsUniformly s.segment (s.ring side.peer) errno requestedBytes ↔
          0 < getAvailableSpace (s.ring side.peer).buffer .read ∨ errno = EWOULDBLOCK)) := by
  have hinv := sidesInv_reaches hc hb h
  have hthere : connectionPeerDied s.segment = false := by
    rw [hinv.peerDied_eq side (by rw [Sides.gone, hpc]; rfl)]
    exact hlive
  obtain ⟨hreader, hwriter⟩ := hinv.idle side (by rw [hpc]; simp) (by rw [hpc]; simp)
  constructor
  · intro hnon source _
    exact writes_uniformly_iff (hinv.ring side) hwriter hthere hnon source
  · intro hnon requestedBytes hn
    exact reads_uniformly_iff (hinv.ring side.peer) hreader hthere hnon hn

/-- The client fills a buffer of one byte. -/
private def filled : List SidesAction := .write .client [1] :: List.replicate 14 (.step .client)

theorem would_block_iff_filled :
    ∃ s, Run.run sidesStep (.init fun _ => .fresh (fun _ => 0) 1 ⟨fun _ => true⟩) filled = some s ∧
      ReadsUniformly s.segment (s.ring .client) 0 2 := by
  have hrun : ∃ s, Run.run sidesStep (.init fun _ => .fresh (fun _ => 0) 1 ⟨fun _ => true⟩)
      filled = some s ∧ s.pc .server = .ready ∧ s.gone .client = false ∧
      (s.ring .client).buffer.timeouts.nonBlocking .read = true ∧
      0 < getAvailableSpace (s.ring .client).buffer .read :=
    ⟨_, rfl, by decide, by decide, by decide, by decide⟩
  obtain ⟨s, hs, hpc, hlive, hnon, hpos⟩ := hrun
  have hiff := (@would_block_iff (fun _ => .fresh (fun _ => 0) 1 ⟨fun _ => true⟩)
    (fun _ => by decide) (fun _ => by decide) s ⟨filled, hs⟩ .server hpc hlive 0).2 hnon 2
    (by decide)
  exact ⟨s, hs, hiff.mpr (.inl hpos)⟩

/-- **A full buffer looks like a dead peer**: the client's next write returns `0`; and the
client's read of nothing returns `-1`, but `errno` stays `0`. -/
theorem would_block_unreported :
    ∃ s, Run.run sidesStep (.init fun _ => .fresh (fun _ => 0) 1 ⟨fun _ => true⟩) filled = some s ∧
      s.gone .server = false ∧
      (connectionWriteBuffer s.segment (s.ring .client).buffer 0 [2]).map
        (fun result => (result.returned, result.errno)) = some (0, 0) ∧
      (connectionReadBuffer s.segment (s.ring .server).buffer 0 1).map
        (fun result => (result.returned, result.errno)) = some (-1, 0) ∧
      ¬ WritesUniformly s.segment (s.ring .client) 0 [2] ∧
      ¬ ReadsUniformly s.segment (s.ring .server) 0 1 := by
  have hrun : ∃ s, Run.run sidesStep (.init fun _ => .fresh (fun _ => 0) 1 ⟨fun _ => true⟩)
      filled = some s ∧ s.gone .server = false ∧
      (connectionWriteBuffer s.segment (s.ring .client).buffer 0 [2]).map
        (fun result => (result.returned, result.errno)) = some (0, 0) ∧
      (connectionReadBuffer s.segment (s.ring .server).buffer 0 1).map
        (fun result => (result.returned, result.errno)) = some (-1, 0) ∧
      (s.ring .client).writer = .idle ∧ (s.ring .server).reader = .idle ∧
      connectionPeerDied s.segment = false ∧
      (s.ring .client).buffer.timeouts.nonBlocking .write = true ∧
      (s.ring .server).buffer.timeouts.nonBlocking .read = true ∧
      getAvailableSpace (s.ring .client).buffer .write = 0 ∧
      getAvailableSpace (s.ring .server).buffer .read = 0 :=
    ⟨_, rfl, by decide, by decide, by decide, by decide, by decide, by decide, by decide,
      by decide, by decide, by decide⟩
  obtain ⟨s, hs, hlive, hwrite, hread, hw, hr, hthere, hnw, hnr, hfull, hempty⟩ := hrun
  have hinv := @sidesInv_reaches (fun _ => .fresh (fun _ => 0) 1 ⟨fun _ => true⟩) s
    (fun _ => by decide) (fun _ => by decide) ⟨filled, hs⟩
  refine ⟨s, hs, hlive, hwrite, hread, ?_, ?_⟩
  · rw [writes_uniformly_iff (hinv.ring .client) hw hthere hnw, hfull]
    decide
  · rw [reads_uniformly_iff (hinv.ring .server) hr hthere hnr one_ne_zero, hempty]
    decide

end Tssx
