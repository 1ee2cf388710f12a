import Tssx.Connection.HangUp

/-!
# What readiness promises

`_ready_for` and `connection_peer_died` are what `poll`, `select` and `epoll` ask of a
connection.  The bytes that a side can read only become more while it does nothing, since
only its peer writes them, and so does the room that it can write to; a peer that has
disconnected does not come back.  So the next call of a side that has been told that it is
ready finds something in its first load, and returns after 14 steps of its own at most
(`readiness_kept`).
-/

namespace Tssx

/-! ### The promise -/

/-- `_ready_for` of the server and of the client. -/
def readyFor (s : Sides) : Side → Operation → Bool
  | .server, .read => bufferReadyFor (s.ring .client).buffer .read
  | .server, .write => bufferReadyFor (s.ring .server).buffer .write
  | .client, .read => bufferReadyFor (s.ring .server).buffer .read
  | .client, .write => bufferReadyFor (s.ring .client).buffer .write

/-- The answer of a readiness test. -/
def Sides.saysReady (s : Sides) (side : Side) : Operation → Bool
  | .read => readyFor s side .read || connectionPeerDied s.segment
  | .write => readyFor s side .write

def SidesAction.side : SidesAction → Side
  | .read side _ | .write side _ | .close side | .step side => side

def SidesAction.isStepOf (side : Side) : SidesAction → Bool
  | .step b => b = side
  | _ => false

/-- The beginning of a `connection_read` or `connection_write` of `n` bytes. -/
def SidesAction.Begins (side : Side) (n : Nat) (a : SidesAction) : Operation → Prop
  | .read => a = .read side n
  | .write => ∃ data, data.length = n ∧ a = .write side data

/-- What a side's load of the available space would find. -/
def Sides.available (s : Sides) (side : Side) : Operation → Nat
  | .read => getAvailableSpace (s.ring side.peer).buffer .read
  | .write => getAvailableSpace (s.ring side).buffer .write

/-- A load of the call in progress has found nothing, or is to be made and will. -/
def TransferPc.findsNothing {κ : Type} (pc : TransferPc κ) (available : Nat) : Bool :=
  match pc with
  | .space _ waits => decide (0 < waits ∨ available = 0)
  | _ => false

def Sides.findsNothing (s : Sides) (side : Side) : Bool :=
  (s.ring side.peer).reader.findsNothing (s.available side .read) ||
    (s.ring side).writer.findsNothing (s.available side .write)

/-! ### The steps left -/

def Sides.remaining (s : Sides) (side : Side) : Nat :=
  match s.pc side with
  | .checkRead _ | .checkWrite _ => 14
  | .reading _ => (s.ring side.peer).reader.remaining
  | .writing => (s.ring side).writer.remaining
  | _ => 0

section Access

variable {r r' : RingState}

theorem TransferPc.Moves.finds {κ : Type} {starved : Prop} {pc pc' : TransferPc κ}
    {available : Nat} (h : TransferPc.Moves starved pc pc') (hs : starved → available = 0)
    (hfinds : pc.findsNothing available = false) :
    pc'.remaining < pc.remaining ∧ ∀ n, pc'.findsNothing n = false := by
  cases h with
  | again call waits hstarved => simp [TransferPc.findsNothing, hs hstarved] at hfinds
  | start => exact ⟨Nat.lt_succ_self _, fun _ => rfl⟩
  | inside _ _ _ hreg' hless =>
    refine ⟨hless, fun n => ?_⟩
    cases pc' <;> first | rfl | cases hreg'
  | finish => exact ⟨Nat.lt_succ_self _, fun _ => rfl⟩

theorem ReaderAccess.returned (h : ReaderAccess r r') (hidle : r'.reader = .idle) :
    r'.history.reads ≠ [] := by
  rcases h.reads with ⟨hbusy, -⟩ | ⟨_, record, -, -, hreads, -⟩
  · exact absurd hidle hbusy
  · rw [hreads]
    exact List.append_ne_nil_of_right_ne_nil _ (List.cons_ne_nil record [])

theorem WriterAccess.returned (h : WriterAccess r r') (hidle : r'.writer = .idle) :
    r'.history.writes ≠ [] := by
  rcases h.writes with ⟨hbusy, -⟩ | ⟨_, -, -, hwrites⟩
  · exact absurd hidle hbusy
  · rw [hwrites]
    exact List.append_ne_nil_of_right_ne_nil _ (List.cons_ne_nil _ [])

theorem readerCall_cases {n : Nat} (h : readerCall r n = some r') :
    r'.buffer = r.buffer ∧ r'.writer = r.writer ∧
      r'.history.published = r.history.published ∧ r'.history.released = r.history.released ∧
      (r'.reader = .idle ∧ r'.history.reads ≠ [] ∨ ∃ call, r'.reader = .space call 0) := by
  obtain ⟨hidle, ⟨-, rfl⟩ | ⟨-, rfl⟩⟩ := readerCall_eq h
  · exact ⟨rfl, rfl, rfl, rfl, .inl ⟨hidle, by simp⟩⟩
  · exact ⟨rfl, rfl, rfl, rfl, .inr ⟨_, rfl⟩⟩

theorem writerCall_cases {data : List UInt8} (h : writerCall r data = some r') :
    r'.buffer = r.buffer ∧ r'.reader = r.reader ∧
      r'.history.published = r.history.published ∧ r'.history.released = r.history.released ∧
      (r'.writer = .idle ∧ r'.history.writes ≠ [] ∨ ∃ call, r'.writer = .space call 0) := by
  obtain ⟨hidle, ⟨-, rfl⟩ | ⟨-, rfl⟩⟩ := writerCall_eq h
  · exact ⟨rfl, rfl, rfl, rfl, .inl ⟨hidle, by simp⟩⟩
  · exact ⟨rfl, rfl, rfl, rfl, .inr ⟨_, rfl⟩⟩

end Access

/-! ### Steps of the peer -/

section Sides

variable {capacity : Side → Nat} {s t : Sides} {side b : Side}

/-- **What a step does to the two buffers**: nothing, an access of the side's reader or one of
its writer. -/
theorem sideStep_ring (hs : sideStep s b = some t) : t.ring = s.ring ∨
    (∃ ring, t.ring = Function.update s.ring b.peer ring ∧
      ring.writer = (s.ring b.peer).writer ∧
      ring.history.published = (s.ring b.peer).history.published ∧
      (s.ring b.peer).history.released ≤ ring.history.released) ∨
    ∃ ring, t.ring = Function.update s.ring b ring ∧ ring.reader = (s.ring b).reader ∧
      ring.history.released = (s.ring b).history.released ∧
      (s.ring b).history.published ≤ ring.history.published := by
  cases sideStep_cases hs with
  | readCall _ ring _ _ hcall =>
    obtain ⟨-, hw, hp, hr, -⟩ := readerCall_cases hcall
    exact .inr (.inl ⟨ring, Sides.afterRead_ring .., hw, hp, hr.ge⟩)
  | readStep _ ring _ hstep =>
    have haccess := readerStep_access hstep
    exact .inr (.inl ⟨ring, Sides.afterRead_ring .., haccess.writer, haccess.published,
      haccess.released⟩)
  | writeCall _ ring _ _ hcall =>
    obtain ⟨-, hr, hp, hre, -⟩ := writerCall_cases hcall
    exact .inr (.inr ⟨ring, Sides.afterWrite_ring .., hr, hre, hp.ge⟩)
  | writeStep ring _ hstep =>
    have haccess := writerStep_access hstep
    exact .inr (.inr ⟨ring, Sides.afterWrite_ring .., haccess.reader, haccess.released,
      haccess.published⟩)
  | readGone | writeGone | subtract | destroy | leave => exact .inl rfl

/-- What a step of the peer leaves to a side. -/
structure Waiting (s t : Sides) (side : Side) : Prop where
  pc : t.pc side = s.pc side
  reader : (t.ring side.peer).reader = (s.ring side.peer).reader
  writer : (t.ring side).writer = (s.ring side).writer
  available : ∀ operation, s.available side operation ≤ t.available side operation
  gone : s.gone side.peer = true → t.gone side.peer = true

/-- **Readiness only grows** by what the peer does. -/
theorem SidesInv.peer_step (h : SidesInv capacity s) {a : SidesAction} (ha : a.side = side.peer)
    (hs : sidesStep s a = some t) : Waiting s t side := by
  have ht := h.sidesStep_inv hs
  have hcall : ∀ pc, SidePc.gone pc = false → s.call side.peer pc = some t →
      Waiting s t side := by
    intro pc hpc hs
    obtain ⟨hring, hgone⟩ := Sides.call_eq hpc hs
    refine ⟨?_, by rw [hring], by rw [hring], ?_, fun hg => (hgone _).trans hg⟩
    · unfold Sides.call at hs
      split at hs
      · obtain rfl := Option.some.inj hs
        exact Function.update_of_ne side.peer_ne.symm _ _
      · cases hs
    · intro operation
      cases operation <;> simp [Sides.available, hring]
  cases a with
  | read b n => obtain rfl : b = side.peer := ha; exact hcall _ rfl hs
  | write b data => obtain rfl : b = side.peer := ha; exact hcall _ rfl hs
  | close b => obtain rfl : b = side.peer := ha; exact hcall _ rfl hs
  | step b =>
    obtain rfl : b = side.peer := ha
    have hs' : sideStep s side.peer = some t := hs
    have hpc := sideStep_peer hs'
    rw [Side.peer_peer] at hpc
    have hgone : s.gone side.peer = true → t.gone side.peer = true :=
      fun hg => (sideStep_gone hg hs').1
    have hne := side.peer_ne
    have hread := (h.ring side.peer).unread
    have hread' := (ht.ring side.peer).unread
    have hwrite := (h.ring side).freeSpace
    have hwrite' := (ht.ring side).freeSpace
    rcases sideStep_ring hs' with hring | ⟨ring, hring, hw, hp, hr⟩ | ⟨ring, hring, hw, hp, hr⟩
    · refine ⟨hpc, by rw [hring], by rw [hring], ?_, hgone⟩
      intro operation
      cases operation <;> simp [Sides.available, hring]
    · -- the reader of what this side writes
      rw [Side.peer_peer] at hring hw hp hr
      rw [hring] at hread' hwrite'
      rw [Function.update_of_ne hne] at hread'
      rw [Function.update_self] at hwrite'
      refine ⟨hpc, by rw [hring, Function.update_of_ne hne],
        by rw [hring, Function.update_self, hw], ?_, hgone⟩
      intro operation
      cases operation with
      | read => simp only [Sides.available, hring, Function.update_of_ne hne, le_refl]
      | write =>
        simp only [Sides.available, hring, Function.update_self]
        omega
    · -- the writer of what this side reads
      rw [hring] at hread' hwrite'
      rw [Function.update_self] at hread'
      rw [Function.update_of_ne hne.symm] at hwrite'
      refine ⟨hpc, by rw [hring, Function.update_self, hw],
        by rw [hring, Function.update_of_ne hne.symm], ?_, hgone⟩
      intro operation
      cases operation with
      | read =>
        simp only [Sides.available, hring, Function.update_self]
        omega
      | write => simp only [Sides.available, hring, Function.update_of_ne hne.symm, le_refl]

/-! ### The call -/

/-- A side that has been told that it is ready, and has done nothing or is inside its call. -/
structure Promised (s : Sides) (side : Side) : Prop where
  finds : s.findsNothing side = false
  open_ : s.pc side ≠ .subtract ∧ s.pc side ≠ .test ∧ s.pc side ≠ .closed
  read : ∀ n, s.pc side = .checkRead n → s.gone side.peer = true ∨ 0 < s.available side .read
  write : ∀ data, s.pc side = .checkWrite data →
    s.gone side.peer = true ∨ 0 < s.available side .write
  reading : ∀ peerGone, s.pc side = .reading peerGone → (s.ring side.peer).reader ≠ .idle
  writing : s.pc side = .writing → (s.ring side).writer ≠ .idle

theorem findsNothing_mono {κ : Type} {pc : TransferPc κ} {m n : Nat} (hle : m ≤ n)
    (h : pc.findsNothing m = false) : pc.findsNothing n = false := by
  cases pc with
  | space _ waits =>
    simp only [TransferPc.findsNothing, decide_eq_false_iff_not, not_or] at h ⊢
    omega
  | _ => rfl

theorem findsNothing_iff : s.findsNothing side = false ↔
    (s.ring side.peer).reader.findsNothing (s.available side .read) = false ∧
      (s.ring side).writer.findsNothing (s.available side .write) = false := by
  rw [Sides.findsNothing, Bool.or_eq_false_iff]

theorem Promised.waiting (h : Promised s side) (hw : Waiting s t side) : Promised t side := by
  obtain ⟨hr, hwr⟩ := findsNothing_iff.mp h.finds
  refine ⟨findsNothing_iff.mpr ⟨?_, ?_⟩, ?_, ?_, ?_, ?_, ?_⟩
  · rw [hw.reader]
    exact findsNothing_mono (hw.available .read) hr
  · rw [hw.writer]
    exact findsNothing_mono (hw.available .write) hwr
  · rw [hw.pc]
    exact h.open_
  · intro n hpc
    rw [hw.pc] at hpc
    exact (h.read n hpc).imp hw.gone fun ha => Nat.lt_of_lt_of_le ha (hw.available .read)
  · intro data hpc
    rw [hw.pc] at hpc
    exact (h.write data hpc).imp hw.gone fun ha => Nat.lt_of_lt_of_le ha (hw.available .write)
  · intro peerGone hpc
    rw [hw.reader]
    exact h.reading peerGone (hw.pc.symm.trans hpc)
  · intro hpc
    rw [hw.writer]
    exact h.writing (hw.pc.symm.trans hpc)

theorem Waiting.remaining_eq (hw : Waiting s t side) : t.remaining side = s.remaining side := by
  rw [Sides.remaining, Sides.remaining, hw.pc, hw.reader, hw.writer]

theorem SidesInv.promised_ready (h : SidesInv capacity s) (hpc : s.pc side = .ready) :
    Promised s side := by
  obtain ⟨hr, hw⟩ := h.idle side (by rw [hpc]; simp) (by rw [hpc]; simp)
  refine ⟨findsNothing_iff.mpr ⟨by rw [hr]; rfl, by rw [hw]; rfl⟩, ?_, ?_, ?_, ?_, ?_⟩ <;>
    simp [hpc]

theorem afterRead_pc (s : Sides) (side : Side) (peerGone : Bool) {ring : RingState}
    (h : ring.reader = .idle → ring.history.reads ≠ []) :
    (ring.reader = .idle ∧ (s.afterRead side peerGone ring).pc side = .ready) ∨
      (ring.reader ≠ .idle ∧ (s.afterRead side peerGone ring).pc side = .reading peerGone) := by
  by_cases hidle : ring.reader = .idle
  · refine .inl ⟨hidle, ?_⟩
    have hlast := List.getLast?_eq_some_getLast (h hidle)
    simp [Sides.afterRead, hidle, hlast, Sides.goto]
  · refine .inr ⟨hidle, ?_⟩
    unfold Sides.afterRead
    dsimp only
    split
    · exact absurd ‹_› hidle
    · simp [Sides.goto]

theorem afterWrite_pc (s : Sides) (side : Side) {ring : RingState}
    (h : ring.writer = .idle → ring.history.writes ≠ []) :
    (ring.writer = .idle ∧ (s.afterWrite side ring).pc side = .ready) ∨
      (ring.writer ≠ .idle ∧ (s.afterWrite side ring).pc side = .writing) := by
  by_cases hidle : ring.writer = .idle
  · refine .inl ⟨hidle, ?_⟩
    have hlast := List.getLast?_eq_some_getLast (h hidle)
    simp [Sides.afterWrite, hidle, hlast, Sides.goto]
  · refine .inr ⟨hidle, ?_⟩
    unfold Sides.afterWrite
    dsimp only
    split
    · exact absurd ‹_› hidle
    · simp [Sides.goto]

theorem SidesInv.promised_reading (h : SidesInv capacity t) {peerGone : Bool}
    (hpc : t.pc side = .reading peerGone) (hr : (t.ring side.peer).reader ≠ .idle)
    (hf : (t.ring side.peer).reader.findsNothing (t.available side .read) = false) :
    Promised t side := by
  have hw := h.writer_idle side (by rw [hpc]; simp)
  refine ⟨findsNothing_iff.mpr ⟨hf, by rw [hw]; rfl⟩, ?_, ?_, ?_, fun _ _ => hr, ?_⟩ <;> simp [hpc]

theorem SidesInv.promised_writing (h : SidesInv capacity t) (hpc : t.pc side = .writing)
    (hw : (t.ring side).writer ≠ .idle)
    (hf : (t.ring side).writer.findsNothing (t.available side .write) = false) :
    Promised t side := by
  have hr := h.reader_idle side (by rw [hpc]; simp)
  refine ⟨findsNothing_iff.mpr ⟨by rw [hr]; rfl, hf⟩, ?_, ?_, ?_, ?_, fun _ => hw⟩ <;> simp [hpc]

theorem remaining_ready (hpc : s.pc side = .ready) : s.remaining side = 0 := by
  rw [Sides.remaining, hpc]

theorem remaining_reading {peerGone : Bool} (hpc : s.pc side = .reading peerGone) :
    s.remaining side = (s.ring side.peer).reader.remaining := by
  rw [Sides.remaining, hpc]

theorem remaining_writing (hpc : s.pc side = .writing) :
    s.remaining side = (s.ring side).writer.remaining := by
  rw [Sides.remaining, hpc]

theorem SidesInv.after_read {peerGone : Bool} {ring : RingState}
    (h : SidesInv capacity (s.afterRead side peerGone ring))
    (hret : ring.reader = .idle → ring.history.reads ≠ [])
    (hf : ring.reader.findsNothing (getAvailableSpace ring.buffer .read) = false) :
    Promised (s.afterRead side peerGone ring) side ∧
      (s.afterRead side peerGone ring).remaining side = ring.reader.remaining := by
  have hring : (s.afterRead side peerGone ring).ring side.peer = ring := by
    rw [Sides.afterRead_ring, Function.update_self]
  rcases afterRead_pc s side peerGone hret with ⟨hidle, hready⟩ | ⟨hbusy, hreading⟩
  · refine ⟨h.promised_ready hready, ?_⟩
    rw [remaining_ready hready, hidle]
    rfl
  · refine ⟨h.promised_reading hreading (by rw [hring]; exact hbusy) ?_, ?_⟩
    · rw [Sides.available, hring]
      exact hf
    · rw [remaining_reading hreading, hring]

theorem SidesInv.after_write {ring : RingState}
    (h : SidesInv capacity (s.afterWrite side ring))
    (hret : ring.writer = .idle → ring.history.writes ≠ [])
    (hf : ring.writer.findsNothing (getAvailableSpace ring.buffer .write) = false) :
    Promised (s.afterWrite side ring) side ∧
      (s.afterWrite side ring).remaining side = ring.writer.remaining := by
  have hring : (s.afterWrite side ring).ring side = ring := by
    rw [Sides.afterWrite_ring, Function.update_self]
  rcases afterWrite_pc s side hret with ⟨hidle, hready⟩ | ⟨hbusy, hwriting⟩
  · refine ⟨h.promised_ready hready, ?_⟩
    rw [remaining_ready hready, hidle]
    rfl
  · refine ⟨h.promised_writing hwriting (by rw [hring]; exact hbusy) ?_, ?_⟩
    · rw [Sides.available, hring]
      exact hf
    · rw [remaining_writing hwriting, hring]

theorem first_load {κ : Type} {pc : TransferPc κ} {available : Nat}
    (hpc : pc = .idle ∨ ∃ call, pc = .space call 0) (ha : 0 < available) :
    pc.findsNothing available = false ∧ pc.remaining < 14 := by
  rcases hpc with rfl | ⟨call, rfl⟩
  · exact ⟨rfl, Nat.zero_lt_succ _⟩
  · refine ⟨?_, Nat.lt_succ_self _⟩
    simp only [TransferPc.findsNothing, decide_eq_false_iff_not, not_or]
    omega

theorem begun_returned {κ : Type} {pc : TransferPc κ} {returned : Prop}
    (h : pc = .idle ∧ returned ∨ ∃ call, pc = .space call 0) (hidle : pc = .idle) : returned := by
  rcases h with ⟨-, hreturned⟩ | ⟨call, hspace⟩
  · exact hreturned
  · rw [hspace] at hidle
    cases hidle

theorem SidesInv.gone_step (ht : SidesInv capacity t) (hready : t.pc side = .ready)
    (hbefore : s.remaining side = 14) : Promised t side ∧ t.remaining side < s.remaining side := by
  refine ⟨ht.promised_ready hready, ?_⟩
  rw [hbefore, remaining_ready hready]
  exact Nat.zero_lt_succ _

/-- **An own step keeps the promise**, and there is one less. -/
theorem SidesInv.own_step (h : SidesInv capacity s) (hp : Promised s side)
    (hs : sideStep s side = some t) :
    Promised t side ∧ t.remaining side < s.remaining side := by
  have ht : SidesInv capacity t := h.sideStep_inv hs
  cases hpc : s.pc side with
  | ready | closed => simp only [sideStep, hpc] at hs; cases hs
  | subtract => exact absurd hpc hp.open_.1
  | test => exact absurd hpc hp.open_.2.1
  | checkRead n =>
    have hbefore : s.remaining side = 14 := by rw [Sides.remaining, hpc]
    have hdied := h.peerDied_eq side (by rw [Sides.gone, hpc]; rfl)
    simp only [sideStep, hpc] at hs
    split at hs
    · obtain rfl := Option.some.inj hs
      exact ht.gone_step (by simp [Sides.goto]) hbefore
    · rename_i hlive
      have hav : 0 < s.available side .read := by
        refine (hp.read n hpc).resolve_left ?_
        rw [← hdied]
        exact hlive
      obtain ⟨ring, hcall, rfl⟩ := Option.map_eq_some_iff.mp hs
      obtain ⟨hbuffer, -, -, -, hcases⟩ := readerCall_cases hcall
      have hav' : 0 < getAvailableSpace ring.buffer .read := by
        rw [hbuffer]
        exact hav
      obtain ⟨hf, hless⟩ := first_load (hcases.imp And.left id) hav'
      obtain ⟨hpt, hrem⟩ := ht.after_read (begun_returned hcases) hf
      refine ⟨hpt, ?_⟩
      rw [hbefore, hrem]
      exact hless
  | checkWrite data =>
    have hbefore : s.remaining side = 14 := by rw [Sides.remaining, hpc]
    have hdied := h.peerDied_eq side (by rw [Sides.gone, hpc]; rfl)
    simp only [sideStep, hpc] at hs
    split at hs
    · obtain rfl := Option.some.inj hs
      exact ht.gone_step (by simp [Sides.goto]) hbefore
    · rename_i hlive
      have hav : 0 < s.available side .write := by
        refine (hp.write data hpc).resolve_left ?_
        rw [← hdied]
        exact hlive
      obtain ⟨ring, hcall, rfl⟩ := Option.map_eq_some_iff.mp hs
      obtain ⟨hbuffer, -, -, -, hcases⟩ := writerCall_cases hcall
      have hav' : 0 < getAvailableSpace ring.buffer .write := by
        rw [hbuffer]
        exact hav
      obtain ⟨hf, hless⟩ := first_load (hcases.imp And.left id) hav'
      obtain ⟨hpt, hrem⟩ := ht.after_write (begun_returned hcases) hf
      refine ⟨hpt, ?_⟩
      rw [hbefore, hrem]
      exact hless
  | reading peerGone =>
    simp only [sideStep, hpc] at hs
    obtain ⟨ring, hstep, rfl⟩ := Option.map_eq_some_iff.mp hs
    have haccess := readerStep_access hstep
    obtain ⟨hless, hfinds⟩ := haccess.moves.finds And.left (findsNothing_iff.mp hp.finds).1
    obtain ⟨hpt, hrem⟩ := ht.after_read haccess.returned (hfinds _)
    refine ⟨hpt, ?_⟩
    rw [remaining_reading hpc, hrem]
    exact hless
  | writing =>
    simp only [sideStep, hpc] at hs
    obtain ⟨ring, hstep, rfl⟩ := Option.map_eq_some_iff.mp hs
    have haccess := writerStep_access hstep
    obtain ⟨hless, hfinds⟩ := haccess.moves.finds And.left (findsNothing_iff.mp hp.finds).2
    obtain ⟨hpt, hrem⟩ := ht.after_write haccess.returned (hfinds _)
    refine ⟨hpt, ?_⟩
    rw [remaining_writing hpc, hrem]
    exact hless

theorem SidesInv.own_step_isSome (h : SidesInv capacity s) (hp : Promised s side)
    (hpc : s.pc side ≠ .ready) : (sideStep s side).isSome := by
  cases hp' : s.pc side with
  | ready => exact absurd hp' hpc
  | subtract => exact absurd hp' hp.open_.1
  | test => exact absurd hp' hp.open_.2.1
  | closed => exact absurd hp' hp.open_.2.2
  | checkRead n =>
    have hidle := (h.idle side (by rw [hp']; simp) (by rw [hp']; simp)).1
    simp only [sideStep, hp']
    split
    · rfl
    · simp only [Option.isSome_map, readerCall, hidle]
      split <;> rfl
  | checkWrite data =>
    have hidle := (h.idle side (by rw [hp']; simp) (by rw [hp']; simp)).2
    simp only [sideStep, hp']
    split
    · rfl
    · simp only [Option.isSome_map, writerCall, hidle]
      split <;> rfl
  | reading peerGone =>
    simp only [sideStep, hp', Option.isSome_map]
    exact (h.ring side.peer).readerStep_isSome (hp.reading peerGone hp')
  | writing =>
    simp only [sideStep, hp', Option.isSome_map]
    exact (h.ring side).writerStep_isSome (hp.writing hp')

theorem SidesInv.promised_check (h : SidesInv capacity s) (hpc : s.pc side = .ready) {pc : SidePc}
    (hcheck : (∃ n, pc = .checkRead n ∧ (s.gone side.peer = true ∨ 0 < s.available side .read)) ∨
      ∃ data, pc = .checkWrite data ∧
        (s.gone side.peer = true ∨ 0 < s.available side .write)) :
    Promised (s.goto side pc) side ∧ (s.goto side pc).remaining side = 14 := by
  obtain ⟨hr, hw⟩ := h.idle side (by rw [hpc]; simp) (by rw [hpc]; simp)
  have hgoto : (s.goto side pc).pc side = pc := Function.update_self ..
  have hgone : (s.goto side pc).gone side.peer = s.gone side.peer := by
    simp [Sides.gone, Sides.goto, side.peer_ne]
  have hfinds : (s.goto side pc).findsNothing side = false :=
    findsNothing_iff.mpr ⟨by rw [Sides.goto, hr]; rfl, by rw [Sides.goto, hw]; rfl⟩
  rcases hcheck with ⟨n, rfl, ha⟩ | ⟨data, rfl, ha⟩
  · refine ⟨⟨hfinds, by simp [hgoto], ?_, by simp [hgoto], by simp [hgoto], by simp [hgoto]⟩, ?_⟩
    · intro _ _
      rw [hgone]
      exact ha
    · rw [Sides.remaining, hgoto]
  · refine ⟨⟨hfinds, by simp [hgoto], by simp [hgoto], ?_, by simp [hgoto], by simp [hgoto]⟩, ?_⟩
    · intro _ _
      rw [hgone]
      exact ha
    · rw [Sides.remaining, hgoto]

/-- **A whole call** of a side that has been promised something, with the peer's steps. -/
theorem SidesInv.call_run (h : SidesInv capacity s) (hp : Promised s side) {bs : List SidesAction}
    (hbs : ∀ a ∈ bs, a.side = side → a = .step side) (hrun : Run.run sidesStep s bs = some t) :
    SidesInv capacity t ∧ Promised t side ∧
      bs.countP (SidesAction.isStepOf side) + t.remaining side ≤ s.remaining side := by
  induction bs generalizing s with
  | nil =>
    obtain rfl := Option.some.inj hrun
    exact ⟨h, hp, Nat.le_of_eq (Nat.zero_add _)⟩
  | cons a bs ih =>
    obtain ⟨m, hm, hrest⟩ := Run.run_cons.mp hrun
    have hinv := h.sidesStep_inv hm
    have htail : ∀ b ∈ bs, b.side = side → b = .step side :=
      fun b hb => hbs b (List.mem_cons_of_mem a hb)
    rcases Side.eq_or_eq_peer a.side side with ha | ha
    · obtain rfl := hbs a List.mem_cons_self ha
      obtain ⟨hpm, hless⟩ := h.own_step hp hm
      obtain ⟨hw, hpw, hcount⟩ := ih hinv hpm htail hrest
      refine ⟨hw, hpw, ?_⟩
      rw [List.countP_cons_of_pos (by simp [SidesAction.isStepOf])]
      omega
    · have hwait := h.peer_step ha hm
      obtain ⟨hw, hpw, hcount⟩ := ih hinv (hp.waiting hwait) htail hrest
      refine ⟨hw, hpw, ?_⟩
      have hother : a.isStepOf side = false := by
        cases a with
        | step b =>
          simp only [SidesAction.isStepOf, decide_eq_false_iff_not]
          rintro rfl
          exact b.peer_ne ha.symm
        | _ => rfl
      rw [List.countP_cons_of_neg (by simp [hother]), ← hwait.remaining_eq]
      exact hcount

theorem SidesInv.wait_run (h : SidesInv capacity s) {as : List SidesAction}
    (has : ∀ a ∈ as, a.side = side.peer) (hrun : Run.run sidesStep s as = some t) :
    SidesInv capacity t ∧ Waiting s t side := by
  induction as generalizing s with
  | nil =>
    obtain rfl := Option.some.inj hrun
    exact ⟨h, rfl, rfl, rfl, fun _ => Nat.le_refl _, id⟩
  | cons a as ih =>
    obtain ⟨m, hm, hrest⟩ := Run.run_cons.mp hrun
    obtain ⟨ht, hw⟩ := ih (h.sidesStep_inv hm) (fun b hb => has b (List.mem_cons_of_mem a hb)) hrest
    have hwait := h.peer_step (has a List.mem_cons_self) hm
    exact ⟨ht, hw.pc.trans hwait.pc, hw.reader.trans hwait.reader, hw.writer.trans hwait.writer,
      fun operation => (hwait.available operation).trans (hw.available operation),
      fun hg => hw.gone (hwait.gone hg)⟩

/-- A positive answer, read as what the next call finds. -/
theorem SidesInv.says_ready (h : SidesInv capacity s) (hpc : s.pc side = .ready)
    {operation : Operation} (hanswer : s.saysReady side operation = true) :
    s.gone side.peer = true ∨ 0 < s.available side operation := by
  have hready : readyFor s side operation = true → 0 < s.available side operation := by
    intro hr
    have hbuffer : ∀ b o, bufferReadyFor (s.ring b).buffer o = true →
        0 < getAvailableSpace (s.ring b).buffer o := by
      intro b o ho
      have hinv := h.ring b
      have := hinv.released_le
      have := hinv.delivered_le
      have := hinv.published_le
      have := hinv.room
      have hsize := hinv.size
      have hle : (s.ring b).buffer.capacity ≤ MAX_CAPACITY := by
        rw [hinv.capacity]
        exact hinv.bound
      have hused : (s.ring b).history.published - (s.ring b).history.released ≤
          (s.ring b).buffer.capacity := by
        rw [hinv.capacity]
        omega
      exact (bufferReadyFor_iff (by omega) hused hle o).mp ho
    cases operation with
    | read => exact hbuffer side.peer .read (by cases side <;> exact hr)
    | write => exact hbuffer side .write (by cases side <;> exact hr)
  cases operation with
  | write => exact .inr (hready hanswer)
  | read =>
    rcases Bool.or_eq_true _ _ |>.mp hanswer with hr | hd
    · exact .inr (hready hr)
    · rw [h.peerDied_eq side (by rw [Sides.gone, hpc]; rfl)] at hd
      exact .inl hd

end Sides

/-- **Readiness is a promise**: a side that has been told that it is ready, and whose peer goes
on in any way, finds something in every load of its next call, and that call returns after
14 steps of the side at most. -/
theorem readiness_kept {buffer : Side → Buffer} {s u v w : Sides} {side : Side}
    {operation : Operation} {n : Nat} {as bs : List SidesAction} {call : SidesAction}
    (hc : ∀ side, 1 ≤ (buffer side).capacity) (hb : ∀ side, (buffer side).capacity ≤ 2 ^ 31 - 1)
    (h : Run.Reaches sidesStep (.init buffer) s) (hpc : s.pc side = .ready)
    (hanswer : s.saysReady side operation = true)
    (has : ∀ a ∈ as, a.side = side.peer) (hwait : Run.run sidesStep s as = some u)
    (hcall : call.Begins side n operation) (hbegin : sidesStep u call = some v)
    (hbs : ∀ a ∈ bs, a.side = side → a = .step side) (hrun : Run.run sidesStep v bs = some w) :
    w.findsNothing side = false ∧ bs.countP (SidesAction.isStepOf side) ≤ 14 ∧
      (w.pc side ≠ .ready → (sidesStep w (.step side)).isSome) := by
  have hs := sidesInv_reaches hc hb h
  have hfinds := hs.says_ready hpc hanswer
  obtain ⟨hu, hkept⟩ := hs.wait_run has hwait
  have hready : u.pc side = .ready := hkept.pc.trans hpc
  have hv := hu.sidesStep_inv hbegin
  have hfinds' : u.gone side.peer = true ∨ 0 < u.available side operation :=
    hfinds.imp hkept.gone fun ha => Nat.lt_of_lt_of_le ha (hkept.available operation)
  have hp : Promised v side ∧ v.remaining side = 14 := by
    cases operation with
    | read =>
      obtain rfl : call = .read side n := hcall
      simp only [sidesStep, Sides.call, if_pos hready] at hbegin
      obtain rfl := Option.some.inj hbegin
      exact hu.promised_check hready (.inl ⟨n, rfl, hfinds'⟩)
    | write =>
      obtain ⟨data, -, rfl⟩ := hcall
      simp only [sidesStep, Sides.call, if_pos hready] at hbegin
      obtain rfl := Option.some.inj hbegin
      exact hu.promised_check hready (.inr ⟨data, rfl, hfinds'⟩)
  obtain ⟨hw, hpw, hcount⟩ := hv.call_run hp.1 hbs hrun
  exact ⟨hpw.finds, by omega, hw.own_step_isSome hpw⟩

/-- A client writes a byte. -/
private def offer : List SidesAction :=
  .write .client [7] :: List.replicate 10 (.step .client)

theorem readiness_kept_at :
    ∃ s u v w, Run.run sidesStep (.init fun _ => .fresh (fun _ => 0) 2 ⟨fun _ => false⟩) offer =
        some s ∧ s.saysReady .server .read = true ∧
      Run.run sidesStep s [.close .client, .step .client] = some u ∧
      sidesStep u (.read .server 1) = some v ∧
      Run.run sidesStep v [.step .client, .step .server] = some w ∧
      w.findsNothing .server = false := by
  have hrun : Run.run sidesStep (.init fun _ => .fresh (fun _ => 0) 2 ⟨fun _ => false⟩) offer =
      some _ := rfl
  refine ⟨_, _, _, _, hrun, rfl, rfl, rfl, rfl, ?_⟩
  exact (@readiness_kept _ _ _ _ _ .server .read 1 [.close .client, .step .client]
    [.step .client, .step .server] (.read .server 1) (fun _ => by decide) (fun _ => by decide)
    ⟨offer, hrun⟩ rfl rfl (by simp [SidesAction.side, Side.peer]) rfl rfl rfl
    (by simp [SidesAction.side]) rfl).1

end Tssx
