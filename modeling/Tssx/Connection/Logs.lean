import Tssx.Connection.Sides

/-!
# The logs of the two sides

The finished calls of a side are in its logs, and what its finished writes have accepted is in
the ring that it writes.  A step of either side only extends the logs (`sidesStep_logs`), a step
of a side leaves the writes of its peer alone, and the step that ends a write logs what the
transfer returns (`afterWrite_returned`).
-/

namespace Tssx

section Logs

variable {c : Nat} {r r' : RingState}

/-- The writer is still inside a call, or has returned from one that moved at most `c` bytes. -/
def WriterMoved (c : Nat) (r r' : RingState) : Prop :=
  (r'.writer ≠ .idle ∧ r'.history.writes = r.history.writes) ∨
    ∃ w : List UInt8 × Nat, r'.writer = .idle ∧ r'.history.writes = r.history.writes ++ [w] ∧
      w.2 ≤ c

theorem writerCall_moved {data : List UInt8} (h : writerCall r data = some r') :
    WriterMoved c r r' := by
  obtain ⟨hidle, ⟨-, rfl⟩ | ⟨-, rfl⟩⟩ := writerCall_eq h
  · exact .inr ⟨_, hidle, rfl, Nat.zero_le c⟩
  · exact .inl ⟨by simp, rfl⟩

theorem writerStep_moved (hr : RingInv c r) (h : writerStep r = some r') :
    WriterMoved c r r' := by
  rcases (writerStep_access h).writes with hbusy | ⟨reg, hpc, hidle, hwrites⟩
  · exact .inl hbusy
  · have hf := hr.writer
    rw [hpc] at hf
    refine .inr ⟨_, hidle, hwrites, ?_⟩
    have hle := hf.1.bytes_le
    have hoffset := hf.1.offset_eq
    have hbound := hr.bound
    unfold MAX_CAPACITY at hbound
    show sizeT ((reg.bytes : Int) + reg.rightSpace) ≤ c
    rw [sizeT_eq (n := reg.offset + reg.bytes) (by rw [hoffset]; push_cast; omega) (by omega)]
    exact hle

theorem readerCall_writes {requested : Nat} (h : readerCall r requested = some r') :
    r'.history.writes = r.history.writes := by
  obtain ⟨-, ⟨-, rfl⟩ | ⟨-, rfl⟩⟩ := readerCall_eq h <;> rfl

/-- The bytes that a finished write has accepted. -/
def acceptedOf (record : List UInt8 × Int) : List UInt8 := record.1.take record.2.toNat

/-- The bytes accepted by the finished writes to a ring. -/
def RingState.finished (r : RingState) : List UInt8 :=
  r.history.writes.flatMap fun w => w.1.take w.2

/-- The logs of a side only grow, and its finished writes are what the log says. -/
def LogsGrow (s t : Sides) (side : Side) : Prop :=
  ∃ ws rs, t.writes side = s.writes side ++ ws ∧ t.reads side = s.reads side ++ rs ∧
    (t.ring side).finished = (s.ring side).finished ++ ws.flatMap acceptedOf

theorem readerCall_buffer {requested : Nat} (h : readerCall r requested = some r') :
    r'.buffer = r.buffer := by
  obtain ⟨-, ⟨-, rfl⟩ | ⟨-, rfl⟩⟩ := readerCall_eq h <;> rfl

theorem writerCall_buffer {data : List UInt8} (h : writerCall r data = some r') :
    r'.buffer = r.buffer := by
  obtain ⟨-, ⟨-, rfl⟩ | ⟨-, rfl⟩⟩ := writerCall_eq h <;> rfl

variable {s t : Sides} {b side : Side} {ring : RingState} {capacity : Side → Nat}

theorem logsGrow_of_read {rs : List ReadRecord} (hw : t.writes side = s.writes side)
    (hr : t.reads side = s.reads side ++ rs)
    (hring : (t.ring side).history.writes = (s.ring side).history.writes) : LogsGrow s t side := by
  refine ⟨[], rs, by rw [hw, List.append_nil], hr, ?_⟩
  rw [RingState.finished, hring]
  exact (List.append_nil _).symm

theorem ring_update_writes (hw : ring.history.writes = (s.ring b).history.writes) (side : Side) :
    (Function.update s.ring b ring side).history.writes = (s.ring side).history.writes := by
  by_cases hb : side = b
  · rw [hb, Function.update_self, hw]
  · rw [Function.update_of_ne hb]

theorem logRead_reads (s : Sides) (b side : Side) (record : ReadRecord) :
    ∃ rs, (s.logRead b record).reads side = s.reads side ++ rs := by
  by_cases hb : side = b
  · exact ⟨[record], by simp [Sides.logRead, hb]⟩
  · exact ⟨[], by simp [Sides.logRead, hb]⟩

theorem afterRead_logs (hw : ring.history.writes = (s.ring b.peer).history.writes) (gone : Bool)
    (side : Side) : LogsGrow s (s.afterRead b gone ring) side := by
  unfold Sides.afterRead
  dsimp only
  split
  · obtain ⟨rs, hrs⟩ := logRead_reads s b side _
    exact logsGrow_of_read rfl hrs (ring_update_writes hw side)
  · exact logsGrow_of_read rfl (List.append_nil _).symm (ring_update_writes hw side)

theorem afterWrite_busy (h : ring.writer ≠ .idle) :
    s.afterWrite b ring =
      { s with ring := Function.update s.ring b ring }.goto b .writing := by
  unfold Sides.afterWrite
  split
  · exact absurd ‹_› h
  · rfl

theorem afterWrite_returned {w : List UInt8 × Nat} {ws : List (List UInt8 × Nat)}
    (hidle : ring.writer = .idle) (hwrites : ring.history.writes = ws ++ [w]) :
    s.afterWrite b ring =
      ({ s with ring := Function.update s.ring b ring }.logWrite b w.1 (ssizeT w.2)).goto b
        .ready := by
  simp [Sides.afterWrite, hidle, hwrites]

theorem afterWrite_logs (hmoved : WriterMoved c (s.ring b) ring) (hc : c ≤ MAX_CAPACITY)
    (side : Side) : LogsGrow s (s.afterWrite b ring) side := by
  rcases hmoved with ⟨hbusy, hwrites⟩ | ⟨w, hidle, hwrites, hle⟩
  · rw [afterWrite_busy hbusy]
    exact logsGrow_of_read rfl (List.append_nil _).symm (ring_update_writes hwrites side)
  · rw [afterWrite_returned hidle hwrites]
    by_cases hb : side = b
    · subst hb
      refine ⟨[(w.1, ssizeT w.2)], [], ?_, (List.append_nil _).symm, ?_⟩
      · simp [Sides.goto, Sides.logWrite]
      · have hreturned : ssizeT w.2 = w.2 := by
          unfold MAX_CAPACITY at hc
          exact ssizeT_eq (by omega)
        simp [Sides.goto, Sides.logWrite, RingState.finished, hwrites, acceptedOf, hreturned]
    · refine logsGrow_of_read ?_ (List.append_nil _).symm ?_
      · simp [Sides.goto, Sides.logWrite, hb]
      · simp [Sides.goto, Sides.logWrite, hb]

theorem sideStep_logs (h : SidesInv capacity s) (hs : sideStep s b = some t) (side : Side) :
    LogsGrow s t side := by
  cases sideStep_cases hs with
  | readGone requestedBytes =>
    obtain ⟨rs, hrs⟩ := logRead_reads s b side _
    exact logsGrow_of_read rfl hrs rfl
  | readCall _ ring _ _ hcall => exact afterRead_logs (readerCall_writes hcall) _ side
  | readStep gone ring _ hstep => exact afterRead_logs (readerStep_access hstep).writes _ side
  | writeGone data =>
    -- a write to a peer that has gone accepts nothing
    by_cases hb : side = b
    · subst hb
      refine ⟨[(data, 0)], [], ?_, (List.append_nil _).symm, ?_⟩
      · simp [Sides.goto, Sides.logWrite]
      · simp [Sides.goto, Sides.logWrite, acceptedOf]
    · refine logsGrow_of_read ?_ (List.append_nil _).symm rfl
      simp [Sides.goto, Sides.logWrite, hb]
  | writeCall _ ring _ _ hcall =>
    exact afterWrite_logs (writerCall_moved hcall) (h.ring b).bound side
  | writeStep ring _ hstep =>
    exact afterWrite_logs (writerStep_moved (h.ring b) hstep) (h.ring b).bound side
  | subtract | destroy | leave => exact logsGrow_of_read rfl (List.append_nil _).symm rfl

/-- **A step of either side** extends the logs. -/
theorem sidesStep_logs (h : SidesInv capacity s) {a : SidesAction} (hs : sidesStep s a = some t)
    (side : Side) : LogsGrow s t side := by
  have hcall : ∀ b pc, s.call b pc = some t → LogsGrow s t side := by
    intro b pc hs
    unfold Sides.call at hs
    split at hs
    · obtain rfl := Option.some.inj hs
      exact logsGrow_of_read rfl (List.append_nil _).symm rfl
    · cases hs
  cases a with
  | read b _ | write b _ | close b => exact hcall b _ hs
  | step b => exact sideStep_logs h hs side

theorem sideStep_writes_peer (hs : sideStep s b = some t) :
    t.writes b.peer = s.writes b.peer := by
  have hlog : ∀ (u : Sides) data returned,
      (u.logWrite b data returned).writes b.peer = u.writes b.peer := by
    intro u data returned
    exact Function.update_of_ne b.peer_ne _ _
  have hread : ∀ gone ring, (s.afterRead b gone ring).writes b.peer = s.writes b.peer := by
    intro gone ring
    unfold Sides.afterRead
    dsimp only
    split <;> rfl
  have hwrite : ∀ ring, (s.afterWrite b ring).writes b.peer = s.writes b.peer := by
    intro ring
    unfold Sides.afterWrite
    dsimp only
    split
    · exact hlog _ _ _
    · rfl
  cases sideStep_cases hs with
  | readCall _ ring | readStep _ ring => exact hread _ ring
  | writeGone data => exact hlog s data 0
  | writeCall _ ring | writeStep ring => exact hwrite ring
  | readGone | subtract | destroy | leave => rfl

end Logs

end Tssx
