import Tssx.Connection.Progress
import Tssx.Experiment
import Tssx.Experiment.Whole

/-!
# Two programs that take turns

A `Script` says who sends what to whom, one transfer after the other.  A program *plays* a side
of it if it makes the calls of that side as long as every call returns the whole number, and
throws if one returns less.  The script *fits* the two buffers if no transfer crosses the end of
the memory and each finds room for all its bytes behind those that the peer may not have read.

`ExchangeInv.step`: in every interleaving of two programs that play a script that fits, every call
returns the whole number, as long as no call finds the peer gone.  `ExchangeInv.exists_live`: they
never wait for each other.
-/

namespace Tssx

/-- The transfers of two programs: the sender and the bytes. -/
abbrev Script := List (Side × List UInt8)

/-- The program throws if a call has returned less than `n`. -/
def Careful (n : Nat) (next : Int → Program) : Prop :=
  ∀ returned < (n : Int), ∃ message, next returned = .throw message

/-- The program makes the calls of the side as long as each returns the number that it passes, and
throws if one returns less. -/
def Plays (side : Side) : Script → Program → Prop
  | [], program => program = .cleanup
  | (sender, data) :: rest, program =>
    if sender = side then
      ∃ next, program = .write data next ∧ Careful data.length next ∧
        Plays side rest (next data.length)
    else
      ∃ next, program = .read data.length next ∧ Careful data.length next ∧
        Plays side rest (next data.length)

/-- The bytes that a side sends in the first `j` transfers. -/
def sent (script : Script) (sender : Side) (j : Nat) : Nat :=
  (((script.take j).filter fun x => x.1 = sender).map fun x => x.2.length).sum

/-- What the script asks of buffers of the capacities `c`. -/
structure Fits (c : Side → Nat) (script : Script) : Prop where
  nonempty : ∀ x ∈ script, x.2 ≠ []
  whole : ∀ {j sender data}, script[j]? = some (sender, data) →
    sent script sender j % c sender + data.length ≤ c sender
  /-- Of the transfers of one sender in a row none has to have been read. -/
  room : ∀ {j sender data}, script[j]? = some (sender, data) → ∀ m ≤ j,
    (∀ i, m ≤ i → i < j → ∃ d, script[i]? = some (sender, d)) →
    sent script sender j + data.length ≤ sent script sender m + c sender

section Script

variable {script : Script} {side sender : Side} {data : List UInt8} {j k : Nat}

theorem sent_succ (h : script[j]? = some (sender, data)) (side : Side) :
    sent script side (j + 1) = sent script side j + if sender = side then data.length else 0 := by
  rw [sent, List.take_add_one, h]
  by_cases hs : sender = side <;> simp [sent, hs]

theorem sent_self (h : script[j]? = some (sender, data)) :
    sent script sender (j + 1) = sent script sender j + data.length := by
  rw [sent_succ h, if_pos rfl]

theorem sent_peer (h : script[j]? = some (sender, data)) :
    sent script sender.peer (j + 1) = sent script sender.peer j := by
  rw [sent_succ h, if_neg sender.peer_ne.symm, Nat.add_zero]

theorem sent_mono (script : Script) (side : Side) (h : j ≤ k) :
    sent script side j ≤ sent script side k := by
  induction h with
  | refl => exact le_rfl
  | @step k _ ih =>
    refine ih.trans ?_
    cases hk : script[k]? with
    | some x =>
      rw [sent_succ hk]
      exact Nat.le_add_right _ _
    | none =>
      have hlen := List.getElem?_eq_none_iff.mp hk
      rw [sent, sent, List.take_of_length_le hlen, List.take_of_length_le (hlen.trans k.le_succ)]

theorem drop_cons {x : Side × List UInt8} {rest : Script} (h : script.drop j = x :: rest) :
    script[j]? = some x ∧ script.drop (j + 1) = rest := by
  refine ⟨?_, ?_⟩
  · rw [← List.head?_drop, h]
    rfl
  · rw [← List.tail_drop, h]
    rfl

end Script

/-! ### Where a side is -/

/-- What the steps of a side change. -/
structure Party where
  pc : SidePc
  writer : WriterPc
  published : Nat
  reader : ReaderPc
  released : Nat
  /-- What the last finished calls have returned. -/
  wrote : Option Int
  received : Option Int

def Sides.party (s : Sides) (side : Side) : Party where
  pc := s.pc side
  writer := (s.ring side).writer
  published := (s.ring side).history.published
  reader := (s.ring side.peer).reader
  released := (s.ring side.peer).history.released
  wrote := (s.writes side).getLast?.map Prod.snd
  received := (s.reads side).getLast?.map ReadRecord.returned

/-- A side in a `connection_write` of `data`, of which `start` bytes were published before. -/
inductive InWrite (start : Nat) (data : List UInt8) (p : Party) : Prop
  | check (hpc : p.pc = .checkWrite data) (hpub : p.published = start)
  | moving (hpc : p.pc = .writing) (h : Sending start data p.writer p.published)
  | returned (hpc : p.pc = .ready) (hpub : p.published = start + data.length)
      (hwrote : p.wrote = some (data.length : Int))

/-- A side in a `connection_read`, which has released `start` bytes before. -/
inductive InRead (start requested : Nat) (p : Party) : Prop
  | check (hpc : p.pc = .checkRead requested) (hrel : p.released = start)
  | moving (hpc : p.pc = .reading false) (h : Receiving start requested p.reader p.released)
  | returned (hpc : p.pc = .ready) (hrel : p.released = start + requested)
      (hreceived : p.received = some (requested : Int))

/-- A side that has made its part of the first `j` transfers. -/
inductive OnTrack (script : Script) (side : Side) (j : Nat) (p : Party) : Control → Prop
  | run {program : Program} (hpc : p.pc = .ready) (hplays : Plays side (script.drop j) program)
      (hpub : p.published = sent script side j) (hrel : p.released = sent script side.peer j) :
      OnTrack script side j p (.run program)
  | writing {next : Int → Program} {data : List UInt8} {rest : Script}
      (hscript : script.drop j = (side, data) :: rest) (hcareful : Careful data.length next)
      (hplays : Plays side rest (next data.length))
      (hrel : p.released = sent script side.peer j) (h : InWrite (sent script side j) data p) :
      OnTrack script side j p (.writing next)
  | reading {next : Int → Program} {data : List UInt8} {rest : Script}
      (hscript : script.drop j = (side.peer, data) :: rest) (hcareful : Careful data.length next)
      (hplays : Plays side rest (next data.length)) (hpub : p.published = sent script side j)
      (h : InRead (sent script side.peer j) data.length p) :
      OnTrack script side j p (.reading next)
  | exiting (hj : script.length ≤ j) (hpc : p.pc = .subtract ∨ p.pc = .test ∨ p.pc = .closed)
      (hpub : p.published = sent script side j) (hrel : p.released = sent script side.peer j) :
      OnTrack script side j p (.exiting none)

/-- The side's last transfers are its own, and the peer has read what it sent before them. -/
def Answered (script : Script) (j : Side → Nat) (side : Side) : Prop :=
  ∃ m ≤ j side, (∀ i, m ≤ i → i < j side → ∃ data, script[i]? = some (side, data)) ∧
    sent script side m ≤ sent script side (j side.peer)

/-- Both sides are on track. -/
structure ExchangeInv (c : Side → Nat) (script : Script) (s : Experiment) (j : Side → Nat) :
    Prop where
  sides : SidesInv c s.sides
  blocking : ∀ side operation, (s.sides.ring side).buffer.timeouts.nonBlocking operation = false
  track : ∀ side, OnTrack script side (j side) (s.sides.party side) (s.control side)
  answered : ∀ side, Answered script j side

/-- The own steps of a process until it has made its call and taken its result, where the call has
`calls` steps left. -/
def Control.stepsLeft (calls : Nat) : Control → Nat
  | .run _ => 16
  | .writing _ | .reading _ => calls + 1
  | .exiting _ => calls

/-- The own steps of a side until it has left, from the `k`-th transfer on. -/
def Experiment.left (s : Experiment) (script : Script) (k : Nat) (side : Side) : Nat :=
  16 * (script.length - k) + (s.control side).stepsLeft (s.sides.stepsLeft side)

/-- A step of a side brings it nearer to its end, unless it waits in vain. -/
def Nearer (script : Script) (s t : Experiment) (j j' : Side → Nat) (side : Side) : Prop :=
  j' side.peer = j side.peer ∧
    (t.left script (j' side) side < s.left script (j side) side ∨
      s.sides.starved side = true ∧
        t.left script (j' side) side = s.left script (j side) side)

/-- The step is not a check that finds the peer gone. -/
def FindsPeer (s : Experiment) (side : Side) : Prop :=
  match s.sides.pc side with
  | .checkRead _ | .checkWrite _ => s.sides.gone side.peer = false
  | _ => True

instance (s : Experiment) (side : Side) : Decidable (FindsPeer s side) := by
  unfold FindsPeer
  split <;> infer_instance

/-! ### One step of a side -/

section Step

variable {c : Side → Nat} {s t : Sides} {side b : Side} {ring : RingState}

theorem afterRead_busy {peerGone : Bool} (h : ring.reader ≠ .idle) :
    s.afterRead b peerGone ring =
      { s with ring := Function.update s.ring b.peer ring }.goto b (.reading peerGone) := by
  unfold Sides.afterRead
  split
  · exact absurd ‹_› h
  · rfl

theorem afterRead_returned {peerGone : Bool} {record : ReadReturn} {reads : List ReadReturn}
    (hidle : ring.reader = .idle) (hreads : ring.history.reads = reads ++ [record]) :
    s.afterRead b peerGone ring =
      ({ s with ring := Function.update s.ring b.peer ring }.logRead b
        { requested := record.requested, peerGone, available := record.available
          returned := ssizeT record.returned, bytes := record.bytes }).goto b .ready := by
  simp [Sides.afterRead, hidle, hreads]

theorem sideStep_reads_peer (hs : sideStep s b = some t) : t.reads b.peer = s.reads b.peer := by
  have hlog : ∀ (u : Sides) record, (u.logRead b record).reads b.peer = u.reads b.peer :=
    fun u record => Function.update_of_ne b.peer_ne _ _
  have hread : ∀ gone ring, (s.afterRead b gone ring).reads b.peer = s.reads b.peer := by
    intro gone ring
    unfold Sides.afterRead
    dsimp only
    split
    · exact hlog _ _
    · rfl
  have hwrite : ∀ ring, (s.afterWrite b ring).reads b.peer = s.reads b.peer := by
    intro ring
    unfold Sides.afterWrite
    dsimp only
    split <;> rfl
  cases sideStep_cases hs with
  | readCall _ ring | readStep _ ring => exact hread _ ring
  | writeCall _ ring | writeStep ring => exact hwrite ring
  | readGone => exact hlog s _
  | writeGone | subtract | destroy | leave => rfl

/-- **A step of a side changes nothing of its peer's.** -/
theorem party_peer {a : SidesAction} (hs : sidesStep s a = some t) :
    t.party a.side.peer = s.party a.side.peer := by
  have hcall : ∀ b pc, s.call b pc = some t → t.party b.peer = s.party b.peer := by
    intro b pc hs
    unfold Sides.call at hs
    split at hs
    · obtain rfl := Option.some.inj hs
      simp [Sides.party, Sides.goto, b.peer_ne]
    · cases hs
  cases a with
  | read b _ | write b _ | close b => exact hcall b _ hs
  | step b =>
    have hs' : sideStep s b = some t := hs
    have hne : b ≠ b.peer := b.peer_ne.symm
    simp only [Sides.party, SidesAction.side, sideStep_peer hs', sideStep_writes_peer hs',
      sideStep_reads_peer hs', Side.peer_peer]
    rcases sideStep_ring hs' with hring | ⟨ring, hring, hw, hp, -⟩ | ⟨ring, hring, hr, hre, -⟩
    · rw [hring]
    · rw [hring, Function.update_self, Function.update_of_ne hne, hw, hp]
    · rw [hring, Function.update_self, Function.update_of_ne b.peer_ne, hr, hre]

/-- **A step of a write in one piece.** -/
theorem InWrite.step {start : Nat} {data : List UInt8} (h : SidesInv c s)
    (hw : InWrite start data (s.party side)) (hready : s.pc side ≠ .ready)
    (hlive : (∃ data, s.pc side = .checkWrite data) → s.gone side.peer = false)
    (hend : start % c side + data.length ≤ c side)
    (hroom : start + data.length ≤ (s.ring side).history.released + c side) (hdata : data ≠ [])
    (hs : sideStep s side = some t) :
    InWrite start data (t.party side) ∧ (t.party side).released = (s.party side).released := by
  have hne : side.peer ≠ side := side.peer_ne
  cases hw with
  | returned hpc => exact absurd hpc hready
  | check hpc hpub =>
    replace hpc : s.pc side = .checkWrite data := hpc
    have hdied := h.peerDied_eq side (by rw [Sides.gone, hpc]; rfl)
    rw [hlive ⟨data, hpc⟩] at hdied
    simp only [sideStep, hpc, hdied, Bool.false_eq_true, if_false] at hs
    obtain ⟨ring, hcall, rfl⟩ := Option.map_eq_some_iff.mp hs
    obtain ⟨-, ⟨hempty, -⟩ | ⟨-, rfl⟩⟩ := writerCall_eq hcall
    · exact absurd hempty hdata
    · rw [afterWrite_busy (by simp)]
      refine ⟨.moving (by simp [Sides.party, Sides.goto]) ?_, ?_⟩
      · refine ⟨by simp [Sides.party, Sides.goto], ?_, ?_⟩
        · intro call waits hspace
          simp only [Sides.party, Sides.goto, Function.update_self, TransferPc.space.injEq]
            at hspace ⊢
          exact ⟨hspace.1.symm, hpub⟩
        · simp [Sides.party, Sides.goto, TransferPc.registers]
      · simp [Sides.party, Sides.goto, hne]
  | moving hpc hsending =>
    replace hpc : s.pc side = .writing := hpc
    simp only [sideStep, hpc] at hs
    obtain ⟨ring, hstep, rfl⟩ := Option.map_eq_some_iff.mp hs
    rcases hsending.step (h.ring side) hend hroom hdata hstep with
      hsending' | ⟨hidle, hpub, hwrites⟩
    · rw [afterWrite_busy hsending'.busy]
      refine ⟨.moving (by simp [Sides.party, Sides.goto]) ?_, ?_⟩
      · simpa [Sides.party, Sides.goto] using hsending'
      · simp [Sides.party, Sides.goto, hne]
    · have hb := (h.ring side).bound
      have hlen : data.length ≤ c side := by omega
      have hreturned : ssizeT data.length = data.length := by
        unfold MAX_CAPACITY at hb
        exact ssizeT_eq (by omega)
      rw [afterWrite_returned hidle hwrites]
      refine ⟨.returned (by simp [Sides.party, Sides.goto]) ?_ ?_, ?_⟩
      · simpa [Sides.party, Sides.goto, Sides.logWrite] using hpub
      · simp [Sides.party, Sides.goto, Sides.logWrite, hreturned]
      · simp [Sides.party, Sides.goto, Sides.logWrite, hne]

/-- **A step of a read that finds nothing or everything.** -/
theorem InRead.step {start requested : Nat} (h : SidesInv c s)
    (hr : InRead start requested (s.party side)) (hready : s.pc side ≠ .ready)
    (hlive : (∃ n, s.pc side = .checkRead n) → s.gone side.peer = false)
    (hblocking : (s.ring side.peer).buffer.timeouts.nonBlocking .read = false)
    (hall : (s.ring side.peer).history.published ≤ start ∨
      start + requested ≤ (s.ring side.peer).history.published)
    (hrequested : requested ≠ 0) (hle : requested ≤ c side.peer)
    (hs : sideStep s side = some t) :
    InRead start requested (t.party side) ∧
      (t.party side).published = (s.party side).published := by
  have hne : side ≠ side.peer := side.peer_ne.symm
  cases hr with
  | returned hpc => exact absurd hpc hready
  | check hpc hrel =>
    replace hpc : s.pc side = .checkRead requested := hpc
    have hgone := hlive ⟨requested, hpc⟩
    have hdied := h.peerDied_eq side (by rw [Sides.gone, hpc]; rfl)
    rw [hgone] at hdied
    simp only [sideStep, hpc, hdied, hgone, Bool.false_eq_true, if_false] at hs
    obtain ⟨ring, hcall, rfl⟩ := Option.map_eq_some_iff.mp hs
    obtain ⟨-, ⟨hzero, -⟩ | ⟨-, rfl⟩⟩ := readerCall_eq hcall
    · exact absurd hzero hrequested
    · rw [afterRead_busy (by simp)]
      refine ⟨.moving (by simp [Sides.party, Sides.goto]) ?_, ?_⟩
      · refine ⟨by simp [Sides.party, Sides.goto], ?_, ?_⟩
        · intro call waits hspace
          simp only [Sides.party, Sides.goto, Function.update_self, TransferPc.space.injEq]
            at hspace ⊢
          obtain ⟨rfl, -⟩ := hspace
          exact ⟨rfl, hrel⟩
        · simp [Sides.party, Sides.goto, TransferPc.registers]
      · simp [Sides.party, Sides.goto, hne]
  | moving hpc hreceiving =>
    replace hpc : s.pc side = .reading false := hpc
    simp only [sideStep, hpc] at hs
    obtain ⟨ring, hstep, rfl⟩ := Option.map_eq_some_iff.mp hs
    rcases hreceiving.step (h.ring side.peer) hblocking hall hrequested hstep with
      hreceiving' | ⟨hidle, hrel, record, hreads, hreturned⟩
    · rw [afterRead_busy hreceiving'.busy]
      refine ⟨.moving (by simp [Sides.party, Sides.goto]) ?_, ?_⟩
      · simpa [Sides.party, Sides.goto] using hreceiving'
      · simp [Sides.party, Sides.goto, hne]
    · have hb := (h.ring side.peer).bound
      have hsigned : ssizeT requested = requested := by
        unfold MAX_CAPACITY at hb
        exact ssizeT_eq (by omega)
      rw [afterRead_returned hidle hreads]
      refine ⟨.returned (by simp [Sides.party, Sides.goto]) ?_ ?_, ?_⟩
      · simpa [Sides.party, Sides.goto, Sides.logRead] using hrel
      · simp [Sides.party, Sides.goto, Sides.logRead, hreturned, hsigned]
      · simp [Sides.party, Sides.goto, Sides.logRead, hne]

end Step

/-! ### One step of the exchange -/

section Exchange

variable {c : Side → Nat} {script : Script} {s t : Experiment} {j : Side → Nat} {side : Side}
  {data : List UInt8} {k : Nat} {p : Party} {control : Control}

/-- **What is published is whole transfers**. -/
theorem OnTrack.published (h : OnTrack script side k p control) :
    ∃ i, k ≤ i ∧ i ≤ k + 1 ∧ p.published = sent script side i := by
  cases h with
  | run _ _ hpub | reading _ _ _ hpub | exiting _ _ hpub => exact ⟨k, le_rfl, k.le_succ, hpub⟩
  | writing hscript _ _ _ hw =>
    have hself := sent_self (drop_cons hscript).1
    cases hw with
    | check _ hpub => exact ⟨k, le_rfl, k.le_succ, hpub⟩
    | returned _ hpub => exact ⟨k + 1, k.le_succ, le_rfl, hpub.trans hself.symm⟩
    | moving _ hsending =>
      rcases hsending.published with hpub | hpub
      · exact ⟨k, le_rfl, k.le_succ, hpub⟩
      · exact ⟨k + 1, k.le_succ, le_rfl, hpub.trans hself.symm⟩

theorem OnTrack.released_le (h : OnTrack script side k p control) :
    sent script side.peer k ≤ p.released := by
  cases h with
  | run _ _ _ hrel | writing _ _ _ hrel | exiting _ _ _ hrel => exact hrel.ge
  | reading _ _ _ _ hr =>
    cases hr with
    | check _ hrel => exact hrel.ge
    | moving _ hreceiving => exact hreceiving.released_le
    | returned _ hrel => omega

theorem ExchangeInv.nothing_or_all (h : ExchangeInv c script s j)
    (hscript : script[j side]? = some (side.peer, data)) :
    (s.sides.ring side.peer).history.published ≤ sent script side.peer (j side) ∨
      sent script side.peer (j side) + data.length ≤
        (s.sides.ring side.peer).history.published := by
  obtain ⟨i, -, -, hpub⟩ := (h.track side.peer).published
  replace hpub : (s.sides.ring side.peer).history.published = sent script side.peer i := hpub
  rw [hpub, ← sent_self hscript]
  rcases Nat.lt_or_ge (j side) i with hlt | hge
  · exact .inr (sent_mono script side.peer hlt)
  · exact .inl (sent_mono script side.peer hge)

theorem ExchangeInv.roomy (hf : Fits c script) (h : ExchangeInv c script s j)
    (hscript : script[j side]? = some (side, data)) :
    sent script side (j side) + data.length ≤
      (s.sides.ring side).history.released + c side := by
  obtain ⟨m, hm, hown, hread⟩ := h.answered side
  have hroom := hf.room hscript m hm hown
  have hrel := (h.track side.peer).released_le
  simp only [Sides.party, Side.peer_peer] at hrel
  omega

theorem ExchangeInv.keep (h : ExchangeInv c script s j) (side : Side) {a : SidesAction}
    (ha : a.side = side) {sides : Sides} (hs : sidesStep s.sides a = some sides)
    (htrack : OnTrack script side (j side) (sides.party side) control) :
    ExchangeInv c script ({ s with sides }.goto side control) j where
  sides := h.sides.sidesStep_inv hs
  blocking := by
    intro b operation
    rw [← h.blocking b operation]
    cases a with
    | read d _ | write d _ | close d =>
      obtain ⟨hring, -⟩ := Sides.call_eq rfl hs
      exact congrArg (fun ring => (ring b).buffer.timeouts.nonBlocking operation) hring
    | step d =>
      exact congrArg (fun timeouts => timeouts.nonBlocking operation) (sideStep_timeouts hs b)
  track := by
    intro b
    rcases Side.eq_or_eq_peer b side with rfl | rfl
    · simpa [Experiment.goto] using htrack
    · have hpeer := party_peer hs
      rw [ha] at hpeer
      simpa [Experiment.goto, side.peer_ne, hpeer] using h.track side.peer
  answered := h.answered

theorem ExchangeInv.advance (h : ExchangeInv c script s j)
    (htrack : OnTrack script side (j side + 1) (s.sides.party side) control)
    (hanswered : Answered script (Function.update j side (j side + 1)) side) :
    ExchangeInv c script (s.goto side control) (Function.update j side (j side + 1)) where
  sides := h.sides
  blocking := h.blocking
  track := by
    intro b
    rcases Side.eq_or_eq_peer b side with rfl | rfl
    · simpa [Experiment.goto] using htrack
    · simpa [Experiment.goto, side.peer_ne] using h.track side.peer
  answered := by
    intro b
    rcases Side.eq_or_eq_peer b side with rfl | rfl
    · exact hanswered
    · obtain ⟨m, hm, hown, hread⟩ := h.answered side.peer
      rw [Side.peer_peer] at hread
      refine ⟨m, by simpa [side.peer_ne] using hm, by simpa [side.peer_ne] using hown, ?_⟩
      rw [Side.peer_peer, Function.update_self]
      exact hread.trans (sent_mono script side.peer (Nat.le_succ _))

/-- A read returns only bytes that the peer has come to send. -/
theorem ExchangeInv.behind (h : ExchangeInv c script s j) (hdata : data ≠ [])
    (hrel : (s.sides.ring side.peer).history.released =
      sent script side.peer (j side) + data.length) : j side ≤ j side.peer := by
  have hpos : 0 < data.length := List.length_pos_iff.mpr hdata
  obtain ⟨i, -, hi, hpub⟩ := (h.track side.peer).published
  replace hpub : (s.sides.ring side.peer).history.published = sent script side.peer i := hpub
  have hle : (s.sides.ring side.peer).history.released ≤
      (s.sides.ring side.peer).history.published :=
    (h.sides.ring side.peer).released_le.trans (h.sides.ring side.peer).delivered_le
  by_contra hlt
  have := sent_mono script side.peer (show i ≤ j side by omega)
  omega

theorem begin_party {u v : Sides} {pc : SidePc} (hpc : u.pc side = .ready)
    (hs : u.call side pc = some v) : v.party side = { u.party side with pc } := by
  rw [Sides.call, if_pos hpc] at hs
  obtain rfl := Option.some.inj hs
  simp [Sides.party, Sides.goto]

theorem begin_nearer {program : Program} {sides : Sides} (hcontrol : s.control side = .run program)
    (hcall : ∀ program, control ≠ .run program) :
    Nearer script s ({ s with sides }.goto side control) j j side := by
  have hle := stepsLeft_le sides side
  refine ⟨rfl, .inl ?_⟩
  simp only [Experiment.left, Experiment.goto, Function.update_self, hcontrol]
  cases control with
  | run program => exact absurd rfl (hcall program)
  | writing next | reading next | exiting message =>
    simp only [Control.stepsLeft]
    omega

theorem call_nearer {sides : Sides} (hcontrol : s.control side = control)
    (hcall : ∀ program, control ≠ .run program) (hs : sideStep s.sides side = some sides) :
    Nearer script s ({ s with sides }.goto side control) j j side := by
  refine ⟨rfl, ?_⟩
  simp only [Experiment.left, Experiment.goto, Function.update_self, hcontrol]
  cases control with
  | run program => exact absurd rfl (hcall program)
  | writing next | reading next | exiting message =>
    rcases sideStep_left hs with hless | ⟨hstarved, heq⟩
    · refine .inl ?_
      simp only [Control.stepsLeft]
      omega
    · refine .inr ⟨hstarved, ?_⟩
      simp only [Control.stepsLeft, heq]

theorem return_nearer {program : Program} (hj : j side < script.length)
    (hcontrol : 0 < (s.control side).stepsLeft (s.sides.stepsLeft side)) :
    Nearer script s (s.goto side (.run program)) j (Function.update j side (j side + 1)) side := by
  refine ⟨Function.update_of_ne side.peer_ne _ _, .inl ?_⟩
  simp only [Experiment.left, Experiment.goto, Function.update_self]
  simp only [Control.stepsLeft] at hcontrol ⊢
  omega

theorem ExchangeInv.run_step (h : ExchangeInv c script s j) {program : Program}
    (hcontrol : s.control side = .run program) (hs : experimentStep s side = some t) :
    ExchangeInv c script t j ∧ Nearer script s t j j side := by
  have htrack := h.track side
  rw [hcontrol] at htrack
  obtain ⟨hpc, hplays, hpub, hrel⟩ := htrack
  have hbegin : ∀ {pc sides}, s.sides.call side pc = some sides →
      sides.party side = { s.sides.party side with pc } := fun hs => begin_party hpc hs
  unfold experimentStep at hs
  cases hscript : script.drop (j side) with
  | nil =>
    rw [hscript] at hplays
    obtain rfl : program = .cleanup := hplays
    simp only [hcontrol, Experiment.call] at hs
    obtain ⟨sides, hsides, rfl⟩ := Option.map_eq_some_iff.mp hs
    refine ⟨h.keep side rfl hsides ?_, begin_nearer hcontrol (by simp)⟩
    rw [hbegin hsides]
    exact .exiting (List.drop_eq_nil_iff.mp hscript) (.inl rfl) hpub hrel
  | cons x rest =>
    obtain ⟨sender, data⟩ := x
    rw [hscript, Plays] at hplays
    by_cases hsender : sender = side
    · rw [if_pos hsender] at hplays
      obtain ⟨next, rfl, hcareful, hplays⟩ := hplays
      subst hsender
      simp only [hcontrol, Experiment.call] at hs
      obtain ⟨sides, hsides, rfl⟩ := Option.map_eq_some_iff.mp hs
      refine ⟨h.keep sender rfl hsides ?_, begin_nearer hcontrol (by simp)⟩
      rw [hbegin hsides]
      exact .writing hscript hcareful hplays hrel (.check rfl hpub)
    · rw [if_neg hsender] at hplays
      obtain ⟨next, rfl, hcareful, hplays⟩ := hplays
      obtain rfl := (Side.eq_or_eq_peer sender side).resolve_left hsender
      simp only [hcontrol, Experiment.call] at hs
      obtain ⟨sides, hsides, rfl⟩ := Option.map_eq_some_iff.mp hs
      refine ⟨h.keep side rfl hsides ?_, begin_nearer hcontrol (by simp)⟩
      rw [hbegin hsides]
      exact .reading hscript hcareful hplays hpub (.check rfl hrel)

theorem ExchangeInv.writing_step (hf : Fits c script) (h : ExchangeInv c script s j)
    (hfinds : FindsPeer s side) {next : Int → Program} (hcontrol : s.control side = .writing next)
    (hs : experimentStep s side = some t) :
    ∃ j', ExchangeInv c script t j' ∧ Nearer script s t j j' side := by
  have htrack := h.track side
  rw [hcontrol] at htrack
  cases htrack with
  | @writing _ data rest hscript hcareful hplays hrel hw =>
    obtain ⟨hj, hrest⟩ := drop_cons hscript
    obtain ⟨hlt, -⟩ := List.getElem?_eq_some_iff.mp hj
    have hdata : data ≠ [] := hf.nonempty _ (List.mem_of_getElem? hj)
    simp only [experimentStep, hcontrol] at hs
    by_cases hready : s.sides.pc side = .ready
    · rw [if_pos hready] at hs
      obtain ⟨record, hlast, rfl⟩ := Option.map_eq_some_iff.mp hs
      cases hw with
      | check hpc => cases hready.symm.trans hpc
      | moving hpc => cases hready.symm.trans hpc
      | returned _ hpub hwrote =>
        have hreturned : record.2 = data.length := by
          simpa [Sides.party, hlast] using hwrote
        refine ⟨_, h.advance (.run hready ?_ ?_ ?_) ?_,
          return_nearer hlt (by simp [hcontrol, Control.stepsLeft])⟩
        · rw [hrest, hreturned]
          exact hplays
        · rw [sent_self hj]
          exact hpub
        · rw [sent_peer hj]
          exact hrel
        · obtain ⟨m, hm, hown, hread⟩ := h.answered side
          rw [Answered, Function.update_self, Function.update_of_ne side.peer_ne]
          refine ⟨m, hm.trans (Nat.le_succ _), ?_, hread⟩
          intro i hi hlt
          rcases Nat.lt_succ_iff_lt_or_eq.mp hlt with hlt | rfl
          · exact hown i hi hlt
          · exact ⟨data, hj⟩
    · rw [if_neg hready] at hs
      obtain ⟨sides, hsides, rfl⟩ := Option.map_eq_some_iff.mp hs
      have hlive : (∃ data, s.sides.pc side = .checkWrite data) →
          s.sides.gone side.peer = false := by
        rintro ⟨data, hpc⟩
        simpa only [FindsPeer, hpc] using hfinds
      obtain ⟨hw', hrel'⟩ := hw.step h.sides hready hlive (hf.whole hj) (h.roomy hf hj) hdata hsides
      refine ⟨j, h.keep side rfl hsides ?_, call_nearer hcontrol (by simp) hsides⟩
      exact .writing hscript hcareful hplays (hrel'.trans hrel) hw'

theorem ExchangeInv.reading_step (hf : Fits c script) (h : ExchangeInv c script s j)
    (hfinds : FindsPeer s side) {next : Int → Program} (hcontrol : s.control side = .reading next)
    (hs : experimentStep s side = some t) :
    ∃ j', ExchangeInv c script t j' ∧ Nearer script s t j j' side := by
  have htrack := h.track side
  rw [hcontrol] at htrack
  cases htrack with
  | @reading _ data rest hscript hcareful hplays hpub hr =>
    obtain ⟨hj, hrest⟩ := drop_cons hscript
    obtain ⟨hlt, -⟩ := List.getElem?_eq_some_iff.mp hj
    have hdata : data ≠ [] := hf.nonempty _ (List.mem_of_getElem? hj)
    simp only [experimentStep, hcontrol] at hs
    by_cases hready : s.sides.pc side = .ready
    · rw [if_pos hready] at hs
      obtain ⟨record, hlast, rfl⟩ := Option.map_eq_some_iff.mp hs
      cases hr with
      | check hpc => cases hready.symm.trans hpc
      | moving hpc => cases hready.symm.trans hpc
      | returned _ hrel hreceived =>
        have hreturned : record.returned = data.length := by
          simpa [Sides.party, hlast] using hreceived
        have hpeer := sent_peer hj
        rw [Side.peer_peer] at hpeer
        refine ⟨_, h.advance (.run hready ?_ ?_ ?_) ?_,
          return_nearer hlt (by simp [hcontrol, Control.stepsLeft])⟩
        · rw [hrest, hreturned]
          exact hplays
        · rw [hpeer]
          exact hpub
        · rw [sent_self hj]
          exact hrel
        · -- the peer has come to this transfer, and its sends before it have been read
          have hbehind := h.behind hdata hrel
          rw [Answered, Function.update_self, Function.update_of_ne side.peer_ne]
          refine ⟨j side + 1, le_rfl, fun i hi hlt => absurd hi (Nat.not_le.mpr hlt), ?_⟩
          rw [hpeer]
          exact sent_mono script side hbehind
    · rw [if_neg hready] at hs
      obtain ⟨sides, hsides, rfl⟩ := Option.map_eq_some_iff.mp hs
      have hlive : (∃ n, s.sides.pc side = .checkRead n) → s.sides.gone side.peer = false := by
        rintro ⟨n, hpc⟩
        simpa only [FindsPeer, hpc] using hfinds
      have hle : data.length ≤ c side.peer := (Nat.le_add_left _ _).trans (hf.whole hj)
      obtain ⟨hr', hpub'⟩ := hr.step h.sides hready hlive (h.blocking side.peer .read)
        (h.nothing_or_all hj) (mt List.length_eq_zero_iff.mp hdata) hle hsides
      refine ⟨j, h.keep side rfl hsides ?_, call_nearer hcontrol (by simp) hsides⟩
      exact .reading hscript hcareful hplays (hpub'.trans hpub) hr'

theorem ExchangeInv.exiting_step (h : ExchangeInv c script s j) {message : Option String}
    (hcontrol : s.control side = .exiting message) (hs : experimentStep s side = some t) :
    ExchangeInv c script t j ∧ Nearer script s t j j side := by
  have htrack := h.track side
  rw [hcontrol] at htrack
  cases htrack with
  | exiting hlen hpc hpub hrel =>
    simp only [experimentStep, hcontrol] at hs
    obtain ⟨sides, hsides, rfl⟩ := Option.map_eq_some_iff.mp hs
    refine ⟨h.keep side rfl hsides ?_, call_nearer hcontrol (by simp) hsides⟩
    replace hpc : s.sides.pc side = .subtract ∨ s.sides.pc side = .test ∨
        s.sides.pc side = .closed := hpc
    have hstep : sideStep s.sides side = some sides := hsides
    cases sideStep_cases hstep with
    | subtract => exact .exiting hlen (.inr (.inl (by simp [Sides.party, Sides.goto]))) hpub hrel
    | destroy | leave =>
      exact .exiting hlen (.inr (.inr (by simp [Sides.party, Sides.goto]))) hpub hrel
    | readGone _ hc | readCall _ _ hc | readStep _ _ hc | writeGone _ hc | writeCall _ _ hc
    | writeStep _ hc => simp [hc] at hpc

/-- **One step of either program** keeps both on track and brings it nearer to its end. -/
theorem ExchangeInv.step (hf : Fits c script) (h : ExchangeInv c script s j)
    (hfinds : FindsPeer s side) (hs : experimentStep s side = some t) :
    ∃ j', ExchangeInv c script t j' ∧ Nearer script s t j j' side := by
  cases hcontrol : s.control side with
  | run program => exact ⟨j, h.run_step hcontrol hs⟩
  | writing next => exact h.writing_step hf hfinds hcontrol hs
  | reading next => exact h.reading_step hf hfinds hcontrol hs
  | exiting message => exact ⟨j, h.exiting_step hcontrol hs⟩

/-! ### Nobody waits for ever -/

theorem OnTrack.receiving (h : OnTrack script side k p control) (hpc : p.pc = .reading false) :
    ∃ data, script[k]? = some (side.peer, data) ∧
      Receiving (sent script side.peer k) data.length p.reader p.released := by
  cases h with
  | run hc | exiting _ hc => simp [hpc] at hc
  | writing _ _ _ _ hw =>
    cases hw with
    | check hc | moving hc | returned hc => simp [hpc] at hc
  | @reading _ data _ hscript _ _ _ hr =>
    cases hr with
    | check hc | returned hc => simp [hpc] at hc
    | moving _ hreceiving => exact ⟨data, (drop_cons hscript).1, hreceiving⟩

theorem OnTrack.sending (h : OnTrack script side k p control) (hpc : p.pc = .writing) :
    ∃ data, script[k]? = some (side, data) ∧
      Sending (sent script side k) data p.writer p.published := by
  cases h with
  | run hc | exiting _ hc => simp [hpc] at hc
  | reading _ _ _ _ hr =>
    cases hr with
    | check hc | moving hc | returned hc => simp [hpc] at hc
  | @writing _ data _ hscript _ _ _ hw =>
    cases hw with
    | check hc | returned hc => simp [hpc] at hc
    | moving _ hsending => exact ⟨data, (drop_cons hscript).1, hsending⟩

/-- **A side that waits in vain** is in a read, and the peer has not yet come to the transfer or
has not yet sent it. -/
theorem ExchangeInv.starved_ahead (hf : Fits c script) (h : ExchangeInv c script s j)
    (hst : s.sides.starved side = true) :
    j side.peer ≤ j side ∧ ∃ data, script[j side]? = some (side.peer, data) := by
  rcases Bool.or_eq_true _ _ |>.mp hst with hst | hst
  · obtain ⟨⟨call, waits, hspace⟩, hempty, -⟩ := readerStarved_iff.mp hst
    have hpc : s.sides.pc side = .reading false :=
      (h.sides.side side).reader (by rw [hspace]; simp)
    obtain ⟨data, hj, hreceiving⟩ := (h.track side).receiving hpc
    have hpos := List.length_pos_iff.mpr (hf.nonempty _ (List.mem_of_getElem? hj))
    obtain ⟨i, hi, -, hpub⟩ := (h.track side.peer).published
    have hrel := (hreceiving.space call waits hspace).2
    have hunread := (h.sides.ring side.peer).unread
    replace hpub : (s.sides.ring side.peer).history.published = sent script side.peer i := hpub
    replace hrel : (s.sides.ring side.peer).history.released =
      sent script side.peer (j side) := hrel
    refine ⟨?_, data, hj⟩
    by_contra hlt
    have := sent_mono script side.peer (show j side + 1 ≤ i by omega)
    rw [sent_self hj] at this
    dsimp only at hpos
    omega
  · obtain ⟨⟨call, waits, hspace⟩, hfull, -⟩ := writerStarved_iff.mp hst
    have hpc : s.sides.pc side = .writing := (h.sides.side side).writer (by rw [hspace]; simp)
    obtain ⟨data, hj, hsending⟩ := (h.track side).sending hpc
    -- a writer has room
    have hpos := List.length_pos_iff.mpr (hf.nonempty _ (List.mem_of_getElem? hj))
    have hroom := h.roomy hf hj
    have hpub := (hsending.space call waits hspace).2
    have hfree := (h.sides.ring side).freeSpace
    have hcapacity := (h.sides.ring side).pos
    replace hpub : (s.sides.ring side).history.published = sent script side (j side) := hpub
    dsimp only at hpos
    omega

theorem ExchangeInv.step_isSome (h : ExchangeInv c script s j) (he : Engaged s.sides side)
    (hfinished : s.finished side = false) : ∃ t, experimentStep s side = some t := by
  have hclosed : s.sides.pc side ≠ .closed := by simpa [Experiment.finished] using hfinished
  have hstep : s.sides.pc side ≠ .ready → ∃ sides, sidesStep s.sides (.step side) = some sides :=
    fun hready => h.sides.engaged_step he hready hclosed
  have hcall : s.sides.pc side = .ready → ∀ pc, ∃ sides, s.sides.call side pc = some sides :=
    fun hready pc => ⟨_, if_pos hready⟩
  have htrack := h.track side
  unfold experimentStep
  cases hcontrol : s.control side with
  | run program =>
    rw [hcontrol] at htrack
    obtain ⟨hpc, -, -, -⟩ := htrack
    cases program with
    | write data _ =>
      obtain ⟨sides, hs⟩ := hcall hpc (.checkWrite data)
      exact ⟨_, by simp only [Experiment.call, sidesStep, hs, Option.map_some]; rfl⟩
    | read n _ =>
      obtain ⟨sides, hs⟩ := hcall hpc (.checkRead n)
      exact ⟨_, by simp only [Experiment.call, sidesStep, hs, Option.map_some]; rfl⟩
    | throw _ | cleanup =>
      obtain ⟨sides, hs⟩ := hcall hpc .subtract
      exact ⟨_, by simp only [Experiment.call, sidesStep, hs, Option.map_some]; rfl⟩
  | writing next =>
    rw [hcontrol] at htrack
    by_cases hready : s.sides.pc side = .ready
    · cases htrack with
      | writing _ _ _ _ hw =>
        cases hw with
        | check hpc => cases hready.symm.trans hpc
        | moving hpc => cases hready.symm.trans hpc
        | returned _ _ hwrote =>
          obtain ⟨record, hlast, -⟩ := Option.map_eq_some_iff.mp hwrote
          exact ⟨_, by simp only [if_pos hready, hlast, Option.map_some]; rfl⟩
    · obtain ⟨sides, hs⟩ := hstep hready
      exact ⟨_, by simp only [if_neg hready, Experiment.call, hs, Option.map_some]; rfl⟩
  | reading next =>
    rw [hcontrol] at htrack
    by_cases hready : s.sides.pc side = .ready
    · cases htrack with
      | reading _ _ _ _ hr =>
        cases hr with
        | check hpc => cases hready.symm.trans hpc
        | moving hpc => cases hready.symm.trans hpc
        | returned _ _ hreceived =>
          obtain ⟨record, hlast, -⟩ := Option.map_eq_some_iff.mp hreceived
          exact ⟨_, by simp only [if_pos hready, hlast, Option.map_some]; rfl⟩
    · obtain ⟨sides, hs⟩ := hstep hready
      exact ⟨_, by simp only [if_neg hready, Experiment.call, hs, Option.map_some]; rfl⟩
  | exiting message =>
    rw [hcontrol] at htrack
    cases htrack with
    | exiting _ hpc =>
      have hready : s.sides.pc side ≠ .ready := by
        intro hready
        rcases hpc with hpc | hpc | hpc <;> cases hready.symm.trans hpc
      obtain ⟨sides, hs⟩ := hstep hready
      exact ⟨_, by simp only [Experiment.call, hs, Option.map_some]; rfl⟩

theorem OnTrack.finished (h : OnTrack script side k p control) (hpc : p.pc = .closed) :
    script.length ≤ k := by
  cases h with
  | exiting hlen => exact hlen
  | run hc => simp [hpc] at hc
  | writing _ _ _ _ hw =>
    cases hw with
    | check hc | moving hc | returned hc => simp [hpc] at hc
  | reading _ _ _ _ hr =>
    cases hr with
    | check hc | moving hc | returned hc => simp [hpc] at hc

theorem experimentStep_own (hs : experimentStep s side = some t) :
    t.control side.peer = s.control side.peer ∧
      (t.sides = s.sides ∨ ∃ a, a.side = side ∧ sidesStep s.sides a = some t.sides) := by
  have hcall : ∀ a control, a.side = side → s.call side a control = some t →
      t.control side.peer = s.control side.peer ∧
        (t.sides = s.sides ∨ ∃ a, a.side = side ∧ sidesStep s.sides a = some t.sides) := by
    intro a control ha hs
    obtain ⟨sides, hsides, rfl⟩ := Option.map_eq_some_iff.mp hs
    exact ⟨Function.update_of_ne side.peer_ne _ _, .inr ⟨a, ha, hsides⟩⟩
  unfold experimentStep at hs
  cases hcontrol : s.control side with
  | run program =>
    cases program with
    | write data next | read requestedBytes next | throw message | cleanup =>
      simp only [hcontrol] at hs
      exact hcall _ _ rfl hs
  | writing next | reading next =>
    simp only [hcontrol] at hs
    split at hs
    · obtain ⟨record, -, rfl⟩ := Option.map_eq_some_iff.mp hs
      exact ⟨Function.update_of_ne side.peer_ne _ _, .inl rfl⟩
    · exact hcall _ _ rfl hs
  | exiting message =>
    simp only [hcontrol] at hs
    exact hcall _ _ rfl hs

theorem ExchangeInv.step_engaged (h : ExchangeInv c script s j)
    (he : ∀ b, Engaged s.sides b) (hs : experimentStep s side = some t) :
    ∀ b, Engaged t.sides b := by
  rcases (experimentStep_own hs).2 with hsides | ⟨a, -, hsides⟩
  · rwa [hsides]
  · exact h.sides.step_engaged he hsides

theorem ExchangeInv.thrown_eq (h : ExchangeInv c script s j) (side : Side) :
    s.thrown side = none := by
  have htrack := h.track side
  unfold Experiment.thrown
  cases hcontrol : s.control side with
  | writing next | reading next => rfl
  | exiting message =>
    rw [hcontrol] at htrack
    cases htrack
    rfl
  | run program =>
    cases program with
    | write data next | read requestedBytes next | cleanup => rfl
    | throw message =>
      rw [hcontrol] at htrack
      obtain ⟨-, hplays, -, -⟩ := htrack
      cases hrest : script.drop (j side) with
      | nil =>
        rw [hrest] at hplays
        cases hplays
      | cons x rest =>
        rw [hrest, Plays] at hplays
        split at hplays
        · obtain ⟨_, hprogram, -⟩ := hplays
          cases hprogram
        · obtain ⟨_, hprogram, -⟩ := hplays
          cases hprogram

theorem OnTrack.gone (h : OnTrack script side k p control) (hgone : p.pc.gone = true) :
    control = .exiting none ∧ script.length ≤ k ∧ p.published = sent script side k ∧
      p.released = sent script side.peer k := by
  cases h with
  | exiting hlen _ hpub hrel => exact ⟨rfl, hlen, hpub, hrel⟩
  | run hc => simp [hc, SidePc.gone] at hgone
  | writing _ _ _ _ hw =>
    cases hw with
    | check hc | moving hc | returned hc => simp [hc, SidePc.gone] at hgone
  | reading _ _ _ _ hr =>
    cases hr with
    | check hc | moving hc | returned hc => simp [hc, SidePc.gone] at hgone

theorem OnTrack.check (h : OnTrack script side k p control)
    (hcheck : (∃ n, p.pc = .checkRead n) ∨ ∃ data, p.pc = .checkWrite data) :
    p.published = sent script side k ∧ p.released = sent script side.peer k ∧
      ∃ sender data, script[k]? = some (sender, data) := by
  cases h with
  | run hc => simp [hc] at hcheck
  | exiting _ hc => rcases hc with hc | hc | hc <;> simp [hc] at hcheck
  | @writing _ data _ hscript _ _ hrel hw =>
    cases hw with
    | moving hc | returned hc => simp [hc] at hcheck
    | check _ hpub => exact ⟨hpub, hrel, side, data, (drop_cons hscript).1⟩
  | @reading _ data _ hscript _ _ hpub hr =>
    cases hr with
    | moving hc | returned hc => simp [hc] at hcheck
    | check _ hrel => exact ⟨hpub, hrel, side.peer, data, (drop_cons hscript).1⟩

theorem check_of_misses (hmiss : ¬FindsPeer s side) : s.sides.gone side.peer = true ∧
    ((∃ n, s.sides.pc side = .checkRead n) ∨ ∃ data, s.sides.pc side = .checkWrite data) := by
  unfold FindsPeer at hmiss
  cases hpc : s.sides.pc side <;> simp_all

/-- The side has no transfer of its own from the `k`-th on, which is one of its peer. -/
def LastRead (script : Script) (side : Side) (k : Nat) : Prop :=
  (∃ data, script[k]? = some (side.peer, data)) ∧
    ∀ i, k ≤ i → ∀ data, script[i]? ≠ some (side, data)

/-- **A call that finds its peer gone** is a read: the peer has made all its transfers, so it has
read all that the side sends. -/
theorem ExchangeInv.misses (hf : Fits c script) (h : ExchangeInv c script s j)
    (hmiss : ¬FindsPeer s side) :
    LastRead script side (j side) ∧
      (s.sides.ring side.peer).history.released = sent script side.peer (j side) ∧
      ∃ k, script.length ≤ k ∧ (s.sides.ring side.peer).history.published =
        sent script side.peer k := by
  obtain ⟨hgone, hcheck⟩ := check_of_misses hmiss
  obtain ⟨-, hlen, hpub', hrel'⟩ := (h.track side.peer).gone hgone
  obtain ⟨hpub, hrel, sender, data, hj⟩ := (h.track side).check hcheck
  replace hpub : (s.sides.ring side).history.published = sent script side (j side) := hpub
  simp only [Sides.party, Side.peer_peer] at hrel'
  have hle : (s.sides.ring side).history.released ≤ (s.sides.ring side).history.published :=
    (h.sides.ring side).released_le.trans (h.sides.ring side).delivered_le
  have hnone : ∀ i, j side ≤ i → ∀ data, script[i]? ≠ some (side, data) := by
    intro i hi data hscript
    obtain ⟨hlt, -⟩ := List.getElem?_eq_some_iff.mp hscript
    have hpos := List.length_pos_iff.mpr (hf.nonempty _ (List.mem_of_getElem? hscript))
    have hbefore := sent_mono script side hi
    have hafter := sent_mono script side (show i + 1 ≤ j side.peer by omega)
    rw [sent_self hscript] at hafter
    dsimp only at hpos
    omega
  refine ⟨⟨?_, hnone⟩, hrel, _, hlen, hpub'⟩
  rcases Side.eq_or_eq_peer sender side with rfl | rfl
  · exact absurd hj (hnone _ le_rfl data)
  · exact ⟨data, hj⟩

theorem ExchangeInv.missing_read (hf : Fits c script) (h : ExchangeInv c script s j)
    (hmiss : ¬FindsPeer s side) : ∃ next data, s.control side = .reading next ∧
      Careful data.length next ∧ script[j side]? = some (side.peer, data) ∧
      s.sides.pc side = .checkRead data.length := by
  obtain ⟨-, hcheck⟩ := check_of_misses hmiss
  obtain ⟨⟨⟨data, hj⟩, -⟩, -, -⟩ := h.misses hf hmiss
  have htrack := h.track side
  cases hcontrol : s.control side with
  | run program =>
    rw [hcontrol] at htrack
    obtain ⟨hpc, -, -, -⟩ := htrack
    replace hpc : s.sides.pc side = .ready := hpc
    simp [hpc] at hcheck
  | exiting message =>
    rw [hcontrol] at htrack
    cases htrack with
    | exiting _ hpc =>
      replace hpc : s.sides.pc side = .subtract ∨ s.sides.pc side = .test ∨
        s.sides.pc side = .closed := hpc
      rcases hpc with hpc | hpc | hpc <;> simp [hpc] at hcheck
  | writing next =>
    rw [hcontrol] at htrack
    cases htrack with
    | writing hscript =>
      rw [(drop_cons hscript).1] at hj
      exact absurd (Prod.mk.inj (Option.some.inj hj)).1 side.peer_ne.symm
  | reading next =>
    rw [hcontrol] at htrack
    cases htrack with
    | @reading _ data _ hscript hcareful _ _ hr =>
      cases hr with
      | moving hpc | returned hpc =>
        replace hpc : s.sides.pc side = _ := hpc
        simp [hpc] at hcheck
      | check hpc => exact ⟨next, data, rfl, hcareful, (drop_cons hscript).1, hpc⟩

/-- **A program that finds its peer gone is about to throw.** -/
theorem ExchangeInv.miss_step (hf : Fits c script) (h : ExchangeInv c script s j)
    (hmiss : ¬FindsPeer s side) (hs : experimentStep s side = some t) :
    ∃ next received message, t.control side = .reading next ∧ t.sides.pc side = .ready ∧
      (t.sides.party side).received = some received ∧ next received = .throw message := by
  obtain ⟨hgone, -⟩ := check_of_misses hmiss
  obtain ⟨next, data, hcontrol, hcareful, hj, hpc⟩ := h.missing_read hf hmiss
  have hpos := List.length_pos_iff.mpr (hf.nonempty _ (List.mem_of_getElem? hj))
  obtain ⟨message, hthrow⟩ := hcareful 0 (by exact_mod_cast hpos)
  have hdied := h.sides.peerDied_eq side (by rw [Sides.gone, hpc]; rfl)
  rw [hgone] at hdied
  simp only [experimentStep, hcontrol, hpc, Experiment.call, sidesStep, sideStep, hdied,
    if_true, reduceCtorEq, if_false, Option.map_some, Option.some.injEq] at hs
  subst hs
  exact ⟨next, 0, message, by simp [Experiment.goto], by simp [Experiment.goto, Sides.goto],
    by simp [Experiment.goto, Sides.party, Sides.goto, Sides.logRead], hthrow⟩

/-- The process has not finished, and does not wait in vain. -/
def Experiment.live (s : Experiment) (side : Side) : Prop :=
  s.finished side = false ∧ s.sides.starved side = false

/-- **The two programs never wait for each other.** -/
theorem ExchangeInv.exists_live (hf : Fits c script) (h : ExchangeInv c script s j)
    (hunfinished : ¬∀ side, s.finished side = true) : ∃ side, s.live side := by
  rw [not_forall] at hunfinished
  obtain ⟨side, hside⟩ := hunfinished
  by_contra hstuck
  rw [not_exists] at hstuck
  have hwaits : ∀ b, s.finished b = false → s.sides.starved b = true := by
    intro b hb
    by_contra hst
    exact hstuck b ⟨hb, Bool.not_eq_true _ |>.mp hst⟩
  obtain ⟨hle, data, hj⟩ := h.starved_ahead hf (hwaits side (Bool.not_eq_true _ |>.mp hside))
  cases hpeer : s.finished side.peer with
  | true =>
    have hclosed : s.sides.pc side.peer = .closed := by simpa [Experiment.finished] using hpeer
    have hlen := (h.track side.peer).finished hclosed
    obtain ⟨hlt, -⟩ := List.getElem?_eq_some_iff.mp hj
    omega
  | false =>
    -- both are in a read of the same transfer
    obtain ⟨hle', data', hj'⟩ := h.starved_ahead hf (hwaits side.peer hpeer)
    rw [Side.peer_peer] at hle' hj'
    rw [show j side.peer = j side by omega, hj] at hj'
    exact side.peer_ne (Prod.mk.inj (Option.some.inj hj')).1

theorem ExchangeInv.goes_on (hf : Fits c script) (h : ExchangeInv c script s j)
    (he : ∀ side, Engaged s.sides side) :
    (∀ side, s.finished side = true) ∨
      ∃ side t, experimentStep s side = some t ∧ s.sides.starved side = false := by
  by_cases hfinished : ∀ side, s.finished side = true
  · exact .inl hfinished
  · obtain ⟨side, hside, hst⟩ := h.exists_live hf hfinished
    obtain ⟨t, ht⟩ := h.step_isSome (he side) hside
    exact .inr ⟨side, t, ht, hst⟩

end Exchange

end Tssx
