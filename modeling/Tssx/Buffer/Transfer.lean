import Tssx.Buffer
import Tssx.Lib.Run
import Tssx.Lib.Ring

/-!
# `buffer_write` and `buffer_read`, one access at a time

A buffer is shared by one writer and one reader, which run at the same time.  The program
counter `TransferPc` names the next access of a call: every load or store of `size`,
`read` and `write`, every `memcpy` and every atomic addition is a step of its own.  The two
functions make the same accesses in the same order with the roles of the indices
exchanged, so they share the type; `own` is `write` for the writer and `read` for the
reader.

A `RingState` is the shared buffer, the two program counters and a history of what the
two parties have done, which no step looks at.

`writerStep_cases` and `readerStep_cases` say once what an access can be, and the results about
all accesses go through their cases.
-/

namespace Tssx

/-- The registers of a call that has passed its availability test.  `call` is what the
function moves: the caller's bytes for `buffer_write`, a `ReadCall` for `buffer_read`. -/
structure Registers (κ : Type) where
  call : κ
  /-- How far `_reduce_data` has moved the caller's pointer. -/
  offset : Nat
  /-- `bytes_to_write` or `bytes_to_read`. -/
  bytes : Nat
  rightSpace : Nat
  deriving DecidableEq

/-- A `buffer_read` call: its argument, the space that `_determine_available_space` returned
and the bytes copied to the caller's buffer so far. -/
structure ReadCall where
  requested : Nat
  available : Nat := 0
  destination : List UInt8 := []
  deriving DecidableEq

/-- The next access of a call. -/
inductive TransferPc (κ : Type)
  | idle
  /-- `atomic_load(&size)` for the available space; `waits` loads have found none. -/
  | space (call : κ) (waits : Nat)
  /-- The load of the own index in `write >= read` (`read >= write`). -/
  | compareOwn (r : Registers κ)
  /-- The load of the other party's index. -/
  | compareOther (r : Registers κ) (own : Nat)
  /-- The load in `right_space = capacity - write`. -/
  | right (r : Registers κ)
  /-- The load in `_write_pointer` for the first copy. -/
  | firstPointer (r : Registers κ)
  /-- `memcpy` up to the end of the buffer. -/
  | firstCopy (r : Registers κ) (index : Nat)
  /-- `write = 0` of `_wrap_write`. -/
  | wrapIndex (r : Registers κ)
  /-- The atomic addition of `_wrap_write`, then `_reduce_data`. -/
  | wrapSize (r : Registers κ)
  /-- The load in `_write_pointer` for the second copy. -/
  | secondPointer (r : Registers κ)
  | secondCopy (r : Registers κ) (index : Nat)
  /-- The load of `write += bytes_to_write`. -/
  | loadIndex (r : Registers κ)
  | storeIndex (r : Registers κ) (own : Nat)
  /-- The final atomic addition, then the return. -/
  | addSize (r : Registers κ)
  deriving DecidableEq

abbrev WriterPc := TransferPc (List UInt8)
abbrev ReaderPc := TransferPc ReadCall

/-- A finished `buffer_read`: its argument, the available space it saw, what it returned
and the bytes it copied out. -/
structure ReadReturn where
  requested : Nat
  available : Nat
  returned : Nat
  bytes : List UInt8
  deriving DecidableEq

structure History where
  /-- Every byte a writer's `memcpy` has placed, with the index it was placed at. -/
  placed : List (Nat × UInt8) := []
  /-- The bytes added to `size` so far. -/
  published : Nat := 0
  /-- The bytes subtracted from `size` so far. -/
  released : Nat := 0
  /-- The finished writes: the data passed and the value returned. -/
  writes : List (List UInt8 × Nat) := []
  reads : List ReadReturn := []
  deriving DecidableEq

/-- A `memcpy` of `bytes` to the indices from `index` on. -/
def History.place (history : History) (index : Nat) (bytes : List UInt8) : History :=
  { history with placed := history.placed ++ (Ring.cells index bytes.length).zip bytes }

structure RingState where
  buffer : Buffer
  writer : WriterPc
  reader : ReaderPc
  history : History

/-- A cleared buffer with both parties idle. -/
def RingState.init (buffer : Buffer) : RingState :=
  { buffer := bufferClear buffer, writer := .idle, reader := .idle, history := {} }

/-! ### The writer -/

/-- The call of `buffer_write` with non-null arguments. -/
def writerCall (s : RingState) (data : List UInt8) : Option RingState :=
  match s.writer with
  | .idle =>
    if data.length = 0 then
      some { s with history := { s.history with writes := s.history.writes ++ [(data, 0)] } }
    else some { s with writer := .space data 0 }
  | _ => none

/-- The next access of `buffer_write`. -/
def writerStep (s : RingState) : Option RingState :=
  match s.writer with
  | .idle => none
  | .space source waits =>
    let availableSpace := getAvailableSpace s.buffer .write
    -- `_block_for_available_space` pauses and loads again
    if availableSpace = 0 ∧ s.buffer.timeouts.nonBlocking .write = false then
      some { s with writer := .space source (waits + 1) }
    else
      some { s with
        writer := .compareOwn
          { call := source, offset := 0, bytes := min availableSpace source.length,
            rightSpace := 0 } }
  | .compareOwn r => some { s with writer := .compareOther r s.buffer.write }
  | .compareOther r write =>
    if s.buffer.read ≤ write then some { s with writer := .right r }
    else some { s with writer := .secondPointer r }
  | .right r =>
    let rightSpace := sizeT (s.buffer.capacity - s.buffer.write)
    if rightSpace ≤ r.bytes then some { s with writer := .firstPointer { r with rightSpace } }
    else some { s with writer := .secondPointer r }
  | .firstPointer r =>
    if s.buffer.write ≤ s.buffer.capacity then
      some { s with writer := .firstCopy r s.buffer.write }
    else none
  | .firstCopy r index =>
    let bytes := (r.call.drop r.offset).take r.rightSpace
    some { s with
      buffer := { s.buffer with data := Ring.store s.buffer.data index bytes }
      writer := .wrapIndex r
      history := s.history.place index bytes }
  | .wrapIndex r =>
    some { s with buffer := { s.buffer with write := 0 }, writer := .wrapSize r }
  | .wrapSize r =>
    some { s with
      buffer := s.buffer.fetchAdd r.rightSpace
      writer := .secondPointer
        { r with offset := r.offset + r.rightSpace, bytes := r.bytes - r.rightSpace }
      history := { s.history with published := s.history.published + r.rightSpace } }
  | .secondPointer r =>
    if s.buffer.write ≤ s.buffer.capacity then
      some { s with writer := .secondCopy r s.buffer.write }
    else none
  | .secondCopy r index =>
    let bytes := (r.call.drop r.offset).take r.bytes
    some { s with
      buffer := { s.buffer with data := Ring.store s.buffer.data index bytes }
      writer := .loadIndex r
      history := s.history.place index bytes }
  | .loadIndex r => some { s with writer := .storeIndex r s.buffer.write }
  | .storeIndex r write =>
    some { s with
      buffer := { s.buffer with write := sizeT (write + r.bytes) }, writer := .addSize r }
  | .addSize r =>
    some { s with
      buffer := s.buffer.fetchAdd r.bytes
      writer := .idle
      history := { s.history with
        published := s.history.published + r.bytes
        writes := s.history.writes ++ [(r.call, sizeT (r.bytes + r.rightSpace))] } }

/-! ### The reader -/

/-- `memcpy` to the caller's buffer. -/
def ReadCall.receive (call : ReadCall) (bytes : List UInt8) : ReadCall :=
  { call with destination := call.destination ++ bytes }

/-- The call of `buffer_read` with non-null arguments. -/
def readerCall (s : RingState) (requested : Nat) : Option RingState :=
  match s.reader with
  | .idle =>
    if requested = 0 then
      some { s with
        history := { s.history with
          reads := s.history.reads ++
            [{ requested, available := 0, returned := 0, bytes := [] }] } }
    else some { s with reader := .space { requested } 0 }
  | _ => none

/-- The next access of `buffer_read`. -/
def readerStep (s : RingState) : Option RingState :=
  match s.reader with
  | .idle => none
  | .space call waits =>
    let available := getAvailableSpace s.buffer .read
    if available = 0 ∧ s.buffer.timeouts.nonBlocking .read = false then
      some { s with reader := .space call (waits + 1) }
    else
      some { s with
        reader := .compareOwn
          { call := { call with available }, offset := 0, bytes := min available call.requested,
            rightSpace := 0 } }
  | .compareOwn r => some { s with reader := .compareOther r s.buffer.read }
  | .compareOther r read =>
    if s.buffer.write ≤ read then some { s with reader := .right r }
    else some { s with reader := .secondPointer r }
  | .right r =>
    let rightSpace := sizeT (s.buffer.capacity - s.buffer.read)
    if rightSpace ≤ r.bytes then some { s with reader := .firstPointer { r with rightSpace } }
    else some { s with reader := .secondPointer r }
  | .firstPointer r =>
    if s.buffer.read ≤ s.buffer.capacity then
      some { s with reader := .firstCopy r s.buffer.read }
    else none
  | .firstCopy r index =>
    some { s with
      reader := .wrapIndex
        { r with call := r.call.receive (Ring.load s.buffer.data index r.rightSpace) } }
  | .wrapIndex r =>
    some { s with buffer := { s.buffer with read := 0 }, reader := .wrapSize r }
  | .wrapSize r =>
    some { s with
      buffer := s.buffer.fetchSub r.rightSpace
      reader := .secondPointer
        { r with offset := r.offset + r.rightSpace, bytes := r.bytes - r.rightSpace }
      history := { s.history with released := s.history.released + r.rightSpace } }
  | .secondPointer r =>
    if s.buffer.read ≤ s.buffer.capacity then
      some { s with reader := .secondCopy r s.buffer.read }
    else none
  | .secondCopy r index =>
    some { s with
      reader := .loadIndex
        { r with call := r.call.receive (Ring.load s.buffer.data index r.bytes) } }
  | .loadIndex r => some { s with reader := .storeIndex r s.buffer.read }
  | .storeIndex r read =>
    some { s with
      buffer := { s.buffer with read := sizeT (read + r.bytes) }, reader := .addSize r }
  | .addSize r =>
    let total := sizeT (r.bytes + r.rightSpace)
    some { s with
      buffer := s.buffer.fetchSub r.bytes
      reader := .idle
      history := { s.history with
        released := s.history.released + r.bytes
        -- `(size_t)-1` if nothing was read
        reads := s.history.reads ++
          [{ requested := r.call.requested, available := r.call.available,
             returned := if total = 0 then sizeT (-1) else total,
             bytes := r.call.destination }] } }

/-! ### The two parties together -/

inductive RingAction
  | write (data : List UInt8)
  | writerStep
  | read (requested : Nat)
  | readerStep

def ringStep (s : RingState) : RingAction → Option RingState
  | .write data => writerCall s data
  | .writerStep => writerStep s
  | .read requested => readerCall s requested
  | .readerStep => readerStep s

/-! ### What a state shows -/

/-- The registers of a call past its availability test. -/
def TransferPc.registers {κ : Type} : TransferPc κ → Option (Registers κ)
  | .idle | .space _ _ => none
  | .compareOwn r | .compareOther r _ | .right r | .firstPointer r | .firstCopy r _
  | .wrapIndex r | .wrapSize r | .secondPointer r | .secondCopy r _ | .loadIndex r
  | .storeIndex r _ | .addSize r => some r

/-- The bytes that a writer's call has taken over from its data, or will take over in the
rest of the call: none before its availability test. -/
def WriterPc.accepted (pc : WriterPc) : List UInt8 :=
  match pc.registers with
  | none => []
  | some r => r.call.take (r.offset + r.bytes)

/-- The bytes that the call in progress has copied out. -/
def ReaderPc.delivered (pc : ReaderPc) : List UInt8 :=
  match pc.registers with
  | none => []
  | some r => r.call.destination

/-- The bytes accepted by the writer's calls: of each finished call as many as it returned,
and those of the call in progress. -/
def RingState.accepted (s : RingState) : List UInt8 :=
  s.history.writes.flatMap (fun w => w.1.take w.2) ++ WriterPc.accepted s.writer

/-- The bytes that the reader's calls have copied out. -/
def RingState.delivered (s : RingState) : List UInt8 :=
  s.history.reads.flatMap ReadReturn.bytes ++ ReaderPc.delivered s.reader

/-- The indices of the bytes that are published in `size` and not yet released from it. -/
def RingState.live (s : RingState) : List Nat :=
  ((s.history.placed.take s.history.published).drop s.history.released).map Prod.fst

/-- The indices that the next access copies to or from. -/
def TransferPc.copies {κ : Type} : TransferPc κ → List Nat
  | .firstCopy r index => Ring.cells index r.rightSpace
  | .secondCopy r index => Ring.cells index r.bytes
  | _ => []

/-! ### What an access does -/

/-- The accesses of a transfer whose next load finds something, at most. -/
def TransferPc.remaining {κ : Type} : TransferPc κ → Nat
  | .idle => 0
  | .addSize _ => 1
  | .storeIndex _ _ => 2
  | .loadIndex _ => 3
  | .secondCopy _ _ => 4
  | .secondPointer _ => 5
  | .wrapSize _ => 6
  | .wrapIndex _ => 7
  | .firstCopy _ _ => 8
  | .firstPointer _ => 9
  | .right _ => 10
  | .compareOther _ _ => 11
  | .compareOwn _ => 12
  | .space _ _ => 13

/-- How an access brings a call on; `starved` says that a load finds nothing and the loop goes
on. -/
inductive TransferPc.Moves {κ : Type} (starved : Prop) : TransferPc κ → TransferPc κ → Prop
  | again (call : κ) (waits : Nat) (h : starved) :
      TransferPc.Moves starved (.space call waits) (.space call (waits + 1))
  | start (call : κ) (waits : Nat) (r : Registers κ) (h : ¬ starved) :
      TransferPc.Moves starved (.space call waits) (.compareOwn r)
  | inside {pc pc' : TransferPc κ} (r r' : Registers κ) (h : pc.registers = some r)
      (h' : pc'.registers = some r') (hless : pc'.remaining < pc.remaining) :
      TransferPc.Moves starved pc pc'
  | finish (r : Registers κ) : TransferPc.Moves starved (.addSize r) .idle

/-- The call of `buffer_read` by an idle reader: nothing is asked for, or the availability test
comes next. -/
theorem readerCall_eq {s t : RingState} {requested : Nat} (h : readerCall s requested = some t) :
    s.reader = .idle ∧
      (requested = 0 ∧ t = { s with
          history := { s.history with
            reads := s.history.reads ++
              [{ requested := 0, available := 0, returned := 0, bytes := [] }] } } ∨
        requested ≠ 0 ∧ t = { s with reader := .space { requested } 0 }) := by
  unfold readerCall at h
  split at h
  case h_1 hidle =>
    split at h <;> rename_i hn <;> obtain rfl := Option.some.inj h
    · subst hn
      exact ⟨hidle, .inl ⟨rfl, rfl⟩⟩
    · exact ⟨hidle, .inr ⟨hn, rfl⟩⟩
  case h_2 => cases h

theorem writerCall_eq {s t : RingState} {data : List UInt8} (h : writerCall s data = some t) :
    s.writer = .idle ∧
      (data = [] ∧ t = { s with
          history := { s.history with writes := s.history.writes ++ [([], 0)] } } ∨
        data ≠ [] ∧ t = { s with writer := .space data 0 }) := by
  unfold writerCall at h
  split at h
  case h_1 hidle =>
    split at h <;> rename_i hn <;> obtain rfl := Option.some.inj h
    · obtain rfl := List.length_eq_zero_iff.mp hn
      exact ⟨hidle, .inl ⟨rfl, rfl⟩⟩
    · exact ⟨hidle, .inr ⟨mt List.length_eq_zero_iff.mpr hn, rfl⟩⟩
  case h_2 => cases h

/-- The accesses of `buffer_write`, each with what makes it the next one. -/
inductive WriterStep (s : RingState) : RingState → Prop
  | again (source : List UInt8) (waits : Nat) (hpc : s.writer = .space source waits)
      (hwait : getAvailableSpace s.buffer .write = 0 ∧
        s.buffer.timeouts.nonBlocking .write = false) :
      WriterStep s { s with writer := .space source (waits + 1) }
  | start (source : List UInt8) (waits : Nat) (hpc : s.writer = .space source waits)
      (hgo : ¬ (getAvailableSpace s.buffer .write = 0 ∧
        s.buffer.timeouts.nonBlocking .write = false)) :
      WriterStep s { s with
        writer := .compareOwn
          { call := source, offset := 0
            bytes := min (getAvailableSpace s.buffer .write) source.length, rightSpace := 0 } }
  | compareOwn (r : Registers (List UInt8)) (hpc : s.writer = .compareOwn r) :
      WriterStep s { s with writer := .compareOther r s.buffer.write }
  | notBehind (r : Registers (List UInt8)) (write : Nat) (hpc : s.writer = .compareOther r write)
      (hle : s.buffer.read ≤ write) : WriterStep s { s with writer := .right r }
  | behind (r : Registers (List UInt8)) (write : Nat) (hpc : s.writer = .compareOther r write)
      (hlt : ¬ s.buffer.read ≤ write) : WriterStep s { s with writer := .secondPointer r }
  | toEnd (r : Registers (List UInt8)) (hpc : s.writer = .right r)
      (hle : sizeT (s.buffer.capacity - s.buffer.write) ≤ r.bytes) :
      WriterStep s { s with
        writer := .firstPointer
          { r with rightSpace := sizeT (s.buffer.capacity - s.buffer.write) } }
  | notToEnd (r : Registers (List UInt8)) (hpc : s.writer = .right r)
      (hlt : ¬ sizeT (s.buffer.capacity - s.buffer.write) ≤ r.bytes) :
      WriterStep s { s with writer := .secondPointer r }
  | firstPointer (r : Registers (List UInt8)) (hpc : s.writer = .firstPointer r) :
      WriterStep s { s with writer := .firstCopy r s.buffer.write }
  | firstCopy (r : Registers (List UInt8)) (index : Nat) (hpc : s.writer = .firstCopy r index) :
      WriterStep s { s with
        buffer := { s.buffer with
          data := Ring.store s.buffer.data index ((r.call.drop r.offset).take r.rightSpace) }
        writer := .wrapIndex r
        history := s.history.place index ((r.call.drop r.offset).take r.rightSpace) }
  | wrapIndex (r : Registers (List UInt8)) (hpc : s.writer = .wrapIndex r) :
      WriterStep s { s with buffer := { s.buffer with write := 0 }, writer := .wrapSize r }
  | wrapSize (r : Registers (List UInt8)) (hpc : s.writer = .wrapSize r) :
      WriterStep s { s with
        buffer := s.buffer.fetchAdd r.rightSpace
        writer := .secondPointer
          { r with offset := r.offset + r.rightSpace, bytes := r.bytes - r.rightSpace }
        history := { s.history with published := s.history.published + r.rightSpace } }
  | secondPointer (r : Registers (List UInt8)) (hpc : s.writer = .secondPointer r) :
      WriterStep s { s with writer := .secondCopy r s.buffer.write }
  | secondCopy (r : Registers (List UInt8)) (index : Nat) (hpc : s.writer = .secondCopy r index) :
      WriterStep s { s with
        buffer := { s.buffer with
          data := Ring.store s.buffer.data index ((r.call.drop r.offset).take r.bytes) }
        writer := .loadIndex r
        history := s.history.place index ((r.call.drop r.offset).take r.bytes) }
  | loadIndex (r : Registers (List UInt8)) (hpc : s.writer = .loadIndex r) :
      WriterStep s { s with writer := .storeIndex r s.buffer.write }
  | storeIndex (r : Registers (List UInt8)) (write : Nat) (hpc : s.writer = .storeIndex r write) :
      WriterStep s { s with
        buffer := { s.buffer with write := sizeT (write + r.bytes) }, writer := .addSize r }
  | addSize (r : Registers (List UInt8)) (hpc : s.writer = .addSize r) :
      WriterStep s { s with
        buffer := s.buffer.fetchAdd r.bytes
        writer := .idle
        history := { s.history with
          published := s.history.published + r.bytes
          writes := s.history.writes ++ [(r.call, sizeT (r.bytes + r.rightSpace))] } }

theorem writerStep_cases {s t : RingState} (hs : writerStep s = some t) : WriterStep s t := by
  cases hpc : s.writer with
  | idle => simp only [writerStep, hpc] at hs; cases hs
  | space source waits =>
    simp only [writerStep, hpc] at hs
    split at hs <;> obtain rfl := Option.some.inj hs
    · exact .again source waits hpc ‹_›
    · exact .start source waits hpc ‹_›
  | compareOwn r =>
    simp only [writerStep, hpc] at hs
    obtain rfl := Option.some.inj hs
    exact .compareOwn r hpc
  | compareOther r index =>
    simp only [writerStep, hpc] at hs
    split at hs <;> obtain rfl := Option.some.inj hs
    · exact .notBehind r index hpc ‹_›
    · exact .behind r index hpc ‹_›
  | right r =>
    simp only [writerStep, hpc] at hs
    split at hs <;> obtain rfl := Option.some.inj hs
    · exact .toEnd r hpc ‹_›
    · exact .notToEnd r hpc ‹_›
  | firstPointer r =>
    simp only [writerStep, hpc] at hs
    split at hs
    · obtain rfl := Option.some.inj hs
      exact .firstPointer r hpc
    · cases hs
  | secondPointer r =>
    simp only [writerStep, hpc] at hs
    split at hs
    · obtain rfl := Option.some.inj hs
      exact .secondPointer r hpc
    · cases hs
  | firstCopy r index =>
    simp only [writerStep, hpc] at hs
    obtain rfl := Option.some.inj hs
    exact .firstCopy r index hpc
  | wrapIndex r =>
    simp only [writerStep, hpc] at hs
    obtain rfl := Option.some.inj hs
    exact .wrapIndex r hpc
  | wrapSize r =>
    simp only [writerStep, hpc] at hs
    obtain rfl := Option.some.inj hs
    exact .wrapSize r hpc
  | secondCopy r index =>
    simp only [writerStep, hpc] at hs
    obtain rfl := Option.some.inj hs
    exact .secondCopy r index hpc
  | loadIndex r =>
    simp only [writerStep, hpc] at hs
    obtain rfl := Option.some.inj hs
    exact .loadIndex r hpc
  | storeIndex r index =>
    simp only [writerStep, hpc] at hs
    obtain rfl := Option.some.inj hs
    exact .storeIndex r index hpc
  | addSize r =>
    simp only [writerStep, hpc] at hs
    obtain rfl := Option.some.inj hs
    exact .addSize r hpc

/-- The accesses of `buffer_read`. -/
inductive ReaderStep (s : RingState) : RingState → Prop
  | again (call : ReadCall) (waits : Nat) (hpc : s.reader = .space call waits)
      (hwait : getAvailableSpace s.buffer .read = 0 ∧
        s.buffer.timeouts.nonBlocking .read = false) :
      ReaderStep s { s with reader := .space call (waits + 1) }
  | start (call : ReadCall) (waits : Nat) (hpc : s.reader = .space call waits)
      (hgo : ¬ (getAvailableSpace s.buffer .read = 0 ∧
        s.buffer.timeouts.nonBlocking .read = false)) :
      ReaderStep s { s with
        reader := .compareOwn
          { call := { call with available := getAvailableSpace s.buffer .read }, offset := 0
            bytes := min (getAvailableSpace s.buffer .read) call.requested, rightSpace := 0 } }
  | compareOwn (r : Registers ReadCall) (hpc : s.reader = .compareOwn r) :
      ReaderStep s { s with reader := .compareOther r s.buffer.read }
  | notBehind (r : Registers ReadCall) (read : Nat) (hpc : s.reader = .compareOther r read)
      (hle : s.buffer.write ≤ read) : ReaderStep s { s with reader := .right r }
  | behind (r : Registers ReadCall) (read : Nat) (hpc : s.reader = .compareOther r read)
      (hlt : ¬ s.buffer.write ≤ read) : ReaderStep s { s with reader := .secondPointer r }
  | toEnd (r : Registers ReadCall) (hpc : s.reader = .right r)
      (hle : sizeT (s.buffer.capacity - s.buffer.read) ≤ r.bytes) :
      ReaderStep s { s with
        reader := .firstPointer
          { r with rightSpace := sizeT (s.buffer.capacity - s.buffer.read) } }
  | notToEnd (r : Registers ReadCall) (hpc : s.reader = .right r)
      (hlt : ¬ sizeT (s.buffer.capacity - s.buffer.read) ≤ r.bytes) :
      ReaderStep s { s with reader := .secondPointer r }
  | firstPointer (r : Registers ReadCall) (hpc : s.reader = .firstPointer r) :
      ReaderStep s { s with reader := .firstCopy r s.buffer.read }
  | firstCopy (r : Registers ReadCall) (index : Nat) (hpc : s.reader = .firstCopy r index) :
      ReaderStep s { s with
        reader := .wrapIndex
          { r with call := r.call.receive (Ring.load s.buffer.data index r.rightSpace) } }
  | wrapIndex (r : Registers ReadCall) (hpc : s.reader = .wrapIndex r) :
      ReaderStep s { s with buffer := { s.buffer with read := 0 }, reader := .wrapSize r }
  | wrapSize (r : Registers ReadCall) (hpc : s.reader = .wrapSize r) :
      ReaderStep s { s with
        buffer := s.buffer.fetchSub r.rightSpace
        reader := .secondPointer
          { r with offset := r.offset + r.rightSpace, bytes := r.bytes - r.rightSpace }
        history := { s.history with released := s.history.released + r.rightSpace } }
  | secondPointer (r : Registers ReadCall) (hpc : s.reader = .secondPointer r) :
      ReaderStep s { s with reader := .secondCopy r s.buffer.read }
  | secondCopy (r : Registers ReadCall) (index : Nat) (hpc : s.reader = .secondCopy r index) :
      ReaderStep s { s with
        reader := .loadIndex
          { r with call := r.call.receive (Ring.load s.buffer.data index r.bytes) } }
  | loadIndex (r : Registers ReadCall) (hpc : s.reader = .loadIndex r) :
      ReaderStep s { s with reader := .storeIndex r s.buffer.read }
  | storeIndex (r : Registers ReadCall) (read : Nat) (hpc : s.reader = .storeIndex r read) :
      ReaderStep s { s with
        buffer := { s.buffer with read := sizeT (read + r.bytes) }, reader := .addSize r }
  | addSize (r : Registers ReadCall) (hpc : s.reader = .addSize r) :
      ReaderStep s { s with
        buffer := s.buffer.fetchSub r.bytes
        reader := .idle
        history := { s.history with
          released := s.history.released + r.bytes
          reads := s.history.reads ++
            [{ requested := r.call.requested, available := r.call.available
               returned :=
                if sizeT (r.bytes + r.rightSpace) = 0 then sizeT (-1)
                else sizeT (r.bytes + r.rightSpace)
               bytes := r.call.destination }] } }

theorem readerStep_cases {s t : RingState} (hs : readerStep s = some t) : ReaderStep s t := by
  cases hpc : s.reader with
  | idle => simp only [readerStep, hpc] at hs; cases hs
  | space call waits =>
    simp only [readerStep, hpc] at hs
    split at hs <;> obtain rfl := Option.some.inj hs
    · exact .again call waits hpc ‹_›
    · exact .start call waits hpc ‹_›
  | compareOwn r =>
    simp only [readerStep, hpc] at hs
    obtain rfl := Option.some.inj hs
    exact .compareOwn r hpc
  | compareOther r index =>
    simp only [readerStep, hpc] at hs
    split at hs <;> obtain rfl := Option.some.inj hs
    · exact .notBehind r index hpc ‹_›
    · exact .behind r index hpc ‹_›
  | right r =>
    simp only [readerStep, hpc] at hs
    split at hs <;> obtain rfl := Option.some.inj hs
    · exact .toEnd r hpc ‹_›
    · exact .notToEnd r hpc ‹_›
  | firstPointer r =>
    simp only [readerStep, hpc] at hs
    split at hs
    · obtain rfl := Option.some.inj hs
      exact .firstPointer r hpc
    · cases hs
  | secondPointer r =>
    simp only [readerStep, hpc] at hs
    split at hs
    · obtain rfl := Option.some.inj hs
      exact .secondPointer r hpc
    · cases hs
  | firstCopy r index =>
    simp only [readerStep, hpc] at hs
    obtain rfl := Option.some.inj hs
    exact .firstCopy r index hpc
  | wrapIndex r =>
    simp only [readerStep, hpc] at hs
    obtain rfl := Option.some.inj hs
    exact .wrapIndex r hpc
  | wrapSize r =>
    simp only [readerStep, hpc] at hs
    obtain rfl := Option.some.inj hs
    exact .wrapSize r hpc
  | secondCopy r index =>
    simp only [readerStep, hpc] at hs
    obtain rfl := Option.some.inj hs
    exact .secondCopy r index hpc
  | loadIndex r =>
    simp only [readerStep, hpc] at hs
    obtain rfl := Option.some.inj hs
    exact .loadIndex r hpc
  | storeIndex r index =>
    simp only [readerStep, hpc] at hs
    obtain rfl := Option.some.inj hs
    exact .storeIndex r index hpc
  | addSize r =>
    simp only [readerStep, hpc] at hs
    obtain rfl := Option.some.inj hs
    exact .addSize r hpc

/-- An access of `buffer_read`. -/
structure ReaderAccess (s t : RingState) : Prop where
  moves : TransferPc.Moves (getAvailableSpace s.buffer .read = 0 ∧
    s.buffer.timeouts.nonBlocking .read = false) s.reader t.reader
  load : ∀ call waits, s.reader = .space call waits → t.buffer = s.buffer
  reads : t.reader ≠ .idle ∧ t.history.reads = s.history.reads ∨
    ∃ r record, s.reader = .addSize r ∧ t.reader = .idle ∧
      t.history.reads = s.history.reads ++ [record] ∧ record.bytes = r.call.destination
  released : s.history.released ≤ t.history.released
  published : t.history.published = s.history.published
  writes : t.history.writes = s.history.writes
  writer : t.writer = s.writer

/-- An access of `buffer_write`. -/
structure WriterAccess (s t : RingState) : Prop where
  moves : TransferPc.Moves (getAvailableSpace s.buffer .write = 0 ∧
    s.buffer.timeouts.nonBlocking .write = false) s.writer t.writer
  load : ∀ call waits, s.writer = .space call waits → t.buffer = s.buffer
  writes : t.writer ≠ .idle ∧ t.history.writes = s.history.writes ∨
    ∃ r, s.writer = .addSize r ∧ t.writer = .idle ∧
      t.history.writes = s.history.writes ++ [(r.call, sizeT (r.bytes + r.rightSpace))]
  published : s.history.published ≤ t.history.published
  released : t.history.released = s.history.released
  reads : t.history.reads = s.history.reads
  reader : t.reader = s.reader

section Access

variable {s t : RingState}

theorem readerStep_access (h : readerStep s = some t) : ReaderAccess s t := by
  cases readerStep_cases h with
  | again call waits hpc hwait =>
    exact ⟨hpc ▸ .again call waits hwait, fun _ _ _ => rfl, .inl ⟨by simp, rfl⟩, le_rfl, rfl,
      rfl, rfl⟩
  | start call waits hpc hgo =>
    exact ⟨hpc ▸ .start call waits _ hgo, fun _ _ _ => rfl, .inl ⟨by simp, rfl⟩, le_rfl, rfl,
      rfl, rfl⟩
  | addSize r hpc =>
    exact ⟨hpc ▸ .finish r, by simp [hpc], .inr ⟨r, _, hpc, rfl, rfl, rfl⟩, Nat.le_add_right _ _,
      rfl, rfl, rfl⟩
  | compareOwn r hpc | notBehind r _ hpc | behind r _ hpc | toEnd r hpc | notToEnd r hpc
  | firstPointer r hpc | firstCopy r _ hpc | wrapIndex r hpc | wrapSize r hpc
  | secondPointer r hpc | secondCopy r _ hpc | loadIndex r hpc | storeIndex r _ hpc =>
    exact ⟨.inside r _ (by rw [hpc]; rfl) rfl (by simp [hpc, TransferPc.remaining]),
      by simp [hpc], .inl ⟨by simp, rfl⟩, by simp, rfl, rfl, rfl⟩

theorem writerStep_access (h : writerStep s = some t) : WriterAccess s t := by
  cases writerStep_cases h with
  | again source waits hpc hwait =>
    exact ⟨hpc ▸ .again source waits hwait, fun _ _ _ => rfl, .inl ⟨by simp, rfl⟩, le_rfl, rfl,
      rfl, rfl⟩
  | start source waits hpc hgo =>
    exact ⟨hpc ▸ .start source waits _ hgo, fun _ _ _ => rfl, .inl ⟨by simp, rfl⟩, le_rfl, rfl,
      rfl, rfl⟩
  | addSize r hpc =>
    exact ⟨hpc ▸ .finish r, by simp [hpc], .inr ⟨r, hpc, rfl, rfl⟩, Nat.le_add_right _ _,
      rfl, rfl, rfl⟩
  | compareOwn r hpc | notBehind r _ hpc | behind r _ hpc | toEnd r hpc | notToEnd r hpc
  | firstPointer r hpc | firstCopy r _ hpc | wrapIndex r hpc | wrapSize r hpc
  | secondPointer r hpc | secondCopy r _ hpc | loadIndex r hpc | storeIndex r _ hpc =>
    exact ⟨.inside r _ (by rw [hpc]; rfl) rfl (by simp [hpc, TransferPc.remaining]),
      by simp [hpc], .inl ⟨by simp, rfl⟩, by simp [History.place], rfl, rfl, rfl⟩

theorem readerStep_frame (h : readerStep s = some t) :
    t.buffer.timeouts = s.buffer.timeouts ∧ t.buffer.write = s.buffer.write := by
  cases readerStep_cases h <;> exact ⟨rfl, rfl⟩

theorem writerStep_frame (h : writerStep s = some t) :
    t.buffer.timeouts = s.buffer.timeouts ∧ t.buffer.read = s.buffer.read := by
  cases writerStep_cases h <;> exact ⟨rfl, rfl⟩

end Access

end Tssx
