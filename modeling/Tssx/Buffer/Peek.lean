import Tssx.Buffer.Alone
import Tssx.Buffer.Safety

/-!
# `buffer_peek` beside a running writer

A peek loads `size` and the read index, makes a whole `buffer_read` on the shared structure and
stores the two values again.  `peekStep` is the ring of `Buffer/Transfer.lean` with these
accesses of the reader.

Behind a peek in progress stands the ring that there would be without it: `size`, the read
index and what the reader has released as they were (`RingState.seen`).  The writer cannot
tell the two rings apart except where it loads or adds to `size`, and where it compares its
index with the reader's, which does no harm (`writerStep_seen`).  So a peek is invisible in the
runs in which, between its load and its store of `size`, the writer adds nothing to `size`
and finds no more space than there is (`peek_invisible`).
-/

namespace Tssx

/-! ### The steps -/

/-- The local variables of a peek that has loaded both values, and what the reader had done
before it. -/
structure Saved where
  oldSize : Nat
  oldRead : Nat
  released : Nat
  reads : List ReadReturn

/-- Where a peek in progress is; a `ReadReturn` is what its `buffer_read` has returned. -/
inductive PeekPc
  | idle
  | loadSize (dataSize : Nat)
  | loadRead (dataSize oldSize : Nat)
  /-- Inside the `buffer_read`. -/
  | reading (saved : Saved)
  | storeSize (saved : Saved) (result : ReadReturn)
  | storeRead (oldRead : Nat) (result : ReadReturn)

structure PeekState where
  ring : RingState
  peek : PeekPc
  /-- The finished peeks.  Their reads are not in the history of the ring. -/
  peeks : List ReadReturn

def PeekState.init (buffer : Buffer) : PeekState :=
  { ring := .init buffer, peek := .idle, peeks := [] }

/-- After an access of the `buffer_read` of a peek. -/
def PeekState.afterRead (s : PeekState) (saved : Saved) (ring : RingState) : PeekState :=
  match ring.reader, ring.history.reads.getLast? with
  | .idle, some result =>
    { s with
      ring := { ring with history := { ring.history with reads := saved.reads } }
      peek := .storeSize saved result }
  | _, _ => { s with ring, peek := .reading saved }

/-- The next access of the reader. -/
def peekReaderStep (s : PeekState) : Option PeekState :=
  match s.peek with
  | .idle => (readerStep s.ring).map fun ring => { s with ring }
  | .loadSize dataSize => some { s with peek := .loadRead dataSize (sizeT s.ring.buffer.size) }
  | .loadRead dataSize oldSize =>
    (readerCall s.ring dataSize).map <| s.afterRead
      { oldSize, oldRead := s.ring.buffer.read, released := s.ring.history.released
        reads := s.ring.history.reads }
  | .reading saved => (readerStep s.ring).map (s.afterRead saved)
  | .storeSize saved result =>
    some { s with
      ring := { s.ring with
        buffer := { s.ring.buffer with size := int32 saved.oldSize }
        history := { s.ring.history with released := saved.released } }
      peek := .storeRead saved.oldRead result }
  | .storeRead oldRead result =>
    some { ring := { s.ring with buffer := { s.ring.buffer with read := oldRead } }
           peek := .idle, peeks := s.peeks ++ [result] }

inductive PeekAction
  | write (data : List UInt8)
  | writerStep
  | read (requested : Nat)
  | peek (dataSize : Nat)
  | readerStep

def peekStep (s : PeekState) : PeekAction → Option PeekState
  | .write data => (writerCall s.ring data).map fun ring => { s with ring }
  | .writerStep => (writerStep s.ring).map fun ring => { s with ring }
  | .read requested =>
    match s.peek with
    | .idle => (readerCall s.ring requested).map fun ring => { s with ring }
    | _ => none
  | .peek dataSize =>
    match s.peek, s.ring.reader with
    | .idle, .idle => some { s with peek := .loadSize dataSize }
    | _, _ => none
  | .readerStep => peekReaderStep s

/-! ### What is asked -/

/-- The bytes that `buffer_read` has delivered; what a peek copies out is not delivered. -/
def PeekState.delivered (s : PeekState) : List UInt8 :=
  match s.peek with
  | .idle => s.ring.delivered
  | _ => s.ring.history.reads.flatMap ReadReturn.bytes

/-- With both parties idle the buffer holds exactly what has been accepted and not delivered,
and what has been delivered is the beginning of what has been accepted. -/
structure Invisible (s : PeekState) : Prop where
  delivered : s.delivered <+: s.ring.accepted
  size : s.ring.writer = .idle → s.ring.reader = .idle → s.peek = .idle →
    s.ring.buffer.size = (s.ring.accepted.length : Int) - s.delivered.length
  held : s.ring.writer = .idle → s.ring.reader = .idle → s.peek = .idle →
    ReaderReady s.ring.buffer.capacity s.ring.history.released s.ring.buffer
      (s.ring.accepted.drop s.delivered.length)

/-- What the next access of a call adds to `size`, or subtracts from it. -/
def TransferPc.adds {κ : Type} : TransferPc κ → Nat
  | .wrapSize r => r.rightSpace
  | .addSize r => r.bytes
  | _ => 0

/-- Between the load of `size` and its store. -/
def PeekPc.holdsSize : PeekPc → Bool
  | .loadRead _ _ | .reading _ | .storeSize _ _ => true
  | .idle | .loadSize _ | .storeRead _ _ => false

/-- The space for writing that there is without the peek. -/
def PeekState.freeSpace (s : PeekState) : Nat :=
  s.ring.buffer.capacity - (s.ring.history.published - s.delivered.length)

/-- What a writer's call would take over at its next access, if that is its availability test. -/
def RingState.takes (r : RingState) : Nat :=
  match r.writer with
  | .space data _ => min (getAvailableSpace r.buffer .write) data.length
  | _ => 0

/-- Between the load and the store of `size` by a peek, the writer adds nothing to `size`, and
takes over no more than there is space for without the peek. -/
def Undisturbed (s : PeekState) : PeekAction → Prop
  | .writerStep =>
    s.peek.holdsSize = true → s.ring.writer.adds = 0 ∧ s.ring.takes ≤ s.freeSpace
  | _ => True

instance decidableUndisturbed (s : PeekState) : ∀ a, Decidable (Undisturbed s a)
  | .writerStep => inferInstanceAs (Decidable (_ → _))
  | .write _ | .read _ | .peek _ | .readerStep => isTrue trivial

/-! ### The ring behind a peek -/

/-- What a peek has changed and will restore. -/
structure ReaderView where
  size : Int
  read : Nat
  released : Nat
  reads : List ReadReturn

/-- The ring with an idle reader and a given view of it. -/
def RingState.seen (r : RingState) (v : ReaderView) : RingState :=
  { r with
    buffer := { r.buffer with size := v.size, read := v.read }
    reader := .idle
    history := { r.history with released := v.released, reads := v.reads } }

/-- The view of the ring as it is. -/
def RingState.view (r : RingState) : ReaderView :=
  { size := r.buffer.size, read := r.buffer.read, released := r.history.released
    reads := r.history.reads }

def Saved.view (saved : Saved) : ReaderView :=
  { size := int32 saved.oldSize, read := saved.oldRead, released := saved.released
    reads := saved.reads }

section Writer

variable {c : Nat} {r r' : RingState} {v : ReaderView}

theorem seen_view (h : r.reader = .idle) : r.seen r.view = r := by
  cases r
  cases h
  rfl

theorem readerStep_seen (h : readerStep r = some r') : r'.seen v = r.seen v := by
  cases readerStep_cases h <;> rfl

theorem readerCall_seen {requested : Nat} (h : readerCall r requested = some r') :
    r'.seen v = r.seen v := by
  obtain ⟨-, ⟨-, rfl⟩ | ⟨-, rfl⟩⟩ := readerCall_eq h <;> rfl

/-- The view after an access of the writer, which may add to `size`. -/
def ReaderView.add (v : ReaderView) (n : Nat) : ReaderView :=
  { v with size := int32 (v.size + n) }

theorem add_zero_view (h : RingInv c (r.seen v)) : v.add 0 = v := by
  have hsize : 0 ≤ v.size := h.safe.size_nonneg
  have hle : v.size ≤ c := h.safe.size_le
  have hb := h.bound
  unfold MAX_CAPACITY at hb
  have hsame : int32 (v.size + (0 : Nat)) = v.size := by
    rw [int32_eq (by omega) (by omega)]
    exact Int.add_zero _
  rw [ReaderView.add, hsame]

/-- **The writer and the ring behind the peek**: an access keeps its invariant, as long as its
availability test takes over no more than there is space for in that ring. -/
theorem writerStep_seen (h : RingInv c (r.seen v)) (hx : ∃ x, v.released ≤ x ∧
      x ≤ r.history.published ∧ r.buffer.read = x % c)
    (htakes : r.takes ≤ getAvailableSpace (r.seen v).buffer .write)
    (hs : writerStep r = some r') : RingInv c (r'.seen (v.add r.writer.adds)) := by
  have hf : TransferFacts c r.buffer.write r.history.stream.length r.history.published
      (v.released + c) r.writer := h.writer
  have hfit : ∀ reg ∈ r.writer.registers, reg.offset + reg.bytes ≤ reg.call.length := h.writerFits
  have keeps : r.writer.adds = 0 → RingInv c (r'.seen v) →
      RingInv c (r'.seen (v.add r.writer.adds)) := by
    intro hadds hr
    rw [hadds, add_zero_view h]
    exact hr
  cases writerStep_cases hs with
  | again data waits hpc =>
    have hpc' : (r.seen v).writer = .space data waits := hpc
    rw [hpc] at hf
    refine keeps (by rw [hpc]; rfl) ?_
    exact h.setWriter (by rw [hpc']; rfl) hf (by simp [TransferPc.registers])
  | start data waits hpc =>
    have hpc' : (r.seen v).writer = .space data waits := hpc
    simp only [RingState.takes, hpc] at htakes
    rw [hpc] at hf
    refine keeps (by rw [hpc]; rfl) ?_
    have hspace := h.freeSpace
    have hreleased : v.released ≤ r.history.published := h.released_le.trans h.delivered_le
    have hpublished : r.history.published ≤ r.history.stream.length := h.published_le
    have hroom : r.history.stream.length ≤ v.released + c := h.room
    have hcounted : r.history.published = r.history.stream.length := hf.1
    change getAvailableSpace (r.seen v).buffer .write =
      c - (r.history.published - v.released) at hspace
    refine h.setWriter (by rw [hpc']; rfl) ⟨⟨hf.1, hf.2, rfl, ?_, ?_⟩, rfl⟩ ?_
    · show min _ _ ≤ c
      omega
    · show r.history.stream.length + min _ _ ≤ v.released + c
      omega
    · intro reg hreg
      cases hreg
      show 0 + min _ _ ≤ data.length
      omega
  | notBehind reg index hpc =>
    have hpc' : (r.seen v).writer = .compareOther reg index := hpc
    rw [hpc] at hf hfit
    refine keeps (by rw [hpc]; rfl) ?_
    exact h.setWriter (by rw [hpc']; rfl) ⟨hf.1, hf.2.1⟩ hfit
  | behind reg index hpc hlt =>
    have hpc' : (r.seen v).writer = .compareOther reg index := hpc
    rw [hpc] at hf hfit
    refine keeps (by rw [hpc]; rfl) ?_
    -- wherever the peek has moved the read index, the bytes to write end before it
    obtain ⟨hw, h0, rfl⟩ := hf
    obtain ⟨x, hreleased, hpublished, hread⟩ := hx
    have hplaced : x ≤ r.history.stream.length := hpublished.trans h.published_le
    have hin : r.buffer.write + reg.bytes < c := by
      rw [hw.own_eq] at hlt ⊢
      exact writer_not_ahead hread hreleased hplaced hw.room h.pos (Nat.lt_of_not_le hlt)
    refine h.setWriter ?_ (hw.last h0 hin) hfit
    rw [hpc']
    simp [WriterPc.placed, TransferPc.registers, TransferPc.moved, hw.offset_eq]
  | toEnd reg hpc hle =>
    refine keeps (by rw [hpc]; rfl) (h.writerStep_inv ?_)
    simp only [writerStep, RingState.seen, hpc, if_pos hle]
  | notToEnd reg hpc hlt =>
    refine keeps (by rw [hpc]; rfl) (h.writerStep_inv ?_)
    simp only [writerStep, RingState.seen, hpc, if_neg hlt]
  | firstPointer reg hpc | secondPointer reg hpc =>
    refine keeps (by rw [hpc]; rfl) (h.writerStep_inv ?_)
    have hle : r.buffer.write ≤ r.buffer.capacity :=
      (h.writer.own_lt h.pos).le.trans_eq h.capacity.symm
    simp only [writerStep, RingState.seen, hpc, if_pos hle]
  | compareOwn reg hpc | wrapIndex reg hpc | loadIndex reg hpc | storeIndex reg _ hpc =>
    refine keeps (by rw [hpc]; rfl) (h.writerStep_inv ?_)
    simp only [writerStep, RingState.seen, hpc]
  | firstCopy reg _ hpc | secondCopy reg _ hpc =>
    refine keeps (by rw [hpc]; rfl) (h.writerStep_inv ?_)
    simp only [writerStep, RingState.seen, hpc]
    rfl
  | wrapSize reg hpc | addSize reg hpc =>
    rw [hpc]
    refine h.writerStep_inv ?_
    simp only [writerStep, RingState.seen, hpc]
    rfl

theorem writerCall_seen {data : List UInt8} (h : writerCall r data = some r') :
    writerCall (r.seen v) data = some (r'.seen v) ∧ r'.view = r.view ∧
      r'.reader = r.reader ∧ r'.history.published = r.history.published := by
  obtain ⟨hidle, ⟨rfl, rfl⟩ | ⟨hne, rfl⟩⟩ := writerCall_eq h
  · refine ⟨?_, rfl, rfl, rfl⟩
    simp only [writerCall, RingState.seen, hidle, List.length_nil, if_true]
  · have hlen : data.length ≠ 0 := mt List.length_eq_zero_iff.mp hne
    refine ⟨?_, rfl, rfl, rfl⟩
    simp only [writerCall, RingState.seen, hidle, hlen, if_false]

theorem writerStep_view (h : writerStep r = some r') (hsame : r.view.add 0 = r.view) :
    r'.view = r.view.add r.writer.adds := by
  cases writerStep_cases h with
  | wrapSize _ hpc | addSize _ hpc =>
    rw [hpc]
    rfl
  | again _ _ hpc | start _ _ hpc | compareOwn _ hpc | notBehind _ _ hpc | behind _ _ hpc
  | toEnd _ hpc | notToEnd _ hpc | firstPointer _ hpc | firstCopy _ _ hpc | wrapIndex _ hpc
  | secondPointer _ hpc | secondCopy _ _ hpc | loadIndex _ hpc | storeIndex _ _ hpc =>
    rw [hpc]
    exact hsame.symm

end Writer

/-! ### The invariant -/

/-- The ring behind a peek, with the read index that the peek has moved. -/
structure Behind (c : Nat) (r : RingState) (v : ReaderView) : Prop where
  ring : RingInv c (r.seen v)
  ahead : ∃ x, v.released ≤ x ∧ x ≤ r.history.published ∧ r.buffer.read = x % c

def PeekInv (c : Nat) (s : PeekState) : Prop :=
  match s.peek with
  | .idle => RingInv c s.ring
  | .loadSize _ => RingInv c s.ring ∧ s.ring.reader = .idle
  | .loadRead _ oldSize =>
    RingInv c s.ring ∧ s.ring.reader = .idle ∧ int32 oldSize = s.ring.buffer.size
  | .reading saved =>
    RingInv c s.ring ∧ Behind c s.ring saved.view ∧ saved.released ≤ s.ring.history.released ∧
      s.ring.history.reads = saved.reads
  | .storeSize saved _ =>
    Behind c s.ring saved.view ∧ s.ring.reader = .idle ∧ s.ring.history.reads = saved.reads
  | .storeRead oldRead _ =>
    Behind c s.ring { s.ring.view with read := oldRead } ∧ s.ring.reader = .idle

section Invariant

variable {c : Nat} {r r' : RingState} {v : ReaderView} {s t : PeekState}

theorem Behind.call (h : Behind c r v) {data : List UInt8} (hs : writerCall r data = some r') :
    Behind c r' v := by
  obtain ⟨x, hreleased, hle, hread⟩ := h.ahead
  obtain ⟨hseen, hview, -, hpublished⟩ := writerCall_seen (v := v) hs
  refine ⟨h.ring.writerCall_inv hseen, x, hreleased, by rw [hpublished]; exact hle, ?_⟩
  exact (congrArg ReaderView.read hview).trans hread

theorem Behind.access (h : Behind c r v)
    (htakes : r.takes ≤ getAvailableSpace (r.seen v).buffer .write)
    (hs : writerStep r = some r') (hread : r'.buffer.read = r.buffer.read) :
    Behind c r' (v.add r.writer.adds) := by
  obtain ⟨x, hreleased, hle, hx⟩ := h.ahead
  exact ⟨writerStep_seen h.ring h.ahead htakes hs, x, hreleased,
    hle.trans (writerStep_access hs).published, hread.trans hx⟩

/-- The store of `size`: what is left to restore is the read index. -/
theorem Behind.storeSize (h : Behind c r v) (hreads : r.history.reads = v.reads)
    (hr : r' = { r with
      buffer := { r.buffer with size := v.size }
      history := { r.history with released := v.released } }) :
    Behind c r' { r'.view with read := v.read } := by
  subst hr
  refine ⟨?_, h.ahead⟩
  have hring := h.ring
  rw [RingState.seen, ← hreads] at hring
  exact hring

theorem Behind.freeSpace (h : Behind c r v) :
    getAvailableSpace (r.seen v).buffer .write =
      r.buffer.capacity - (r.history.published - (v.reads.flatMap ReadReturn.bytes).length) := by
  have hdelivered : (r.seen v).delivered = v.reads.flatMap ReadReturn.bytes :=
    List.append_nil _
  have hcounted : v.released = (r.seen v).delivered.length := h.ring.reader.1
  have hcapacity : r.buffer.capacity = c := h.ring.capacity
  rw [h.ring.freeSpace, hcapacity, ← hdelivered, ← hcounted]
  rfl

theorem RingInv.held_idle (h : RingInv c r) (hw : r.writer = .idle) (hr : r.reader = .idle) :
    r.held = r.accepted.drop r.delivered.length := by
  have hfw := h.writer
  have hfr := h.reader
  rw [hw] at hfw
  rw [hr] at hfr
  have haccepted : r.accepted = r.history.stream := by
    rw [h.stream, RingState.accepted, hw]
    rfl
  rw [RingState.held, haccepted, hfw.1, hfr.1, List.take_of_length_le (List.length_drop ..).le]

theorem takes_le (r : RingState) : r.takes ≤ getAvailableSpace r.buffer .write := by
  unfold RingState.takes
  split
  · exact Nat.min_le_left _ _
  · exact Nat.zero_le _

theorem RingInv.read_ahead (h : RingInv c r) {m : Nat} (hm : m ≤ r.history.released) :
    ∃ x, m ≤ x ∧ x ≤ r.history.published ∧ r.buffer.read = x % c := by
  rcases h.reader.own_eq with he | he
  · exact ⟨_, hm, h.released_le.trans h.delivered_le, he⟩
  · exact ⟨_, hm.trans h.released_le, h.delivered_le, he⟩

/-- After an access of its `buffer_read` a peek is still inside it, or stores `size` next. -/
theorem peekInv_afterRead {saved : Saved} (h : RingInv c r) (hseen : RingInv c (r.seen saved.view))
    (hreleased : saved.released ≤ r.history.released)
    (hreads : r.reader ≠ .idle ∧ r.history.reads = saved.reads ∨
      r.reader = .idle ∧ ∃ record, r.history.reads = saved.reads ++ [record]) :
    PeekInv c (s.afterRead saved r) := by
  have hahead := h.read_ahead hreleased
  rcases hreads with ⟨hbusy, hreads⟩ | ⟨hidle, record, hreads⟩
  · have heq : s.afterRead saved r = { s with ring := r, peek := .reading saved } := by
      unfold PeekState.afterRead
      split
      · exact absurd ‹_› hbusy
      · rfl
    rw [heq]
    exact ⟨h, ⟨hseen, hahead⟩, hreleased, hreads⟩
  · have heq : s.afterRead saved r = { s with
        ring := { r with history := { r.history with reads := saved.reads } }
        peek := .storeSize saved record } := by
      simp [PeekState.afterRead, hidle, hreads]
    rw [heq]
    exact ⟨⟨hseen, hahead⟩, hidle, rfl⟩

theorem readerStep_reads (h : readerStep r = some r') :
    r'.reader ≠ .idle ∧ r'.history.reads = r.history.reads ∨
      r'.reader = .idle ∧ ∃ record, r'.history.reads = r.history.reads ++ [record] := by
  rcases (readerStep_access h).reads with hbusy | ⟨_, record, -, hidle, hreads, -⟩
  · exact .inl hbusy
  · exact .inr ⟨hidle, record, hreads⟩

theorem readerCall_reads {requested : Nat} (h : readerCall r requested = some r') :
    r'.reader ≠ .idle ∧ r'.history.reads = r.history.reads ∨
      r'.reader = .idle ∧ ∃ record, r'.history.reads = r.history.reads ++ [record] := by
  obtain ⟨hidle, ⟨-, rfl⟩ | ⟨-, rfl⟩⟩ := readerCall_eq h
  · exact .inr ⟨hidle, _, rfl⟩
  · exact .inl ⟨by simp, rfl⟩

theorem peekInv_storeRead {oldRead : Nat} {result : ReadReturn} {peeks : List ReadReturn}
    (h : Behind c r { r.view with read := oldRead }) (hidle : r.reader = .idle) :
    PeekInv c { ring := r, peek := .storeRead oldRead result, peeks } := ⟨h, hidle⟩

theorem PeekInv.readerStep (h : PeekInv c s) (hs : peekReaderStep s = some t) : PeekInv c t := by
  unfold PeekInv at h
  cases hp : s.peek with
  | idle =>
    simp only [peekReaderStep, hp] at h hs
    obtain ⟨ring, hstep, rfl⟩ := Option.map_eq_some_iff.mp hs
    exact h.readerStep_inv hstep
  | loadSize dataSize =>
    simp only [peekReaderStep, hp] at h hs
    obtain rfl := Option.some.inj hs
    refine ⟨h.1, h.2, ?_⟩
    have hsize := h.1.safe.size_nonneg
    have hle := h.1.safe.size_le
    have hb := h.1.bound
    unfold MAX_CAPACITY at hb
    show int32 (sizeT s.ring.buffer.size) = s.ring.buffer.size
    rw [sizeT_eq (n := s.ring.buffer.size.toNat) (by omega) (by omega),
      int32_eq (by omega) (by omega)]
    omega
  | loadRead dataSize oldSize =>
    simp only [peekReaderStep, hp] at h hs
    obtain ⟨hring, hidle, hsize⟩ := h
    obtain ⟨ring, hcall, rfl⟩ := Option.map_eq_some_iff.mp hs
    have hview : Saved.view { oldSize, oldRead := s.ring.buffer.read
                              released := s.ring.history.released
                              reads := s.ring.history.reads } = s.ring.view := by
      rw [Saved.view, hsize]
      rfl
    have hreleased : ring.history.released = s.ring.history.released := by
      obtain ⟨-, ⟨-, rfl⟩ | ⟨-, rfl⟩⟩ := readerCall_eq hcall <;> rfl
    refine peekInv_afterRead (hring.readerCall_inv hcall) ?_ hreleased.ge (readerCall_reads hcall)
    rw [readerCall_seen hcall, hview, seen_view hidle]
    exact hring
  | reading saved =>
    simp only [peekReaderStep, hp] at h hs
    obtain ⟨hring, hbehind, hreleased, hreads⟩ := h
    obtain ⟨ring, hstep, rfl⟩ := Option.map_eq_some_iff.mp hs
    refine peekInv_afterRead (hring.readerStep_inv hstep) ?_
      (hreleased.trans (readerStep_access hstep).released) ?_
    · rw [readerStep_seen hstep]
      exact hbehind.ring
    · rw [← hreads]
      exact readerStep_reads hstep
  | storeSize saved result =>
    simp only [peekReaderStep, hp] at h hs
    obtain ⟨hbehind, hidle, hreads⟩ := h
    obtain rfl := Option.some.inj hs
    exact peekInv_storeRead (hbehind.storeSize hreads (by rw [Saved.view])) hidle
  | storeRead oldRead result =>
    simp only [peekReaderStep, hp] at h hs
    obtain ⟨hbehind, hidle⟩ := h
    obtain rfl := Option.some.inj hs
    have hring := hbehind.ring
    rw [← seen_view (r := { s.ring with buffer := { s.ring.buffer with read := oldRead } }) hidle]
    exact hring

theorem freeSpace_eq (h : Behind c s.ring v) (hp : s.peek ≠ .idle)
    (hreads : s.ring.history.reads = v.reads) :
    s.freeSpace = getAvailableSpace (s.ring.seen v).buffer .write := by
  have hdelivered : s.delivered = v.reads.flatMap ReadReturn.bytes := by
    unfold PeekState.delivered
    split
    · exact absurd ‹_› hp
    · rw [hreads]
  rw [h.freeSpace, PeekState.freeSpace, hdelivered]

theorem PeekInv.call (h : PeekInv c s) {data : List UInt8} (hs : writerCall s.ring data = some r') :
    PeekInv c { s with ring := r' } := by
  obtain ⟨-, hview, hreader, -⟩ := writerCall_seen (v := s.ring.view) hs
  have hreads : r'.history.reads = s.ring.history.reads := congrArg ReaderView.reads hview
  unfold PeekInv at h ⊢
  cases hp : s.peek with
  | idle =>
    simp only [hp] at h ⊢
    exact h.writerCall_inv hs
  | loadSize _ =>
    simp only [hp] at h ⊢
    exact ⟨h.1.writerCall_inv hs, hreader.trans h.2⟩
  | loadRead _ oldSize =>
    simp only [hp] at h ⊢
    exact ⟨h.1.writerCall_inv hs, hreader.trans h.2.1,
      h.2.2.trans (congrArg ReaderView.size hview).symm⟩
  | reading saved =>
    simp only [hp] at h ⊢
    refine ⟨h.1.writerCall_inv hs, h.2.1.call hs, ?_, hreads.trans h.2.2.2⟩
    exact h.2.2.1.trans (congrArg ReaderView.released hview).ge
  | storeSize saved _ =>
    simp only [hp] at h ⊢
    exact ⟨h.1.call hs, hreader.trans h.2.1, hreads.trans h.2.2⟩
  | storeRead oldRead _ =>
    simp only [hp] at h ⊢
    refine ⟨?_, hreader.trans h.2⟩
    rw [hview]
    exact h.1.call hs

/-- **An access of the writer's** that meets the condition. -/
theorem PeekInv.access (h : PeekInv c s) (hu : Undisturbed s .writerStep)
    (hs : writerStep s.ring = some r') : PeekInv c { s with ring := r' } := by
  have haccess := writerStep_access hs
  have hreader := haccess.reader
  have hreads := haccess.reads
  have hreleased := haccess.released
  unfold PeekInv at h ⊢
  cases hp : s.peek with
  | idle =>
    simp only [hp] at h ⊢
    exact h.writerStep_inv hs
  | loadSize _ =>
    simp only [hp] at h ⊢
    exact ⟨h.1.writerStep_inv hs, hreader.trans h.2⟩
  | loadRead _ oldSize =>
    simp only [hp] at h ⊢
    obtain ⟨hring, hidle, hsize⟩ := h
    obtain ⟨hadds, -⟩ := hu (by rw [hp]; rfl)
    have hsame : s.ring.view.add 0 = s.ring.view :=
      add_zero_view (by rw [seen_view hidle]; exact hring)
    have hview := writerStep_view hs hsame
    rw [hadds, hsame] at hview
    exact ⟨hring.writerStep_inv hs, hreader.trans hidle,
      hsize.trans (congrArg ReaderView.size hview).symm⟩
  | reading saved =>
    simp only [hp] at h ⊢
    obtain ⟨hring, hbehind, hle, hsaved⟩ := h
    obtain ⟨hadds, htakes⟩ := hu (by rw [hp]; rfl)
    rw [freeSpace_eq hbehind (by rw [hp]; simp) hsaved] at htakes
    have hafter := hbehind.access htakes hs (writerStep_frame hs).2
    rw [hadds, add_zero_view hbehind.ring] at hafter
    exact ⟨hring.writerStep_inv hs, hafter, hle.trans hreleased.ge, hreads.trans hsaved⟩
  | storeSize saved _ =>
    simp only [hp] at h ⊢
    obtain ⟨hbehind, hidle, hsaved⟩ := h
    obtain ⟨hadds, htakes⟩ := hu (by rw [hp]; rfl)
    rw [freeSpace_eq hbehind (by rw [hp]; simp) hsaved] at htakes
    have hafter := hbehind.access htakes hs (writerStep_frame hs).2
    rw [hadds, add_zero_view hbehind.ring] at hafter
    exact ⟨hafter, hreader.trans hidle, hreads.trans hsaved⟩
  | storeRead oldRead _ =>
    simp only [hp] at h ⊢
    obtain ⟨hbehind, hidle⟩ := h
    have hsize := congrArg ReaderView.size (add_zero_view hbehind.ring)
    have hsame : s.ring.view.add 0 = s.ring.view := by
      change int32 (s.ring.buffer.size + (0 : Nat)) = s.ring.buffer.size at hsize
      rw [RingState.view, ReaderView.add, hsize]
    have hafter := hbehind.access (takes_le s.ring) hs (writerStep_frame hs).2
    rw [writerStep_view hs hsame]
    exact ⟨hafter, hreader.trans hidle⟩

theorem PeekInv.step (h : PeekInv c s) {a : PeekAction} (hu : Undisturbed s a)
    (hs : peekStep s a = some t) : PeekInv c t := by
  cases a with
  | write data =>
    obtain ⟨ring, hcall, rfl⟩ := Option.map_eq_some_iff.mp hs
    exact h.call hcall
  | writerStep =>
    obtain ⟨ring, hstep, rfl⟩ := Option.map_eq_some_iff.mp hs
    exact h.access hu hstep
  | read requested =>
    unfold peekStep at hs
    dsimp only at hs
    split at hs
    · rename_i hp
      obtain ⟨ring, hcall, rfl⟩ := Option.map_eq_some_iff.mp hs
      unfold PeekInv at h ⊢
      simp only [hp] at h ⊢
      exact h.readerCall_inv hcall
    · cases hs
  | peek dataSize =>
    unfold peekStep at hs
    dsimp only at hs
    split at hs
    · rename_i hp hidle
      obtain rfl := Option.some.inj hs
      unfold PeekInv at h
      simp only [hp] at h
      exact ⟨h, hidle⟩
    · cases hs
  | readerStep => exact h.readerStep hs

theorem PeekInv.invisible (h : PeekInv c s) : Invisible s := by
  unfold PeekInv at h
  -- while a peek is under way the ring behind it has delivered what `buffer_read` has
  have behind : ∀ v, RingInv c (s.ring.seen v) → s.peek ≠ .idle →
      s.ring.history.reads = v.reads → Invisible s := by
    intro v hring hp hreads
    refine ⟨?_, fun _ _ hc => absurd hc hp, fun _ _ hc => absurd hc hp⟩
    have hdelivered : s.delivered = (s.ring.seen v).delivered := by
      unfold PeekState.delivered
      split
      · exact absurd ‹_› hp
      · rw [hreads]
        exact (List.append_nil _).symm
    rw [hdelivered]
    exact hring.safe.delivered
  cases hp : s.peek with
  | idle =>
    simp only [hp] at h
    have hdelivered : s.delivered = s.ring.delivered := by rw [PeekState.delivered, hp]
    refine ⟨by rw [hdelivered]; exact h.safe.delivered, ?_, ?_⟩
    · intro hw hr _
      rw [hdelivered]
      exact (h.safe.idle hw hr).2
    · intro hw hr _
      rw [hdelivered, ← h.held_idle hw hr, h.capacity]
      exact h.readerReady hr
  | loadSize _ =>
    simp only [hp] at h
    exact behind s.ring.view (by rw [seen_view h.2]; exact h.1) (by rw [hp]; simp) rfl
  | loadRead _ _ =>
    simp only [hp] at h
    exact behind s.ring.view (by rw [seen_view h.2.1]; exact h.1) (by rw [hp]; simp) rfl
  | reading saved =>
    simp only [hp] at h
    exact behind saved.view h.2.1.ring (by rw [hp]; simp) h.2.2.2
  | storeSize saved _ =>
    simp only [hp] at h
    exact behind saved.view h.1.ring (by rw [hp]; simp) h.2.2
  | storeRead oldRead _ =>
    simp only [hp] at h
    exact behind _ h.1.ring (by rw [hp]; simp) rfl

end Invariant

/-- **A peek is invisible** in every state of every run in which the writer neither adds to
`size` nor overestimates the free space while a peek holds its copy of `size`. -/
theorem peek_invisible {buffer : Buffer} (hc : 1 ≤ buffer.capacity)
    (hb : buffer.capacity ≤ 2 ^ 31 - 1) {actions : List PeekAction}
    (hm : Run.Meets peekStep Undisturbed (.init buffer) actions) {s : PeekState}
    (h : Run.Visits peekStep (.init buffer) actions s) : Invisible s := by
  have hinit : PeekInv buffer.capacity (.init buffer) := ringInv_init hc hb
  exact (Run.visits_induct (fun _ _ _ hi hu hs => PeekInv.step hi hu hs) hinit hm h).invisible

/-- A writer that is to add a byte to `size` next, and a peek of `n` accesses before it does. -/
private def peekBefore (n : Nat) : List PeekAction :=
  .write [1] :: List.replicate 9 .writerStep ++ .write [2] :: List.replicate 8 .writerStep ++
    .peek 1 :: List.replicate n .readerStep ++ .writerStep ::
      List.replicate (12 - n) .readerStep

theorem peek_invisible_before :
    ∃ s, Run.run peekStep (.init (.fresh (fun _ => 0) 3 ⟨fun _ => false⟩)) (peekBefore 12) =
        some s ∧
      s.peeks.map ReadReturn.bytes = [[1]] ∧ s.ring.buffer.size = 2 ∧ Invisible s := by
  have hrun : ∃ s, Run.run peekStep (.init (.fresh (fun _ => 0) 3 ⟨fun _ => false⟩))
      (peekBefore 12) = some s ∧ s.peeks.map ReadReturn.bytes = [[1]] ∧ s.ring.buffer.size = 2 :=
    ⟨_, rfl, by decide, by decide⟩
  obtain ⟨s, hs, hpeeks, hsize⟩ := hrun
  exact ⟨s, hs, hpeeks, hsize, @peek_invisible (.fresh (fun _ => 0) 3 ⟨fun _ => false⟩) (by decide)
    (by decide) (peekBefore 12) (by decide) s (Run.visits_self hs)⟩

/-- **A byte lost to a peek**: the writer adds to `size` between the load and the store of the
peek, and the store takes the byte away again. -/
theorem peek_loses_byte :
    ∃ s, Run.run peekStep (.init (.fresh (fun _ => 0) 3 ⟨fun _ => false⟩)) (peekBefore 5) = some s ∧
      s.ring.accepted = [1, 2] ∧ s.delivered = [] ∧ s.ring.buffer.size = 1 ∧ ¬ Invisible s := by
  have hrun : ∃ s, Run.run peekStep (.init (.fresh (fun _ => 0) 3 ⟨fun _ => false⟩))
      (peekBefore 5) = some s ∧ s.ring.writer = .idle ∧ s.ring.reader = .idle ∧ s.peek = .idle ∧
      s.ring.accepted = [1, 2] ∧ s.delivered = [] ∧ s.ring.buffer.size = 1 :=
    ⟨_, rfl, by decide, by decide, rfl, by decide, by decide, by decide⟩
  obtain ⟨s, hs, hw, hr, hp, hacc, hdel, hsize⟩ := hrun
  refine ⟨s, hs, hacc, hdel, hsize, fun hinv => ?_⟩
  have hall := hinv.size hw hr hp
  rw [hsize, hacc, hdel] at hall
  exact absurd hall (by decide)

end Tssx
