import Tssx.Buffer.Sequential

/-!
# A buffer is a bounded queue of bytes

`bufferStep` makes the calls of one thread on one buffer and collects what they return.  The
abstract level is a list of bytes: `fifoCall` says what each call does to the queue and
returns.  `bufferStep_fifo` is the step of the simulation, `buffer_is_fifo` its run.

`buffer_skip` is on the abstract level what a read is that drops the bytes; the code's does
not do that (`Buffer/Skip.lean`).
-/

namespace Tssx

inductive BufferCall
  | write (data : List UInt8)
  | read (bytesToRead : Nat)
  | peek (dataSize : Nat)
  | skip (numberOfBytes : Nat)
  | clear
  deriving DecidableEq

/-- A call; `buffer_clear` returns nothing, which is a `0` here. -/
def callBuffer (buffer : Buffer) : BufferCall → Option (CallResult × Buffer)
  | .write data => (bufferWrite buffer data).map fun (returned, after) => ({ returned }, after)
  | .read bytesToRead => bufferRead buffer bytesToRead
  | .peek dataSize => bufferPeek buffer dataSize
  | .skip numberOfBytes =>
    let (returned, after) := bufferSkip buffer numberOfBytes
    some ({ returned }, after)
  | .clear => some ({ returned := 0 }, bufferClear buffer)

/-- What a call does to a queue of at most `c` bytes. -/
def fifoCall (c : Nat) (q : List UInt8) : BufferCall → CallResult × List UInt8
  | .write data => ({ returned := min data.length (c - q.length) }, q ++ data.take (c - q.length))
  | .read bytesToRead => (readResult q bytesToRead, q.drop bytesToRead)
  | .peek dataSize => (readResult q dataSize, q)
  | .skip numberOfBytes =>
    if q.length < numberOfBytes then ({ returned := sizeT ERROR }, q)
    else ({ returned := numberOfBytes }, q.drop numberOfBytes)
  | .clear => ({ returned := 0 }, [])

/-- A buffer or a queue, with the results of the calls made on it so far. -/
structure Called (β : Type) where
  object : β
  results : List CallResult := []

def bufferStep (s : Called Buffer) (call : BufferCall) : Option (Called Buffer) :=
  (callBuffer s.object call).map fun (result, after) =>
    { object := after, results := s.results ++ [result] }

def fifoStep (c : Nat) (s : Called (List UInt8)) (call : BufferCall) : Called (List UInt8) :=
  let (result, after) := fifoCall c s.object call
  { object := after, results := s.results ++ [result] }

/-- The queue after a sequence of calls on an empty one. -/
def fifoRun (c : Nat) (calls : List BufferCall) : Called (List UInt8) :=
  calls.foldl (fifoStep c) { object := [] }

/-- A blocking call finds something to transfer at once. -/
def NoWait (s : Called Buffer) : BufferCall → Prop
  | .write data =>
    data = [] ∨ s.object.timeouts.nonBlocking .write = true ∨
      getAvailableSpace s.object .write ≠ 0
  | .read n | .peek n =>
    n = 0 ∨ s.object.timeouts.nonBlocking .read = true ∨ getAvailableSpace s.object .read ≠ 0
  | .skip _ | .clear => True

instance decidableNoWait (s : Called Buffer) : ∀ call, Decidable (NoWait s call)
  | .write _ | .read _ | .peek _ => inferInstanceAs (Decidable (_ ∨ _ ∨ _))
  | .skip _ | .clear => isTrue trivial

/-- The calls that leave a queue as it is: a peek, and a read of an empty queue. -/
def Silent (q : List UInt8) : BufferCall → Prop
  | .peek _ => True
  | .read _ => q = []
  | .write _ | .skip _ | .clear => False

/-- The buffer holds the queue, and the calls have returned the same. -/
structure Refines (c : Nat) (s : Called Buffer) (x : Called (List UInt8)) : Prop where
  object : Represents c s.object x.object
  results : s.results = x.results

theorem Represents.mayWrite {c : Nat} {s : Called Buffer} {q data : List UInt8}
    (h : Represents c s.object q) (hwait : NoWait s (.write data)) :
    q.length < c ∨ data = [] ∨ s.object.timeouts.nonBlocking .write = true := by
  have hfree := h.freeSpace
  rcases hwait with hempty | hnon | havail
  · exact .inr (.inl hempty)
  · exact .inr (.inr hnon)
  · exact .inl (by omega)

theorem Represents.mayRead {c n : Nat} {s : Called Buffer} {q : List UInt8}
    (h : Represents c s.object q) (hwait : NoWait s (.read n)) :
    q ≠ [] ∨ n = 0 ∨ s.object.timeouts.nonBlocking .read = true := by
  rcases hwait with hzero | hnon | havail
  · exact .inr (.inl hzero)
  · exact .inr (.inr hnon)
  · rw [h.unread] at havail
    exact .inl (mt List.length_eq_zero_iff.mpr havail)

section Step

variable {c : Nat} {s : Called Buffer} {x : Called (List UInt8)}

theorem Refines.bufferStep (h : Refines c s x) (call : BufferCall) {after : Buffer}
    (hcall : callBuffer s.object call = some ((fifoCall c x.object call).1, after))
    (hafter : Represents c after (fifoCall c x.object call).2) :
    ∃ t, bufferStep s call = some t ∧ t.object = after ∧ Refines c t (fifoStep c x call) := by
  rw [Tssx.bufferStep, hcall]
  exact ⟨_, rfl, rfl, hafter, congrArg (· ++ _) h.results⟩

theorem bufferStep_fifo {call : BufferCall} (h : Refines c s x) (hskip : ∀ k, call ≠ .skip k)
    (hwait : NoWait s call) :
    ∃ t, bufferStep s call = some t ∧ (Silent x.object call → t.object = s.object) ∧
      Refines c t (fifoStep c x call) := by
  have hrep := h.object
  cases call with
  | write data =>
    obtain ⟨after, hcall, hafter⟩ := hrep.write_call (hrep.mayWrite hwait)
    obtain ⟨t, ht, -, hr⟩ := h.bufferStep (.write data) (by rw [callBuffer, hcall]; rfl)
      hafter
    exact ⟨t, ht, False.elim, hr⟩
  | read n =>
    obtain ⟨after, hcall, hafter, hsame⟩ := hrep.read_call (hrep.mayRead hwait)
    obtain ⟨t, ht, hobject, hr⟩ := h.bufferStep (.read n) hcall hafter
    exact ⟨t, ht, fun hq => hobject.trans (hsame hq), hr⟩
  | peek n =>
    obtain ⟨t, ht, hobject, hr⟩ := h.bufferStep (.peek n)
      (hrep.readerReady.peek_call (hrep.mayRead hwait)) hrep
    exact ⟨t, ht, fun _ => hobject, hr⟩
  | skip k => exact absurd rfl (hskip k)
  | clear =>
    obtain ⟨t, ht, -, hr⟩ := h.bufferStep .clear rfl
      (represents_clear hrep.pos hrep.bound hrep.capacity)
    exact ⟨t, ht, False.elim, hr⟩

end Step

/-! ### Every sequence of calls -/

section Sequence

variable {c : Nat} {buffer : Buffer} {calls : List BufferCall}

theorem callRun_fifo (h : Represents c buffer []) (hskip : ∀ k, BufferCall.skip k ∉ calls)
    (hwait : Run.Meets bufferStep NoWait { object := buffer } calls) :
    ∃ s, Run.run bufferStep { object := buffer } calls = some s ∧
      Refines c s (fifoRun c calls) := by
  have hmeets : Run.Meets bufferStep (fun s call => (∀ k, call ≠ .skip k) ∧ NoWait s call)
      { object := buffer } calls :=
    Run.Meets.and
      (Run.meets_of_forall fun call hcall _ k hk => hskip k (hk ▸ hcall)) hwait
  refine Run.foldl_of_meets ?_ ⟨h, rfl⟩ hmeets
  intro s x call hr hcall
  obtain ⟨t, ht, -, hrt⟩ := bufferStep_fifo hr hcall.1 hcall.2
  exact ⟨t, ht, hrt⟩

/-- **The sequential buffer is a bounded queue**: every sequence of calls of one thread that
never waits returns, each call with the result of the queue; the buffer then holds the bytes
that the queue holds; and a peek, or a read of an empty queue, changes nothing of it. -/
theorem buffer_is_fifo {memory : Nat → UInt8} {timeouts : Timeouts} (hb : c ≤ 2 ^ 31 - 1)
    (hnew : createBuffer memory c timeouts = some buffer)
    (hskip : ∀ k, BufferCall.skip k ∉ calls)
    (hwait : Run.Meets bufferStep NoWait { object := buffer } calls) :
    (∃ s, Run.run bufferStep { object := buffer } calls = some s ∧
      s.results = (fifoRun c calls).results ∧ Represents c s.object (fifoRun c calls).object) ∧
    ∀ before call s t, before ++ [call] <+: calls →
      Run.run bufferStep { object := buffer } before = some s → bufferStep s call = some t →
      Silent (fifoRun c before).object call → t.object = s.object := by
  have hrep := represents_create hb hnew
  refine ⟨?_, ?_⟩
  · obtain ⟨s, hs, hr⟩ := callRun_fifo hrep hskip hwait
    exact ⟨s, hs, hr.results, hr.object⟩
  · rintro before call s t ⟨rest, rfl⟩ hs ht hsilent
    rw [List.append_assoc] at hwait
    obtain ⟨s', hs', hr⟩ := callRun_fifo hrep
      (fun k hk => hskip k (List.mem_append_left _ (List.mem_append_left _ hk)))
      (Run.meets_append hwait)
    obtain rfl := Option.some.inj (hs'.symm.trans hs)
    have hcall : NoWait s' call := (Run.meets_after hs hwait).1
    obtain ⟨u, hu, hsame, -⟩ := bufferStep_fifo hr
      (fun k hk => hskip k (by simp [hk])) hcall
    rw [Option.some.inj (ht.symm.trans hu)]
    exact hsame hsilent

/-- A write that wraps around, a peek, a read of more than there is and a read of nothing, on
non-blocking sockets. -/
theorem buffer_is_fifo_wrapped :
    ∃ s, Run.run bufferStep
        { object := .fresh (fun _ => 0) 3 ⟨fun _ => true⟩ }
        [.write [1, 2], .read 1, .write [3, 4, 5], .peek 2, .read 9, .read 1] = some s ∧
      s.results.map CallResult.bytes = [[], [1], [], [2, 3], [2, 3, 4], []] ∧
      s.results.map CallResult.returned = [2, 1, 2, 2, 3, 2 ^ 64 - 1] := by
  obtain ⟨⟨s, hs, hresults, -⟩, -⟩ := @buffer_is_fifo 3 (.fresh (fun _ => 0) 3 ⟨fun _ => true⟩)
    [.write [1, 2], .read 1, .write [3, 4, 5], .peek 2, .read 9, .read 1] (fun _ => 0)
    ⟨fun _ => true⟩ (by decide) rfl (by simp) (by decide)
  exact ⟨s, hs, by rw [hresults]; decide, by rw [hresults]; decide⟩

end Sequence

end Tssx
