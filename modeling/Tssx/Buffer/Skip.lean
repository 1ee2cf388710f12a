import Tssx.Buffer.Fifo

/-!
# `buffer_skip`

To skip bytes is to read them and throw them away; `buffer_skip` moves the read index as a
read does, but leaves `size` as it is.  So it does what it should if there is nothing to skip,
or not enough (`skipCorrect_iff`), and a sequence of calls in which every skip is such a one is
exactly a sequence in which every skip is correct (`skip_correct_iff`).
-/

namespace Tssx

/-- `write = (read + size) mod capacity` and `0 <= size <= capacity`. -/
def RingInvariant (buffer : Buffer) : Prop :=
  (buffer.write : Int) = (buffer.read + buffer.size) % buffer.capacity ∧
    0 ≤ buffer.size ∧ buffer.size ≤ buffer.capacity

/-- A skip of more bytes than there are fails and changes nothing; any other leaves the buffer
as a read of the bytes would. -/
def SkipCorrect (buffer : Buffer) (k : Nat) : Prop :=
  let (returned, after) := bufferSkip buffer k
  if sizeT buffer.size < k then returned = sizeT ERROR ∧ after = buffer
  else
    returned = k ∧ (∃ result, bufferRead buffer k = some (result, after)) ∧
      getAvailableSpace after .write = getAvailableSpace buffer .write + k ∧ RingInvariant after

/-- If the call is a skip, it is correct. -/
def SkipsCorrectly (s : Called Buffer) : BufferCall → Prop
  | .skip k => SkipCorrect s.object k
  | _ => True

/-- If the call is a skip, it is one of nothing, or of more bytes than there are. -/
def SkipsNothing (s : Called Buffer) : BufferCall → Prop
  | .skip k => k = 0 ∨ sizeT s.object.size < k
  | _ => True

instance decidableSkipsNothing (s : Called Buffer) : ∀ call, Decidable (SkipsNothing s call)
  | .skip _ => inferInstanceAs (Decidable (_ ∨ _))
  | .write _ | .read _ | .peek _ | .clear => isTrue trivial

section Skip

variable {c : Nat} {buffer : Buffer} {q : List UInt8}

theorem Represents.ringInvariant (h : Represents c buffer q) : RingInvariant buffer := by
  have hs := h.size
  have hroom := h.room
  refine ⟨?_, by omega, by rw [h.capacity]; omega⟩
  rw [h.write_eq, h.capacity, hs]
  push_cast
  rfl

theorem bufferSkip_unchanged (h : Represents c buffer q) {k : Nat}
    (hk : k = 0 ∨ sizeT buffer.size < k) : (bufferSkip buffer k).2 = buffer := by
  unfold bufferSkip
  split
  · rfl
  · rename_i hle
    have hzero : k = 0 := hk.resolve_right hle
    have hb := h.bound
    have hr := h.read_lt
    unfold MAX_CAPACITY at hb
    have hread : sizeT (buffer.read + k) % buffer.capacity = buffer.read := by
      rw [sizeT_eq (n := buffer.read) (by rw [hzero]; rfl) (by omega), h.capacity,
        Nat.mod_eq_of_lt hr]
    show { buffer with read := sizeT (buffer.read + k) % buffer.capacity } = buffer
    rw [hread]

/-- **One skip** is correct exactly if it is one of nothing, or of more bytes than there are. -/
theorem skipCorrect_iff (h : Represents c buffer q) (k : Nat) :
    SkipCorrect buffer k ↔ k = 0 ∨ sizeT buffer.size < k := by
  have hsize : sizeT buffer.size = q.length := h.unread
  constructor
  · intro hcorrect
    by_contra hnot
    obtain ⟨hk, hle⟩ := not_or.mp hnot
    simp only [SkipCorrect, bufferSkip, hle, if_false] at hcorrect
    obtain ⟨-, ⟨result, hread⟩, -, -⟩ := hcorrect
    -- a read lowers `size`, a skip does not
    have hne : q ≠ [] := by
      rintro rfl
      rw [hsize] at hle
      exact hle (Nat.pos_of_ne_zero hk)
    obtain ⟨after, hcall, hafter, -⟩ := h.read_call (n := k) (.inl hne)
    rw [hread] at hcall
    obtain rfl : _ = after := congrArg Prod.snd (Option.some.inj hcall)
    have hlowered : buffer.size = (q.drop k).length := hafter.size
    rw [List.length_drop] at hlowered
    have hbefore := h.size
    omega
  · intro hk
    have hsame := bufferSkip_unchanged h hk
    by_cases hlt : sizeT buffer.size < k
    · simp [SkipCorrect, bufferSkip, hlt]
    · obtain rfl := hk.resolve_right hlt
      have hafter : bufferSkip buffer 0 = (0, buffer) := by
        refine Prod.ext ?_ hsame
        simp only [bufferSkip, hlt, if_false]
      rw [SkipCorrect, hafter]
      dsimp only
      rw [if_neg hlt]
      exact ⟨rfl, ⟨{ returned := 0 }, if_pos rfl⟩, rfl, h.ringInvariant⟩

end Skip

/-! ### Every sequence of calls -/

section Sequence

variable {c : Nat} {s t : Called Buffer} {q : List UInt8}

theorem noWait_of_returned {call : BufferCall} (h : bufferStep s call = some t) :
    NoWait s call := by
  have space : ∀ operation available,
      determineAvailableSpace s.object operation = some available →
      s.object.timeouts.nonBlocking operation = true ∨
        getAvailableSpace s.object operation ≠ 0 := by
    intro operation available hspace
    unfold determineAvailableSpace at hspace
    by_contra hnot
    obtain ⟨hblocking, hzero⟩ := not_or.mp hnot
    dsimp only at hspace
    rw [if_pos ⟨not_not.mp hzero, Bool.not_eq_true _ |>.mp hblocking⟩] at hspace
    cases hspace
  have read : ∀ n result, bufferRead s.object n = some result →
      n = 0 ∨ s.object.timeouts.nonBlocking .read = true ∨
        getAvailableSpace s.object .read ≠ 0 := by
    intro n result hread
    unfold bufferRead at hread
    split at hread
    · exact .inl ‹_›
    · obtain ⟨available, hspace, -⟩ := Option.bind_eq_some_iff.mp hread
      exact .inr (space .read available hspace)
  obtain ⟨result, hcall, -⟩ := Option.map_eq_some_iff.mp h
  cases call with
  | write data =>
    obtain ⟨result, hwrite, -⟩ := Option.map_eq_some_iff.mp hcall
    unfold bufferWrite at hwrite
    split at hwrite
    · exact .inl (List.length_eq_zero_iff.mp ‹_›)
    · obtain ⟨available, hspace, -⟩ := Option.bind_eq_some_iff.mp hwrite
      exact .inr (space .write available hspace)
  | read n => exact read n result hcall
  | peek n =>
    obtain ⟨result, hread, -⟩ := Option.map_eq_some_iff.mp hcall
    exact read n result hread
  | skip _ | clear => trivial

theorem Represents.step (h : Represents c s.object q) {call : BufferCall}
    (hskip : SkipsNothing s call) (hs : bufferStep s call = some t) :
    ∃ q', Represents c t.object q' := by
  by_cases hcall : ∀ k, call ≠ .skip k
  · have hr : Refines c s { object := q, results := s.results } := ⟨h, rfl⟩
    obtain ⟨u, hu, -, hru⟩ := bufferStep_fifo hr hcall (noWait_of_returned hs)
    rw [Option.some.inj (hs.symm.trans hu)]
    exact ⟨_, hru.object⟩
  · obtain ⟨k, hk⟩ := not_forall.mp hcall
    obtain rfl := not_not.mp hk
    obtain ⟨result, hcall, rfl⟩ := Option.map_eq_some_iff.mp hs
    obtain rfl := Option.some.inj hcall
    refine ⟨q, ?_⟩
    show Represents c (bufferSkip s.object k).2 q
    rw [bufferSkip_unchanged h hskip]
    exact h

/-- **Skipping is reading and discarding** in exactly the sequences of calls in which every skip
is one of nothing, or of more bytes than there are. -/
theorem skip_correct_iff {memory : Nat → UInt8} {timeouts : Timeouts} {buffer : Buffer}
    (hb : c ≤ 2 ^ 31 - 1) (hnew : createBuffer memory c timeouts = some buffer)
    {calls : List BufferCall} :
    Run.Meets bufferStep SkipsCorrectly { object := buffer } calls ↔
      Run.Meets bufferStep SkipsNothing { object := buffer } calls := by
  have hrep : Represents c buffer [] := represents_create hb hnew
  refine Run.meets_congr (J := fun s => ∃ q, Represents c s.object q) ?_ ?_ ⟨[], hrep⟩
  · rintro s call t ⟨q, hq⟩ hskip hs
    exact hq.step hskip hs
  · rintro s call ⟨q, hq⟩
    cases call with
    | skip k => exact skipCorrect_iff hq k
    | write _ | read _ | peek _ | clear => exact Iff.rfl

/-- Skips of nothing and of too much, at an index that has wrapped around. -/
theorem skip_correct_iff_nothing :
    Run.Meets bufferStep SkipsCorrectly { object := .fresh (fun _ => 0) 2 ⟨fun _ => false⟩ }
      [.write [1, 2], .read 1, .skip 0, .skip 2, .write [3], .skip 3, .clear, .skip 1] :=
  (@skip_correct_iff 2 (fun _ => 0) ⟨fun _ => false⟩ _ (by decide) rfl _).mpr (by decide)

/-- **A skip of a byte that is there**: the buffer stays full, and the read that follows returns
the next byte and then one that is not there. -/
theorem skip_keeps_size :
    (∃ s, Run.run bufferStep { object := .fresh (fun _ => 0) 2 ⟨fun _ => false⟩ }
        [.write [1, 2], .skip 1, .read 2] = some s ∧
      s.results = [{ returned := 2 }, { returned := 1 }, { returned := 2, bytes := [2, 1] }]) ∧
    ¬ Run.Meets bufferStep SkipsCorrectly { object := .fresh (fun _ => 0) 2 ⟨fun _ => false⟩ }
      [.write [1, 2], .skip 1, .read 2] := by
  refine ⟨⟨_, rfl, by decide⟩, fun hmeets => ?_⟩
  have hrep : Represents 2 (.fresh (fun _ => 0) 2 ⟨fun _ => false⟩) [] :=
    represents_create (by decide) rfl
  have hwritten : ∃ s, bufferStep { object := .fresh (fun _ => 0) 2 ⟨fun _ => false⟩ }
      (.write [1, 2]) = some s ∧ sizeT s.object.size = 2 := ⟨_, rfl, by decide⟩
  obtain ⟨s, hs, hsize⟩ := hwritten
  obtain ⟨q, hq⟩ := @Represents.step 2 { object := _ } s [] hrep (.write [1, 2]) trivial hs
  have hskip : SkipCorrect s.object 1 := (hmeets.2 s hs).1
  rw [skipCorrect_iff hq, hsize] at hskip
  exact absurd hskip (by decide)

end Sequence

end Tssx
