import Tssx.Buffer.Transfer

/-!
# What a party of the ring buffer knows

The bytes of the stream are numbered as the writer places them.  Four counters say where the
two parties are: `released ≤ delivered ≤ published ≤ placed ≤ released + capacity`, with
`size = published - released`.

Each party knows its own two counters: `counted`, what it has added to or subtracted from
`size`, and `done`, what it has copied.  It relies on one bound, its `limit`: the writer on
`released + capacity`, the reader on `published`.  The other party only ever raises that
bound, so what a party knows (`TransferFacts`) is stable under the other's steps
(`TransferFacts.mono`).  The own index is `counted` or `done` modulo the capacity, and so is
the other party's, which is all that the comparison of the two indices needs
(`writer_not_ahead`, `reader_not_ahead`): where it matters, the stale index is behind.
-/

namespace Tssx

variable {κ : Type} {c own done counted limit : Nat}

/-! ### What a party knows -/

/-- The bytes that the call in progress has copied. -/
def TransferPc.moved : TransferPc κ → Nat
  | .wrapIndex r | .wrapSize r => r.offset + r.rightSpace
  | .secondPointer r | .secondCopy r _ => r.offset
  | .loadIndex r | .storeIndex r _ | .addSize r => r.offset + r.bytes
  | _ => 0

/-- A call that may still move `bytes` and has not wrapped around. -/
structure Registers.Whole (r : Registers κ) (c own done counted limit : Nat) : Prop where
  counted_eq : counted = done
  own_eq : own = done % c
  offset_eq : r.offset = 0
  bytes_le : r.bytes ≤ c
  room : done + r.bytes ≤ limit

/-- A call that moves the last part of its bytes without reaching the end of the buffer. -/
structure Registers.Last (r : Registers κ) (c own done counted limit : Nat) : Prop where
  counted_eq : counted = done
  own_eq : own = done % c
  offset_eq : r.offset = r.rightSpace
  bytes_le : r.offset + r.bytes ≤ c
  room : done + r.bytes ≤ limit
  inside : own + r.bytes < c

/-- A call that has copied up to the end of the buffer. -/
structure Registers.AtEnd (r : Registers κ) (c done counted limit : Nat) : Prop where
  counted_eq : counted + r.rightSpace = done
  wrapped : done % c = 0
  offset_eq : r.offset = 0
  part : r.rightSpace ≤ r.bytes
  bytes_le : r.bytes ≤ c
  room : counted + r.bytes ≤ limit
  first : 0 < r.rightSpace

/-- A call that has copied its last part. -/
structure Registers.Copied (r : Registers κ) (c done counted limit : Nat) : Prop where
  counted_eq : counted + r.bytes = done
  offset_eq : r.offset = r.rightSpace
  bytes_le : r.offset + r.bytes ≤ c
  room : done ≤ limit
  inside : counted % c + r.bytes < c

/-- What a party knows at its next access, of its own index and its two counters. -/
def TransferFacts (c own done counted limit : Nat) : TransferPc κ → Prop
  | .idle | .space _ _ => counted = done ∧ own = done % c
  | .compareOwn r | .right r => r.Whole c own done counted limit ∧ r.rightSpace = 0
  | .compareOther r index =>
    r.Whole c own done counted limit ∧ r.rightSpace = 0 ∧ index = own
  | .firstPointer r =>
    r.Whole c own done counted limit ∧ own + r.rightSpace = c ∧ r.rightSpace ≤ r.bytes
  | .firstCopy r index =>
    r.Whole c own done counted limit ∧ own + r.rightSpace = c ∧ r.rightSpace ≤ r.bytes ∧
      index = own
  | .wrapIndex r => r.AtEnd c done counted limit ∧ own = counted % c
  | .wrapSize r => r.AtEnd c done counted limit ∧ own = done % c
  | .secondPointer r => r.Last c own done counted limit
  | .secondCopy r index => r.Last c own done counted limit ∧ index = own
  | .loadIndex r => r.Copied c done counted limit ∧ own = counted % c
  | .storeIndex r index => r.Copied c done counted limit ∧ own = counted % c ∧ index = own
  | .addSize r => r.Copied c done counted limit ∧ own = done % c

/-- **What a party knows survives the other's steps**, which only raise its limit. -/
theorem TransferFacts.mono {pc : TransferPc κ} {limit' : Nat} (hle : limit ≤ limit')
    (h : TransferFacts c own done counted limit pc) :
    TransferFacts c own done counted limit' pc := by
  have whole : ∀ {r : Registers κ}, r.Whole c own done counted limit →
      r.Whole c own done counted limit' := fun hw => { hw with room := hw.room.trans hle }
  have atEnd : ∀ {r : Registers κ}, r.AtEnd c done counted limit →
      r.AtEnd c done counted limit' := fun hw => { hw with room := hw.room.trans hle }
  have last : ∀ {r : Registers κ}, r.Last c own done counted limit →
      r.Last c own done counted limit' := fun hw => { hw with room := hw.room.trans hle }
  have copied : ∀ {r : Registers κ}, r.Copied c done counted limit →
      r.Copied c done counted limit' := fun hw => { hw with room := hw.room.trans hle }
  cases pc with
  | idle | space _ _ => exact h
  | compareOwn r | right r | compareOther r _ | firstPointer r | firstCopy r _ =>
    exact ⟨whole h.1, h.2⟩
  | wrapIndex r | wrapSize r => exact ⟨atEnd h.1, h.2⟩
  | secondPointer r => exact last h
  | secondCopy r _ => exact ⟨last h.1, h.2⟩
  | loadIndex r | storeIndex r _ | addSize r => exact ⟨copied h.1, h.2⟩

theorem TransferFacts.own_eq {pc : TransferPc κ}
    (h : TransferFacts c own done counted limit pc) : own = counted % c ∨ own = done % c := by
  cases pc with
  | idle | space _ _ => exact .inr h.2
  | compareOwn r | right r | compareOther r _ | firstPointer r | firstCopy r _ =>
    exact .inr h.1.own_eq
  | wrapIndex r => exact .inl h.2
  | wrapSize r => exact .inr h.2
  | secondPointer r => exact .inr (Registers.Last.own_eq h)
  | secondCopy r _ => exact .inr h.1.own_eq
  | loadIndex r => exact .inl h.2
  | storeIndex r _ => exact .inl h.2.1
  | addSize r => exact .inr h.2

theorem TransferFacts.own_lt {pc : TransferPc κ} (hc : 0 < c)
    (h : TransferFacts c own done counted limit pc) : own < c := by
  rcases h.own_eq with he | he
  · rw [he]; exact Nat.mod_lt _ hc
  · rw [he]; exact Nat.mod_lt _ hc

theorem Registers.Whole.last {r : Registers κ} (h : r.Whole c own done counted limit)
    (hr : r.rightSpace = 0) (hi : own + r.bytes < c) : r.Last c own done counted limit :=
  { counted_eq := h.counted_eq
    own_eq := h.own_eq
    offset_eq := by rw [h.offset_eq, hr]
    bytes_le := by rw [h.offset_eq, Nat.zero_add]; exact h.bytes_le
    room := h.room
    inside := hi }

theorem Registers.Whole.atEnd {r : Registers κ} (h : r.Whole c own done counted limit)
    (hc : 0 < c) (hr : own + r.rightSpace = c) (hb : r.rightSpace ≤ r.bytes) :
    r.AtEnd c (done + r.rightSpace) counted limit ∧ own = counted % c := by
  have hown : own < c := by rw [h.own_eq]; exact Nat.mod_lt _ hc
  refine ⟨⟨by rw [h.counted_eq], ?_, h.offset_eq, hb, h.bytes_le, ?_, by omega⟩, ?_⟩
  · exact Ring.mod_add_of_eq (by rw [← h.own_eq]; exact hr)
  · rw [h.counted_eq]; exact h.room
  · rw [h.counted_eq]; exact h.own_eq

/-- After the atomic addition for the first part, the second part starts at index `0`. -/
theorem Registers.AtEnd.last {r : Registers κ} (h : r.AtEnd c done counted limit)
    (ho : own = done % c) :
    Registers.Last { r with offset := r.offset + r.rightSpace, bytes := r.bytes - r.rightSpace }
      c own done (counted + r.rightSpace) limit := by
  have := h.counted_eq
  have := h.offset_eq
  have := h.part
  have := h.bytes_le
  have := h.room
  have := h.first
  have := h.wrapped
  refine ⟨by omega, ho, ?_, ?_, ?_, ?_⟩
  · show r.offset + r.rightSpace = r.rightSpace
    omega
  · show r.offset + r.rightSpace + (r.bytes - r.rightSpace) ≤ c
    omega
  · show done + (r.bytes - r.rightSpace) ≤ limit
    omega
  · show own + (r.bytes - r.rightSpace) < c
    omega

theorem Registers.Last.copied {r : Registers κ} (h : r.Last c own done counted limit) :
    r.Copied c (done + r.bytes) counted limit ∧ own = counted % c := by
  have hown := h.own_eq
  have hin := h.inside
  refine ⟨⟨by rw [h.counted_eq], h.offset_eq, h.bytes_le, h.room, ?_⟩, ?_⟩
  · rw [h.counted_eq, ← hown]; exact hin
  · rw [h.counted_eq]; exact hown

theorem Registers.Copied.index {r : Registers κ} (h : r.Copied c done counted limit)
    (hb : c ≤ MAX_CAPACITY) (ho : own = counted % c) :
    sizeT (own + r.bytes) = done % c := by
  have hin := h.inside
  unfold MAX_CAPACITY at hb
  rw [← h.counted_eq, Ring.mod_add_of_lt hin, ho]
  exact sizeT_eq (by push_cast; rfl) (by omega)

/-! ### The comparison of the two indices -/

/-- Where the writer finds its index behind the reader's, the room that it has counted on
ends before the reader's index. -/
theorem writer_not_ahead {placed released read bytes x : Nat} (hx : read = x % c)
    (hr : released ≤ x) (hp : x ≤ placed) (hroom : placed + bytes ≤ released + c)
    (hc : 0 < c) (hlt : placed % c < read) : placed % c + bytes < c := by
  have hread : read < c := by rw [hx]; exact Nat.mod_lt _ hc
  have := Ring.mod_gap_of_lt hp (by omega) (hx ▸ hlt)
  omega

theorem reader_not_ahead {delivered published write bytes x : Nat} (hx : write = x % c)
    (hp : published ≤ x) (hw : x ≤ delivered + c) (hroom : delivered + bytes ≤ published)
    (hc : 0 < c) (hlt : delivered % c < write) : delivered % c + bytes < c := by
  have hwrite : write < c := by rw [hx]; exact Nat.mod_lt _ hc
  have := Ring.mod_gap_of_gt (by omega) hw (hx ▸ hlt)
  omega

end Tssx
