import Tssx.Connection.Sides
import Tssx.Lib.Run

/-!
# What a hang-up does to the other side

A side that closes makes its decrement and leaves.  `hang_up` says what the reads of the
other side return: `0` from the decrement on, even with bytes left in the buffer, and what is
in the buffer before.  A side whose check comes before the decrement and that then finds
nothing to do stays in `_block_for_available_space`: `stranded_iff` says which sides are
lost in this way, and `never_stranded` which runs lose none.
-/

namespace Tssx

/-! ### What the reads return -/

/-- What the finished reads of a side show, and what its next check and availability test
will find. -/
structure HangUp (s : Sides) (side : Side) : Prop where
  check : s.gone side = false → connectionPeerDied s.segment = s.gone side.peer
  unread : getAvailableSpace (s.ring side.peer).buffer .read =
    (s.ring side.peer).history.published - (s.ring side.peer).history.released
  inOrder : (s.reads side).flatMap ReadRecord.bytes <+: (s.ring side.peer).accepted
  endOfStream : ∀ r ∈ s.reads side, 0 < r.requested → (r.returned = 0 ↔ r.peerGone = true)
  consumed : ∀ r ∈ s.reads side, r.peerGone = true → r.bytes = []
  live : ∀ r ∈ s.reads side, 0 < r.requested → r.peerGone = false →
    r.bytes.length = min r.available r.requested ∧
      r.returned = if 0 < r.available then (r.bytes.length : Int) else ERROR

variable {buffer : Side → Buffer} {s t : Sides} {side : Side}

theorem ReadRecord.Ok.live_returned {r : ReadRecord} (h : r.Ok) (hr : 0 < r.requested)
    (hl : r.peerGone = false) :
    r.returned = if 0 < r.available then (r.bytes.length : Int) else ERROR := by
  obtain ⟨hlen, hret⟩ := h.live hl
  rw [hret]
  by_cases ha : 0 < r.available
  · rw [if_pos ha, if_neg (by omega)]
  · rw [if_neg ha, if_pos (by omega)]

/-- **Reads around a hang-up**, in every state that any interleaving of the two sides
reaches. -/
theorem hang_up (hc : ∀ side, 1 ≤ (buffer side).capacity)
    (hb : ∀ side, (buffer side).capacity ≤ 2 ^ 31 - 1)
    (h : Run.Reaches sidesStep (.init buffer) s) (side : Side) : HangUp s side := by
  have hinv := sidesInv_reaches hc hb h
  have hside := hinv.side side
  refine ⟨hinv.peerDied_eq side, (hinv.ring side.peer).unread, ?_, ?_, ?_, ?_⟩
  · rw [hside.bytes]
    exact (List.prefix_append _ _).trans (hinv.ring side.peer).safe.delivered
  · intro r hr hpos
    have hok := hside.ok r hr
    constructor
    · intro h0
      by_contra hlive
      have hret := hok.live_returned hpos (Bool.not_eq_true _ |>.mp hlive)
      have hlen := (hok.live (Bool.not_eq_true _ |>.mp hlive)).1
      rw [h0] at hret
      split at hret
      · omega
      · cases hret
    · exact fun hgone => (hok.gone hgone).1
  · exact fun r hr hgone => ((hside.ok r hr).gone hgone).2
  · intro r hr hpos hlive
    exact ⟨((hside.ok r hr).live hlive).1, (hside.ok r hr).live_returned hpos hlive⟩

/-- The client writes a byte and closes, and the server reads. -/
private def closeBeforeRead : List SidesAction :=
  .write .client [7] :: List.replicate 10 (.step .client) ++ .close .client ::
    [.step .client, .step .client, .read .server 1, .step .server]

theorem hang_up_at :
    ∃ s, Run.run sidesStep (.init fun _ => .fresh (fun _ => 0) 2 ⟨fun _ => false⟩)
        closeBeforeRead = some s ∧ HangUp s .server := by
  have hrun : ∃ s, Run.run sidesStep (.init fun _ => .fresh (fun _ => 0) 2 ⟨fun _ => false⟩)
      closeBeforeRead = some s := ⟨_, rfl⟩
  obtain ⟨s, hs⟩ := hrun
  exact ⟨s, hs, hang_up (fun _ => by decide) (fun _ => by decide) ⟨_, hs⟩ .server⟩

/-- **A byte is lost**: the server's read returns `0` with the client's byte still in the
buffer. -/
theorem byte_lost :
    ∃ s, Run.Reaches sidesStep (.init fun _ => .fresh (fun _ => 0) 2 ⟨fun _ => false⟩) s ∧
      (s.ring .client).accepted = [7] ∧
      (s.reads .server).map (fun r => (r.requested, r.returned, r.bytes)) = [(1, 0, [])] :=
  ⟨_, ⟨closeBeforeRead, rfl⟩, by decide⟩

/-! ### Sides that wait -/

/-- The reader's next load of `size` finds nothing and the loop goes on. -/
def RingState.readerStarved (s : RingState) : Bool :=
  match s.reader with
  | .space _ _ => getAvailableSpace s.buffer .read == 0 && !s.buffer.timeouts.nonBlocking .read
  | _ => false

def RingState.writerStarved (s : RingState) : Bool :=
  match s.writer with
  | .space _ _ => getAvailableSpace s.buffer .write == 0 && !s.buffer.timeouts.nonBlocking .write
  | _ => false

/-- Inside the loop of `_block_for_available_space`: a load has found nothing. -/
def TransferPc.inLoop {κ : Type} : TransferPc κ → Bool
  | .space _ waits => decide (0 < waits)
  | _ => false

def Sides.starved (s : Sides) (side : Side) : Bool :=
  (s.ring side.peer).readerStarved || (s.ring side).writerStarved

def Sides.inLoop (s : Sides) (side : Side) : Bool :=
  (s.ring side.peer).reader.inLoop || (s.ring side).writer.inLoop

/-- The side is in the loop, its peer has disconnected, and no further step ends the loop. -/
def Stranded (s : Sides) (side : Side) : Prop :=
  s.inLoop side = true ∧ s.gone side.peer = true ∧
    ∀ t, Run.Reaches sidesStep s t → t.inLoop side = true

/-- If the step is a side's decrement, the other side is not waiting in vain. -/
def NoneStarved (s : Sides) : SidesAction → Prop
  | .step side => s.pc side = .subtract → s.starved side.peer = false
  | _ => True

instance (s : Sides) : ∀ a, Decidable (NoneStarved s a)
  | .step _ => inferInstanceAs (Decidable (_ → _))
  | .read _ _ | .write _ _ | .close _ => inferInstanceAs (Decidable True)

section Access

variable {r r' : RingState}

theorem readerStarved_iff : r.readerStarved = true ↔
    (∃ call waits, r.reader = .space call waits) ∧ getAvailableSpace r.buffer .read = 0 ∧
      r.buffer.timeouts.nonBlocking .read = false := by
  cases hpc : r.reader <;> simp [RingState.readerStarved, hpc]

theorem writerStarved_iff : r.writerStarved = true ↔
    (∃ call waits, r.writer = .space call waits) ∧ getAvailableSpace r.buffer .write = 0 ∧
      r.buffer.timeouts.nonBlocking .write = false := by
  cases hpc : r.writer <;> simp [RingState.writerStarved, hpc]

theorem TransferPc.Moves.space {κ : Type} {starved : Prop} {pc pc' : TransferPc κ}
    (h : TransferPc.Moves starved pc pc') :
    ((∃ call waits, pc = .space call waits) ∧ starved ∧ (∃ call waits, pc' = .space call waits) ∧
      pc'.inLoop = true) ∨
    (¬ ((∃ call waits, pc = .space call waits) ∧ starved) ∧
      (¬ ∃ call waits, pc' = .space call waits) ∧ pc'.inLoop = false) := by
  cases h with
  | again call waits hs =>
    exact .inl ⟨⟨call, waits, rfl⟩, hs, ⟨call, waits + 1, rfl⟩, by simp [TransferPc.inLoop]⟩
  | start call waits _ hs => exact .inr ⟨fun hc => hs hc.2, by simp, rfl⟩
  | inside _ _ hreg hreg' _ =>
    refine .inr ⟨?_, ?_, ?_⟩
    · rintro ⟨⟨call, waits, rfl⟩, -⟩
      cases hreg
    · rintro ⟨call, waits, rfl⟩
      cases hreg'
    · cases pc' <;> first | rfl | cases hreg'
  | finish => exact .inr ⟨by simp, by simp, rfl⟩

theorem TransferPc.Moves.starved {κ : Type} {empty empty' : Prop} {pc pc' : TransferPc κ}
    (h : TransferPc.Moves empty pc pc')
    (hload : ∀ call waits, pc = .space call waits → (empty' ↔ empty)) :
    ((∃ call waits, pc = .space call waits) ∧ empty →
      ((∃ call waits, pc' = .space call waits) ∧ empty') ∧ pc'.inLoop = true) ∧
    (¬ ((∃ call waits, pc = .space call waits) ∧ empty) →
      ¬ ((∃ call waits, pc' = .space call waits) ∧ empty') ∧ pc'.inLoop = false) := by
  rcases h.space with ⟨⟨call, waits, hpc⟩, hempty, hspace', hloop⟩ | ⟨hnot, hpast, hloop⟩
  · exact ⟨fun hs => ⟨⟨hspace', (hload call waits hpc).mpr hs.2⟩, hloop⟩,
      fun hs => absurd ⟨⟨call, waits, hpc⟩, hempty⟩ hs⟩
  · exact ⟨fun hs => absurd hs hnot, fun _ => ⟨fun hs => hpast hs.1, hloop⟩⟩

theorem readerStep_space (h : readerStep r = some r') :
    (r.readerStarved = true → r'.readerStarved = true ∧ r'.reader.inLoop = true) ∧
      (r.readerStarved = false → r'.readerStarved = false ∧ r'.reader.inLoop = false) := by
  have haccess := readerStep_access h
  rw [← Bool.not_eq_true, ← Bool.not_eq_true, readerStarved_iff, readerStarved_iff]
  exact haccess.moves.starved fun call waits hpc => by rw [haccess.load call waits hpc]

theorem writerStep_space (h : writerStep r = some r') :
    (r.writerStarved = true → r'.writerStarved = true ∧ r'.writer.inLoop = true) ∧
      (r.writerStarved = false → r'.writerStarved = false ∧ r'.writer.inLoop = false) := by
  have haccess := writerStep_access h
  rw [← Bool.not_eq_true, ← Bool.not_eq_true, writerStarved_iff, writerStarved_iff]
  exact haccess.moves.starved fun call waits hpc => by rw [haccess.load call waits hpc]

end Access

/-! ### Only the peer can end the wait -/

@[simp] theorem Sides.afterRead_ring (s : Sides) (side : Side) (b : Bool) (ring : RingState) :
    (s.afterRead side b ring).ring = Function.update s.ring side.peer ring := by
  unfold Sides.afterRead
  dsimp only
  split <;> rfl

@[simp] theorem Sides.afterWrite_ring (s : Sides) (side : Side) (ring : RingState) :
    (s.afterWrite side ring).ring = Function.update s.ring side ring := by
  unfold Sides.afterWrite
  dsimp only
  split <;> rfl

theorem afterRead_gone (s : Sides) (side : Side) (b : Bool) (ring : RingState) :
    (s.afterRead side b ring).gone side = false := by
  unfold Sides.afterRead
  dsimp only
  split <;> simp [Sides.gone, Sides.goto, Sides.logRead, SidePc.gone]

theorem afterWrite_gone (s : Sides) (side : Side) (ring : RingState) :
    (s.afterWrite side ring).gone side = false := by
  unfold Sides.afterWrite
  dsimp only
  split <;> simp [Sides.gone, Sides.goto, Sides.logWrite, SidePc.gone]

theorem notWaiting (hr : (s.ring side.peer).reader = .idle) (hw : (s.ring side).writer = .idle) :
    s.starved side = false ∧ s.inLoop side = false := by
  simp [Sides.starved, Sides.inLoop, RingState.readerStarved, RingState.writerStarved,
    TransferPc.inLoop, hr, hw]

variable {capacity : Side → Nat}

/-- A step of a side whose peer has gone does not change what the side waits for, and ends
in the loop if and only if the side waits in vain. -/
theorem SidesInv.step_own (h : SidesInv capacity s) (hg : s.gone side.peer = true)
    (hs : sideStep s side = some t) :
    t.starved side = s.starved side ∧ t.inLoop side = s.starved side := by
  have hne : side ≠ side.peer := side.peer_ne.symm
  have outside : s.pc side ≠ .reading false → s.pc side ≠ .writing → t.ring = s.ring →
      t.starved side = s.starved side ∧ t.inLoop side = s.starved side := by
    intro hr hw hring
    obtain ⟨hr, hw⟩ := h.idle side hr hw
    have hs := notWaiting hr hw
    have ht := @notWaiting t side (by rw [hring]; exact hr) (by rw [hring]; exact hw)
    rw [hs.1]
    exact ht
  have hdied : s.gone side = false → connectionPeerDied s.segment = true :=
    fun hlive => (h.peerDied_eq side hlive).trans hg
  cases sideStep_cases hs with
  | readGone _ hpc | writeGone _ hpc | subtract hpc | destroy hpc | leave hpc =>
    exact outside (by rw [hpc]; simp) (by rw [hpc]; simp) rfl
  | readCall _ _ hpc hlink | writeCall _ _ hpc hlink =>
    rw [hdied (by rw [Sides.gone, hpc]; rfl)] at hlink
    cases hlink
  | readStep peerGone ring hpc hstep =>
    have hw := h.writer_idle side (by rw [hpc]; simp)
    obtain ⟨hin, hout⟩ := readerStep_space hstep
    simp only [Sides.starved, Sides.inLoop, Sides.afterRead_ring, Function.update_self,
      Function.update_of_ne hne, RingState.writerStarved, hw, TransferPc.inLoop, Bool.or_false]
    cases hv : (s.ring side.peer).readerStarved with
    | true => exact hin hv
    | false => exact hout hv
  | writeStep ring hpc hstep =>
    have hr := h.reader_idle side (by rw [hpc]; simp)
    obtain ⟨hin, hout⟩ := writerStep_space hstep
    simp only [Sides.starved, Sides.inLoop, Sides.afterWrite_ring, Function.update_self,
      Function.update_of_ne side.peer_ne, RingState.readerStarved, hr, TransferPc.inLoop,
      Bool.false_or]
    cases hv : (s.ring side).writerStarved with
    | true => exact hin hv
    | false => exact hout hv

theorem sideStep_gone (hg : s.gone side = true) (hs : sideStep s side = some t) :
    t.gone side = true ∧ t.ring = s.ring := by
  rw [Sides.gone] at hg
  cases sideStep_cases hs with
  | destroy | leave => simp [Sides.gone, Sides.goto, SidePc.gone]
  | readGone _ hpc | readCall _ _ hpc | readStep _ _ hpc | writeGone _ hpc | writeCall _ _ hpc
  | writeStep _ hpc | subtract hpc =>
    rw [hpc] at hg
    cases hg

theorem sideStep_live (hg : s.gone side = false) (hs : sideStep s side = some t) :
    t.gone side = false ∨ s.pc side = .subtract ∧ t.ring = s.ring := by
  cases sideStep_cases hs with
  | destroy hpc | leave hpc => rw [Sides.gone, hpc] at hg; cases hg
  | subtract hpc => exact .inr ⟨hpc, rfl⟩
  | readGone => simp [Sides.gone, Sides.goto, Sides.logRead, SidePc.gone]
  | writeGone => simp [Sides.gone, Sides.goto, Sides.logWrite, SidePc.gone]
  | readCall | readStep => exact .inl (afterRead_gone ..)
  | writeCall | writeStep => exact .inl (afterWrite_gone ..)

theorem sideStep_peer (hs : sideStep s side = some t) : t.pc side.peer = s.pc side.peer := by
  have hgoto : ∀ (u : Sides) pc, (u.goto side pc).pc side.peer = u.pc side.peer :=
    fun u pc => Function.update_of_ne side.peer_ne _ _
  have hread : ∀ b ring, (s.afterRead side b ring).pc side.peer = s.pc side.peer := by
    intro b ring
    unfold Sides.afterRead
    dsimp only
    split <;> exact hgoto _ _
  have hwrite : ∀ ring, (s.afterWrite side ring).pc side.peer = s.pc side.peer := by
    intro ring
    unfold Sides.afterWrite
    dsimp only
    split <;> exact hgoto _ _
  cases sideStep_cases hs with
  | readCall _ ring | readStep _ ring => exact hread _ ring
  | writeCall _ ring | writeStep ring => exact hwrite ring
  | readGone | writeGone | subtract | destroy | leave => exact hgoto _ _

theorem Sides.call_eq {b : Side} {pc : SidePc} (hpc : pc.gone = false)
    (hs : s.call b pc = some t) : t.ring = s.ring ∧ ∀ side, t.gone side = s.gone side := by
  unfold Sides.call at hs
  split at hs
  · rename_i hready
    obtain rfl := Option.some.inj hs
    refine ⟨rfl, ?_⟩
    intro side
    by_cases hb : side = b
    · subst hb
      show (Function.update s.pc side pc side).gone = (s.pc side).gone
      rw [Function.update_self, hready, hpc]
      rfl
    · simp [Sides.gone, Sides.goto, Function.update_of_ne hb]
  · cases hs

/-- After a side has gone its peer waits for the same as before, or has taken its own step. -/
theorem SidesInv.step_gone (h : SidesInv capacity s) (hg : s.gone side.peer = true)
    {a : SidesAction} (hs : sidesStep s a = some t) :
    t.gone side.peer = true ∧ t.starved side = s.starved side ∧
      (t.inLoop side = s.inLoop side ∨ t.inLoop side = s.starved side) := by
  have same : t.ring = s.ring → t.gone side.peer = s.gone side.peer →
      t.gone side.peer = true ∧ t.starved side = s.starved side ∧
        (t.inLoop side = s.inLoop side ∨ t.inLoop side = s.starved side) := by
    intro hring hgone
    refine ⟨hgone.trans hg, ?_, .inl ?_⟩
    · rw [Sides.starved, Sides.starved, hring]
    · rw [Sides.inLoop, Sides.inLoop, hring]
  cases a with
  | read b _ | write b _ | close b =>
    obtain ⟨hring, hgone⟩ := Sides.call_eq rfl hs
    exact same hring (hgone _)
  | step b =>
    rcases Side.eq_or_eq_peer b side with rfl | rfl
    · obtain ⟨hst, hloop⟩ := h.step_own hg hs
      refine ⟨?_, hst, .inr hloop⟩
      rw [Sides.gone, sideStep_peer hs]
      exact hg
    · obtain ⟨hgone, hring⟩ := sideStep_gone hg hs
      exact same hring (hgone.trans hg.symm)

theorem SidesInv.loop_step (h : SidesInv capacity s) (hl : s.inLoop side = true) :
    ∃ t, sideStep s side = some t := by
  have hside := h.side side
  rcases Bool.or_eq_true _ _ |>.mp hl with hl | hl
  · have hbusy : (s.ring side.peer).reader ≠ .idle := by
      intro hc
      rw [hc] at hl
      cases hl
    obtain ⟨ring, hring⟩ := Option.isSome_iff_exists.mp
      ((h.ring side.peer).readerStep_isSome hbusy)
    exact ⟨_, by simp only [sideStep, hside.reader hbusy, hring, Option.map_some]; rfl⟩
  · have hbusy : (s.ring side).writer ≠ .idle := by
      intro hc
      rw [hc] at hl
      cases hl
    obtain ⟨ring, hring⟩ := Option.isSome_iff_exists.mp ((h.ring side).writerStep_isSome hbusy)
    exact ⟨_, by simp only [sideStep, hside.writer hbusy, hring, Option.map_some]; rfl⟩

/-- **The stranded sides** are those in the loop whose peer has gone and left nothing. -/
theorem SidesInv.stranded_iff (h : SidesInv capacity s) :
    Stranded s side ↔
      s.inLoop side = true ∧ s.gone side.peer = true ∧ s.starved side = true := by
  constructor
  · rintro ⟨hl, hg, hall⟩
    refine ⟨hl, hg, ?_⟩
    obtain ⟨t, ht⟩ := h.loop_step hl
    rw [← (h.step_own hg ht).2]
    exact hall t (.single (a := .step side) ht)
  · rintro ⟨hl, hg, hst⟩
    refine ⟨hl, hg, ?_⟩
    intro t ht
    have hkeep : SidesInv capacity t ∧ t.gone side.peer = true ∧ t.starved side = true ∧
        t.inLoop side = true :=
      ht.induct (I := fun u => SidesInv capacity u ∧ u.gone side.peer = true ∧
          u.starved side = true ∧ u.inLoop side = true)
        (by
          rintro u a v ⟨hu, hgu, hsu, hlu⟩ hv
          obtain ⟨hgv, hsv, hlv⟩ := hu.step_gone hgu hv
          refine ⟨hu.sidesStep_inv hv, hgv, hsv.trans hsu, ?_⟩
          rcases hlv with hlv | hlv
          · exact hlv.trans hlu
          · exact hlv.trans hsu)
        ⟨h, hg, hst, hl⟩
    exact hkeep.2.2.2

theorem SidesInv.noneStarved_step (h : SidesInv capacity s)
    (hn : ∀ side, s.gone side.peer = true → s.starved side = false) {a : SidesAction}
    (hc : NoneStarved s a) (hs : sidesStep s a = some t) :
    ∀ side, t.gone side.peer = true → t.starved side = false := by
  intro side hg
  by_cases hgone : s.gone side.peer = true
  · rw [(h.step_gone hgone hs).2.1]
    exact hn side hgone
  · rw [Bool.not_eq_true] at hgone
    cases a with
    | read b _ | write b _ | close b =>
      rw [(Sides.call_eq rfl hs).2, hgone] at hg
      cases hg
    | step b =>
      rcases Side.eq_or_eq_peer b side with rfl | rfl
      · rw [Sides.gone, sideStep_peer hs] at hg
        exact absurd hg (by rw [← Sides.gone, hgone]; simp)
      · rcases sideStep_live hgone hs with hlive | ⟨hpc, hring⟩
        · rw [hlive] at hg
          cases hg
        · have := hc hpc
          rw [Side.peer_peer] at this
          rwa [Sides.starved, hring]

/-- **No side is stranded in a run whose decrements leave no side waiting.** -/
theorem never_stranded (hc : ∀ side, 1 ≤ (buffer side).capacity)
    (hb : ∀ side, (buffer side).capacity ≤ 2 ^ 31 - 1) {actions : List SidesAction}
    (hm : Run.Meets sidesStep NoneStarved (.init buffer) actions)
    (ht : Run.Visits sidesStep (.init buffer) actions t) : ¬ Stranded t side := by
  have hkeep : SidesInv (fun side => (buffer side).capacity) t ∧
      ∀ side, t.gone side.peer = true → t.starved side = false :=
    Run.visits_induct
      (I := fun u => SidesInv (fun side => (buffer side).capacity) u ∧
        ∀ side, u.gone side.peer = true → u.starved side = false)
      (fun u a v hu hca hv => ⟨hu.1.sidesStep_inv hv, hu.1.noneStarved_step hu.2 hca hv⟩)
      ⟨sidesInv_init hc hb, fun side hg => by cases hg⟩ hm ht
  rw [hkeep.1.stranded_iff]
  rintro ⟨-, hg, hst⟩
  rw [hkeep.2 side hg] at hst
  cases hst

/-- A hang-up with nobody waiting. -/
theorem never_stranded_at :
    ∃ s, Run.run sidesStep (.init fun _ => .fresh (fun _ => 0) 2 ⟨fun _ => false⟩)
        closeBeforeRead = some s ∧ ¬ Stranded s .server := by
  have hrun : ∃ s, Run.run sidesStep (.init fun _ => .fresh (fun _ => 0) 2 ⟨fun _ => false⟩)
      closeBeforeRead = some s := ⟨_, rfl⟩
  obtain ⟨s, hs⟩ := hrun
  exact ⟨s, hs, never_stranded (fun _ => by decide) (fun _ => by decide) (by decide)
    (Run.visits_self hs)⟩

/-- **A read is stranded**: the server has passed its check when the client closes. -/
theorem read_stranded :
    ∃ s, Run.Reaches sidesStep (.init fun _ => .fresh (fun _ => 0) 2 ⟨fun _ => false⟩) s ∧
      Stranded s .server := by
  have hrun : ∃ s, Run.run sidesStep (.init fun _ => .fresh (fun _ => 0) 2 ⟨fun _ => false⟩)
      [.read .server 1, .step .server, .step .server, .close .client, .step .client,
        .step .client] = some s ∧
      s.inLoop .server = true ∧ s.gone .client = true ∧ s.starved .server = true :=
    ⟨_, rfl, by decide⟩
  obtain ⟨s, hs, hst⟩ := hrun
  have hinv := @sidesInv_reaches (fun _ => .fresh (fun _ => 0) 2 ⟨fun _ => false⟩) s
    (fun _ => by decide) (fun _ => by decide) ⟨_, hs⟩
  exact ⟨s, ⟨_, hs⟩, hinv.stranded_iff.mpr hst⟩

end Tssx
