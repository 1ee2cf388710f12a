import Tssx.Connection
import Tssx.Lib.Parties
import Tssx.Lib.Run

/-!
# `disconnect` by several processes at once

Every process that holds the connection runs `disconnect`: the atomic decrement, the load
of `open_count`, `shmdt` and, for the processes that loaded `0`, `IPC_RMID`.  Each is a step
of its own.  A process that removes the segment a second time calls `throw`.

The process that makes the last decrement loads `0`.  So does every other one whose load
is still to come at that moment, which is the whole difference between one removal and
several: `claimants` counts the processes that have loaded `0` or will, and a step changes
it only if it is the last decrement.
-/

namespace Tssx

/-- The next step of `disconnect`. -/
inductive DisconnectPc
  | subtract
  | test
  | detach (destroy : Bool)
  | remove
  | returned
  | thrown
  deriving DecidableEq

/-- A process that holds the connection, with the `shmdt` and `IPC_RMID` calls it has made. -/
structure Holder where
  pc : DisconnectPc := .subtract
  detaches : Nat := 0
  destroys : Nat := 0
  deriving DecidableEq

structure Holders where
  segment : Segment
  holders : List Holder
  deriving DecidableEq

def holderStep (segment : Segment) (holder : Holder) : Option (Segment × Holder) :=
  match holder.pc with
  | .subtract => some (segment.fetchSub, { holder with pc := .test })
  | .test => some (segment, { holder with pc := .detach (segment.openCount == 0) })
  | .detach destroy =>
    some (segment,
      { holder with
        pc := if destroy then .remove else .returned
        detaches := holder.detaches + 1 })
  | .remove =>
    some ({ segment with removed := true },
      { holder with
        pc := if segment.removed then .thrown else .returned
        destroys := holder.destroys + 1 })
  | .returned | .thrown => none

/-- The next step of process `i`. -/
def holdersStep (s : Holders) (i : Nat) : Option Holders :=
  s.holders[i]?.bind fun holder =>
    (holderStep s.segment holder).map fun (segment, holder) =>
      { segment, holders := s.holders.set i holder }

/-- `k` processes hold the connection. -/
def Holders.init (k : Nat) : Holders :=
  { segment := { openCount := k }, holders := List.replicate k {} }

def Holder.done (holder : Holder) : Prop := holder.pc = .returned ∨ holder.pc = .thrown

/-- One `IPC_RMID` in all, and one `shmdt` by each process. -/
def ExactlyOnce (s : Holders) : Prop :=
  (s.holders.map Holder.destroys).sum = 1 ∧ ∀ holder ∈ s.holders, holder.detaches = 1

/-- If the step is the last decrement, no process is between its decrement and its load. -/
def LastAlone (s : Holders) (i : Nat) : Prop :=
  s.holders[i]?.map Holder.pc = some .subtract → s.segment.openCount = 1 →
    ∀ holder ∈ s.holders, holder.pc ≠ .test

instance (s : Holders) (i : Nat) : Decidable (LastAlone s i) :=
  inferInstanceAs (Decidable (_ → _ → _))

/-! ### A process alone -/

/-- The steps of a process that nobody interferes with are the function `disconnect`. -/
theorem disconnect_alone {s : Holders} {i : Nat} {segment : Segment}
    (hi : s.holders[i]? = some {}) (h : disconnect s.segment = some segment) :
    ∃ n holder, Run.run holdersStep s (List.replicate n i) =
      some { segment, holders := s.holders.set i holder } ∧ holder.pc = .returned := by
  have hlt : i < s.holders.length := (List.getElem?_eq_some_iff.mp hi).1
  have hget : ∀ holder, (s.holders.set i holder)[i]? = some holder := by
    intro holder
    rw [List.getElem?_set_self hlt]
  by_cases hz : s.segment.fetchSub.openCount = 0
  · rw [disconnect, if_pos hz, destroyConnection, destroySegment] at h
    split at h
    · cases h
    · rename_i hr
      obtain rfl := Option.some.inj h
      have hr' : s.segment.fetchSub.removed = false := by simpa [detachConnection] using hr
      refine ⟨4, { pc := .returned, detaches := 1, destroys := 1 }, ?_, rfl⟩
      simp [Run.run, List.replicate, holdersStep, holderStep, hi, hget, hz, hr', detachConnection]
  · rw [disconnect, if_neg hz] at h
    obtain rfl := Option.some.inj h
    refine ⟨3, { pc := .returned, detaches := 1 }, ?_, rfl⟩
    simp [Run.run, List.replicate, holdersStep, holderStep, hi, hget, hz, detachConnection]

/-! ### The invariant -/

def Holder.subtracting (holder : Holder) : Bool := holder.pc = .subtract

def Holder.testing (holder : Holder) : Bool := holder.pc = .test

/-- The process has loaded `0`. -/
def Holder.destroying (holder : Holder) : Bool :=
  holder.pc = .detach true ∨ holder.pc = .remove ∨ 0 < holder.destroys

/-- The processes that have loaded `0` or will. -/
def claimants (s : Holders) : Nat :=
  s.holders.countP Holder.destroying +
    if s.segment.openCount = 0 then s.holders.countP Holder.testing else 0

/-- The calls that a process has made at its next step. -/
def Holder.Ok (holder : Holder) : Prop :=
  match holder.pc with
  | .subtract | .test | .detach _ => holder.detaches = 0 ∧ holder.destroys = 0
  | .remove => holder.detaches = 1 ∧ holder.destroys = 0
  | .returned | .thrown => holder.detaches = 1 ∧ holder.destroys ≤ 1

structure HoldersInv (s : Holders) : Prop where
  ok : ∀ holder ∈ s.holders, holder.Ok
  count : s.segment.openCount = s.holders.countP Holder.subtracting
  early : s.segment.openCount ≠ 0 → s.holders.countP Holder.destroying = 0
  late : s.segment.openCount = 0 → 1 ≤ claimants s

theorem holdersInv_init {k : Nat} (hk : 1 ≤ k) : HoldersInv (.init k) where
  ok := by
    intro holder hh
    obtain rfl := List.eq_of_mem_replicate hh
    exact ⟨rfl, rfl⟩
  count := by simp [Holders.init, List.countP_replicate, Holder.subtracting]
  early := fun _ => by simp [Holders.init, List.countP_replicate, Holder.destroying]
  late := fun h => by simp only [Holders.init] at h; omega

variable {s t : Holders} {i : Nat}

theorem holdersStep_eq (h : holdersStep s i = some t) :
    ∃ holder segment holder', s.holders[i]? = some holder ∧
      holderStep s.segment holder = some (segment, holder') ∧
      t = { segment, holders := s.holders.set i holder' } := by
  obtain ⟨holder, hi, h⟩ := Option.bind_eq_some_iff.mp h
  obtain ⟨⟨segment, holder'⟩, hstep, rfl⟩ := Option.map_eq_some_iff.mp h
  exact ⟨holder, segment, holder', hi, hstep, rfl⟩

theorem claimants_of_ne {s : Holders} (h : s.segment.openCount ≠ 0) :
    claimants s = s.holders.countP Holder.destroying := by
  rw [claimants, if_neg h, Nat.add_zero]

theorem claimants_of_eq {s : Holders} (h : s.segment.openCount = 0) :
    claimants s = s.holders.countP Holder.destroying + s.holders.countP Holder.testing := by
  rw [claimants, if_pos h]

theorem Holder.Ok.destroying_eq {holder : Holder} (h : holder.Ok) :
    (holder.pc = .subtract ∨ holder.pc = .test → holder.destroying = false) ∧
      ∀ destroy, holder.pc = .detach destroy → holder.destroying = destroy := by
  obtain ⟨pc, detaches, destroys⟩ := holder
  constructor
  · rintro (rfl | rfl) <;> obtain ⟨-, rfl⟩ := h <;> rfl
  · rintro destroy rfl
    obtain ⟨-, rfl⟩ := h
    cases destroy <;> rfl

/-- What a step changes besides the stage of its own process: the decrement makes a testing
process out of a subtracting one, and the load a destroying one if it finds `0`. -/
theorem holderStep_counts {holder holder' : Holder} {segment segment' : Segment}
    (hok : holder.Ok) (h : holderStep segment holder = some (segment', holder')) :
    holder'.Ok ∧
      ((holder.pc = .subtract ∧ holder'.pc = .test ∧ segment' = segment.fetchSub) ∨
        (holder.pc = .test ∧ holder'.pc = .detach (segment.openCount == 0) ∧ segment' = segment) ∨
        (holder.subtracting = false ∧ holder'.subtracting = false ∧ holder.testing = false ∧
          holder'.testing = false ∧ holder'.destroying = holder.destroying ∧
          segment'.openCount = segment.openCount)) := by
  obtain ⟨pc, detaches, destroys⟩ := holder
  cases pc with
  | subtract =>
    obtain ⟨rfl, rfl⟩ := Prod.mk.inj (Option.some.inj h)
    exact ⟨hok, .inl ⟨rfl, rfl, rfl⟩⟩
  | test =>
    obtain ⟨rfl, rfl⟩ := Prod.mk.inj (Option.some.inj h)
    exact ⟨hok, .inr (.inl ⟨rfl, rfl, rfl⟩)⟩
  | detach destroy =>
    obtain ⟨rfl, rfl⟩ := Prod.mk.inj (Option.some.inj h)
    obtain ⟨rfl, rfl⟩ := hok
    cases destroy with
    | true => exact ⟨⟨rfl, rfl⟩, .inr (.inr ⟨rfl, rfl, rfl, rfl, rfl, rfl⟩)⟩
    | false => exact ⟨⟨rfl, Nat.zero_le 1⟩, .inr (.inr ⟨rfl, rfl, rfl, rfl, rfl, rfl⟩)⟩
  | remove =>
    obtain ⟨rfl, rfl⟩ := Prod.mk.inj (Option.some.inj h)
    obtain ⟨rfl, rfl⟩ := hok
    cases hr : segment.removed with
    | true => exact ⟨⟨rfl, Nat.le_refl 1⟩, .inr (.inr ⟨rfl, rfl, rfl, rfl, rfl, rfl⟩)⟩
    | false => exact ⟨⟨rfl, Nat.le_refl 1⟩, .inr (.inr ⟨rfl, rfl, rfl, rfl, rfl, rfl⟩)⟩
  | returned | thrown => cases h

/-- **The claimants change at the last decrement only**, to the process that makes it and
those whose load is still to come. -/
theorem claimants_step (hs : HoldersInv s) (h : holdersStep s i = some t) :
    HoldersInv t ∧
      ((claimants t = claimants s ∧ LastAlone s i) ∨
        (s.holders[i]?.map Holder.pc = some .subtract ∧ s.segment.openCount = 1 ∧
          claimants t = s.holders.countP Holder.testing + 1)) := by
  obtain ⟨holder, segment, holder', hi, hstep, rfl⟩ := holdersStep_eq h
  have hok := hs.ok holder (List.mem_of_getElem? hi)
  obtain ⟨hok', hcases⟩ := holderStep_counts hok hstep
  have hall := Parties.forall_mem_set (i := i) hs.ok hok'
  have hsub := @Parties.countP_set _ _ _ _ holder' Holder.subtracting hi
  have htest := @Parties.countP_set _ _ _ _ holder' Holder.testing hi
  have hdest := @Parties.countP_set _ _ _ _ holder' Holder.destroying hi
  have hcount := hs.count
  rcases hcases with ⟨hpc, hpc', rfl⟩ | ⟨hpc, hpc', rfl⟩ | ⟨h1, h2, h3, h4, h5, h6⟩
  · have hd := hok.destroying_eq.1 (.inl hpc)
    have hd' := hok'.destroying_eq.1 (.inr hpc')
    simp only [Holder.subtracting, Holder.testing, hpc, hpc', hd, hd'] at hsub htest hdest
    simp only [reduceCtorEq, decide_true, decide_false, if_true, Bool.false_eq_true, if_false,
      Nat.add_zero] at hsub htest hdest
    have hlast : s.segment.openCount ≠ 0 := by omega
    have hnone := hs.early hlast
    have hopen : s.segment.fetchSub.openCount = s.segment.openCount - 1 := rfl
    by_cases hone : s.segment.openCount = 1
    · have hzero : s.segment.fetchSub.openCount = 0 := by omega
      have hclaim :
          claimants { segment := s.segment.fetchSub, holders := s.holders.set i holder' } =
            s.holders.countP Holder.testing + 1 := by
        rw [claimants_of_eq hzero, hdest, hnone, htest, Nat.zero_add]
      refine ⟨⟨hall, ?_, fun hne => absurd hzero hne, fun _ => by omega⟩, .inr ⟨?_, hone, hclaim⟩⟩
      · show s.segment.fetchSub.openCount = ((s.holders.set i holder').countP _ : Nat)
        omega
      · rw [hi, Option.map_some, hpc]
    · have hpos : s.segment.fetchSub.openCount ≠ 0 := by omega
      refine ⟨⟨hall, ?_, fun _ => hdest.trans hnone, fun he => absurd he hpos⟩, .inl ⟨?_, ?_⟩⟩
      · show s.segment.fetchSub.openCount = ((s.holders.set i holder').countP _ : Nat)
        omega
      · rw [claimants_of_ne hpos, claimants_of_ne hlast, hdest]
      · exact fun _ he => absurd he hone
  · have hd := hok.destroying_eq.1 (.inr hpc)
    have hd' := hok'.destroying_eq.2 _ hpc'
    have hnot : LastAlone s i := fun he => by rw [hi, Option.map_some, hpc] at he; cases he
    simp only [Holder.subtracting, Holder.testing, hpc, hpc', hd, hd'] at hsub htest hdest
    simp only [reduceCtorEq, decide_true, decide_false, if_true, Bool.false_eq_true, if_false,
      Nat.add_zero, beq_iff_eq] at hsub htest hdest
    by_cases hzero : s.segment.openCount = 0
    · rw [if_pos hzero] at hdest
      have hclaim : claimants { segment := s.segment, holders := s.holders.set i holder' } =
          claimants s := by
        refine Eq.trans (claimants_of_eq hzero) ?_
        rw [claimants_of_eq hzero]
        show List.countP _ (s.holders.set i holder') + List.countP _ (s.holders.set i holder') = _
        omega
      refine ⟨⟨hall, by rw [hsub]; exact hcount, fun hne => absurd hzero hne, fun _ => ?_⟩,
        .inl ⟨hclaim, hnot⟩⟩
      rw [hclaim]
      exact hs.late hzero
    · rw [if_neg hzero] at hdest
      refine ⟨⟨hall, by rw [hsub]; exact hcount, ?_, fun he => absurd he hzero⟩,
        .inl ⟨?_, hnot⟩⟩
      · intro _
        exact hdest.trans (hs.early hzero)
      · refine Eq.trans (claimants_of_ne hzero) ?_
        rw [claimants_of_ne hzero]
        exact hdest
  · have hnot : LastAlone s i := by
      intro he
      rw [hi, Option.map_some, Option.some.injEq] at he
      simp [Holder.subtracting, he] at h1
    simp only [h1, h2, h3, h4, h5, Bool.false_eq_true, if_false, Nat.add_zero] at hsub htest hdest
    have hdest' := Nat.add_right_cancel hdest
    have hclaim : claimants { segment, holders := s.holders.set i holder' } = claimants s := by
      simp only [claimants, h6, htest, hdest']
    refine ⟨⟨hall, ?_, ?_, ?_⟩, .inl ⟨hclaim, hnot⟩⟩
    · rw [hsub, h6]
      exact hcount
    · intro hne
      rw [hdest']
      exact hs.early (h6 ▸ hne)
    · intro he
      rw [hclaim]
      exact hs.late (h6 ▸ he)

/-! ### Whole runs -/

theorem claimants_le_iff (hs : HoldersInv s) (hle : claimants s ≤ 1)
    (h : holdersStep s i = some t) : claimants t ≤ 1 ↔ LastAlone s i := by
  rcases (claimants_step hs h).2 with ⟨he, hl⟩ | ⟨hp, hone, he⟩
  · rw [he]
    exact iff_of_true hle hl
  · rw [he]
    have hzero : s.holders.countP Holder.testing + 1 ≤ 1 ↔
        s.holders.countP Holder.testing = 0 := by omega
    rw [hzero, Parties.countP_eq_zero_iff]
    constructor
    · intro hall _ _ holder hh hpc
      have := hall holder hh
      simp [Holder.testing, hpc] at this
    · intro hl holder hh
      simpa [Holder.testing] using hl hp hone holder hh

theorem claimants_mono (hs : HoldersInv s) (h : holdersStep s i = some t) :
    claimants s ≤ claimants t := by
  rcases (claimants_step hs h).2 with ⟨he, -⟩ | ⟨hp, hone, he⟩
  · exact Nat.le_of_eq he.symm
  · have hne : s.segment.openCount ≠ 0 := by omega
    rw [claimants_of_ne hne, hs.early hne]
    exact Nat.zero_le _

/-- At the end of a run the claimants are the processes that executed `destroy_segment`. -/
theorem HoldersInv.exactlyOnce_iff (hs : HoldersInv s) (hd : ∀ holder ∈ s.holders, holder.done) :
    ExactlyOnce s ↔ claimants s ≤ 1 := by
  have hidle : ∀ p : Holder → Bool, (∀ holder, holder.done → p holder = false) →
      s.holders.countP p = 0 := fun p hp =>
    Parties.countP_eq_zero_iff.mpr fun holder hh => hp holder (hd holder hh)
  have hsub : s.holders.countP Holder.subtracting = 0 := by
    apply hidle _
    intro holder hdone
    rcases hdone with hpc | hpc <;> simp [Holder.subtracting, hpc]
  have htest : s.holders.countP Holder.testing = 0 := by
    apply hidle _
    intro holder hdone
    rcases hdone with hpc | hpc <;> simp [Holder.testing, hpc]
  have hzero : s.segment.openCount = 0 := by rw [hs.count, hsub]; rfl
  have hsum : (s.holders.map Holder.destroys).sum = s.holders.countP Holder.destroying := by
    apply Parties.sum_map_eq_countP
    intro holder hh
    have hok := hs.ok holder hh
    have hle : holder.destroys ≤ 1 := by
      rcases hd holder hh with hpc | hpc <;> simp only [Holder.Ok, hpc] at hok <;> exact hok.2
    have hpos : holder.destroying = decide (0 < holder.destroys) := by
      rcases hd holder hh with hpc | hpc <;> simp [Holder.destroying, hpc]
    by_cases h0 : 0 < holder.destroys
    · rw [hpos, decide_eq_true h0, if_pos rfl]
      omega
    · rw [hpos, decide_eq_false h0, if_neg Bool.false_ne_true]
      omega
  have hdetach : ∀ holder ∈ s.holders, holder.detaches = 1 := by
    intro holder hh
    have hok := hs.ok holder hh
    rcases hd holder hh with hpc | hpc <;> simp only [Holder.Ok, hpc] at hok <;> exact hok.1
  have hlate := hs.late hzero
  rw [claimants_of_eq hzero, htest] at hlate ⊢
  rw [ExactlyOnce, hsum]
  constructor
  · rintro ⟨he, -⟩
    omega
  · intro hle
    exact ⟨by omega, hdetach⟩

/-- **The segment is destroyed exactly once** in precisely those runs in which, when a
process makes the last decrement, no other one is between its decrement and its load. -/
theorem destroyed_once_iff {k : Nat} (hk : 1 ≤ k) {actions : List Nat}
    (h : Run.run holdersStep (.init k) actions = some s)
    (hd : ∀ holder ∈ s.holders, holder.done) :
    ExactlyOnce s ↔ Run.Meets holdersStep LastAlone (.init k) actions := by
  have hinv : ∀ s i t, HoldersInv s → holdersStep s i = some t → HoldersInv t :=
    fun s i t hs ht => (claimants_step hs ht).1
  have hinit := holdersInv_init hk
  have hstart : claimants (.init k) ≤ 1 := by
    have hne : (Holders.init k).segment.openCount ≠ 0 := by
      show (k : Int) ≠ 0
      omega
    rw [claimants_of_ne hne, hinit.early hne]
    exact Nat.zero_le 1
  rw [(Run.run_induct hinv hinit h).exactlyOnce_iff hd,
    ← Run.visits_iff_meets (fun s i t hs _ ht => hinv s i t hs ht)
      (fun s i t hs hle ht => claimants_le_iff hs hle ht) hinit hstart (by rw [h]; rfl)]
  -- the claimants never become fewer
  exact (Run.visits_iff_last hinv
    (fun s i t hs ht hle => Nat.le_trans (claimants_mono hs ht) hle) hinit h).symm

/-- Three processes one after the other. -/
theorem destroyed_once_iff_at :
    ∃ s, Run.run holdersStep (.init 3) [1, 1, 1, 0, 0, 0, 2, 2, 2, 2] = some s ∧
      (ExactlyOnce s ↔
        Run.Meets holdersStep LastAlone (.init 3) [1, 1, 1, 0, 0, 0, 2, 2, 2, 2]) := by
  have hrun : ∃ s, Run.run holdersStep (.init 3) [1, 1, 1, 0, 0, 0, 2, 2, 2, 2] = some s ∧
      ∀ holder ∈ s.holders, holder.pc = .returned := ⟨_, rfl, by decide⟩
  obtain ⟨s, hs, hd⟩ := hrun
  exact ⟨s, hs, destroyed_once_iff (by decide) hs fun holder hh => .inl (hd holder hh)⟩

/-- **Two processes destroy one segment**: both decrements come before both loads, and the
second `IPC_RMID` ends its process. -/
theorem destroyed_twice :
    ∃ s, Run.run holdersStep (.init 2) [0, 1, 0, 1, 0, 1, 0, 1] = some s ∧
      (∀ holder ∈ s.holders, holder.done) ∧ ¬ ExactlyOnce s ∧
      s.holders[1]?.map Holder.pc = some .thrown := by
  refine ⟨_, rfl, ?_, ?_, rfl⟩
  · intro holder hh
    have : ∀ holder ∈ [Holder.mk .returned 1 1, .mk .thrown 1 1],
        holder.pc = .returned ∨ holder.pc = .thrown := by decide
    exact this holder hh
  · rintro ⟨he, -⟩
    revert he
    decide

end Tssx
