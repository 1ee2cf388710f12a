import Mathlib.Data.Finset.Card
import Tssx.Bridge.Bookkeeping
import Tssx.Epoll.Lifetime

/-!
# The interest list of the kernel

Calls of `epoll_ctl` for descriptors without a connection, which go on to `real_epoll_ctl`.  The
kernel keeps a list of the descriptors registered with an epoll instance; `normal_count` should be
its length.  `_epoll_normal_control_operation` counts before the real call and does not look at its
result.  `interest_mirrored_iff`: the count is right throughout exactly those sequences of calls
in which the kernel accepts every `EPOLL_CTL_ADD` and `EPOLL_CTL_DEL`, and all descriptors have a
place in the session table.
-/

namespace Tssx

/-! ### The kernel -/

inductive KernelError
  | EBADF
  | EEXIST
  | EINVAL
  | ENOENT
  | EPERM
  deriving DecidableEq

/-- A call of `epoll_ctl`, with the error of the kernel for a descriptor that it refuses, whatever
is registered. -/
structure InterestCall where
  operation : CInt
  fd : CInt
  event : EpollEvent
  refusal : Option KernelError

/-- `epoll_ctl` of the kernel: its error, if it fails, and the descriptors registered after it. -/
def kernelEpollCtl (interest : Finset Int) (call : InterestCall) :
    Option KernelError × Finset Int :=
  if call.fd.val < 0 then (some .EBADF, interest)
  else
    match call.refusal with
    | some error => (some error, interest)
    | none =>
      if call.operation = EPOLL_CTL_ADD then
        if call.fd.val ∈ interest then (some .EEXIST, interest)
        else (none, insert call.fd.val interest)
      else if call.operation = EPOLL_CTL_DEL then
        if call.fd.val ∈ interest then (none, interest.erase call.fd) else (some .ENOENT, interest)
      else if call.operation = EPOLL_CTL_MOD then
        if call.fd.val ∈ interest then (none, interest) else (some .ENOENT, interest)
      else (some .EINVAL, interest)

/-- What `real_epoll_ctl` returns. -/
def kernelResult : Option KernelError → Int
  | none => SUCCESS
  | some _ => ERROR

/-! ### The override -/

/-- Each call returns what the real one does, and leaves in `normal_count` the number of
descriptors registered with the kernel. -/
def Mirrored (epfd : Int) : Tables → Finset Int → List InterestCall → Prop
  | _, _, [] => True
  | s, interest, call :: rest =>
    let (error, interest) := kernelEpollCtl interest call
    ∃ s', epollCtl true (kernelResult error) s epfd call.operation call.fd call.event =
        some (kernelResult error, s') ∧
      (s'.epolls epfd.toNat).normalCount = interest.card ∧ Mirrored epfd s' interest rest

/-- A descriptor with a place in the session table, which the kernel adds or removes if it is
asked to.  Negative descriptors are not looked at. -/
def Mirrorable (interest : Finset Int) (call : InterestCall) : Prop :=
  0 ≤ call.fd.val →
    call.fd.val < SESSION_TABLE_SIZE ∧
      (call.operation = EPOLL_CTL_ADD ∨ call.operation = EPOLL_CTL_DEL →
        (kernelEpollCtl interest call).1 = none)

instance (interest : Finset Int) (call : InterestCall) : Decidable (Mirrorable interest call) :=
  inferInstanceAs (Decidable (_ → _ ∧ (_ ∨ _ → _)))

variable {s : Tables} {epfd : Int} {interest : Finset Int} {call : InterestCall}

/-! ### One call -/

theorem bridgeLookup_normal (hb : s.bridge.SetUp) (hfd : 0 ≤ call.fd.val)
    (hc : s.connection call.fd = none) :
    ∃ bridge, bridge.SetUp ∧ bridge.sessionTable = s.bridge.sessionTable ∧
      bridgeLookup s.bridge call.fd =
        if call.fd.val < SESSION_TABLE_SIZE then some (bridge, {}) else none := by
  obtain ⟨bridge, hset, htable, hl⟩ := bridgeLookup_eq hb
  have hmax := call.fd.2.2
  have hsize : sizeT call.fd = call.fd.val.toNat := sizeT_eq (by omega) (by omega)
  have hlen := s.bridge.sessionTable.size
  refine ⟨bridge, hset, htable, ?_⟩
  rw [Tables.connection, hsize] at hc
  rw [hl, hsize]
  by_cases hlt : call.fd.val < SESSION_TABLE_SIZE
  · have hi : call.fd.val.toNat < s.bridge.sessionTable.sessions.length := by omega
    rw [List.getElem?_eq_getElem hi, Option.bind_some] at hc
    have hempty : s.bridge.sessionTable.sessions[call.fd.val.toNat] = {} := by
      generalize s.bridge.sessionTable.sessions[call.fd.val.toNat] = session at hc
      obtain ⟨connection⟩ := session
      exact congrArg Session.mk hc
    rw [if_pos hlt, List.getElem?_eq_getElem hi, hempty]
    rfl
  · have hi : s.bridge.sessionTable.sessions.length ≤ call.fd.val.toNat := by omega
    rw [if_neg hlt, List.getElem?_eq_none hi]
    rfl

/-- **One call of the override**, for a descriptor without a connection. -/
theorem epollCtl_normal (hb : s.bridge.SetUp) (hv : 0 ≤ epfd ∧ epfd < NUMBER_OF_EPOLL_INSTANCES)
    (hfd : 0 ≤ call.fd.val) (hc : s.connection call.fd = none) (real : Int) :
    ∃ bridge, bridge.SetUp ∧ bridge.sessionTable = s.bridge.sessionTable ∧
      epollCtl true real s epfd call.operation call.fd call.event =
        if call.fd.val < SESSION_TABLE_SIZE then
          (epollNormalControlOperation real (s.epolls epfd.toNat) call.operation).map
            fun (code, epoll) =>
              (code, { s with bridge, epolls := Function.update s.epolls epfd.toNat epoll })
        else none := by
  obtain ⟨bridge, hset, htable, hl⟩ := bridgeLookup_normal hb hfd hc
  refine ⟨bridge, hset, htable, ?_⟩
  rw [epollCtl, if_neg (by omega), hl]
  by_cases hlt : call.fd.val < SESSION_TABLE_SIZE
  · simp only [if_pos hlt, Option.bind_some, if_pos hv]
  · rw [if_neg hlt, if_neg hlt]
    rfl

theorem kernelEpollCtl_card :
    ((kernelEpollCtl interest call).1 ≠ none →
      (kernelEpollCtl interest call).2.card = interest.card) ∧
    ((kernelEpollCtl interest call).1 = none →
      (kernelEpollCtl interest call).2.card + (if call.operation = EPOLL_CTL_DEL then 1 else 0) =
        interest.card + (if call.operation = EPOLL_CTL_ADD then 1 else 0)) := by
  have hneq : EPOLL_CTL_ADD ≠ EPOLL_CTL_DEL := by decide
  unfold kernelEpollCtl
  split
  · simp
  · split
    · simp
    · split
      · rename_i hadd
        split
        · simp
        · rename_i hm
          simp [hadd, hneq, Finset.card_insert_of_notMem hm]
      · split
        · rename_i hadd hdel
          split
          · rename_i hm
            have := Finset.card_pos.mpr ⟨_, hm⟩
            simp only [ne_eq, not_true_eq_false, false_implies, true_and, true_implies,
              Finset.card_erase_of_mem hm]
            omega
          · simp
        · rename_i hadd hdel
          split
          · split <;> simp
          · simp

/-- **The count after a call** is right exactly if the kernel accepts what is counted. -/
theorem normal_mirrored_iff {epoll : EpollInstance} (hcount : epoll.normalCount = interest.card) :
    (∃ epoll', epollNormalControlOperation (kernelResult (kernelEpollCtl interest call).1) epoll
        call.operation = some (kernelResult (kernelEpollCtl interest call).1, epoll') ∧
      epoll'.normalCount = (kernelEpollCtl interest call).2.card) ↔
    (call.operation = EPOLL_CTL_ADD ∨ call.operation = EPOLL_CTL_DEL →
      (kernelEpollCtl interest call).1 = none) := by
  have hneq : EPOLL_CTL_ADD ≠ EPOLL_CTL_DEL := by decide
  obtain ⟨hrefused, haccepted⟩ := @kernelEpollCtl_card interest call
  generalize (kernelEpollCtl interest call).1 = error at hrefused haccepted ⊢
  generalize (kernelEpollCtl interest call).2.card = card at hrefused haccepted ⊢
  unfold epollNormalControlOperation
  by_cases hadd : (call.operation : Int) = EPOLL_CTL_ADD
  · simp only [hadd, hneq, if_true, if_false, Option.some.injEq, Prod.mk.injEq, true_and,
      exists_eq_left', true_or, true_implies, hcount] at haccepted ⊢
    refine ⟨fun hc => ?_, fun he => (haccepted he).symm⟩
    by_contra he
    have := hrefused he
    omega
  · rw [if_neg hadd] at haccepted ⊢
    by_cases hdel : (call.operation : Int) = EPOLL_CTL_DEL
    · rw [if_pos hdel] at haccepted
      rw [if_pos hdel, hcount]
      simp only [hdel, or_true, true_implies]
      by_cases h0 : interest.card = 0
      · -- the assertion fails, and there is nothing that the kernel could remove
        rw [if_pos h0]
        refine iff_of_false (by simp) fun he => ?_
        have := haccepted he
        omega
      · simp only [if_neg h0, Option.some.injEq, Prod.mk.injEq, true_and, exists_eq_left']
        refine ⟨fun hc => ?_, fun he => ?_⟩
        · by_contra he
          have := hrefused he
          omega
        · have := haccepted he
          omega
    · rw [if_neg hdel] at haccepted
      rw [if_neg hdel]
      refine iff_of_true ⟨epoll, rfl, ?_⟩ (fun h => absurd h (by simp [hadd, hdel]))
      by_cases he : error = none
      · have := haccepted he
        omega
      · exact hcount.trans (hrefused he).symm

/-! ### Sequences of calls -/

/-- **The interest list is mirrored** in exactly the sequences of mirrorable calls, from an
instance without normal descriptors on. -/
theorem mirrored_iff (hv : 0 ≤ epfd ∧ epfd < NUMBER_OF_EPOLL_INSTANCES) (calls : List InterestCall)
    (hb : s.bridge.SetUp) (hcount : (s.epolls epfd.toNat).normalCount = interest.card)
    (hnormal : ∀ call ∈ calls, s.connection call.fd = none) :
    Mirrored epfd s interest calls ↔
      Run.Meets (fun interest call => some (kernelEpollCtl interest call).2) Mirrorable interest
        calls := by
  induction calls generalizing s interest with
  | nil => exact Iff.rfl
  | cons call rest ih =>
    obtain ⟨hc, hrest⟩ := List.forall_mem_cons.mp hnormal
    simp only [Mirrored, Run.Meets, Option.some.injEq, forall_eq']
    by_cases hneg : call.fd.val < 0
    · have hkernel : kernelEpollCtl interest call = (some .EBADF, interest) := by
        rw [kernelEpollCtl, if_pos hneg]
      have hctl : epollCtl true (kernelResult (some .EBADF)) s epfd call.operation call.fd
          call.event = some (ERROR, s) := by
        rw [epollCtl, if_pos hneg]
      have hm : Mirrorable interest call := fun h => by omega
      rw [hkernel, hctl]
      simp only [hm, true_and, ← ih hb hcount hrest]
      simp [kernelResult, hcount]
    · obtain ⟨bridge, hset, htable, hctl⟩ := epollCtl_normal hb hv (by omega) hc
        (kernelResult (kernelEpollCtl interest call).1)
      rw [hctl]
      by_cases hlt : call.fd.val < SESSION_TABLE_SIZE
      · have hm : Mirrorable interest call ↔ _ :=
          ⟨fun h => (h (by omega)).2, fun h _ => ⟨hlt, h⟩⟩
        rw [if_pos hlt, hm, ← normal_mirrored_iff hcount]
        have hafter : ∀ epoll', epoll'.normalCount = (kernelEpollCtl interest call).2.card →
            (Mirrored epfd { s with bridge, epolls := Function.update s.epolls epfd.toNat epoll' }
              (kernelEpollCtl interest call).2 rest ↔ _) := fun epoll' hcount' =>
          ih hset (by simpa using hcount') fun next hn => by
            rw [Tables.connection, htable]
            exact hrest next hn
        constructor
        · rintro ⟨s', hs', hcount', hmirrored⟩
          obtain ⟨⟨code, epoll'⟩, hnormal', he⟩ := Option.map_eq_some_iff.mp hs'
          obtain ⟨rfl, rfl⟩ := Prod.mk.inj he
          simp only [Function.update_self] at hcount'
          exact ⟨⟨epoll', hnormal', hcount'⟩, (hafter epoll' hcount').mp hmirrored⟩
        · rintro ⟨⟨epoll', hnormal', hcount'⟩, hmeets⟩
          refine ⟨_, by rw [hnormal']; rfl, ?_, (hafter epoll' hcount').mpr hmeets⟩
          simpa using hcount'
      · rw [if_neg hlt]
        refine iff_of_false (by simp) ?_
        rintro ⟨hm, -⟩
        exact hlt (hm (by omega)).1

/-- **The count of an instance mirrors the kernel's interest list** in exactly the sequences of
calls in which the kernel accepts every `EPOLL_CTL_ADD` and `EPOLL_CTL_DEL`, and every descriptor
is in the range of the session table. -/
theorem interest_mirrored_iff (hv : 0 ≤ epfd ∧ epfd < NUMBER_OF_EPOLL_INSTANCES)
    (calls : List InterestCall) (hb : s.bridge.SetUp)
    (hzero : (s.epolls epfd.toNat).normalCount = 0)
    (hnormal : ∀ call ∈ calls, s.connection call.fd = none) :
    Mirrored epfd s ∅ calls ↔
      Run.Meets (fun interest call => some (kernelEpollCtl interest call).2) Mirrorable ∅ calls :=
  mirrored_iff hv calls hb hzero hnormal

private def interestCall (operation fd : Nat) : InterestCall where
  operation := CInt.ofNat operation
  fd := CInt.ofNat fd
  event := { events := 0, data := 0 }
  refusal := none

/-- One descriptor is added and removed. -/
theorem interest_mirrored_iff_at :
    Mirrored 3 .init ∅ [interestCall 1 5, interestCall 2 5] ↔
      Run.Meets (fun interest call => some (kernelEpollCtl interest call).2) Mirrorable ∅
        [interestCall 1 5, interestCall 2 5] :=
  interest_mirrored_iff ⟨by decide, by decide⟩ _ (fun _ => rfl) rfl (by decide)

/-- **A descriptor added twice is counted twice**, though the kernel refuses the second call; and
the removal of one that is not registered fails an assertion. -/
theorem interest_drifts :
    ¬ Mirrored 3 .init ∅ [interestCall 1 5, interestCall 1 5] ∧
      ¬ Mirrored 3 .init ∅ [interestCall 2 5] ∧
      epollNormalControlOperation ERROR .zero EPOLL_CTL_DEL = none := by
  refine ⟨?_, ?_, rfl⟩
  · rw [mirrored_iff ⟨by decide, by decide⟩ _ (fun _ => rfl) rfl (by decide)]
    decide
  · rw [mirrored_iff ⟨by decide, by decide⟩ _ (fun _ => rfl) rfl (by decide)]
    decide

end Tssx
