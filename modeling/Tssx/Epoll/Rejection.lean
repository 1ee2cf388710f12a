import Tssx.Epoll.Registration

/-!
# Invalid requests

`EPOLL_CTL_ADD` of a registered descriptor, and `EPOLL_CTL_MOD` and `EPOLL_CTL_DEL` of one that is
not, in every instance that a sequence of calls of `epoll_ctl` leads to, with allocations that may
fail.  `_epoll_update_instance` and `_epoll_erase_from_instance` assert that there is an entry,
and search the vector whether it has been set up or not; nothing looks for the descriptor of an
`EPOLL_CTL_ADD`.  `rejected_iff` says which of these requests are rejected as they should be.
-/

namespace Tssx

/-- A call of `epoll_ctl` for the instance: `allocated` is the outcome of the allocation, if the
call makes one, and `real` what `real_epoll_ctl` returns. -/
inductive InstanceCall
  | tssx (allocated : Bool) (call : ControlCall)
  | normal (real operation : Int)

def ControlCall.attempt (call : ControlCall) (allocated : Bool) (epoll : EpollInstance) :
    Option (Int × EpollInstance) :=
  epollTssxControlOperation allocated epoll call.operation call.fd call.event call.connection

def instanceStep (epoll : EpollInstance) : InstanceCall → Option EpollInstance
  | .tssx allocated call => (call.attempt allocated epoll).map Prod.snd
  | .normal real operation => (epollNormalControlOperation real epoll operation).map Prod.snd

/-- What `errno` is set to by a call that fails: by `calloc` or `malloc`, by
`_invalid_argument_exception`, or in the last case of the `switch`. -/
def epollControlErrno (epoll : EpollInstance) (operation fd : Int) : Option Int :=
  if operation = EPOLL_CTL_ADD then some ENOMEM
  else if operation = EPOLL_CTL_MOD then some EINVAL
  else if operation = EPOLL_CTL_DEL then
    if fd = epoll.first.fd then none
    else
      match findEpollEntry epoll fd with
      | some none => some EINVAL
      | _ => none
  else some EINVAL

/-- The instance has an entry for the descriptor. -/
def EpollInstance.Registered (epoll : EpollInstance) (fd : Int) : Prop :=
  fd ∈ epoll.held.map EpollEntry.fd

instance (epoll : EpollInstance) (fd : Int) : Decidable (epoll.Registered fd) :=
  inferInstanceAs (Decidable (fd ∈ _))

structure InvalidRequest (epoll : EpollInstance) (call : ControlCall) : Prop where
  operation : call.operation = EPOLL_CTL_ADD ∨ call.operation = EPOLL_CTL_MOD ∨
    call.operation = EPOLL_CTL_DEL
  registered : call.operation = EPOLL_CTL_ADD ↔ epoll.Registered call.fd

/-- `ERROR` and an `errno`, with the entries and the counters as they were. -/
def RejectedCleanly (allocated : Bool) (epoll : EpollInstance) (call : ControlCall) : Prop :=
  ∃ epoll', call.attempt allocated epoll = some (ERROR, epoll') ∧
    epollControlErrno epoll call.operation call.fd ≠ none ∧ epoll'.held = epoll.held ∧
    epoll'.tssxCount = epoll.tssxCount ∧ epoll'.normalCount = epoll.normalCount

/-- A registered descriptor is added without memory, for a vector to set up or one that has lost
its block; an unregistered one is looked for in an instance with an entry and a vector that has
been set up. -/
def Rejectable (allocated : Bool) (epoll : EpollInstance) (call : ControlCall) : Prop :=
  if call.operation = EPOLL_CTL_ADD then
    allocated = false ∧ (epoll.tssxCount = 1 ∨ epoll.entries.data = none)
  else epoll.tssxCount ≠ 0 ∧ epoll.entries.data ≠ none

/-- A step that is not an invalid request, or one that is rejected. -/
def RejectedIfInvalid (epoll : EpollInstance) : InstanceCall → Prop
  | .tssx allocated call => InvalidRequest epoll call → Rejectable allocated epoll call
  | .normal .. => True

variable {epoll epoll' : EpollInstance} {call : ControlCall} {code fd : Int} {allocated : Bool}
  {xs : List EpollEntry}

/-! ### The shapes of an instance -/

/-- The instance holds entries, or has lost some. -/
def Shaped (epoll : EpollInstance) : Prop :=
  (∃ xs, epoll.Holds xs) ∨ epoll.Lost

theorem EpollInstance.Lost.held (h : epoll.Lost) : epoll.held = [epoll.first] := by
  have := h.many
  rw [EpollInstance.held, if_neg (by omega), Vector.elements, h.data]
  simp

/-- A vector without a block takes no further entry. -/
theorem EpollInstance.Lost.add (h : epoll.Lost) (fd : Int) (event : EpollEvent)
    (connection : Nat) (allocated : Bool) :
    epollAddToInstance allocated epoll fd event connection =
      if allocated then none else some (ERROR, epoll) := by
  have hmany := h.many
  rw [epollAddToInstance, if_neg (by omega), epollPushBackEntry, if_neg (by omega)]
  dsimp only
  rw [if_neg (by decide), vectorPushBack_lost h.data h.full h.capacity]
  cases allocated <;> rfl

theorem EpollInstance.Lost.update (h : epoll.Lost) {event : EpollEvent}
    (hu : epollUpdateInstance epoll fd event = some (code, epoll')) :
    fd = epoll.first.fd ∧ code = SUCCESS ∧
      epoll' = { epoll with first := epoll.first.update event } := by
  have hmany := h.many
  rw [epollUpdateInstance, if_neg (by omega)] at hu
  by_cases hfd : fd = epoll.first.fd
  · rw [if_pos hfd] at hu
    obtain ⟨rfl, rfl⟩ := Prod.mk.inj (Option.some.inj hu)
    exact ⟨hfd, rfl, rfl⟩
  · rw [if_neg hfd, findEpollEntry, vectorFind, h.data] at hu
    cases hu

theorem EpollInstance.Lost.erase (h : epoll.Lost) (fd : Int) (allocated : Bool) :
    epollEraseFromInstance allocated epoll fd = none := by
  have hmany := h.many
  have hcapacity := h.capacity
  rw [VECTOR_MINIMUM_CAPACITY, ← h.full] at hcapacity
  rw [epollEraseFromInstance, if_neg (by omega)]
  by_cases hfd : fd = epoll.first.fd
  · rw [if_pos hfd, epollEraseFirstFromInstance, if_pos hmany, vectorBack, if_neg (by omega),
      vectorGet, if_neg (by omega), if_neg h.elementSize, h.data]
    rfl
  · rw [if_neg hfd, findEpollEntry, vectorFind, h.data]
    rfl

theorem map_fd_update {entry : EpollEntry} {index : Nat} (event : EpollEvent)
    (hi : xs[index]? = some entry) :
    (xs.set index (entry.update event)).map EpollEntry.fd = xs.map EpollEntry.fd := by
  obtain ⟨hlt, rfl⟩ := List.getElem?_eq_some_iff.mp hi
  have hlt' : index < (xs.map EpollEntry.fd).length := by simpa using hlt
  have hfd : (xs[index].update event).fd = (xs.map EpollEntry.fd)[index] := by
    rw [List.getElem_map]
    rfl
  rw [List.map_set, hfd, List.set_getElem_self]

/-- **What a call does to the entries of an instance.** -/
theorem attempt_cases (h : epoll.Holds xs)
    (hs : call.attempt allocated epoll = some (code, epoll')) :
    (call.operation = EPOLL_CTL_ADD ∧ code = SUCCESS ∧
      epoll'.Holds (xs ++ [.new call.fd call.event call.connection])) ∨
    (∃ ys, epoll'.Holds ys ∧ (ys.map EpollEntry.fd).Subperm (xs.map EpollEntry.fd)) ∨
    epoll'.Lost := by
  obtain ⟨operation, fd, event, connection⟩ := call
  simp only [ControlCall.attempt, epollTssxControlOperation] at hs
  have missing : ∀ {result : Option (Int × EpollInstance)}, result =
      (if epoll.tssxCount = 0 ∨ epoll.entries.data = none then none else some (ERROR, epoll)) →
      result = some (code, epoll') →
      ∃ ys, epoll'.Holds ys ∧ (ys.map EpollEntry.fd).Subperm (xs.map EpollEntry.fd) := by
    rintro _ rfl hs
    split at hs
    · cases hs
    · obtain ⟨-, rfl⟩ := Prod.mk.inj (Option.some.inj hs)
      exact ⟨xs, h, .refl _⟩
  by_cases hadd : operation = EPOLL_CTL_ADD
  · rw [if_pos hadd] at hs
    obtain ⟨code₁, epoll₁, hc, hcase⟩ := h.add fd event connection allocated
    rw [hc] at hs
    obtain ⟨rfl, rfl⟩ := Prod.mk.inj (Option.some.inj hs)
    rcases hcase with ⟨hcode, hx⟩ | ⟨-, -, ⟨-, hx⟩ | hlost⟩
    · exact .inl ⟨hadd, hcode, hx⟩
    · exact .inr (.inl ⟨xs, hx, .refl _⟩)
    · exact .inr (.inr hlost)
  · rw [if_neg hadd] at hs
    refine .inr (.inl ?_)
    by_cases hmod : operation = EPOLL_CTL_MOD
    · rw [if_pos hmod] at hs
      by_cases hm : fd ∈ xs.map EpollEntry.fd
      · obtain ⟨epoll₁, index, entry, hc, hi, -, hx⟩ := h.update hm event
        rw [hc] at hs
        obtain ⟨-, rfl⟩ := Prod.mk.inj (Option.some.inj hs)
        have hfds := map_fd_update event hi
        exact ⟨_, hx, hfds ▸ .refl _⟩
      · exact missing (h.update_missing hm event) hs
    · rw [if_neg hmod] at hs
      by_cases hdel : operation = EPOLL_CTL_DEL
      · rw [if_pos hdel] at hs
        by_cases hm : fd ∈ xs.map EpollEntry.fd
        · rcases h.erase hm allocated with ⟨epoll₁, entry, ys, hc, -, hp, hx⟩ | ⟨-, hnone⟩
          · rw [hc] at hs
            obtain ⟨-, rfl⟩ := Prod.mk.inj (Option.some.inj hs)
            exact ⟨ys, hx, ((List.sublist_cons_self entry ys).map _).subperm.trans
              (hp.map _).symm.subperm⟩
          · rw [hnone] at hs
            cases hs
        · exact missing (h.erase_missing hm allocated) hs
      · rw [if_neg hdel] at hs
        obtain ⟨-, rfl⟩ := Prod.mk.inj (Option.some.inj hs)
        exact ⟨xs, h, .refl _⟩

theorem EpollInstance.Lost.attempt (h : epoll.Lost)
    (hs : call.attempt allocated epoll = some (code, epoll')) : epoll'.Lost := by
  simp only [ControlCall.attempt, epollTssxControlOperation] at hs
  split at hs
  · rw [h.add] at hs
    cases allocated with
    | true => cases hs
    | false =>
      obtain ⟨-, rfl⟩ := Prod.mk.inj (Option.some.inj hs)
      exact h
  · split at hs
    · obtain ⟨-, -, rfl⟩ := h.update hs
      exact { h with }
    · split at hs
      · rw [h.erase] at hs
        cases hs
      · obtain ⟨-, rfl⟩ := Prod.mk.inj (Option.some.inj hs)
        exact h

theorem normal_keeps {real operation : Int}
    (hs : epollNormalControlOperation real epoll operation = some (code, epoll')) :
    ∃ n, epoll' = { epoll with normalCount := n } := by
  unfold epollNormalControlOperation at hs
  split at hs
  · obtain ⟨-, rfl⟩ := Prod.mk.inj (Option.some.inj hs)
    exact ⟨_, rfl⟩
  · split at hs
    · split at hs
      · cases hs
      · obtain ⟨-, rfl⟩ := Prod.mk.inj (Option.some.inj hs)
        exact ⟨_, rfl⟩
    · obtain ⟨-, rfl⟩ := Prod.mk.inj (Option.some.inj hs)
      exact ⟨epoll.normalCount, rfl⟩

/-- **Every instance has one of the shapes.** -/
theorem shaped_step {step : InstanceCall} (h : Shaped epoll)
    (hs : instanceStep epoll step = some epoll') : Shaped epoll' := by
  cases step with
  | tssx allocated call =>
    obtain ⟨⟨code, epoll₁⟩, hc, rfl⟩ := Option.map_eq_some_iff.mp hs
    rcases h with ⟨xs, hx⟩ | hlost
    · rcases attempt_cases hx hc with ⟨-, -, hx'⟩ | ⟨ys, hx', -⟩ | hlost
      · exact .inl ⟨_, hx'⟩
      · exact .inl ⟨ys, hx'⟩
      · exact .inr hlost
    · exact .inr (hlost.attempt hc)
  | normal real operation =>
    obtain ⟨⟨code, epoll₁⟩, hc, rfl⟩ := Option.map_eq_some_iff.mp hs
    obtain ⟨n, rfl⟩ := normal_keeps hc
    rcases h with ⟨xs, hx⟩ | hlost
    · exact .inl ⟨xs, hx.normal n⟩
    · exact .inr { hlost with }

/-! ### Invalid requests -/

theorem add_rejected_iff {event : EpollEvent} {connection : Nat} (h : Shaped epoll)
    (hr : epoll.Registered fd) :
    RejectedCleanly allocated epoll ⟨EPOLL_CTL_ADD, fd, event, connection⟩ ↔
      allocated = false ∧ (epoll.tssxCount = 1 ∨ epoll.entries.data = none) := by
  have herrno : epollControlErrno epoll EPOLL_CTL_ADD fd ≠ none := by
    simp [epollControlErrno]
  simp only [RejectedCleanly, ControlCall.attempt, epollTssxControlOperation, if_true]
  rcases h with ⟨xs, hx⟩ | hlost
  · rw [EpollInstance.Registered, hx.held] at hr
    by_cases hone : epoll.tssxCount = 1
    · obtain ⟨first, rfl⟩ := List.length_eq_one_iff.mp (hx.count.symm.trans hone)
      cases allocated with
      | true =>
        obtain ⟨code, epoll', hc, ⟨rfl, -⟩ | ⟨ha, -⟩⟩ := hx.add fd event connection true
        · refine iff_of_false ?_ (by simp)
          rintro ⟨_, he, -⟩
          rw [hc] at he
          cases he
        · cases ha
      | false =>
        refine iff_of_true ⟨_, EpollInstance.Holds.add_failed hone fd event connection, herrno, ?_,
          rfl, rfl⟩ ⟨rfl, .inl hone⟩
        rw [hx.held, EpollInstance.held, if_neg (by simp [hone]), elements_setup]
        exact congrArg (fun entry => [entry]) hx.first
    · -- the vector holds an entry, and the call has room for another or loses the vector
      obtain ⟨first, second, rest, rfl⟩ : ∃ first second rest, xs = first :: second :: rest := by
        cases xs with
        | nil => cases hr
        | cons first rest =>
          cases rest with
          | nil => exact absurd hx.count hone
          | cons second rest => exact ⟨first, second, rest, rfl⟩
      obtain ⟨code, epoll', hc, hcase⟩ := hx.add fd event connection allocated
      refine iff_of_false ?_ (fun h => ?_)
      · rintro ⟨_, he, -, hheld, -⟩
        rw [hc] at he
        obtain ⟨rfl, rfl⟩ := Prod.mk.inj (Option.some.inj he)
        rcases hcase with ⟨hcode, -⟩ | ⟨-, -, ⟨hlen, -⟩ | hlost⟩
        · exact absurd hcode (by decide)
        · simp at hlen
        · rw [hlost.held, hx.held] at hheld
          cases hheld
      · exact h.2.elim hone hx.2.2.initialized
  · rw [hlost.add]
    cases allocated with
    | true => simp
    | false => simp [herrno, hlost.data]

theorem Shaped.missing (h : Shaped epoll) (hr : ¬ epoll.Registered fd)
    (hc : epoll.tssxCount ≠ 0) : epoll.Missing fd := by
  rcases h with ⟨xs, hx⟩ | hlost
  · rw [EpollInstance.Registered, hx.held] at hr
    exact hx.missing hr hc
  · rw [EpollInstance.Registered, hlost.held] at hr
    refine ⟨by simpa using hr, ?_⟩
    rw [findEpollEntry, vectorFind, hlost.data]
    rfl

theorem search_rejected_iff (h : Shaped epoll) (hr : ¬ epoll.Registered call.fd)
    (ho : call.operation = EPOLL_CTL_MOD ∨ call.operation = EPOLL_CTL_DEL) :
    RejectedCleanly allocated epoll call ↔
      epoll.tssxCount ≠ 0 ∧ epoll.entries.data ≠ none := by
  have hmissing := h.missing hr
  -- both operations fail an assertion, or find nothing
  have hattempt : call.attempt allocated epoll =
      if epoll.tssxCount = 0 ∨ epoll.entries.data = none then none else some (ERROR, epoll) := by
    obtain ⟨operation, fd, event, connection⟩ := call
    simp only at ho hmissing
    simp only [ControlCall.attempt, epollTssxControlOperation]
    rcases ho with rfl | rfl
    · exact epollUpdateInstance_missing hmissing event
    · exact epollEraseFromInstance_missing hmissing allocated
  have herrno : epoll.tssxCount ≠ 0 → epoll.entries.data ≠ none →
      epollControlErrno epoll call.operation call.fd ≠ none := by
    intro hc hd
    obtain ⟨hfirst, hfind⟩ := hmissing hc
    rw [if_neg hd] at hfind
    rcases ho with ho | ho <;>
      simp [epollControlErrno, ho, hfirst, hfind, EPOLL_CTL_ADD, EPOLL_CTL_MOD, EPOLL_CTL_DEL]
  rw [RejectedCleanly, hattempt]
  by_cases hc : epoll.tssxCount = 0
  · simp [hc]
  · by_cases hd : epoll.entries.data = none
    · simp [hd]
    · simp [hc, hd, herrno hc hd]

theorem Shaped.rejectable_iff (h : Shaped epoll) (hi : InvalidRequest epoll call)
    (allocated : Bool) :
    RejectedCleanly allocated epoll call ↔ Rejectable allocated epoll call := by
  rw [Rejectable]
  by_cases hadd : call.operation = EPOLL_CTL_ADD
  · obtain ⟨operation, fd, event, connection⟩ := call
    obtain rfl : operation = EPOLL_CTL_ADD := hadd
    rw [if_pos rfl]
    exact add_rejected_iff h (hi.registered.mp rfl)
  · rw [if_neg hadd]
    exact search_rejected_iff h (mt hi.registered.mpr hadd) (hi.operation.resolve_left hadd)

/-! ### Sequences of calls -/

/-- No descriptor is held twice. -/
def HeldOnce (epoll : EpollInstance) : Prop := (epoll.held.map EpollEntry.fd).Nodup

instance (epoll : EpollInstance) : Decidable (HeldOnce epoll) :=
  inferInstanceAs (Decidable (List.Nodup _))

/-- **A step that is not an invalid request, or one that is rejected**, holds nothing twice. -/
theorem heldOnce_step {step : InstanceCall} (h : Shaped epoll) (hn : HeldOnce epoll)
    (hr : RejectedIfInvalid epoll step) (hs : instanceStep epoll step = some epoll') :
    HeldOnce epoll' := by
  cases step with
  | tssx allocated call =>
    obtain ⟨⟨code, epoll₁⟩, hc, rfl⟩ := Option.map_eq_some_iff.mp hs
    rcases h with ⟨xs, hx⟩ | hlost
    · rw [HeldOnce, hx.held] at hn
      rcases attempt_cases hx hc with ⟨hadd, rfl, hx'⟩ | ⟨ys, hx', l, hp, hsub⟩ | hlost
      · have hm : call.fd ∉ xs.map EpollEntry.fd := by
          intro hm
          have hinvalid : InvalidRequest epoll call :=
            ⟨.inl hadd, iff_of_true hadd (by rwa [EpollInstance.Registered, hx.held])⟩
          obtain ⟨_, he, -⟩ := (Shaped.rejectable_iff (.inl ⟨xs, hx⟩) hinvalid allocated).mpr
            (hr hinvalid)
          rw [hc] at he
          cases he
        rw [HeldOnce, hx'.held]
        exact (registryOf_append hn hm).1
      · rw [HeldOnce, hx'.held]
        exact hp.nodup_iff.mp (hn.sublist hsub)
      · rw [HeldOnce, hlost.held]
        exact List.nodup_singleton _
    · rw [HeldOnce, (hlost.attempt hc).held]
      exact List.nodup_singleton _
  | normal real operation =>
    obtain ⟨⟨code, epoll₁⟩, hc, rfl⟩ := Option.map_eq_some_iff.mp hs
    rw [HeldOnce, held_normal hc]
    exact hn

/-- **Which invalid requests are rejected**, in every instance that a sequence of calls leads to;
and no descriptor is held twice in a sequence that has no others. -/
theorem rejected_iff (calls : List InstanceCall) :
    (∀ epoll, Run.Visits instanceStep .zero calls epoll →
      ∀ allocated call, InvalidRequest epoll call →
        (RejectedCleanly allocated epoll call ↔ Rejectable allocated epoll call)) ∧
    (Run.Meets instanceStep RejectedIfInvalid .zero calls →
      ∀ epoll, Run.Visits instanceStep .zero calls epoll → HeldOnce epoll) := by
  have hzero : Shaped .zero := .inl ⟨[], .zero⟩
  refine ⟨?_, ?_⟩
  · rintro epoll ⟨before, -, hrun⟩ allocated call hi
    exact Shaped.rejectable_iff (Run.run_induct (fun s a t => shaped_step) hzero hrun) hi allocated
  · rintro hmeets epoll ⟨before, hprefix, hrun⟩
    exact (Run.meets_induct (I := fun s => Shaped s ∧ HeldOnce s)
      (fun s a t h hr hs => ⟨shaped_step h.1 hs, heldOnce_step h.1 h.2 hr hs⟩)
      ⟨hzero, List.nodup_nil⟩ (hmeets.initial hprefix) hrun).2

private def plainCall (operation fd : Int) : ControlCall :=
  ⟨operation, fd, { events := EPOLLIN, data := 0 }, 0⟩

/-- Two descriptors are added, with a normal one in between. -/
private def twoAdded : List InstanceCall :=
  [.tssx true (plainCall EPOLL_CTL_ADD 5), .normal SUCCESS EPOLL_CTL_ADD,
    .tssx true (plainCall EPOLL_CTL_ADD 6)]

/-- Requests for descriptor 7, which is not registered, and one that adds descriptor 6 again. -/
theorem rejected_iff_at :
    ∃ epoll, Run.run instanceStep .zero twoAdded = some epoll ∧
      epoll.held.map EpollEntry.fd = [5, 6] ∧ HeldOnce epoll ∧
      RejectedCleanly true epoll (plainCall EPOLL_CTL_MOD 7) ∧
      RejectedCleanly true epoll (plainCall EPOLL_CTL_DEL 7) ∧
      ¬ RejectedCleanly true epoll (plainCall EPOLL_CTL_ADD 6) := by
  obtain ⟨hrejected, honce⟩ := rejected_iff twoAdded
  have hmeets : Run.Meets instanceStep RejectedIfInvalid .zero twoAdded := by
    refine ⟨fun hi => ?_, fun _ hs => ⟨trivial, fun _ hs' => ⟨fun hi => ?_, fun _ _ => trivial⟩⟩⟩
    · exact absurd (hi.registered.mp rfl) (by decide)
    · obtain rfl := Option.some.inj hs
      obtain rfl := Option.some.inj hs'
      exact absurd (hi.registered.mp rfl) (by decide)
  have hvisits : ∀ {epoll}, Run.run instanceStep .zero twoAdded = some epoll →
      Run.Visits instanceStep .zero twoAdded epoll :=
    fun hrun => ⟨twoAdded, List.prefix_rfl, hrun⟩
  refine ⟨_, rfl, rfl, honce hmeets _ (hvisits rfl), ?_, ?_, ?_⟩
  · exact (hrejected _ (hvisits rfl) true _
      ⟨.inr (.inl rfl), iff_of_false (by decide) (by decide)⟩).mpr ⟨by decide, by decide⟩
  · exact (hrejected _ (hvisits rfl) true _
      ⟨.inr (.inr rfl), iff_of_false (by decide) (by decide)⟩).mpr ⟨by decide, by decide⟩
  · intro h
    obtain ⟨hallocated, -⟩ := (hrejected _ (hvisits rfl) true _
      ⟨.inl rfl, iff_of_true (by decide) (by decide)⟩).mp h
    cases hallocated

/-- Two requests to add descriptor 5. -/
private def addedTwice : List InstanceCall :=
  List.replicate 2 (.tssx true ⟨EPOLL_CTL_ADD, 5, { events := EPOLLIN, data := 0 }, 0⟩)

/-- **A descriptor added twice is held twice, and the modification of one that is not registered
fails an assertion.** -/
theorem added_twice :
    (∃ epoll, Run.run instanceStep .zero addedTwice = some epoll ∧ ¬ HeldOnce epoll) ∧
      InvalidRequest .zero ⟨EPOLL_CTL_MOD, 5, { events := EPOLLIN, data := 0 }, 0⟩ ∧
      ControlCall.attempt ⟨EPOLL_CTL_MOD, 5, { events := EPOLLIN, data := 0 }, 0⟩ true .zero =
        none := by
  refine ⟨⟨_, rfl, by decide⟩, ⟨.inr (.inl rfl), iff_of_false (by decide) (by decide)⟩, rfl⟩

end Tssx
