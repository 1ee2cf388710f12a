import Mathlib.Logic.Function.Basic
import Tssx.Definitions
import Tssx.Lib.Run

/-!
# Waits with a signal mask

`epoll_pwait` and `pselect` wait under a mask: `_set_poll_mask` takes a lock and sets the mask of
the thread, `_restore_poll_mask` sets the mask that it has found and gives the lock back.  Each of
the two has one lock for the whole process, whatever its threads wait for.

`masked_waits`: a lock is taken exactly while a thread waits under it, and every thread has the
mask that is its own, as long as no function fails between the two.  After such a failure the lock
stays taken, and no thread waits under it any more.

The wait itself is a step with any result, or with none if one of its assertions fails, and the
functions of pthreads are steps that may fail.  The test of `_lazy_select_setup` and the assertion
of `_setup_select` are two steps: of two threads in their first `pselect` one may fail it.
-/

namespace Tssx

inductive MaskedCall
  | epollPwait
  | pselect
  deriving DecidableEq

/-- The next function of a call. -/
inductive MaskedPc (μ : Type)
  /-- The assertion of `_setup_select`. -/
  | setup (sigmask : Option μ)
  /-- Its `atexit`, and the store to the flag. -/
  | atexit (sigmask : Option μ)
  /-- The wait without a mask. -/
  | plain
  | lock (sigmask : μ)
  | setMask (sigmask : μ)
  | wait (sigmask originalMask : μ)
  | restoreMask (sigmask originalMask : μ) (eventCount : Int)
  | unlock (eventCount : Int)

/-- The threads of a process. -/
structure MaskedWaits (μ : Type) where
  mask : Nat → μ
  /-- The mask that the program has given the thread. -/
  own : Nat → μ
  calls : Nat → Option (MaskedCall × MaskedPc μ)
  /-- `_epoll_lock` and `_select_lock`. -/
  lock : MaskedCall → Option Nat
  selectIsInitialized : Bool
  /-- What the last call of the thread has returned. -/
  returned : Nat → Option Int

inductive MaskedAction (μ : Type)
  | call (i : Nat) (call : MaskedCall) (sigmask : Option μ)
  /-- The next function of the call of thread `i`, and whether it succeeds. -/
  | step (i : Nat) (succeeds : Bool)
  /-- `epoll_wait` or `select` returns. -/
  | waited (i : Nat) (eventCount : Int)
  /-- The program sets the mask of a thread. -/
  | sigmask (i : Nat) (mask : μ)

section Model

variable {μ : Type}

def MaskedWaits.goto (s : MaskedWaits μ) (i : Nat) (call : MaskedCall) (pc : MaskedPc μ) :
    MaskedWaits μ :=
  { s with calls := Function.update s.calls i (some (call, pc)) }

def MaskedWaits.leave (s : MaskedWaits μ) (i : Nat) (value : Int) : MaskedWaits μ :=
  { s with
    calls := Function.update s.calls i none
    returned := Function.update s.returned i (some value) }

def MaskedWaits.setMask (s : MaskedWaits μ) (i : Nat) (mask : μ) : MaskedWaits μ :=
  { s with mask := Function.update s.mask i mask }

def MaskedWaits.setLock (s : MaskedWaits μ) (call : MaskedCall) (owner : Option Nat) :
    MaskedWaits μ :=
  { s with lock := Function.update s.lock call owner }

/-- The test of `sigmask == NULL`. -/
def MaskedPc.ofMask : Option μ → MaskedPc μ
  | none => .plain
  | some sigmask => .lock sigmask

/-- The first function of a call. -/
def maskedCall (s : MaskedWaits μ) : MaskedCall → Option μ → MaskedPc μ
  | .epollPwait, sigmask => .ofMask sigmask
  | .pselect, sigmask => if s.selectIsInitialized then .ofMask sigmask else .setup sigmask

/-- A function of a call that succeeds. -/
def maskedSuccess (s : MaskedWaits μ) (i : Nat) (call : MaskedCall) :
    MaskedPc μ → Option (MaskedWaits μ)
  | .setup sigmask =>
    if s.selectIsInitialized then none else some (s.goto i call (.atexit sigmask))
  | .atexit sigmask => some ({ s with selectIsInitialized := true }.goto i call (.ofMask sigmask))
  | .lock sigmask =>
    if s.lock call = none then some ((s.setLock call (some i)).goto i call (.setMask sigmask))
    else none
  | .setMask sigmask => some ((s.setMask i sigmask).goto i call (.wait sigmask (s.mask i)))
  | .restoreMask _ originalMask eventCount =>
    some ((s.setMask i originalMask).goto i call (.unlock eventCount))
  | .unlock eventCount => some ((s.setLock call none).leave i eventCount)
  | .plain | .wait _ _ => none

/-- A function of a call that fails: the call returns. -/
def maskedFailure (s : MaskedWaits μ) (i : Nat) : MaskedPc μ → Option (MaskedWaits μ)
  | .plain | .wait _ _ | .setup _ => none
  | _ => some (s.leave i ERROR)

def maskedStep (s : MaskedWaits μ) : MaskedAction μ → Option (MaskedWaits μ)
  | .call i call sigmask =>
    match s.calls i with
    | none => some (s.goto i call (maskedCall s call sigmask))
    | some _ => none
  | .step i succeeds =>
    (s.calls i).bind fun (call, pc) =>
      if succeeds then maskedSuccess s i call pc else maskedFailure s i pc
  | .waited i eventCount =>
    match s.calls i with
    | some (_, .plain) => some (s.leave i eventCount)
    | some (call, .wait sigmask originalMask) =>
      some (s.goto i call (.restoreMask sigmask originalMask eventCount))
    | _ => none
  | .sigmask i mask =>
    match s.calls i with
    | none => some { s.setMask i mask with own := Function.update s.own i mask }
    | some _ => none

def MaskedWaits.init (mask : Nat → μ) : MaskedWaits μ where
  mask
  own := mask
  calls := fun _ => none
  lock := fun _ => none
  selectIsInitialized := false
  returned := fun _ => none

/-- The thread has locked and not unlocked. -/
def MaskedPc.holds : MaskedPc μ → Bool
  | .setMask _ | .wait _ _ | .restoreMask _ _ _ | .unlock _ => true
  | _ => false

/-- The thread is between the lock and the unlock of this call. -/
def MaskedWaits.inside (s : MaskedWaits μ) (i : Nat) (call : MaskedCall) : Bool :=
  (s.calls i).any fun (other, pc) => other = call && pc.holds

/-- No function fails between the lock and the unlock of the call. -/
def Unfailing (call : MaskedCall) (s : MaskedWaits μ) : MaskedAction μ → Prop
  | .step i succeeds => s.inside i call = true → succeeds = true
  | _ => True

instance (call : MaskedCall) (s : MaskedWaits μ) (a : MaskedAction μ) :
    Decidable (Unfailing call s a) := by
  cases a <;> unfold Unfailing <;> infer_instance

/-- The mask of a thread in a call, by its own. -/
def MaskedPc.mask (own : μ) : MaskedPc μ → μ
  | .wait sigmask _ | .restoreMask sigmask _ _ => sigmask
  | _ => own

/-- The mask that a thread has to have. -/
def MaskedWaits.due (s : MaskedWaits μ) (i : Nat) : μ :=
  (s.calls i).elim (s.own i) fun (_, pc) => pc.mask (s.own i)

/-- Thread `i` gets its mask back. -/
def Restores (i : Nat) (s : MaskedWaits μ) (a : MaskedAction μ) : Prop :=
  ∀ call sigmask originalMask eventCount,
    s.calls i = some (call, .restoreMask sigmask originalMask eventCount) → a ≠ .step i false

end Model

/-! ### What a step can do -/

section Step

variable {μ : Type} {s t : MaskedWaits μ} {a : MaskedAction μ} {i k : Nat} {call : MaskedCall}
  {pc : MaskedPc μ}

theorem inside_of_calls (h : s.calls i = some (call, pc)) (c : MaskedCall) :
    s.inside i c = (decide (call = c) && pc.holds) := by
  rw [MaskedWaits.inside, h, Option.any_some]

theorem inside_of_idle (h : s.calls i = none) (c : MaskedCall) : s.inside i c = false := by
  rw [MaskedWaits.inside, h, Option.any_none]

@[simp] theorem goto_calls : (s.goto i call pc).calls i = some (call, pc) :=
  Function.update_self ..

@[simp] theorem leave_calls {value : Int} : (s.leave i value).calls i = none :=
  Function.update_self ..

/-- **What a step does** to the lock of a call and to the threads inside. -/
inductive MaskedMove (s : MaskedWaits μ) (i : Nat) (a : MaskedAction μ) (t : MaskedWaits μ) : Prop
  | same (hinside : ∀ c, t.inside i c = s.inside i c) (hlock : t.lock = s.lock)
  | enter (call : MaskedCall) (hfree : s.lock call = none)
      (hlock : t.lock = Function.update s.lock call (some i))
      (houtside : ∀ c, s.inside i c = false) (hinside : ∀ c, t.inside i c = decide (call = c))
  | unlock (call : MaskedCall) (hlock : t.lock = Function.update s.lock call none)
      (hinside : ∀ c, s.inside i c = decide (call = c)) (houtside : ∀ c, t.inside i c = false)
  | fail (call : MaskedCall) (ha : a = .step i false) (hlock : t.lock = s.lock)
      (hinside : ∀ c, s.inside i c = decide (call = c)) (houtside : ∀ c, t.inside i c = false)

theorem holds_ofMask (sigmask : Option μ) : (MaskedPc.ofMask sigmask).holds = false := by
  cases sigmask <;> rfl

theorem holds_maskedCall (s : MaskedWaits μ) (call : MaskedCall) (sigmask : Option μ) :
    (maskedCall s call sigmask).holds = false := by
  cases call with
  | epollPwait => exact holds_ofMask sigmask
  | pselect =>
    simp only [maskedCall]
    split
    · exact holds_ofMask sigmask
    · rfl

theorem maskedSuccess_move (hcalls : s.calls i = some (call, pc))
    (h : maskedSuccess s i call pc = some t) : MaskedMove s i a t := by
  have hs := inside_of_calls hcalls
  cases pc with
  | setup sigmask =>
    simp only [maskedSuccess] at h
    split at h
    · cases h
    · obtain rfl := Option.some.inj h
      refine .same (fun c => ?_) rfl
      rw [hs, inside_of_calls goto_calls]
      rfl
  | atexit sigmask =>
    obtain rfl := Option.some.inj h
    refine .same (fun c => ?_) rfl
    rw [hs, inside_of_calls goto_calls, holds_ofMask]
    rfl
  | lock sigmask =>
    simp only [maskedSuccess] at h
    split at h
    · obtain rfl := Option.some.inj h
      refine .enter call ‹_› rfl (fun c => ?_) fun c => ?_
      · rw [hs]
        exact Bool.and_false _
      · rw [inside_of_calls goto_calls]
        exact Bool.and_true _
    · cases h
  | setMask sigmask | restoreMask sigmask originalMask eventCount =>
    obtain rfl := Option.some.inj h
    refine .same (fun c => ?_) rfl
    rw [hs, inside_of_calls goto_calls]
    rfl
  | unlock eventCount =>
    obtain rfl := Option.some.inj h
    refine .unlock call rfl (fun c => ?_) (inside_of_idle leave_calls)
    rw [hs]
    exact Bool.and_true _
  | plain | wait sigmask originalMask => cases h

theorem maskedFailure_move (hcalls : s.calls i = some (call, pc))
    (h : maskedFailure s i pc = some t) : MaskedMove s i (.step i false) t := by
  have hs := inside_of_calls hcalls
  cases pc with
  | plain | wait sigmask originalMask | setup sigmask => cases h
  | atexit sigmask | lock sigmask =>
    obtain rfl := Option.some.inj h
    refine .same (fun c => ?_) rfl
    rw [hs, inside_of_idle leave_calls]
    exact (Bool.and_false _).symm
  | setMask sigmask | restoreMask sigmask originalMask eventCount | unlock eventCount =>
    obtain rfl := Option.some.inj h
    refine .fail call rfl rfl (fun c => ?_) (inside_of_idle leave_calls)
    rw [hs]
    exact Bool.and_true _

/-- The thread that makes a step. -/
def MaskedAction.thread : MaskedAction μ → Nat
  | .call i _ _ | .step i _ | .waited i _ | .sigmask i _ => i

theorem maskedStep_move (h : maskedStep s a = some t) : MaskedMove s a.thread a t := by
  cases a with
  | call i call sigmask =>
    simp only [maskedStep] at h
    split at h
    · obtain rfl := Option.some.inj h
      refine .same (fun c => ?_) rfl
      show (s.goto i call _).inside i c = s.inside i c
      rw [inside_of_calls goto_calls, inside_of_idle ‹_›, holds_maskedCall, Bool.and_false]
    · cases h
  | step i succeeds =>
    obtain ⟨⟨call, pc⟩, hcalls, h⟩ := Option.bind_eq_some_iff.mp h
    cases succeeds with
    | true => exact maskedSuccess_move hcalls h
    | false => exact maskedFailure_move hcalls h
  | waited i eventCount =>
    simp only [maskedStep] at h
    split at h
    · obtain rfl := Option.some.inj h
      refine .same (fun c => ?_) rfl
      show (s.leave i eventCount).inside i c = s.inside i c
      rw [inside_of_idle leave_calls, inside_of_calls ‹_›]
      exact (Bool.and_false _).symm
    · obtain rfl := Option.some.inj h
      refine .same (fun c => ?_) rfl
      show (s.goto i _ _).inside i c = s.inside i c
      rw [inside_of_calls goto_calls, inside_of_calls ‹_›]
      rfl
    · cases h
  | sigmask i mask =>
    simp only [maskedStep] at h
    split at h
    · obtain rfl := Option.some.inj h
      exact .same (fun _ => rfl) rfl
    · cases h

theorem maskedStep_failing (h : maskedStep s (.step i false) = some t) : t = s.leave i ERROR := by
  obtain ⟨⟨call, pc⟩, -, h⟩ := Option.bind_eq_some_iff.mp h
  cases pc with
  | plain | wait sigmask originalMask | setup sigmask => cases h
  | _ => exact (Option.some.inj h).symm

theorem maskedStep_other (h : maskedStep s a = some t) (hk : k ≠ a.thread) :
    t.calls k = s.calls k ∧ t.mask k = s.mask k ∧ t.own k = s.own k := by
  cases a with
  | call i call sigmask =>
    simp only [maskedStep] at h
    split at h
    · obtain rfl := Option.some.inj h
      exact ⟨Function.update_of_ne hk _ _, rfl, rfl⟩
    · cases h
  | step i succeeds =>
    obtain ⟨⟨call, pc⟩, hcalls, h⟩ := Option.bind_eq_some_iff.mp h
    cases succeeds with
    | true =>
      cases pc with
      | atexit sigmask | unlock eventCount =>
        obtain rfl := Option.some.inj h
        exact ⟨Function.update_of_ne hk _ _, rfl, rfl⟩
      | setup sigmask =>
        simp only [if_true, maskedSuccess] at h
        split at h
        · cases h
        · obtain rfl := Option.some.inj h
          exact ⟨Function.update_of_ne hk _ _, rfl, rfl⟩
      | lock sigmask =>
        simp only [if_true, maskedSuccess] at h
        split at h
        · obtain rfl := Option.some.inj h
          exact ⟨Function.update_of_ne hk _ _, rfl, rfl⟩
        · cases h
      | setMask sigmask | restoreMask sigmask originalMask eventCount =>
        obtain rfl := Option.some.inj h
        exact ⟨Function.update_of_ne hk _ _, Function.update_of_ne hk _ _, rfl⟩
      | plain | wait sigmask originalMask => cases h
    | false =>
      cases pc with
      | plain | wait sigmask originalMask | setup sigmask => cases h
      | _ =>
        obtain rfl := Option.some.inj h
        exact ⟨Function.update_of_ne hk _ _, rfl, rfl⟩
  | waited i eventCount =>
    simp only [maskedStep] at h
    split at h
    · obtain rfl := Option.some.inj h
      exact ⟨Function.update_of_ne hk _ _, rfl, rfl⟩
    · obtain rfl := Option.some.inj h
      exact ⟨Function.update_of_ne hk _ _, rfl, rfl⟩
    · cases h
  | sigmask i mask =>
    simp only [maskedStep] at h
    split at h
    · obtain rfl := Option.some.inj h
      exact ⟨rfl, Function.update_of_ne hk _ _, Function.update_of_ne hk _ _⟩
    · cases h

theorem inside_other (h : maskedStep s a = some t) (hk : k ≠ a.thread) (c : MaskedCall) :
    t.inside k c = s.inside k c := by
  rw [MaskedWaits.inside, MaskedWaits.inside, (maskedStep_other h hk).1]

end Step

/-! ### The lock -/

/-- Who is inside has the lock. -/
def LockInv {μ : Type} (call : MaskedCall) (s : MaskedWaits μ) : Prop :=
  ∀ i, s.inside i call = true → s.lock call = some i

/-- Who has the lock is inside. -/
def LockUsed {μ : Type} (call : MaskedCall) (s : MaskedWaits μ) : Prop :=
  ∀ i, s.lock call = some i → s.inside i call = true

/-- The lock is taken, and nobody is there to give it back. -/
def LockLost {μ : Type} (call : MaskedCall) (s : MaskedWaits μ) : Prop :=
  s.lock call ≠ none ∧ ∀ i, s.inside i call = false

section Lock

variable {μ : Type} {s t : MaskedWaits μ} {a : MaskedAction μ} {call : MaskedCall}

/-- Of the threads inside a call that a thread leaves, it was the only one. -/
theorem LockInv.alone (h : LockInv call s) {i k : Nat} (hi : s.inside i call = true)
    (hk : s.inside k call = true) : k = i :=
  Option.some.inj ((h k hk).symm.trans (h i hi))

theorem LockInv.step (h : LockInv call s) (hs : maskedStep s a = some t) : LockInv call t := by
  have hother : ∀ i, i ≠ a.thread → t.inside i call = true → s.lock call = some i := by
    intro i hi hinside
    exact h i ((inside_other hs hi call).symm.trans hinside)
  intro i hi
  cases maskedStep_move hs with
  | same hinside hlock =>
    rw [hlock]
    by_cases hthread : i = a.thread
    · subst hthread
      exact h _ ((hinside call).symm.trans hi)
    · exact hother i hthread hi
  | enter c hfree hlock houtside hinside =>
    rw [hlock]
    by_cases hthread : i = a.thread
    · subst hthread
      rw [hinside, decide_eq_true_eq] at hi
      rw [hi, Function.update_self]
    · have howner := hother i hthread hi
      have hc : call ≠ c := by
        rintro rfl
        cases hfree.symm.trans howner
      rw [Function.update_of_ne hc]
      exact howner
  | unlock c hlock hinside houtside =>
    have hthread : i ≠ a.thread := by
      rintro rfl
      cases (houtside call).symm.trans hi
    have howner := hother i hthread hi
    have hc : call ≠ c := by
      rintro rfl
      refine hthread (h.alone ?_ ((inside_other hs hthread call).symm.trans hi))
      rw [hinside, decide_eq_true_eq]
    rw [hlock, Function.update_of_ne hc]
    exact howner
  | fail c ha hlock hinside houtside =>
    have hthread : i ≠ a.thread := by
      rintro rfl
      cases (houtside call).symm.trans hi
    rw [hlock]
    exact hother i hthread hi

theorem LockUsed.step (h : LockUsed call s) (hu : Unfailing call s a)
    (hs : maskedStep s a = some t) : LockUsed call t := by
  have hother : ∀ i, i ≠ a.thread → s.lock call = some i → t.inside i call = true := by
    intro i hi howner
    exact (inside_other hs hi call).trans (h i howner)
  intro i hi
  cases maskedStep_move hs with
  | same hinside hlock =>
    rw [hlock] at hi
    by_cases hthread : i = a.thread
    · subst hthread
      exact (hinside call).trans (h _ hi)
    · exact hother i hthread hi
  | enter c hfree hlock houtside hinside =>
    rw [hlock] at hi
    by_cases hc : call = c
    · subst hc
      rw [Function.update_self, Option.some.injEq] at hi
      rw [← hi, hinside, decide_eq_true_eq]
    · rw [Function.update_of_ne hc] at hi
      refine hother i ?_ hi
      rintro rfl
      cases (houtside call).symm.trans (h _ hi)
  | unlock c hlock hinside houtside =>
    rw [hlock] at hi
    by_cases hc : call = c
    · subst hc
      rw [Function.update_self] at hi
      cases hi
    · rw [Function.update_of_ne hc] at hi
      refine hother i ?_ hi
      rintro rfl
      have hin := (hinside call).symm.trans (h _ hi)
      exact hc (of_decide_eq_true hin).symm
  | fail c ha hlock hinside houtside =>
    rw [hlock] at hi
    by_cases hthread : i = a.thread
    · subst hthread
      rw [ha] at hu hi
      have hin : s.inside (MaskedAction.step _ false : MaskedAction μ).thread call = true := h _ hi
      cases hu hin
    · exact hother i hthread hi

/-- A thread that fails inside leaves the lock taken. -/
theorem LockInv.lost (h : LockInv call s) (hu : ¬Unfailing call s a)
    (hs : maskedStep s a = some t) : LockLost call t := by
  cases a with
  | call | waited | sigmask => exact absurd trivial hu
  | step i succeeds =>
    obtain ⟨hin, hfails⟩ := Classical.not_imp.mp hu
    obtain rfl : succeeds = false := Bool.not_eq_true _ |>.mp hfails
    have hout : t.inside i call = false := by
      rw [maskedStep_failing hs, inside_of_idle leave_calls]
    refine ⟨?_, fun k => ?_⟩
    · rw [maskedStep_failing hs]
      show s.lock call ≠ none
      rw [h i hin]
      exact Option.some_ne_none i
    · by_cases hk : k = i
      · rw [hk]
        exact hout
      · rw [inside_other hs hk, ← Bool.not_eq_true]
        intro hinside
        exact hk (h.alone hin hinside)

theorem LockLost.step (h : LockLost call s) (hs : maskedStep s a = some t) : LockLost call t := by
  obtain ⟨htaken, hout⟩ := h
  have hother : ∀ i, i ≠ a.thread → t.inside i call = false :=
    fun i hi => (inside_other hs hi call).trans (hout i)
  have hthread : t.lock call ≠ none ∧ t.inside a.thread call = false := by
    cases maskedStep_move hs with
    | same hinside hlock => exact ⟨hlock ▸ htaken, (hinside call).trans (hout _)⟩
    | enter c hfree hlock houtside hinside =>
      have hc : call ≠ c := by
        rintro rfl
        exact htaken hfree
      rw [hlock, Function.update_of_ne hc, hinside]
      exact ⟨htaken, decide_eq_false hc.symm⟩
    | unlock c hlock hinside houtside =>
      have hc : call ≠ c := by
        rintro rfl
        have hin := hinside call
        rw [hout, decide_eq_true rfl] at hin
        cases hin
      rw [hlock, Function.update_of_ne hc]
      exact ⟨htaken, houtside call⟩
    | fail c ha hlock hinside houtside => exact ⟨hlock ▸ htaken, houtside call⟩
  refine ⟨hthread.1, fun i => ?_⟩
  by_cases hi : i = a.thread
  · rw [hi]
    exact hthread.2
  · exact hother i hi

end Lock

/-! ### The mask -/

/-- The mask that a call will set again. -/
def MaskedPc.saved {μ : Type} : MaskedPc μ → Option μ
  | .wait _ originalMask | .restoreMask _ originalMask _ => some originalMask
  | _ => none

structure MaskInv {μ : Type} (i : Nat) (s : MaskedWaits μ) : Prop where
  due : s.mask i = s.due i
  saved : ∀ call pc, s.calls i = some (call, pc) → ∀ mask ∈ pc.saved, mask = s.own i

section Mask

variable {μ : Type} {s t : MaskedWaits μ} {a : MaskedAction μ} {i : Nat} {call : MaskedCall}
  {pc : MaskedPc μ}

theorem due_of_calls (h : s.calls i = some (call, pc)) : s.due i = pc.mask (s.own i) := by
  rw [MaskedWaits.due, h, Option.elim_some]

theorem due_of_idle (h : s.calls i = none) : s.due i = s.own i := by
  rw [MaskedWaits.due, h, Option.elim_none]

/-- A thread that keeps its mask and its own goes to where it has to have it. -/
theorem MaskInv.goto {u : MaskedWaits μ} (hpc : u.calls i = some (call, pc))
    (hmask : u.mask i = pc.mask (u.own i)) (hsaved : ∀ mask ∈ pc.saved, mask = u.own i) :
    MaskInv i u := by
  refine ⟨hmask.trans (due_of_calls hpc).symm, ?_⟩
  intro call' pc' hpc'
  obtain ⟨rfl, rfl⟩ := Prod.mk.inj (Option.some.inj (hpc.symm.trans hpc'))
  exact hsaved

theorem MaskInv.idle {u : MaskedWaits μ} (hpc : u.calls i = none) (hmask : u.mask i = u.own i) :
    MaskInv i u := by
  refine ⟨hmask.trans (due_of_idle hpc).symm, ?_⟩
  intro call pc hpc'
  cases hpc.symm.trans hpc'

theorem mask_ofMask (own : μ) (sigmask : Option μ) :
    (MaskedPc.ofMask sigmask).mask own = own ∧ (MaskedPc.ofMask sigmask).saved = none := by
  cases sigmask <;> exact ⟨rfl, rfl⟩

theorem mask_maskedCall (own : μ) (s : MaskedWaits μ) (call : MaskedCall) (sigmask : Option μ) :
    (maskedCall s call sigmask).mask own = own ∧ (maskedCall s call sigmask).saved = none := by
  cases call with
  | epollPwait => exact mask_ofMask own sigmask
  | pselect =>
    simp only [maskedCall]
    split
    · exact mask_ofMask own sigmask
    · exact ⟨rfl, rfl⟩

theorem MaskInv.success (h : MaskInv i s) (hcalls : s.calls i = some (call, pc))
    (hs : maskedSuccess s i call pc = some t) : MaskInv i t := by
  have hmask := h.due.trans (due_of_calls hcalls)
  have hsaved := h.saved call pc hcalls
  cases pc with
  | setup sigmask =>
    simp only [maskedSuccess] at hs
    split at hs
    · cases hs
    · obtain rfl := Option.some.inj hs
      exact .goto goto_calls hmask (by simp [MaskedPc.saved])
  | atexit sigmask =>
    obtain rfl := Option.some.inj hs
    obtain ⟨hown, hnone⟩ := mask_ofMask (s.own i) sigmask
    refine .goto goto_calls (hmask.trans hown.symm) ?_
    simp [hnone]
  | lock sigmask =>
    simp only [maskedSuccess] at hs
    split at hs
    · obtain rfl := Option.some.inj hs
      exact .goto goto_calls hmask (by simp [MaskedPc.saved])
    · cases hs
  | setMask sigmask =>
    obtain rfl := Option.some.inj hs
    refine .goto goto_calls (Function.update_self ..) ?_
    intro mask hm
    exact (Option.some.inj hm).symm.trans hmask
  | restoreMask sigmask originalMask eventCount =>
    obtain rfl := Option.some.inj hs
    refine .goto goto_calls ?_ (by simp [MaskedPc.saved])
    exact (Function.update_self ..).trans (hsaved originalMask rfl)
  | unlock eventCount =>
    obtain rfl := Option.some.inj hs
    exact .idle leave_calls hmask
  | plain | wait sigmask originalMask => cases hs

theorem MaskInv.step (h : MaskInv i s) (hr : Restores i s a) (hs : maskedStep s a = some t) :
    MaskInv i t := by
  by_cases hthread : i = a.thread
  · cases a with
    | call k call sigmask =>
      obtain rfl : i = k := hthread
      simp only [maskedStep] at hs
      split at hs
      · obtain rfl := Option.some.inj hs
        obtain ⟨hown, hnone⟩ := mask_maskedCall (s.own i) s call sigmask
        refine .goto goto_calls ((h.due.trans (due_of_idle ‹_›)).trans hown.symm) ?_
        simp [hnone]
      · cases hs
    | step k succeeds =>
      obtain rfl : i = k := hthread
      cases succeeds with
      | true =>
        obtain ⟨⟨call, pc⟩, hcalls, hs⟩ := Option.bind_eq_some_iff.mp hs
        exact h.success hcalls hs
      | false =>
        rw [maskedStep_failing hs]
        obtain ⟨⟨call, pc⟩, hcalls, hs⟩ := Option.bind_eq_some_iff.mp hs
        refine .idle leave_calls ?_
        have hmask := h.due.trans (due_of_calls hcalls)
        cases pc with
        | plain | wait sigmask originalMask | setup sigmask => cases hs
        | restoreMask sigmask originalMask eventCount => exact absurd rfl (hr _ _ _ _ hcalls)
        | atexit | lock | setMask | unlock => exact hmask
    | waited k eventCount =>
      obtain rfl : i = k := hthread
      simp only [maskedStep] at hs
      split at hs
      · rename_i hcalls
        obtain rfl := Option.some.inj hs
        exact .idle leave_calls (h.due.trans (due_of_calls hcalls))
      · rename_i hcalls
        obtain rfl := Option.some.inj hs
        have hmask := h.due.trans (due_of_calls hcalls)
        refine .goto goto_calls hmask ?_
        exact fun mask hm => h.saved _ _ hcalls mask hm
      · cases hs
    | sigmask k mask =>
      obtain rfl : i = k := hthread
      simp only [maskedStep] at hs
      split at hs
      · obtain rfl := Option.some.inj hs
        refine .idle ‹_› ?_
        show Function.update s.mask i mask i = Function.update s.own i mask i
        rw [Function.update_self, Function.update_self]
      · cases hs
  · obtain ⟨hcalls, hmask, hown⟩ := maskedStep_other hs hthread
    refine ⟨?_, ?_⟩
    · rw [hmask, h.due, MaskedWaits.due, MaskedWaits.due, hcalls, hown]
    · rw [hcalls, hown]
      exact h.saved

end Mask

/-! ### Whole runs -/

section Runs

variable {μ : Type} {mask : Nat → μ} {actions : List (MaskedAction μ)} {s : MaskedWaits μ}

theorem lockInv_init (mask : Nat → μ) (call : MaskedCall) : LockInv call (.init mask) := by
  intro i hi
  cases hi

theorem lockUsed_init (mask : Nat → μ) (call : MaskedCall) : LockUsed call (.init mask) := by
  intro i hi
  cases hi

/-- **Waits with a mask.**  Until a function fails between the lock and the unlock of a call, its
lock belongs to the one thread that is between them; after it the lock is taken and nobody is
there.  A thread that gets its mask back whenever a call sets it again has the mask of its call,
or its own. -/
theorem masked_waits (call : MaskedCall)
    (hrun : Run.run maskedStep (.init mask) actions = some s) :
    (Run.Meets maskedStep (Unfailing call) (.init mask) actions →
      ∀ i, s.lock call = some i ↔ s.inside i call = true) ∧
    (¬Run.Meets maskedStep (Unfailing call) (.init mask) actions →
      s.lock call ≠ none ∧ ∀ i, s.inside i call = false) ∧
    ∀ i, Run.Meets maskedStep (Restores i) (.init mask) actions → s.mask i = s.due i := by
  have hinv := lockInv_init mask call
  refine ⟨?_, ?_, ?_⟩
  · intro hmeets i
    have hend : LockInv call s ∧ LockUsed call s :=
      Run.meets_induct (I := fun u => LockInv call u ∧ LockUsed call u)
        (fun _ _ _ hu hf hs => ⟨hu.1.step hs, hu.2.step hf hs⟩)
        ⟨hinv, lockUsed_init mask call⟩ hmeets hrun
    exact ⟨hend.2 i, hend.1 i⟩
  · intro hmeets
    have hend : LockLost call s :=
      Run.not_meets_induct (fun _ _ _ hu hs => LockInv.step hu hs)
        (fun _ _ _ hu hf hs => LockInv.lost hu hf hs) (fun _ _ _ hu hs => LockLost.step hu hs)
        hinv hmeets hrun
    exact hend
  · intro i hmeets
    have hend : MaskInv i s := Run.meets_induct (fun _ _ _ hu hf hs => MaskInv.step hu hf hs)
      (.idle rfl rfl) hmeets hrun
    exact hend.due

end Runs

private def noRestore : List (MaskedAction Bool) :=
  [.call 0 .epollPwait (some true), .step 0 true, .step 0 true, .call 1 .epollPwait (some true),
    .waited 0 1, .step 0 false]

/-- A thread does not get its mask back after its `epoll_pwait`, and the one behind it stays at the
lock. -/
theorem masked_waits_at :
    ∃ s, Run.run maskedStep (.init fun _ => false) noRestore = some s ∧
      s.lock .epollPwait ≠ none ∧ (∀ i, s.inside i .epollPwait = false) ∧
      s.mask 1 = s.due 1 ∧ maskedStep s (.step 1 true) = none := by
  obtain ⟨s, hs, hblocked⟩ := (Option.any_eq_true _ _).mp (show (Run.run maskedStep
    (.init fun _ => false) noRestore).any (fun s => (maskedStep s (.step 1 true)).isNone) by
      decide +kernel)
  obtain ⟨-, hlost, hmask⟩ := masked_waits .epollPwait hs
  obtain ⟨htaken, hout⟩ := hlost (by decide +kernel)
  refine ⟨s, hs, htaken, hout, hmask 1 ?_, Option.isNone_iff_eq_none.mp hblocked⟩
  refine Run.meets_of_forall fun a ha u call sigmask originalMask eventCount _ => ?_
  rintro rfl
  simp [noRestore] at ha

end Tssx
