import Tssx.Lib.Parties
import Tssx.Lib.Run

/-!
# The start of the normal threads

From `_concurrent_poll` to the return of `_wait_for_normal_thread`, for any number of threads
that call `poll` again and again.  All of them share `_normal_thread_ready`, which each call
resets without the lock, `_poll_condition` and `_poll_lock`.  The lock is free if no thread is
between its lock and its unlock.  A signal wakes one of the waiters, and a waiter may also wake
up without one.

While one caller is on its way, from its reset to the look that finds its normal thread ready,
the flag is about that thread.  `start_up_safe`: if no caller resets the flag while another one
is on its way, no wake-up is lost and nobody leaves early.
-/

namespace Tssx

/-- A caller of `_concurrent_poll`, by its next access. -/
inductive PollerPc
  | idle
  /-- `_normal_thread_ready = false`. -/
  | reset
  | create
  /-- `_wait_for_normal_thread`. -/
  | lock
  | test
  | condWait
  | waiting
  /-- Awake again, and without the lock. -/
  | woken
  | unlock
  | tssxPoll
  | join
  deriving DecidableEq

/-- The normal thread of a caller, by its next access. -/
inductive ReadyPc
  | absent
  /-- `_signal_tssx_thread`. -/
  | lock
  | setReady
  | signal
  | unlock
  | normalPoll
  | finished
  deriving DecidableEq

def PollerPc.holds : PollerPc → Bool
  | .test | .condWait | .unlock => true
  | _ => false

def ReadyPc.holds : ReadyPc → Bool
  | .setReady | .signal | .unlock => true
  | _ => false

structure Poller where
  pc : PollerPc
  normal : ReadyPc
  deriving DecidableEq

structure StartUp where
  /-- `_normal_thread_ready`. -/
  ready : Bool
  pollers : List Poller
  deriving DecidableEq

/-- Nobody holds `_poll_lock`. -/
def StartUp.free (s : StartUp) : Bool := s.pollers.all fun c => !c.pc.holds && !c.normal.holds

inductive StartAction
  | poller (i : Nat)
  | createFails (i : Nat)
  | normal (i : Nat)
  /-- `pthread_cond_signal`, and the waiter that it wakes. -/
  | signal (i : Nat) (waiter : Option Nat)
  | spurious (i : Nat)
  deriving DecidableEq

/-- The next access of a caller. -/
def pollerStep (free ready : Bool) (c : Poller) : Option (Bool × Poller) :=
  match c.pc with
  | .idle => some (ready, { c with pc := .reset })
  | .reset => some (false, { c with pc := .create })
  | .create => some (ready, { pc := .lock, normal := .lock })
  | .lock | .woken => if free then some (ready, { c with pc := .test }) else none
  | .test => some (ready, { c with pc := if ready then .unlock else .condWait })
  | .condWait => some (ready, { c with pc := .waiting })
  | .waiting => none
  | .unlock => some (ready, { c with pc := .tssxPoll })
  | .tssxPoll => some (ready, { c with pc := .join })
  | .join =>
    if c.normal = .finished then some (ready, { pc := .idle, normal := .absent }) else none

/-- The next access of its normal thread, apart from the signal. -/
def readyStep (free ready : Bool) (c : Poller) : Option (Bool × Poller) :=
  match c.normal with
  | .absent | .signal | .finished => none
  | .lock => if free then some (ready, { c with normal := .setReady }) else none
  | .setReady => some (true, { c with normal := .signal })
  | .unlock => some (ready, { c with normal := .normalPoll })
  | .normalPoll => some (ready, { c with normal := .finished })

def StartUp.put (s : StartUp) (i : Nat) (ready : Bool) (c : Poller) : StartUp where
  ready := ready
  pollers := s.pollers.set i c

/-- A waiter wakes up. -/
def StartUp.wake (s : StartUp) (i : Nat) : Option StartUp :=
  (s.pollers[i]?).bind fun c =>
    if c.pc = .waiting then some (s.put i s.ready { c with pc := .woken }) else none

def startStep (s : StartUp) : StartAction → Option StartUp
  | .poller i => (s.pollers[i]?).bind fun c =>
      (pollerStep s.free s.ready c).map fun (ready, c') => s.put i ready c'
  | .createFails i => (s.pollers[i]?).bind fun c =>
      if c.pc = .create then some (s.put i s.ready { c with pc := .idle }) else none
  | .normal i => (s.pollers[i]?).bind fun c =>
      (readyStep s.free s.ready c).map fun (ready, c') => s.put i ready c'
  | .signal i waiter => (s.pollers[i]?).bind fun c =>
      if c.normal = .signal then
        let s' := s.put i s.ready { c with normal := .unlock }
        match waiter with
        | some j => s'.wake j
        | none => if ∀ d ∈ s'.pollers, d.pc ≠ .waiting then some s' else none
      else none
  | .spurious i => s.wake i

/-- `n` threads that make no call. -/
def StartUp.init (n : Nat) : StartUp where
  ready := false
  pollers := List.replicate n { pc := .idle, normal := .absent }

/-- `_signal_tssx_thread` has returned. -/
def ReadyPc.completed : ReadyPc → Bool
  | .normalPoll | .finished => true
  | _ => false

/-- A signal of this call is still to come. -/
def Poller.willSignal (c : Poller) : Bool :=
  match c.pc, c.normal with
  | .reset, _ | .create, _ => true
  | _, .lock | _, .setReady | _, .signal => true
  | _, _ => false

/-- The caller has found its normal thread ready. -/
def PollerPc.left : PollerPc → Bool
  | .unlock | .tssxPoll | .join => true
  | _ => false

/-- The callers do not block each other, and nobody leaves early. -/
structure StartUp.Safe (s : StartUp) : Prop where
  awake : ∀ c ∈ s.pollers, c.pc = .waiting → c.normal.completed = true →
    ∃ d ∈ s.pollers, d.willSignal = true
  patient : ∀ c ∈ s.pollers, c.pc.left = true → c.normal.completed = true

/-- The caller is on its way: it has reset the flag and not yet found it set. -/
def PollerPc.starting : PollerPc → Bool
  | .create | .lock | .test | .condWait | .waiting | .woken => true
  | _ => false

/-- A caller resets the flag when no other caller is on its way. -/
def ResetsAlone (s : StartUp) : StartAction → Prop
  | .poller i => ∀ c ∈ s.pollers[i]?, c.pc = .reset →
      ∀ j < s.pollers.length, j ≠ i → ∀ d ∈ s.pollers[j]?, d.pc.starting = false
  | _ => True

instance (s : StartUp) : ∀ a, Decidable (ResetsAlone s a)
  | .poller i =>
    inferInstanceAs (Decidable (∀ c ∈ s.pollers[i]?, c.pc = .reset →
      ∀ j < s.pollers.length, j ≠ i → ∀ d ∈ s.pollers[j]?, d.pc.starting = false))
  | .createFails _ | .normal _ | .signal _ _ | .spurious _ => isTrue trivial

/-! ### What a step can do -/

/-- The steps of a caller and of its normal thread, apart from the signal. -/
inductive PollerMove (ready : Bool) (c : Poller) : Bool → Poller → Prop
  | begin (hpc : c.pc = .idle) : PollerMove ready c ready { c with pc := .reset }
  | reset (hpc : c.pc = .reset) : PollerMove ready c false { c with pc := .create }
  | create (hpc : c.pc = .create) : PollerMove ready c ready { pc := .lock, normal := .lock }
  | createFails (hpc : c.pc = .create) : PollerMove ready c ready { c with pc := .idle }
  | lock (hpc : c.pc = .lock ∨ c.pc = .woken) (hn : c.normal.holds = false) :
      PollerMove ready c ready { c with pc := .test }
  | seesReady (hpc : c.pc = .test) (hr : ready = true) :
      PollerMove ready c ready { c with pc := .unlock }
  | seesUnready (hpc : c.pc = .test) (hr : ready = false) :
      PollerMove ready c ready { c with pc := .condWait }
  | condWait (hpc : c.pc = .condWait) : PollerMove ready c ready { c with pc := .waiting }
  | wake (hpc : c.pc = .waiting) : PollerMove ready c ready { c with pc := .woken }
  | unlock (hpc : c.pc = .unlock) : PollerMove ready c ready { c with pc := .tssxPoll }
  | tssxPoll (hpc : c.pc = .tssxPoll) : PollerMove ready c ready { c with pc := .join }
  | join (hpc : c.pc = .join) : PollerMove ready c ready { pc := .idle, normal := .absent }
  | normalLock (hn : c.normal = .lock) (hpc : c.pc.holds = false) :
      PollerMove ready c ready { c with normal := .setReady }
  | setReady (hn : c.normal = .setReady) : PollerMove ready c true { c with normal := .signal }
  | normalUnlock (hn : c.normal = .unlock) :
      PollerMove ready c ready { c with normal := .normalPoll }
  | normalPoll (hn : c.normal = .normalPoll) :
      PollerMove ready c ready { c with normal := .finished }

variable {s t : StartUp} {c c' : Poller} {i : Nat} {ready ready' free : Bool}

theorem pollerMove (hfree : free = true → c.normal.holds = false)
    (h : pollerStep free ready c = some (ready', c')) : PollerMove ready c ready' c' := by
  cases hpc : c.pc with
  | waiting => simp only [pollerStep, hpc] at h; cases h
  | idle => simp only [pollerStep, hpc] at h; cases h; exact .begin hpc
  | reset => simp only [pollerStep, hpc] at h; cases h; exact .reset hpc
  | create => simp only [pollerStep, hpc] at h; cases h; exact .create hpc
  | lock =>
    simp only [pollerStep, hpc] at h
    split at h
    · cases h; exact .lock (.inl hpc) (hfree ‹_›)
    · cases h
  | woken =>
    simp only [pollerStep, hpc] at h
    split at h
    · cases h; exact .lock (.inr hpc) (hfree ‹_›)
    · cases h
  | test =>
    simp only [pollerStep, hpc] at h
    cases ready with
    | true => cases h; exact .seesReady hpc rfl
    | false => cases h; exact .seesUnready hpc rfl
  | condWait => simp only [pollerStep, hpc] at h; cases h; exact .condWait hpc
  | unlock => simp only [pollerStep, hpc] at h; cases h; exact .unlock hpc
  | tssxPoll => simp only [pollerStep, hpc] at h; cases h; exact .tssxPoll hpc
  | join =>
    simp only [pollerStep, hpc] at h
    split at h
    · cases h; exact .join hpc
    · cases h

theorem readyMove (hfree : free = true → c.pc.holds = false)
    (h : readyStep free ready c = some (ready', c')) : PollerMove ready c ready' c' := by
  cases hn : c.normal with
  | absent | signal | finished => simp only [readyStep, hn] at h; cases h
  | lock =>
    simp only [readyStep, hn] at h
    split at h
    · cases h; exact .normalLock hn (hfree ‹_›)
    · cases h
  | setReady => simp only [readyStep, hn] at h; cases h; exact .setReady hn
  | unlock => simp only [readyStep, hn] at h; cases h; exact .normalUnlock hn
  | normalPoll => simp only [readyStep, hn] at h; cases h; exact .normalPoll hn

theorem free_holds (hf : s.free = true) (hi : s.pollers[i]? = some c) :
    c.pc.holds = false ∧ c.normal.holds = false := by
  have h := List.all_eq_true.mp hf c (List.mem_of_getElem? hi)
  simpa using h

theorem wake_cases (h : s.wake i = some t) :
    ∃ c, s.pollers[i]? = some c ∧ c.pc = .waiting ∧
      t = s.put i s.ready { c with pc := .woken } := by
  obtain ⟨c, hi, h⟩ := Option.bind_eq_some_iff.mp h
  split at h
  · exact ⟨c, hi, ‹_›, (Option.some.inj h).symm⟩
  · cases h

/-- **What a step can do**: one caller or its normal thread moves, or a signal wakes a waiter. -/
theorem startStep_cases {a : StartAction} (h : startStep s a = some t) :
    (∃ i c ready' c', s.pollers[i]? = some c ∧ PollerMove s.ready c ready' c' ∧
      t = s.put i ready' c' ∧ (c.pc = .reset → c'.pc = .create → a = .poller i)) ∨
    ∃ i c, s.pollers[i]? = some c ∧ c.normal = .signal ∧
      (t = s.put i s.ready { c with normal := .unlock } ∧
          (∀ d ∈ t.pollers, d.pc ≠ .waiting) ∨
        ∃ j, (s.put i s.ready { c with normal := .unlock }).wake j = some t) := by
  cases a with
  | poller i =>
    obtain ⟨c, hi, h⟩ := Option.bind_eq_some_iff.mp h
    obtain ⟨⟨ready', c'⟩, hs, rfl⟩ := Option.map_eq_some_iff.mp h
    have hmove := pollerMove (fun hf => (free_holds hf hi).2) hs
    exact .inl ⟨i, c, ready', c', hi, hmove, rfl, fun _ _ => rfl⟩
  | createFails i =>
    obtain ⟨c, hi, h⟩ := Option.bind_eq_some_iff.mp h
    split at h
    · rename_i hpc
      obtain rfl := Option.some.inj h
      exact .inl ⟨i, c, _, _, hi, .createFails hpc, rfl, fun _ h => by cases h⟩
    · cases h
  | normal i =>
    obtain ⟨c, hi, h⟩ := Option.bind_eq_some_iff.mp h
    obtain ⟨⟨ready', c'⟩, hs, rfl⟩ := Option.map_eq_some_iff.mp h
    have hmove := readyMove (fun hf => (free_holds hf hi).1) hs
    refine .inl ⟨i, c, ready', c', hi, hmove, rfl, ?_⟩
    intro hreset hcreate
    simp only [readyStep] at hs
    repeat' split at hs
    all_goals cases hs
    all_goals rw [hreset] at hcreate; cases hcreate
  | signal i waiter =>
    obtain ⟨c, hi, h⟩ := Option.bind_eq_some_iff.mp h
    split at h
    · rename_i hn
      refine .inr ⟨i, c, hi, hn, ?_⟩
      cases waiter with
      | some j => exact .inr ⟨j, h⟩
      | none =>
        simp only at h
        split at h
        · obtain rfl := Option.some.inj h
          exact .inl ⟨rfl, ‹_›⟩
        · cases h
    · cases h
  | spurious i =>
    obtain ⟨c, hi, hpc, rfl⟩ := wake_cases h
    exact .inl ⟨i, c, _, _, hi, .wake hpc, rfl, fun h => by rw [hpc] at h; cases h⟩

/-! ### The invariant -/

/-- The normal thread of the call has set the flag. -/
def ReadyPc.raised : ReadyPc → Bool
  | .absent | .lock | .setReady => false
  | _ => true

/-- The normal thread of the call has sent its signal. -/
def ReadyPc.sent : ReadyPc → Bool
  | .unlock | .normalPoll | .finished => true
  | _ => false

theorem ReadyPc.completed_of_raised {pc : ReadyPc} (h : pc.raised = true)
    (hh : pc.holds = false) : pc.completed = true := by
  cases pc with
  | absent | lock | setReady => cases h
  | signal | unlock => cases hh
  | _ => rfl

theorem ReadyPc.sent_of_completed {pc : ReadyPc} (h : pc.completed = true) : pc.sent = true := by
  cases pc with
  | absent | lock | setReady | signal => cases h
  | _ => rfl

/-- What holds of a caller and its normal thread, with the flag. -/
structure Poller.Inv (ready : Bool) (c : Poller) : Prop where
  raised : c.pc.starting = true → ready = c.normal.raised
  created : c.pc = .create → c.normal = .absent
  exclusive : c.pc.holds = true → c.normal.holds = false
  waiting : c.pc = .condWait ∨ c.pc = .waiting → c.normal.sent = false
  absent : c.pc = .idle ∨ c.pc = .reset → c.normal = .absent
  left : c.pc.left = true → c.normal.completed = true

theorem Poller.Inv.flag (h : c.Inv ready) (hs : c.pc.starting = false) (ready' : Bool) :
    c.Inv ready' :=
  { h with raised := fun hst => by rw [hs] at hst; cases hst }

/-- The normal thread moves on, and neither takes the lock nor sends the signal. -/
theorem Poller.Inv.moveNormal (h : c.Inv ready) {normal : ReadyPc}
    (hr : c.pc.starting = true → ready' = normal.raised) (ha : c.normal ≠ .absent)
    (hh : c.pc.holds = true → normal.holds = false)
    (hs : c.pc = .condWait ∨ c.pc = .waiting → normal.sent = false)
    (hl : c.normal.completed = true → normal.completed = true) :
    Poller.Inv ready' { c with normal } where
  raised := hr
  created := fun hpc => absurd (h.created hpc) ha
  exclusive := hh
  waiting := hs
  absent := fun hpc => absurd (h.absent hpc) ha
  left := fun hpc => hl (h.left hpc)

/-- The caller finds the flag set by its own normal thread. -/
theorem Poller.Inv.seesReady (h : c.Inv ready) (hpc : c.pc = .test) (hr : ready = true) :
    Poller.Inv ready { c with pc := .unlock } := by
  have hraised := h.raised (by rw [hpc]; rfl)
  have hn := h.exclusive (by rw [hpc]; rfl)
  exact { raised := nofun, created := nofun
          exclusive := fun _ => hn
          waiting := by rintro (hw | hw) <;> cases hw
          absent := by rintro (hw | hw) <;> cases hw
          left := fun _ => ReadyPc.completed_of_raised (hraised.symm.trans hr) hn }

/-- The caller finds the flag unset, so that the signal is still to come. -/
theorem Poller.Inv.seesUnready (h : c.Inv ready) (hpc : c.pc = .test) (hr : ready = false) :
    Poller.Inv ready { c with pc := .condWait } := by
  have hraised := h.raised (by rw [hpc]; rfl)
  have hunraised : c.normal.raised = false := hraised.symm.trans hr
  have hunsent : c.normal.sent = false := by
    cases hn : c.normal <;> rw [hn] at hunraised <;> first | rfl | cases hunraised
  exact { raised := fun _ => hraised
          created := nofun, left := nofun
          exclusive := fun _ => h.exclusive (by rw [hpc]; rfl)
          waiting := fun _ => hunsent
          absent := by rintro (hw | hw) <;> cases hw }

theorem Poller.Inv.setReady (h : c.Inv ready) (hn : c.normal = .setReady) :
    Poller.Inv true { c with normal := .signal } := by
  refine h.moveNormal (fun _ => rfl) (by rw [hn]; nofun) ?_ (fun _ => rfl) ?_
  · intro hh
    have hfree := h.exclusive hh
    rw [hn] at hfree
    cases hfree
  · intro hc
    rw [hn] at hc
    cases hc

/-- The normal thread goes on after its signal. -/
theorem Poller.Inv.goesOn (h : c.Inv ready) {normal : ReadyPc} (hsent : c.normal.sent = true)
    (hr : c.normal.raised = normal.raised) (ha : c.normal ≠ .absent)
    (hh : normal.holds = false) (hc : normal.completed = true) :
    Poller.Inv ready { c with normal } := by
  refine h.moveNormal (fun hs => (h.raised hs).trans hr) ha (fun _ => hh) ?_ (fun _ => hc)
  intro hw
  rw [h.waiting hw] at hsent
  cases hsent

/-- **One caller or its normal thread moves.** -/
theorem Poller.Inv.move (h : c.Inv ready) (hm : PollerMove ready c ready' c') :
    c'.Inv ready' := by
  cases hm with
  | begin hpc =>
    exact { raised := nofun, created := nofun, exclusive := nofun, left := nofun
            waiting := by rintro (hw | hw) <;> cases hw
            absent := fun _ => h.absent (.inl hpc) }
  | reset hpc =>
    have hn := h.absent (.inr hpc)
    exact { raised := fun _ => by rw [hn]; rfl
            created := fun _ => hn
            exclusive := nofun, left := nofun
            waiting := by rintro (hw | hw) <;> cases hw
            absent := by rintro (hw | hw) <;> cases hw }
  | create hpc =>
    have hr := h.raised (by rw [hpc]; rfl)
    rw [h.created hpc] at hr
    exact { raised := fun _ => hr
            created := nofun, exclusive := nofun, left := nofun
            waiting := by rintro (hw | hw) <;> cases hw
            absent := by rintro (hw | hw) <;> cases hw }
  | createFails hpc =>
    exact { raised := nofun, created := nofun, exclusive := nofun, left := nofun
            waiting := by rintro (hw | hw) <;> cases hw
            absent := fun _ => h.created hpc }
  | lock hpc hn =>
    exact { raised := fun _ => h.raised (by rcases hpc with hpc | hpc <;> rw [hpc] <;> rfl)
            created := nofun, left := nofun
            exclusive := fun _ => hn
            waiting := by rintro (hw | hw) <;> cases hw
            absent := by rintro (hw | hw) <;> cases hw }
  | seesReady hpc hr => exact h.seesReady hpc hr
  | seesUnready hpc hr => exact h.seesUnready hpc hr
  | condWait hpc =>
    exact { raised := fun _ => h.raised (by rw [hpc]; rfl)
            created := nofun, exclusive := nofun, left := nofun
            waiting := fun _ => h.waiting (.inl hpc)
            absent := by rintro (hw | hw) <;> cases hw }
  | wake hpc =>
    exact { raised := fun _ => h.raised (by rw [hpc]; rfl)
            created := nofun, exclusive := nofun, left := nofun
            waiting := by rintro (hw | hw) <;> cases hw
            absent := by rintro (hw | hw) <;> cases hw }
  | unlock hpc | tssxPoll hpc =>
    exact { raised := nofun, created := nofun, exclusive := nofun
            waiting := by rintro (hw | hw) <;> cases hw
            absent := by rintro (hw | hw) <;> cases hw
            left := fun _ => h.left (by rw [hpc]; rfl) }
  | join hpc =>
    exact { raised := nofun, created := nofun, exclusive := nofun, left := nofun
            waiting := by rintro (hw | hw) <;> cases hw
            absent := fun _ => rfl }
  | normalLock hn hpc =>
    refine h.moveNormal (fun hs => ?_) (by rw [hn]; nofun) ?_ (fun _ => rfl) ?_
    · rw [h.raised hs, hn]
      rfl
    · intro hh
      rw [hpc] at hh
      cases hh
    · intro hc
      rw [hn] at hc
      cases hc
  | setReady hn => exact h.setReady hn
  | normalUnlock hn | normalPoll hn =>
    refine h.goesOn ?_ ?_ ?_ rfl rfl <;> rw [hn] <;> first | rfl | nofun

/-- At most one caller is on its way. -/
structure StartUpInv (s : StartUp) : Prop where
  poller : ∀ (i : Nat) c, s.pollers[i]? = some c → c.Inv s.ready
  alone : ∀ (i j : Nat) c d, s.pollers[i]? = some c → s.pollers[j]? = some d →
    c.pc.starting = true → d.pc.starting = true → i = j

theorem startUpInv_init (n : Nat) : StartUpInv (.init n) := by
  have hidle : ∀ (i : Nat) c, (StartUp.init n).pollers[i]? = some c →
      c = { pc := .idle, normal := .absent } :=
    fun i c hi => List.eq_of_mem_replicate (List.mem_of_getElem? hi)
  refine ⟨?_, ?_⟩
  · intro i c hi
    rw [hidle i c hi]
    exact { raised := nofun, created := nofun, exclusive := nofun, left := nofun
            waiting := by rintro (hw | hw) <;> cases hw
            absent := fun _ => rfl }
  · intro i j c d hi _ hc
    rw [hidle i c hi] at hc
    cases hc

theorem Poller.Inv.starting (h : c.Inv ready) (ha : c.normal ≠ .absent)
    (hc : c.normal.completed = false) : c.pc.starting = true := by
  cases hpc : c.pc with
  | idle => exact absurd (h.absent (.inl hpc)) ha
  | reset => exact absurd (h.absent (.inr hpc)) ha
  | unlock | tssxPoll | join =>
    have hdone := h.left (by rw [hpc]; rfl)
    rw [hc] at hdone
    cases hdone
  | _ => rfl

theorem PollerMove.same_ready (h : PollerMove ready c ready' c') (hs : c.normal ≠ .setReady) :
    ready' = ready ∨ c.pc = .reset ∧ c'.pc = .create := by
  cases h with
  | reset hpc => exact .inr ⟨hpc, rfl⟩
  | setReady hn => exact absurd hn hs
  | _ => exact .inl rfl

theorem PollerMove.starting (h : PollerMove ready c ready' c') (hs : c'.pc.starting = true) :
    c.pc.starting = true ∨ c.pc = .reset ∧ c'.pc = .create := by
  cases h with
  | reset hpc => exact .inr ⟨hpc, rfl⟩
  | lock hpc _ => left; rcases hpc with hpc | hpc <;> rw [hpc] <;> rfl
  | create hpc | seesUnready hpc _ | condWait hpc | wake hpc => left; rw [hpc]; rfl
  | begin | createFails | seesReady | unlock | tssxPoll | join => cases hs
  | normalLock | setReady | normalUnlock | normalPoll => exact .inl hs

namespace StartUpInv

/-- One caller changes; the others see it in the flag and in whether it is on its way. -/
theorem put (h : StartUpInv s) (hi : s.pollers[i]? = some c) (hc : c'.Inv ready')
    (hothers : ready' = s.ready ∧ (c'.pc.starting = true → c.pc.starting = true) ∨
      ∀ (j : Nat) d, j ≠ i → s.pollers[j]? = some d → d.pc.starting = false) :
    StartUpInv (s.put i ready' c') := by
  have hself : (s.pollers.set i c')[i]? = some c' := Parties.getElem?_set_self hi
  have hstarting : ∀ (j : Nat) d, j ≠ i → s.pollers[j]? = some d → c'.pc.starting = true →
      d.pc.starting = false := by
    intro j d hj hjd hs
    rcases hothers with ⟨-, hold⟩ | halone
    · by_contra hd
      exact hj (h.alone j i d c hjd hi (Bool.not_eq_false _ |>.mp hd) (hold hs))
    · exact halone j d hj hjd
  constructor
  · refine Parties.forall_getElem?_set hi hc ?_
    intro j d hj hjd
    rcases hothers with ⟨hr, -⟩ | halone
    · have hinv := h.poller j d hjd
      rw [← hr] at hinv
      exact hinv
    · exact (h.poller j d hjd).flag (halone j d hj hjd) ready'
  · intro j k d e hjd hke hd he
    by_cases hj : j = i
    · subst hj
      obtain rfl := Option.some.inj (hself.symm.trans hjd)
      by_contra hk
      have hke' := (Parties.getElem?_set_other (Ne.symm hk)).mp hke
      rw [hstarting k e (Ne.symm hk) hke' hd] at he
      cases he
    · have hjd' := (Parties.getElem?_set_other hj).mp hjd
      by_cases hk : k = i
      · subst hk
        obtain rfl := Option.some.inj (hself.symm.trans hke)
        rw [hstarting j d hj hjd' he] at hd
        cases hd
      · exact h.alone j k d e hjd' ((Parties.getElem?_set_other hk).mp hke) hd he

theorem move (h : StartUpInv s) (hi : s.pollers[i]? = some c) (hm : PollerMove s.ready c ready' c')
    (hreset : c.pc = .reset → c'.pc = .create →
      ∀ (j : Nat) d, j ≠ i → s.pollers[j]? = some d → d.pc.starting = false) :
    StartUpInv (s.put i ready' c') := by
  have hc := h.poller i c hi
  refine h.put hi (hc.move hm) ?_
  by_cases hr : c.pc = .reset ∧ c'.pc = .create
  · exact .inr (hreset hr.1 hr.2)
  by_cases hn : c.normal = .setReady
  · refine .inr ?_
    intro j d hj hjd
    by_contra hd
    have hs := hc.starting (by rw [hn]; nofun) (by rw [hn]; rfl)
    exact hj (h.alone j i d c hjd hi (Bool.not_eq_false _ |>.mp hd) hs)
  · refine .inl ⟨(hm.same_ready hn).resolve_right hr, ?_⟩
    exact fun hs => (hm.starting hs).resolve_right hr

theorem signal (h : StartUpInv s) (hi : s.pollers[i]? = some c) (hn : c.normal = .signal)
    {pc : PollerPc} (hpc : pc = c.pc ∧ pc ≠ .waiting ∨ c.pc = .waiting ∧ pc = .woken) :
    StartUpInv (s.put i s.ready { pc, normal := .unlock }) := by
  have hc := h.poller i c hi
  have hstart : c.pc.starting = true := hc.starting (by rw [hn]; nofun) (by rw [hn]; rfl)
  have hready : s.ready = true := (hc.raised hstart).trans (by rw [hn]; rfl)
  have hfree : c.pc.holds = false := by
    by_contra hh
    have hx := hc.exclusive (Bool.not_eq_false _ |>.mp hh)
    rw [hn] at hx
    cases hx
  have hcreate : c.pc ≠ .create := by
    intro hp
    have ha := hc.created hp
    rw [hn] at ha
    cases ha
  refine h.put hi ?_ (.inl ⟨rfl, fun _ => hstart⟩)
  rcases hpc with ⟨rfl, hw⟩ | ⟨-, rfl⟩
  · exact { raised := fun _ => hready
            created := fun hp => absurd hp hcreate
            exclusive := fun hh => by rw [hfree] at hh; cases hh
            waiting := by
              rintro (hp | hp)
              · rw [show c.pc = .condWait from hp] at hfree
                cases hfree
              · exact absurd hp hw
            absent := by
              rintro (hp | hp) <;> rw [show c.pc = _ from hp] at hstart <;> cases hstart
            left := fun hl => by cases hp : c.pc <;> simp_all [PollerPc.starting, PollerPc.left] }
  · exact { raised := fun _ => hready
            created := nofun, exclusive := nofun, left := nofun
            waiting := by rintro (hp | hp) <;> cases hp
            absent := by rintro (hp | hp) <;> cases hp }

theorem step (h : StartUpInv s) {a : StartAction} (ha : ResetsAlone s a)
    (hs : startStep s a = some t) : StartUpInv t := by
  rcases startStep_cases hs with ⟨i, c, ready', c', hi, hm, rfl, hpoller⟩ |
    ⟨i, c, hi, hn, ⟨rfl, hnone⟩ | ⟨j, hwake⟩⟩
  · refine h.move hi hm ?_
    intro hreset hcreate j d hj hjd
    obtain rfl := hpoller hreset hcreate
    exact ha c hi hreset j (List.getElem?_eq_some_iff.mp hjd).1 hj d hjd
  · have hself := Parties.getElem?_set_self (y := { c with normal := .unlock }) hi
    have hawake : c.pc ≠ .waiting :=
      hnone { c with normal := .unlock } (List.mem_of_getElem? hself)
    exact h.signal hi hn (.inl ⟨rfl, hawake⟩)
  · obtain ⟨d, hjd, hw, rfl⟩ := wake_cases hwake
    by_cases hj : j = i
    · subst hj
      obtain rfl := Option.some.inj ((Parties.getElem?_set_self hi).symm.trans hjd)
      have hinv := h.signal hi hn (.inr ⟨hw, rfl⟩)
      simpa [StartUp.put] using hinv
    · have hjd' := (Parties.getElem?_set_other hj).mp hjd
      have hcw : c.pc ≠ .waiting := by
        intro hcw
        exact hj (h.alone j i d c hjd' hi (by rw [hw]; rfl) (by rw [hcw]; rfl))
      have hinv := h.signal hi hn (.inl ⟨rfl, hcw⟩)
      exact hinv.move hjd (.wake hw) fun hp => by rw [hw] at hp; cases hp

theorem safe (h : StartUpInv s) : s.Safe := by
  constructor
  · intro c hc hw hdone
    obtain ⟨i, hi⟩ := List.mem_iff_getElem?.mp hc
    have hsent := (h.poller i c hi).waiting (.inr hw)
    rw [ReadyPc.sent_of_completed hdone] at hsent
    cases hsent
  · intro c hc hl
    obtain ⟨i, hi⟩ := List.mem_iff_getElem?.mp hc
    exact (h.poller i c hi).left hl

end StartUpInv

/-- **Callers of `poll` start up without blocking each other** in every run in which each of
them resets the flag while no other is on its way. -/
theorem start_up_safe {n : Nat} {as : List StartAction}
    (hm : Run.Meets startStep ResetsAlone (.init n) as)
    (h : Run.Visits startStep (.init n) as t) : t.Safe := by
  have hinv : StartUpInv t := Run.visits_induct
    (fun _ _ _ hi ha hs => hi.step ha hs) (startUpInv_init n) hm h
  exact hinv.safe

/-- Two calls one after the other, the first of which waits for its normal thread. -/
private def oneByOne : List StartAction :=
  [.poller 0, .poller 0, .poller 0, .poller 0, .poller 0, .poller 0, .normal 0, .normal 0,
    .signal 0 (some 0), .normal 0, .poller 0, .poller 0, .poller 0, .poller 1, .poller 1,
    .poller 1, .normal 1, .normal 1, .signal 1 none, .normal 1, .poller 1, .poller 1]

theorem start_up_safe_at :
    ∃ s, Run.run startStep (.init 2) oneByOne = some s ∧ s.Safe := by
  have hrun : Run.run startStep (.init 2) oneByOne = some
      { ready := true
        pollers := [⟨.tssxPoll, .normalPoll⟩, ⟨.unlock, .normalPoll⟩] } := by decide
  exact ⟨_, hrun, start_up_safe (by decide) (Run.visits_self hrun)⟩

/-- **Two callers are enough.**  In the first run caller 1 resets the flag that the normal
thread of caller 0 has set, so caller 0 waits for a signal that was sent; the signal of the
other normal thread wakes caller 1.  In the second run the flag of caller 0 lets caller 1
leave before its own normal thread has begun. -/
theorem start_up_mixed :
    (∃ s, Run.Reaches startStep (.init 2) s ∧ ¬ s.Safe ∧
      ∃ c ∈ s.pollers, c.pc = .waiting ∧ c.normal.completed = true) ∧
      ∃ s, Run.Reaches startStep (.init 2) s ∧ ¬ s.Safe ∧
        ∃ c ∈ s.pollers, c.pc.left = true ∧ c.normal = .lock := by
  constructor
  · refine ⟨{ ready := true, pollers := [⟨.waiting, .normalPoll⟩, ⟨.woken, .normalPoll⟩] },
      ⟨[.poller 0, .poller 0, .poller 0, .normal 0, .normal 0, .signal 0 none, .normal 0,
        .poller 1, .poller 1, .poller 0, .poller 0, .poller 0, .poller 1, .poller 1, .poller 1,
        .poller 1, .normal 1, .normal 1, .signal 1 (some 1), .normal 1], by decide⟩, ?_, ?_⟩
    · intro h
      exact absurd (h.awake ⟨.waiting, .normalPoll⟩ (by decide) rfl rfl) (by decide)
    · exact ⟨⟨.waiting, .normalPoll⟩, by decide, rfl, rfl⟩
  · refine ⟨{ ready := true, pollers := [⟨.lock, .normalPoll⟩, ⟨.unlock, .lock⟩] },
      ⟨[.poller 0, .poller 0, .poller 1, .poller 1, .poller 0, .normal 0, .normal 0,
        .signal 0 none, .normal 0, .poller 1, .poller 1, .poller 1], by decide⟩, ?_, ?_⟩
    · intro h
      exact absurd (h.patient ⟨.unlock, .lock⟩ (by decide) rfl) (by decide)
    · exact ⟨⟨.unlock, .lock⟩, by decide, rfl, rfl⟩

end Tssx
