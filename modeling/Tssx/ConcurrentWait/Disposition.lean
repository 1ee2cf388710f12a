import Tssx.Definitions
import Tssx.Lib.Parties
import Tssx.Lib.Run

/-!
# The disposition of the poll signal

`_install_poll_signal_handler` and `_restore_old_signal_action` in `_concurrent_poll` and
`_concurrent_epoll_wait`.  The disposition of `POLL_SIGNAL` is one cell of the process, and
every call saves what it finds there, whoever has put it there.  Any number of threads make
such calls; what happens between the two functions is a step of `ConcurrentWait.lean` each
and only its outcome counts here: the value that a function of pthreads returns, or whether
`event_count` is an error.

The application's action is back after the last call if the calls that have found it are
the last to leave and leave through the restoration (`disposition_kept`).  A call of which
this is not true can lose it for good (`disposition_lost`).
-/

namespace Tssx

/-- A `struct sigaction`: one of the application's or the handler of the library. -/
inductive SigAction (α : Type)
  | application (a : α)
  | pollSignalHandler
  deriving DecidableEq

/-- `_concurrent_poll` or `_concurrent_epoll_wait`. -/
inductive WaitCall
  | poll
  | epoll
  deriving DecidableEq

/-- The next function of a call, with its `old_action` once it has one. -/
inductive CallPc (α : Type)
  | idle
  | install (call : WaitCall)
  /-- `_start_normal_poll_thread` or `_start_normal_epoll_wait_thread`. -/
  | create (call : WaitCall) (oldAction : SigAction α)
  /-- `_wait_for_normal_thread`. -/
  | waitReady (oldAction : SigAction α)
  | wait (call : WaitCall) (oldAction : SigAction α)
  | join (call : WaitCall) (oldAction : SigAction α)
  /-- `_there_was_an_error`. -/
  | check (oldAction : SigAction α)
  | restore (call : WaitCall) (oldAction : SigAction α)
  deriving DecidableEq

structure SignalState (α : Type) where
  disposition : SigAction α
  callers : List (CallPc α)
  deriving DecidableEq

variable {α : Type}

/-- The next function of a call returns `code`; the call ends with `idle`. -/
def callStep (disposition : SigAction α) (code : Int) :
    CallPc α → Option (SigAction α × CallPc α)
  | .idle => none
  | .install call =>
    some (if code = ERROR then (disposition, .idle)
      else (.pollSignalHandler, .create call disposition))
  | .create call oldAction =>
    some (disposition,
      if code ≠ SUCCESS then .idle
      else match call with
        | .poll => .waitReady oldAction
        | .epoll => .wait .epoll oldAction)
  | .waitReady oldAction =>
    some (disposition, if code = ERROR then .idle else .wait .poll oldAction)
  | .wait call oldAction => some (disposition, .join call oldAction)
  | .join .poll oldAction =>
    some (disposition, if code ≠ SUCCESS then .idle else .restore .poll oldAction)
  | .join .epoll oldAction =>
    some (disposition, if code = ERROR then .idle else .check oldAction)
  | .check oldAction =>
    some (disposition, if code = ERROR then .idle else .restore .epoll oldAction)
  | .restore _ oldAction => some (if code = ERROR then disposition else oldAction, .idle)

inductive SignalCall
  | begin (i : Nat) (call : WaitCall)
  | step (i : Nat) (code : Int)
  deriving DecidableEq

def signalStep (s : SignalState α) : SignalCall → Option (SignalState α)
  | .begin i call =>
    match s.callers[i]? with
    | some .idle => some { s with callers := s.callers.set i (.install call) }
    | _ => none
  | .step i code =>
    (s.callers[i]?).bind fun pc =>
      (callStep s.disposition code pc).map fun (disposition, pc') =>
        { disposition, callers := s.callers.set i pc' }

/-- `n` threads that make no call, and the disposition of the application. -/
def SignalState.init (disposition : SigAction α) (n : Nat) : SignalState α where
  disposition := disposition
  callers := List.replicate n .idle

/-- No call is in progress. -/
def SignalState.Quiet (s : SignalState α) : Prop := ∀ pc ∈ s.callers, pc = .idle

instance [DecidableEq α] (s : SignalState α) : Decidable s.Quiet :=
  inferInstanceAs (Decidable (∀ pc ∈ s.callers, pc = .idle))

/-- The `old_action` of a call that has installed the handler. -/
def CallPc.saved : CallPc α → Option (SigAction α)
  | .idle | .install _ => none
  | .create _ oldAction | .waitReady oldAction | .wait _ oldAction | .join _ oldAction
  | .check oldAction | .restore _ oldAction => some oldAction

/-- The function that returns `code` is the last one of the call. -/
def CallPc.ends (pc : CallPc α) (code : Int) : Bool :=
  match pc with
  | .idle | .wait _ _ => false
  | .install _ | .waitReady _ | .join .epoll _ | .check _ => code = ERROR
  | .create _ _ | .join .poll _ => code ≠ SUCCESS
  | .restore _ _ => true

/-- The call leaves through the restoration. -/
def CallPc.restores (pc : CallPc α) (code : Int) : Bool :=
  match pc with
  | .restore _ _ => code ≠ ERROR
  | _ => false

/-- A call that has found the application's action leaves through the restoration, when no
other call has the handler installed. -/
def LeavesLast (s : SignalState α) : SignalCall → Prop
  | .begin _ _ => True
  | .step i code => ∀ pc a, s.callers[i]? = some pc → pc.saved = some (.application a) →
      pc.ends code = true → pc.restores code = true ∧
        ∀ (j : Nat) other, j ≠ i → s.callers[j]? = some other → other.saved = none

instance (s : SignalState α) : ∀ a, Decidable (LeavesLast s a)
  | .begin _ _ => isTrue trivial
  | .step i code =>
    match hi : s.callers[i]? with
    | none => isTrue fun pc _ hpc => by rw [hi] at hpc; cases hpc
    | some pc =>
      match hsaved : pc.saved with
      | none => isTrue fun qc _ hqc hq => by
          obtain rfl := Option.some.inj (hi.symm.trans hqc)
          cases hsaved.symm.trans hq
      | some .pollSignalHandler => isTrue fun qc _ hqc hq => by
          obtain rfl := Option.some.inj (hi.symm.trans hqc)
          cases hsaved.symm.trans hq
      | some (.application _) =>
        decidable_of_iff
          (pc.ends code = true → pc.restores code = true ∧
            ∀ j < s.callers.length, j ≠ i → (s.callers[j]?).bind CallPc.saved = none) <| by
          constructor
          · intro h qc _ hqc _ hends
            obtain rfl := Option.some.inj (hi.symm.trans hqc)
            obtain ⟨hrestores, halone⟩ := h hends
            refine ⟨hrestores, ?_⟩
            intro j other hj hjo
            have hnone := halone j (List.getElem?_eq_some_iff.mp hjo).1 hj
            rwa [hjo] at hnone
          · intro h hends
            obtain ⟨hrestores, halone⟩ := h pc _ hi hsaved hends
            refine ⟨hrestores, ?_⟩
            intro j hlt hj
            rw [List.getElem?_eq_getElem hlt]
            exact halone j _ hj (List.getElem?_eq_getElem hlt)

/-! ### What a step can do -/

theorem callStep_checked {disposition disposition' : SigAction α} {code : Int}
    {pc pc' next : CallPc α} {failed : Prop} [Decidable failed]
    (hstep : callStep disposition code pc = some (disposition, if failed then .idle else next))
    (hends : pc.ends code = decide failed) (hrestores : pc.restores code = false)
    (hnext : next.saved = pc.saved) (h : callStep disposition code pc = some (disposition', pc')) :
    (pc.ends code = true ∧ pc'.saved = none ∧
      (if pc.restores code then pc.saved = some disposition' else disposition' = disposition)) ∨
    (pc.ends code = false ∧ pc'.saved = pc.saved ∧ disposition' = disposition) := by
  obtain ⟨rfl, rfl⟩ := Prod.mk.inj (Option.some.inj (hstep.symm.trans h))
  by_cases hf : failed
  · exact .inl ⟨by simp [hends, hf], by rw [if_pos hf]; rfl, by simp [hrestores]⟩
  · exact .inr ⟨by simp [hends, hf], by rw [if_neg hf, hnext], rfl⟩

/-- **The next function of a call**: it installs the handler, leaves with or without the
restoration, or changes nothing. -/
theorem callStep_cases {disposition disposition' : SigAction α} {code : Int} {pc pc' : CallPc α}
    (h : callStep disposition code pc = some (disposition', pc')) :
    (pc.saved = none ∧ pc'.saved = some disposition ∧ disposition' = .pollSignalHandler) ∨
    (pc.ends code = true ∧ pc'.saved = none ∧
      (if pc.restores code then pc.saved = some disposition' else disposition' = disposition)) ∨
    (pc.ends code = false ∧ pc'.saved = pc.saved ∧ disposition' = disposition) := by
  cases pc with
  | idle => cases h
  | install call =>
    by_cases hc : code = ERROR
    · simp only [callStep, if_pos hc] at h
      cases h
      exact .inr (.inl ⟨by simp [CallPc.ends, hc], rfl, by simp [CallPc.restores]⟩)
    · simp only [callStep, if_neg hc] at h
      cases h
      exact .inl ⟨rfl, rfl, rfl⟩
  | create call oldAction => cases call <;> exact .inr (callStep_checked rfl rfl rfl rfl h)
  | waitReady oldAction | check oldAction => exact .inr (callStep_checked rfl rfl rfl rfl h)
  | wait call oldAction =>
    cases h
    exact .inr (.inr ⟨rfl, rfl, rfl⟩)
  | join call oldAction => cases call <;> exact .inr (callStep_checked rfl rfl rfl rfl h)
  | restore call oldAction =>
    cases h
    refine .inr (.inl ⟨rfl, rfl, ?_⟩)
    by_cases hc : code = ERROR <;> simp [CallPc.restores, CallPc.saved, hc]

/-- **What a step can do** to the disposition and to what the calls have saved. -/
theorem signalStep_cases {s t : SignalState α} {a : SignalCall} (h : signalStep s a = some t) :
    ∃ i pc pc', s.callers[i]? = some pc ∧ t.callers = s.callers.set i pc' ∧
      ((pc'.saved = pc.saved ∧ t.disposition = s.disposition) ∨
      (pc.saved = none ∧ pc'.saved = some s.disposition ∧ t.disposition = .pollSignalHandler) ∨
      ∃ code, a = .step i code ∧ pc.ends code = true ∧ pc'.saved = none ∧
        if pc.restores code then pc.saved = some t.disposition
        else t.disposition = s.disposition) := by
  cases a with
  | begin i call =>
    simp only [signalStep] at h
    split at h
    · rename_i hi
      obtain rfl := Option.some.inj h
      exact ⟨i, _, _, hi, rfl, .inl ⟨rfl, rfl⟩⟩
    · cases h
  | step i code =>
    obtain ⟨pc, hi, h⟩ := Option.bind_eq_some_iff.mp h
    obtain ⟨⟨disposition, pc'⟩, hcall, rfl⟩ := Option.map_eq_some_iff.mp h
    refine ⟨i, pc, pc', hi, rfl, ?_⟩
    rcases callStep_cases hcall with hinstall | ⟨hends, hnone, hrest⟩ | ⟨-, hsaved, hdisp⟩
    · exact .inr (.inl hinstall)
    · exact .inr (.inr ⟨code, rfl, hends, hnone, hrest⟩)
    · exact .inl ⟨hsaved, hdisp⟩

/-! ### The invariant -/

/-- No call has the handler installed, and the application's action is in place; or the
handler is, and one call has the application's action. -/
def DispositionInv (original : SigAction α) (s : SignalState α) : Prop :=
  (s.disposition = original ∧ ∀ (j : Nat) pc, s.callers[j]? = some pc →
    ∀ saved, pc.saved = some saved → saved = original ∧ original = .pollSignalHandler) ∨
  (s.disposition = .pollSignalHandler ∧ ∃ i pc, s.callers[i]? = some pc ∧
    pc.saved = some original ∧ ∀ (j : Nat) other, j ≠ i → s.callers[j]? = some other →
      ∀ saved, other.saved = some saved → saved = .pollSignalHandler)

section Invariant

variable {original : SigAction α} {s t : SignalState α}

theorem dispositionInv_init (original : SigAction α) (n : Nat) :
    DispositionInv original (.init original n) := by
  refine .inl ⟨rfl, ?_⟩
  intro j pc hj saved hsaved
  rw [List.eq_of_mem_replicate (List.mem_of_getElem? hj)] at hsaved
  cases hsaved

theorem DispositionInv.quiet (h : DispositionInv original s) (hq : s.Quiet) :
    s.disposition = original := by
  rcases h with ⟨hd, -⟩ | ⟨-, i, pc, hi, hsaved, -⟩
  · exact hd
  · rw [hq pc (List.mem_of_getElem? hi)] at hsaved
    cases hsaved

theorem DispositionInv.step (h : DispositionInv original s) {a : SignalCall}
    (hl : LeavesLast s a) (hs : signalStep s a = some t) : DispositionInv original t := by
  obtain ⟨i, pc, pc', hi, hcallers, hcases⟩ := signalStep_cases hs
  have hself : t.callers[i]? = some pc' := hcallers ▸ Parties.getElem?_set_self hi
  have hother : ∀ (j : Nat) other, j ≠ i → t.callers[j]? = some other →
      s.callers[j]? = some other := by
    intro j other hj hjo
    rw [hcallers] at hjo
    exact (Parties.getElem?_set_other hj).mp hjo
  rcases h with ⟨hd, hall⟩ | ⟨hd, i₀, pc₀, hi₀, hsaved₀, hall⟩
  · have hkept : ∀ (j : Nat) other, j ≠ i → s.callers[j]? = some other →
        ∀ saved, other.saved = some saved → saved = original ∧ original = .pollSignalHandler :=
      fun j other _ hjo => hall j other hjo
    rcases hcases with ⟨hsame, hdisp⟩ | ⟨-, hinstall, hdisp⟩ | ⟨code, -, -, hnone, hrest⟩
    · refine .inl ⟨hdisp.trans hd, hcallers ▸ Parties.forall_getElem?_set hi ?_ hkept⟩
      exact fun saved hsaved => hall i pc hi saved (hsame.symm.trans hsaved)
    · refine .inr ⟨hdisp, i, pc', hself, hd ▸ hinstall, ?_⟩
      intro j other hj hjo saved hsaved
      obtain ⟨rfl, ho⟩ := hall j other (hother j other hj hjo) saved hsaved
      exact ho
    · refine .inl ⟨?_, hcallers ▸ Parties.forall_getElem?_set hi ?_ hkept⟩
      · split at hrest
        · exact (hall i pc hi _ hrest).1
        · exact hrest.trans hd
      · intro saved hsaved
        rw [hnone] at hsaved
        cases hsaved
  · by_cases hi' : i₀ = i
    · -- the step of the call that has the application's action
      subst hi'
      obtain rfl := Option.some.inj (hi.symm.trans hi₀)
      have hothers : ∀ (j : Nat) other, j ≠ i₀ → t.callers[j]? = some other →
          ∀ saved, other.saved = some saved → saved = .pollSignalHandler :=
        fun j other hj hjo => hall j other hj (hother j other hj hjo)
      rcases hcases with ⟨hsame, hdisp⟩ | ⟨hnone, -, -⟩ | ⟨code, rfl, hends, hnone, hrest⟩
      · exact .inr ⟨hdisp.trans hd, i₀, pc', hself, hsame.trans hsaved₀, hothers⟩
      · rw [hnone] at hsaved₀
        cases hsaved₀
      · have hgone : ∀ (j : Nat) other, t.callers[j]? = some other →
            ∀ saved, other.saved = some saved → j ≠ i₀ := by
          rintro j other hjo saved hsaved rfl
          obtain rfl := Option.some.inj (hself.symm.trans hjo)
          rw [hnone] at hsaved
          cases hsaved
        cases original with
        | application a =>
          obtain ⟨hrestores, halone⟩ := hl pc a hi hsaved₀ hends
          rw [if_pos hrestores, hsaved₀, Option.some.injEq] at hrest
          refine .inl ⟨hrest.symm, ?_⟩
          intro j other hjo saved hsaved
          have hj := hgone j other hjo saved hsaved
          rw [halone j other hj (hother j other hj hjo)] at hsaved
          cases hsaved
        | pollSignalHandler =>
          refine .inl ⟨?_, ?_⟩
          · split at hrest
            · exact Option.some.inj (hrest.symm.trans hsaved₀)
            · exact hrest.trans hd
          · intro j other hjo saved hsaved
            have hj := hgone j other hjo saved hsaved
            exact ⟨hothers j other hj hjo saved hsaved, rfl⟩
    · have hkept : t.callers[i₀]? = some pc₀ := by
        rw [hcallers]
        exact (Parties.getElem?_set_other hi').mpr hi₀
      have hpoll : ∀ saved, pc.saved = some saved → saved = .pollSignalHandler :=
        hall i pc (Ne.symm hi') hi
      refine .inr ⟨?_, i₀, pc₀, hkept, hsaved₀, ?_⟩
      · rcases hcases with ⟨-, hdisp⟩ | ⟨-, -, hdisp⟩ | ⟨code, -, -, -, hrest⟩
        · exact hdisp.trans hd
        · exact hdisp
        · split at hrest
          · exact hpoll _ hrest
          · exact hrest.trans hd
      · intro j other hj hjo saved hsaved
        by_cases hji : j = i
        · subst hji
          obtain rfl := Option.some.inj (hself.symm.trans hjo)
          rcases hcases with ⟨hsame, -⟩ | ⟨-, hinstall, -⟩ | ⟨code, -, -, hnone, -⟩
          · exact hpoll saved (hsame.symm.trans hsaved)
          · rw [hinstall, hd] at hsaved
            exact (Option.some.inj hsaved).symm
          · rw [hnone] at hsaved
            cases hsaved
        · exact hall j other hj (hother j other hji hjo) saved hsaved

end Invariant

/-- **The disposition survives** every run in which the calls that have found it leave last
and through the restoration. -/
theorem disposition_kept {original : SigAction α} {n : Nat} {as : List SignalCall}
    {t : SignalState α} (hl : Run.Meets signalStep LeavesLast (.init original n) as)
    (h : Run.Visits signalStep (.init original n) as t) (hq : t.Quiet) :
    t.disposition = original := by
  have hinv : DispositionInv original t := Run.visits_induct
    (fun _ _ _ hi hc hs => hi.step hc hs) (dispositionInv_init original n) hl h
  exact hinv.quiet hq

/-- A wait for epoll events inside a call of `poll`. -/
private def nested : List SignalCall :=
  [.begin 0 .poll, .step 0 0, .begin 1 .epoll, .step 1 0, .step 1 0, .step 1 0, .step 1 0,
    .step 1 1, .step 1 0, .step 0 0, .step 0 0, .step 0 2, .step 0 0, .step 0 0]

theorem disposition_kept_at :
    ∃ t, Run.Visits signalStep (.init (.application 'h') 2) nested t ∧
      t.disposition = .application 'h' :=
  have hrun : Run.run signalStep (.init (.application 'h') 2) nested =
      some (.init (.application 'h') 2) := by decide
  ⟨_, Run.visits_self hrun,
    disposition_kept (by decide) (Run.visits_self hrun) (by decide)⟩

/-- Two calls of `poll`, the first of which ends first. -/
private def overlapping : List SignalCall :=
  [.begin 0 .poll, .begin 1 .poll, .step 0 0, .step 1 0, .step 0 0, .step 1 0, .step 0 0,
    .step 1 0, .step 0 1, .step 1 1, .step 0 0, .step 1 0, .step 0 0, .step 1 0]

/-- Nothing has failed, no call is in progress and the application's action is gone: the call
that ends last puts back what it has found, the handler of the other. -/
theorem disposition_replaced :
    ∃ t, Run.run signalStep (.init (.application 'h') 2) overlapping = some t ∧ t.Quiet ∧
      t.disposition ≠ .application 'h' :=
  ⟨.init .pollSignalHandler 2, by decide, by decide, by decide⟩

/-! ### A call that does not leave last -/

section Lost

variable {s t : SignalState α} {i : Nat}

def SignalState.put (s : SignalState α) (disposition : SigAction α) (i : Nat) (pc : CallPc α) :
    SignalState α :=
  { disposition, callers := s.callers.set i pc }

theorem step_put (hi : i < s.callers.length) {disposition disposition' : SigAction α}
    {pc pc' : CallPc α} (h : callStep disposition SUCCESS pc = some (disposition', pc')) :
    Run.Reaches signalStep (s.put disposition i pc) (s.put disposition' i pc') := by
  apply Run.Reaches.single (a := .step i SUCCESS)
  simp [signalStep, SignalState.put, List.getElem?_set_self hi, h]

theorem finish_call (hi : i < s.callers.length) (disposition : SigAction α) (pc : CallPc α) :
    ∃ disposition', Run.Reaches signalStep (s.put disposition i pc) (s.put disposition' i .idle) ∧
      ∀ saved, pc.saved = some saved → disposition' = saved := by
  have restored : ∀ call old d, Run.Reaches signalStep (s.put d i (.restore call old))
      (s.put old i .idle) := fun call old d => step_put hi rfl
  have joined : ∀ call old d, Run.Reaches signalStep (s.put d i (.join call old))
      (s.put old i .idle) := by
    intro call old d
    cases call with
    | poll => exact (step_put hi rfl).trans (restored .poll old d)
    | epoll =>
      have checked : Run.Reaches signalStep (s.put d i (.check old)) (s.put d i
        (.restore .epoll old)) := step_put hi rfl
      exact ((step_put hi rfl).trans checked).trans (restored .epoll old d)
  have waited : ∀ call old d, Run.Reaches signalStep (s.put d i (.wait call old))
      (s.put old i .idle) := fun call old d => (step_put hi rfl).trans (joined call old d)
  have created : ∀ call old d, Run.Reaches signalStep (s.put d i (.create call old))
      (s.put old i .idle) := by
    intro call old d
    cases call with
    | poll =>
      have ready : Run.Reaches signalStep (s.put d i (.waitReady old)) (s.put d i
        (.wait .poll old)) := step_put hi rfl
      exact ((step_put hi rfl).trans ready).trans (waited .poll old d)
    | epoll => exact (step_put hi rfl).trans (waited .epoll old d)
  cases pc with
  | idle => exact ⟨disposition, .refl _, by simp [CallPc.saved]⟩
  | install call =>
    refine ⟨disposition, ?_, by simp [CallPc.saved]⟩
    exact (step_put hi rfl).trans (created call disposition .pollSignalHandler)
  | create call old => exact ⟨old, created call old disposition, by simp [CallPc.saved]⟩
  | waitReady old =>
    refine ⟨old, ?_, by simp [CallPc.saved]⟩
    exact (step_put hi rfl).trans (waited .poll old disposition)
  | wait call old => exact ⟨old, waited call old disposition, by simp [CallPc.saved]⟩
  | join call old => exact ⟨old, joined call old disposition, by simp [CallPc.saved]⟩
  | check old =>
    refine ⟨old, ?_, by simp [CallPc.saved]⟩
    exact (step_put hi rfl).trans (restored .epoll old disposition)
  | restore call old => exact ⟨old, restored call old disposition, by simp [CallPc.saved]⟩

theorem SignalState.put_self {pc : CallPc α} (h : s.callers[i]? = some pc) :
    s.put s.disposition i pc = s := by
  obtain ⟨hlt, rfl⟩ := List.getElem?_eq_some_iff.mp h
  rw [SignalState.put, List.set_getElem_self]

theorem finish_others (s : SignalState α) (last : Nat) (k : Nat) :
    ∃ t, Run.Reaches signalStep s t ∧ t.callers.length = s.callers.length ∧
      t.callers[last]? = s.callers[last]? ∧
      ∀ j < k, j ≠ last → ∀ pc, t.callers[j]? = some pc → pc = .idle := by
  induction k with
  | zero => exact ⟨s, .refl s, rfl, rfl, fun j hj => absurd hj (Nat.not_lt_zero j)⟩
  | succ k ih =>
    obtain ⟨t, hreach, hlen, hlast, hidle⟩ := ih
    by_cases hk : k = last ∨ t.callers.length ≤ k
    · refine ⟨t, hreach, hlen, hlast, ?_⟩
      intro j hj hjl pc hpc
      rcases Nat.lt_succ_iff_lt_or_eq.mp hj with hj | rfl
      · exact hidle j hj hjl pc hpc
      · rcases hk with hk | hk
        · exact absurd hk hjl
        · rw [List.getElem?_eq_none hk] at hpc
          cases hpc
    · obtain ⟨hkl, hlt⟩ := not_or.mp hk
      rw [Nat.not_le] at hlt
      obtain ⟨disposition, hfinish, -⟩ :=
        finish_call hlt t.disposition t.callers[k]
      rw [SignalState.put_self (List.getElem?_eq_getElem hlt)] at hfinish
      refine ⟨t.put disposition k .idle, hreach.trans hfinish, ?_, ?_, ?_⟩
      · rw [SignalState.put, List.length_set, hlen]
      · rw [SignalState.put, List.getElem?_set_ne hkl, hlast]
      · intro j hj hjl pc hpc
        by_cases hjk : j = k
        · subst hjk
          rw [SignalState.put, List.getElem?_set_self hlt] at hpc
          exact (Option.some.inj hpc).symm
        · rw [SignalState.put, List.getElem?_set_ne (Ne.symm hjk)] at hpc
          exact hidle j (by omega) hjl pc hpc

/-- Once only the library's own handler is saved, every call leaves it in place. -/
theorem DispositionInv.leavesLast (h : DispositionInv .pollSignalHandler s) (b : SignalCall) :
    LeavesLast s b := by
  cases b with
  | begin i call => trivial
  | step i code =>
    intro pc a hi hsaved _
    rcases h with ⟨-, hall⟩ | ⟨-, i₀, pc₀, hi₀, hsaved₀, hall⟩
    · cases (hall i pc hi _ hsaved).1
    · by_cases hne : i = i₀
      · subst hne
        obtain rfl := Option.some.inj (hi.symm.trans hi₀)
        rw [hsaved₀] at hsaved
        cases hsaved
      · cases hall i pc hne hi _ hsaved

theorem DispositionInv.reaches {u : SignalState α} (h : DispositionInv .pollSignalHandler s)
    (hr : Run.Reaches signalStep s u) : DispositionInv .pollSignalHandler u :=
  hr.induct (fun _ b _ hi hs => hi.step (hi.leavesLast b) hs) h

/-- **A call that does not leave last** can leave the library's own handler behind for good:
in some continuation all calls end and the application's action is not back. -/
theorem disposition_lost {a₀ : α} (h : DispositionInv (.application a₀) s) {b : SignalCall}
    (hb : ¬ LeavesLast s b) (hs : signalStep s b = some t) :
    ∃ u, Run.Reaches signalStep t u ∧ u.Quiet ∧ u.disposition = .pollSignalHandler := by
  cases b with
  | begin i call => exact absurd trivial hb
  | step i code =>
    obtain ⟨pc, hi, hs⟩ := Option.bind_eq_some_iff.mp hs
    obtain ⟨⟨disposition, pc'⟩, hcall, rfl⟩ := Option.map_eq_some_iff.mp hs
    simp only [LeavesLast, not_forall] at hb
    obtain ⟨qc, a, hqc, hsaved, hends, hb⟩ := hb
    obtain rfl := Option.some.inj (hi.symm.trans hqc)
    rcases h with ⟨-, hall⟩ | ⟨hd, i₀, pc₀, hi₀, -, hall⟩
    · cases (hall i pc hi _ hsaved).2
    obtain rfl : i = i₀ := by
      by_contra hne
      cases hall i pc hne hi _ hsaved
    obtain ⟨hnone, hrest⟩ : pc'.saved = none ∧
        if pc.restores code then pc.saved = some disposition
        else disposition = s.disposition := by
      rcases callStep_cases hcall with ⟨hn, -, -⟩ | ⟨-, hn, hr⟩ | ⟨he, -, -⟩
      · rw [hn] at hsaved
        cases hsaved
      · exact ⟨hn, hr⟩
      · rw [hends] at he
        cases he
    by_cases hr : pc.restores code = true
    · -- another call has the handler installed, and puts it back after this one
      have hne : ¬ ∀ (j : Nat) other, j ≠ i → s.callers[j]? = some other → other.saved = none :=
        fun halone => hb ⟨hr, halone⟩
      simp only [not_forall] at hne
      obtain ⟨j, other, hj, hjo, hsome⟩ := hne
      obtain ⟨saved, hother⟩ := Option.ne_none_iff_exists'.mp hsome
      obtain rfl := hall j other hj hjo saved hother
      obtain ⟨u, hreach, hlen, hlast, hidle⟩ := finish_others
        (s := { disposition, callers := s.callers.set i pc' }) j (s.callers.set i pc').length
      rw [(Parties.getElem?_set_other hj).mpr hjo] at hlast
      have hlt : j < u.callers.length := (List.getElem?_eq_some_iff.mp hlast).1
      obtain ⟨disposition', hfinish, hback⟩ := finish_call hlt u.disposition other
      rw [SignalState.put_self hlast] at hfinish
      refine ⟨u.put disposition' j .idle, hreach.trans hfinish, ?_, hback _ hother⟩
      intro pc hpc
      obtain ⟨k, hk⟩ := List.mem_iff_getElem?.mp hpc
      refine Parties.forall_getElem?_set (q := fun _ pc => pc = .idle) hlast rfl ?_ k pc hk
      exact fun k pc hkj hk => hidle k (hlen ▸ (List.getElem?_eq_some_iff.mp hk).1) hkj pc hk
    · -- nobody has the application's action any more
      rw [if_neg hr, hd] at hrest
      have hinv : DispositionInv .pollSignalHandler
          { disposition, callers := s.callers.set i pc' } := by
        refine .inl ⟨hrest, Parties.forall_getElem?_set hi ?_ ?_⟩
        · intro saved hsome
          rw [hnone] at hsome
          cases hsome
        · exact fun j other hj hjo saved hsome => ⟨hall j other hj hjo saved hsome, rfl⟩
      obtain ⟨u, hreach, hlen, -, hidle⟩ := finish_others
        (s := { disposition, callers := s.callers.set i pc' })
        (s.callers.set i pc').length (s.callers.set i pc').length
      have hquiet : u.Quiet := by
        intro pc hpc
        obtain ⟨k, hk⟩ := List.mem_iff_getElem?.mp hpc
        have hlt : k < (s.callers.set i pc').length := hlen ▸ (List.getElem?_eq_some_iff.mp hk).1
        exact hidle k hlt (Nat.ne_of_lt hlt) pc hk
      exact ⟨u, hreach, hquiet, (hinv.reaches hreach).quiet hquiet⟩

end Lost

end Tssx
