import Tssx.ConcurrentWait

/-!
# The two threads step by step

`WaitMove` lists the steps of a concurrent wait, one constructor for each access and each
branch behind it.  `WaitInv` is what every state of every interleaving satisfies: the counter
is the sum of the local counts added so far, unless the normal thread has stored its error.

`memory_reaches` is the rule for the memory of a call, which only scans, the real call and the
return change.
-/

namespace Tssx

variable {ο μ ρ : Type} {c : ConcurrentWait ο μ ρ} {s t : WaitState ο μ ρ} {a : WaitAction ο ρ}
  {memory : μ} {blocked : Bool}

/-- The steps of the two threads. -/
inductive WaitMove (c : ConcurrentWait ο μ ρ) (s : WaitState ο μ ρ) :
    WaitAction ο ρ → WaitState ο μ ρ → Prop
  | ready (hpc : s.tssx = .waitReady) (hr : s.ready = true) :
      WaitMove c s .tssx { s with tssx := .scan }
  | scan (o : ο) (found : Nat) (memory : μ) (hpc : s.tssx = .scan)
      (hs : c.scan o s.memory s.found = some (found, memory)) :
      WaitMove c s (.scan o) { s with tssx := .load, observed := some o, found, memory }
  | seesError (hpc : s.tssx = .load) (he : s.eventCount = ERROR) :
      WaitMove c s .tssx { s with tssx := .join }
  | seesEvents (hpc : s.tssx = .load) (he : s.eventCount ≠ ERROR) (h0 : s.eventCount ≠ 0) :
      WaitMove c s .tssx { s with tssx := .add }
  | hasEvents (hpc : s.tssx = .load) (h0 : s.eventCount = 0) (hf : 0 < s.found) :
      WaitMove c s .tssx { s with tssx := .kill }
  | hasNone (hpc : s.tssx = .load) (h0 : s.eventCount = 0) (hf : s.found = 0) :
      WaitMove c s .tssx { s with tssx := .timeout }
  | kill (hpc : s.tssx = .kill) :
      WaitMove c s .tssx { s with pending := true, sent := true, tssx := .add }
  | elapsed (now : Nat) (hpc : s.tssx = .timeout) :
      WaitMove c s (.clock now) { s with tssx := .add }
  | again (now : Nat) (hpc : s.tssx = .timeout) :
      WaitMove c s (.clock now) { s with tssx := .scan }
  | add (hpc : s.tssx = .add) :
      WaitMove c s .tssx { s with eventCount := s.eventCount + s.found, tssx := .join }
  | join (hpc : s.tssx = .join) (hn : s.normal = .finished) :
      WaitMove c s .tssx { s with tssx := .joined }
  | finish (memory : μ) (hpc : s.tssx = .joined)
      (hf : c.finish s.eventCount (c.normalTaskCount s.result) s.found s.memory = some memory) :
      WaitMove c s .tssx { s with memory, tssx := .returned s.eventCount }
  | signal (hpc : s.normal = .signalReady) :
      WaitMove c s .normal { s with ready := true, normal := .loadFirst }
  | seesNone (hpc : s.normal = .loadFirst) (h0 : s.eventCount = 0) :
      WaitMove c s .normal { s with normal := .enterWait }
  | skip (hpc : s.normal = .loadFirst) (h0 : s.eventCount ≠ 0) :
      WaitMove c s .normal { s with normal := .loadSecond }
  | enter (hpc : s.normal = .enterWait) : WaitMove c s .normal { s with normal := .waiting }
  | foreignError (hpc : s.normal = .loadSecond) (he : s.eventCount = ERROR) :
      WaitMove c s .normal { s with normal := .finished }
  | ownError (hpc : s.normal = .loadSecond) (he : s.eventCount ≠ ERROR)
      (hr : s.result = some .failed) : WaitMove c s .normal { s with normal := .storeError }
  | noEvents (hpc : s.normal = .loadSecond) (he : s.eventCount ≠ ERROR)
      (hr : s.result = some .interrupted) : WaitMove c s .normal { s with normal := .finished }
  | ownEvents (hpc : s.normal = .loadSecond) (he : s.eventCount ≠ ERROR)
      (hr : ∀ r, s.result = some r → ∃ found, r = .events found) :
      WaitMove c s .normal { s with normal := .addCount }
  | store (hpc : s.normal = .storeError) :
      WaitMove c s .normal { s with eventCount := ERROR, normal := .finished }
  | addCount (hpc : s.normal = .addCount) :
      WaitMove c s .normal
        { s with eventCount := s.eventCount + c.normalCount s.result, normal := .finished }
  | wake (r : WaitResult ρ) (hpc : s.normal = .waiting) :
      WaitMove c s (.wake r)
        { s with memory := c.recordResult r s.memory, result := some r, normal := .loadSecond }
  | interrupt (hpc : s.normal = .waiting) (hp : s.pending = true) (hb : s.blocked = false) :
      WaitMove c s .deliver
        { s with pending := false, result := some .interrupted, normal := .loadSecond }
  | handle (hpc : s.normal ≠ .waiting) (hp : s.pending = true) (hb : s.blocked = false) :
      WaitMove c s .deliver { s with pending := false }

theorem tssxMove (h : tssxStep c s = some t) : WaitMove c s .tssx t := by
  cases hpc : s.tssx with
  | waitReady =>
    simp only [tssxStep, hpc] at h
    split at h
    · obtain rfl := Option.some.inj h
      exact .ready hpc ‹_›
    · cases h
  | load =>
    simp only [tssxStep, hpc] at h
    split at h
    · obtain rfl := Option.some.inj h
      exact .seesError hpc ‹_›
    · split at h
      · obtain rfl := Option.some.inj h
        exact .seesEvents hpc ‹_› ‹_›
      · rename_i h0
        split at h <;> obtain rfl := Option.some.inj h
        · exact .hasEvents hpc (not_not.mp h0) ‹_›
        · exact .hasNone hpc (not_not.mp h0) (by omega)
  | kill =>
    simp only [tssxStep, hpc] at h
    obtain rfl := Option.some.inj h
    exact .kill hpc
  | add =>
    simp only [tssxStep, hpc] at h
    obtain rfl := Option.some.inj h
    exact .add hpc
  | join =>
    simp only [tssxStep, hpc] at h
    split at h
    · obtain rfl := Option.some.inj h
      exact .join hpc ‹_›
    · cases h
  | joined =>
    simp only [tssxStep, hpc] at h
    obtain ⟨memory, hf, rfl⟩ := Option.map_eq_some_iff.mp h
    exact .finish memory hpc hf
  | scan => simp only [tssxStep, hpc] at h; cases h
  | timeout => simp only [tssxStep, hpc] at h; cases h
  | returned => simp only [tssxStep, hpc] at h; cases h

theorem normalMove (h : normalStep c s = some t) : WaitMove c s .normal t := by
  cases hpc : s.normal with
  | signalReady =>
    simp only [normalStep, hpc] at h
    obtain rfl := Option.some.inj h
    exact .signal hpc
  | loadFirst =>
    simp only [normalStep, hpc] at h
    split at h <;> obtain rfl := Option.some.inj h
    · exact .seesNone hpc ‹_›
    · exact .skip hpc ‹_›
  | enterWait =>
    simp only [normalStep, hpc] at h
    obtain rfl := Option.some.inj h
    exact .enter hpc
  | loadSecond =>
    simp only [normalStep, hpc] at h
    split at h
    · obtain rfl := Option.some.inj h
      exact .foreignError hpc (beq_iff_eq.mp ‹_›)
    · rename_i he
      have hne : s.eventCount ≠ ERROR := fun heq => he (beq_iff_eq.mpr heq)
      split at h <;> obtain rfl := Option.some.inj h
      · exact .ownError hpc hne ‹_›
      · exact .noEvents hpc hne ‹_›
      · rename_i hf hi
        apply WaitMove.ownEvents hpc hne
        intro r hr
        cases r with
        | events found => exact ⟨found, rfl⟩
        | interrupted => exact absurd hr hi
        | failed => exact absurd hr hf
  | storeError =>
    simp only [normalStep, hpc] at h
    obtain rfl := Option.some.inj h
    exact .store hpc
  | addCount =>
    simp only [normalStep, hpc] at h
    obtain rfl := Option.some.inj h
    exact .addCount hpc
  | waiting => simp only [normalStep, hpc] at h; cases h
  | finished => simp only [normalStep, hpc] at h; cases h

/-- **What one step can do.** -/
theorem waitMove (h : waitStep c s a = some t) : WaitMove c s a t := by
  cases a with
  | tssx => exact tssxMove h
  | scan o =>
    simp only [waitStep] at h
    split at h
    · obtain ⟨⟨found, memory⟩, hs, rfl⟩ := Option.map_eq_some_iff.mp h
      exact .scan o found memory ‹_› hs
    · cases h
  | clock now =>
    simp only [waitStep] at h
    split at h
    · obtain rfl := Option.some.inj h
      split
      · exact .elapsed now ‹_›
      · exact .again now ‹_›
    · cases h
  | normal => exact normalMove h
  | wake r =>
    simp only [waitStep, wakeStep] at h
    split at h
    · obtain rfl := Option.some.inj h
      exact .wake r ‹_›
    · cases h
  | deliver =>
    simp only [waitStep, deliverStep] at h
    split at h
    · rename_i hp
      split at h <;> obtain rfl := Option.some.inj h
      · exact .interrupt ‹_› hp.1 hp.2
      · exact .handle ‹_› hp.1 hp.2
    · cases h

/-! ### The counter -/

/-- The scans of the TSSX thread so far have found nothing. -/
def TssxPc.unfound : TssxPc → Bool
  | .waitReady | .scan | .timeout => true
  | _ => false

/-- The TSSX thread makes no further addition. -/
def TssxPc.added : TssxPc → Bool
  | .join | .joined | .returned _ => true
  | _ => false

def TssxPc.pastJoin : TssxPc → Bool
  | .joined | .returned _ => true
  | _ => false

def TssxPc.isReturned : TssxPc → Bool
  | .returned _ => true
  | _ => false

theorem TssxPc.value_of_not_returned {pc : TssxPc} (h : pc.isReturned = false) :
    pc.value = none := by
  cases pc with
  | returned => cases h
  | _ => rfl

theorem TssxPc.eq_returned {pc : TssxPc} (h : pc.isReturned = true) :
    ∃ value, pc = .returned value := by
  cases pc with
  | returned value => exact ⟨value, rfl⟩
  | _ => cases h

/-- The normal thread has no result yet. -/
def NormalPc.unwaited : NormalPc → Bool
  | .signalReady | .loadFirst | .enterWait | .waiting => true
  | _ => false

/-- The real call failed with an error other than `EINTR`. -/
def WaitState.failed (s : WaitState ο μ ρ) : Bool := s.result.any WaitResult.isFailed

/-- The normal thread has stored its error. -/
def WaitState.stored (s : WaitState ο μ ρ) : Bool := s.normal == .finished && s.failed

/-- The normal thread's addition. -/
def WaitState.normalAdded (c : ConcurrentWait ο μ ρ) (s : WaitState ο μ ρ) : Nat :=
  if s.normal = .finished then c.normalCount s.result else 0

def WaitState.tssxAdded (s : WaitState ο μ ρ) : Nat := if s.tssx.added then s.found else 0

/-- What holds in every state of every interleaving. -/
structure WaitInv (c : ConcurrentWait ο μ ρ) (s : WaitState ο μ ρ) : Prop where
  unfound : s.tssx.unfound = true → s.found = 0
  killing : s.tssx = .kill → 0 < s.found
  unwaited : s.normal.unwaited = true → s.result = none
  storing : s.normal = .storeError → s.failed = true
  adding : s.normal = .addCount → s.failed = false
  counted : s.stored = false → s.eventCount = s.normalAdded c + s.tssxAdded
  overwritten : s.stored = true → s.eventCount = ERROR ∨ 0 ≤ s.eventCount
  joined : s.tssx.pastJoin = true → s.normal = .finished
  returned : ∀ value, s.tssx = .returned value → value = s.eventCount

theorem waitInv_init (c : ConcurrentWait ο μ ρ) (memory : μ) (blocked : Bool) :
    WaitInv c (c.init memory blocked) := by
  cases hh : c.handshake <;>
    refine ⟨?_, ?_, ?_, ?_, ?_, ?_, ?_, ?_, ?_⟩ <;>
    simp [ConcurrentWait.init, hh, WaitState.stored, WaitState.normalAdded, WaitState.tssxAdded,
      TssxPc.added, TssxPc.pastJoin]

theorem stored_of_running (h : s.normal ≠ .finished) : s.stored = false := by
  simp [WaitState.stored, h]

theorem stored_of_finished (h : s.normal = .finished) : s.stored = s.failed := by
  simp [WaitState.stored, h]

theorem normalAdded_of_running (h : s.normal ≠ .finished) : s.normalAdded c = 0 := if_neg h

theorem tssxAdded_of_running (h : s.tssx.added = false) : s.tssxAdded = 0 := by
  simp [WaitState.tssxAdded, h]

theorem tssxAdded_of_added (h : s.tssx.added = true) : s.tssxAdded = s.found := if_pos h

namespace WaitInv

theorem error_stored (hi : WaitInv c s) (h : s.eventCount = ERROR) : s.stored = true := by
  by_contra hn
  have hc := hi.counted (Bool.not_eq_true _ |>.mp hn)
  rw [h, ERROR] at hc
  omega

/-- The TSSX thread moves on without an addition. -/
theorem moveTssx (hi : WaitInv c s) (pc : TssxPc) (hu : pc.unfound = true → s.found = 0)
    (hk : pc = .kill → 0 < s.found) (ha : pc.added = s.tssx.added)
    (hj : pc.pastJoin = true → s.normal = .finished)
    (hr : ∀ value, pc = .returned value → value = s.eventCount) :
    WaitInv c { s with tssx := pc } :=
  { hi with
    unfound := hu
    killing := hk
    counted := by
      have hadded : WaitState.tssxAdded { s with tssx := pc } = s.tssxAdded := by
        simp only [WaitState.tssxAdded, ha]
      rw [hadded]
      exact hi.counted
    joined := hj
    returned := hr }

theorem moveNormal (hi : WaitInv c s) (pc : NormalPc) (hs : s.normal ≠ .finished)
    (hpc : pc ≠ .finished) (hu : pc.unwaited = true → s.result = none)
    (hst : pc = .storeError → s.failed = true) (had : pc = .addCount → s.failed = false) :
    WaitInv c { s with normal := pc } :=
  { hi with
    unwaited := hu
    storing := hst
    adding := had
    counted := by
      intro _
      rw [normalAdded_of_running hpc, ← normalAdded_of_running (c := c) hs]
      exact hi.counted (stored_of_running hs)
    overwritten := fun h => by rw [stored_of_running hpc] at h; cases h
    joined := fun h => absurd (hi.joined h) hs }

theorem finishNormal (hi : WaitInv c s) (hs : s.normal ≠ .finished) (hf : s.failed = false) :
    WaitInv c { s with
      eventCount := s.eventCount + c.normalCount s.result, normal := .finished } :=
  { hi with
    unwaited := nofun
    storing := nofun
    adding := nofun
    counted := by
      intro _
      have hc := hi.counted (stored_of_running hs)
      rw [normalAdded_of_running hs] at hc
      show s.eventCount + c.normalCount s.result = (c.normalCount s.result : Int) + s.tssxAdded
      omega
    overwritten := by
      intro h
      have hst : s.failed = true := (Bool.and_eq_true_iff.mp h).2
      rw [hf] at hst
      cases hst
    joined := fun _ => rfl
    returned := fun value h => absurd (hi.joined (by rw [h]; rfl)) hs }

theorem wake (hi : WaitInv c s) (hs : s.normal = .waiting) (r : WaitResult ρ) (memory : μ) :
    WaitInv c { s with memory, result := some r, normal := .loadSecond } :=
  have hne : s.normal ≠ .finished := by rw [hs]; decide
  { hi with
    unwaited := nofun
    storing := nofun
    adding := nofun
    counted := by
      intro _
      have hc := hi.counted (stored_of_running hne)
      rw [normalAdded_of_running hne] at hc
      exact hc
    overwritten := nofun
    joined := fun h => absurd (hi.joined h) hne }

theorem scan (hi : WaitInv c s) (hpc : s.tssx = .scan) (o : ο) (found : Nat) (memory : μ) :
    WaitInv c { s with memory, observed := some o, found, tssx := .load } := by
  have hadded : s.tssxAdded = 0 := tssxAdded_of_running (by rw [hpc]; rfl)
  exact
    { hi with
      unfound := nofun
      killing := nofun
      counted := by
        intro hs
        have hc := hi.counted hs
        rw [hadded] at hc
        exact hc
      joined := nofun
      returned := nofun }

/-- The TSSX thread finds the error of the normal one, and then `counted` has nothing to say. -/
theorem seesError (hi : WaitInv c s) (he : s.eventCount = ERROR) :
    WaitInv c { s with tssx := .join } :=
  { hi with
    unfound := nofun
    killing := nofun
    counted := by
      intro hs
      have hst := hi.error_stored he
      rw [show s.stored = false from hs] at hst
      cases hst
    joined := nofun
    returned := nofun }

theorem add (hi : WaitInv c s) (hpc : s.tssx = .add) :
    WaitInv c { s with eventCount := s.eventCount + s.found, tssx := .join } := by
  have hadded : s.tssxAdded = 0 := tssxAdded_of_running (by rw [hpc]; rfl)
  exact
    { hi with
      unfound := nofun
      killing := nofun
      counted := by
        intro hs
        have hc := hi.counted hs
        rw [hadded] at hc
        show s.eventCount + s.found = (s.normalAdded c : Int) + s.found
        omega
      overwritten := by
        intro hs
        show s.eventCount + s.found = ERROR ∨ 0 ≤ s.eventCount + s.found
        rcases hi.overwritten hs with he | he
        · rw [he, ERROR]
          omega
        · exact .inr (by omega)
      joined := nofun
      returned := nofun }

theorem store (hi : WaitInv c s) (hpc : s.normal = .storeError) :
    WaitInv c { s with eventCount := ERROR, normal := .finished } := by
  have hst := hi.storing hpc
  have hne : s.normal ≠ .finished := by rw [hpc]; decide
  exact
    { hi with
      unwaited := nofun
      storing := nofun
      adding := nofun
      counted := by
        intro h
        have hf : s.failed = false := by simpa [WaitState.stored, WaitState.failed] using h
        rw [hst] at hf
        cases hf
      overwritten := fun _ => .inl rfl
      joined := fun _ => rfl
      returned := fun value h => absurd (hi.joined (by rw [h]; rfl)) hne }

/-- Only the normal thread stores an error, and it finishes then. -/
theorem not_error (hi : WaitInv c s) (hs : s.normal ≠ .finished) : s.eventCount ≠ ERROR := by
  intro he
  have hst := hi.error_stored he
  rw [stored_of_running hs] at hst
  cases hst

end WaitInv

theorem not_failed (hr : ∀ r, s.result = some r → ∃ found, r = .events found) :
    s.failed = false := by
  cases hres : s.result with
  | none => rw [WaitState.failed, hres]; rfl
  | some r =>
    obtain ⟨found, rfl⟩ := hr r hres
    rw [WaitState.failed, hres]; rfl

theorem waitInv_move (hi : WaitInv c s) (h : WaitMove c s a t) : WaitInv c t := by
  cases h with
  | ready hpc _ | again _ hpc =>
    exact hi.moveTssx .scan (fun _ => hi.unfound (by rw [hpc]; rfl)) nofun (by rw [hpc]; rfl)
      nofun nofun
  | scan o found memory hpc _ => exact hi.scan hpc o found memory
  | seesError hpc he => exact hi.seesError he
  | seesEvents hpc _ _ | elapsed _ hpc =>
    exact hi.moveTssx .add nofun nofun (by rw [hpc]; rfl) nofun nofun
  | kill hpc => exact { hi.moveTssx .add nofun nofun (by rw [hpc]; rfl) nofun nofun with }
  | hasEvents hpc _ hf =>
    exact hi.moveTssx .kill nofun (fun _ => hf) (by rw [hpc]; rfl) nofun nofun
  | hasNone hpc _ hf =>
    exact hi.moveTssx .timeout (fun _ => hf) nofun (by rw [hpc]; rfl) nofun nofun
  | add hpc => exact hi.add hpc
  | join hpc hn => exact hi.moveTssx .joined nofun nofun (by rw [hpc]; rfl) (fun _ => hn) nofun
  | finish memory hpc _ =>
    exact { hi.moveTssx (.returned s.eventCount) nofun nofun (by rw [hpc]; rfl)
      (fun _ => hi.joined (by rw [hpc]; rfl)) (fun _ h => (TssxPc.returned.inj h).symm) with }
  | signal hpc =>
    exact { hi.moveNormal .loadFirst (by rw [hpc]; decide) (by decide)
      (fun _ => hi.unwaited (by rw [hpc]; rfl)) nofun nofun with }
  | seesNone hpc _ =>
    exact hi.moveNormal .enterWait (by rw [hpc]; decide) (by decide)
      (fun _ => hi.unwaited (by rw [hpc]; rfl)) nofun nofun
  | enter hpc =>
    exact hi.moveNormal .waiting (by rw [hpc]; decide) (by decide)
      (fun _ => hi.unwaited (by rw [hpc]; rfl)) nofun nofun
  | skip hpc _ =>
    exact hi.moveNormal .loadSecond (by rw [hpc]; decide) (by decide) nofun nofun nofun
  | foreignError hpc he => exact absurd he (hi.not_error (by rw [hpc]; decide))
  | ownError hpc _ hr =>
    exact hi.moveNormal .storeError (by rw [hpc]; decide) (by decide) nofun
      (fun _ => by rw [WaitState.failed, hr]; rfl) nofun
  | noEvents hpc _ hr =>
    have hf := hi.finishNormal (by rw [hpc]; decide) (by rw [WaitState.failed, hr]; rfl)
    rwa [show c.normalCount s.result = 0 by rw [hr]; rfl, Int.natCast_zero, Int.add_zero] at hf
  | ownEvents hpc _ hr =>
    exact hi.moveNormal .addCount (by rw [hpc]; decide) (by decide) nofun nofun
      fun _ => not_failed hr
  | store hpc => exact hi.store hpc
  | addCount hpc => exact hi.finishNormal (by rw [hpc]; decide) (hi.adding hpc)
  | wake r hpc => exact hi.wake hpc r _
  | interrupt hpc _ _ => exact { hi.wake hpc .interrupted s.memory with }
  | handle _ _ _ => exact { hi with }

theorem waitInv_reaches (h : Run.Reaches (waitStep c) (c.init memory blocked) s) : WaitInv c s :=
  h.induct (fun _ _ _ hi hs => waitInv_move hi (waitMove hs)) (waitInv_init c memory blocked)

/-- **Without an error, both counts are returned.** -/
theorem returned_count {value : Int} (hi : WaitInv c s) (hr : s.tssx = .returned value)
    (hf : s.failed = false) : value = s.found + c.normalCount s.result := by
  have hfin := hi.joined (by rw [hr]; rfl)
  have hcount := hi.counted (by rw [stored_of_finished hfin, hf])
  rw [WaitState.normalAdded, if_pos hfin, tssxAdded_of_added (by rw [hr]; rfl),
    ← hi.returned value hr] at hcount
  omega

/-! ### The memory -/

/-- `memory` is what the call works on until its return. -/
def WaitState.WorksOn (c : ConcurrentWait ο μ ρ) (s : WaitState ο μ ρ) (memory : μ) : Prop :=
  match s.tssx with
  | .returned _ =>
    c.finish s.eventCount (c.normalTaskCount s.result) s.found memory = some s.memory
  | _ => memory = s.memory

theorem worksOn_iff (h : s.tssx.isReturned = false) :
    s.WorksOn c memory ↔ memory = s.memory := by
  unfold WaitState.WorksOn
  split
  · rename_i hr
    rw [hr] at h
    cases h
  · rfl

section Memory

variable {Q : Option ο → Nat → Option (WaitResult ρ) → μ → Prop}

/-- The last observation, the local count, the result and the memory satisfy `Q`. -/
def WaitState.Keeps (c : ConcurrentWait ο μ ρ)
    (Q : Option ο → Nat → Option (WaitResult ρ) → μ → Prop) (s : WaitState ο μ ρ) : Prop :=
  ∃ memory, s.WorksOn c memory ∧ Q s.observed s.found s.result memory

theorem keeps_iff (h : s.tssx.isReturned = false) :
    s.Keeps c Q ↔ Q s.observed s.found s.result s.memory := by
  constructor
  · rintro ⟨memory, hw, hq⟩
    rwa [(worksOn_iff h).mp hw] at hq
  · exact fun hq => ⟨s.memory, (worksOn_iff h).mpr rfl, hq⟩

theorem keeps_move {A : WaitResult ρ → Prop}
    (hscan : ∀ seen r m o found m', Q seen 0 r m → c.scan o m 0 = some (found, m') →
      Q (some o) found r m')
    (hwake : ∀ seen found m r, A r → Q seen found none m →
      Q seen found (some r) (c.recordResult r m))
    (hA : A .interrupted) (hi : WaitInv c s) (hk : s.Keeps c Q)
    (ha : ∀ r, a = .wake r → A r) (h : WaitMove c s a t) : t.Keeps c Q := by
  have tssx : ∀ {pc : TssxPc}, s.tssx = pc → pc.isReturned = false →
      Q s.observed s.found s.result s.memory := by
    rintro pc rfl hpc
    exact (keeps_iff hpc).mp hk
  -- a normal thread that has not finished has not been joined
  have normal : ∀ {pc : NormalPc}, s.normal = pc → pc ≠ .finished →
      s.tssx.isReturned = false ∧ Q s.observed s.found s.result s.memory := by
    rintro pc rfl hpc
    have hr : s.tssx.isReturned = false := by
      by_contra hr
      obtain ⟨value, hv⟩ := TssxPc.eq_returned (Bool.not_eq_false _ |>.mp hr)
      exact hpc (hi.joined (by rw [hv]; rfl))
    exact ⟨hr, (keeps_iff hr).mp hk⟩
  cases h with
  | ready hpc _ | seesError hpc _ | seesEvents hpc _ _ | hasEvents hpc _ _ | hasNone hpc _ _
  | kill hpc | elapsed _ hpc | again _ hpc | add hpc | join hpc _ =>
    refine (keeps_iff ?_).mpr (tssx hpc rfl)
    rfl
  | scan o found memory hpc hs =>
    have hf : s.found = 0 := hi.unfound (by rw [hpc]; rfl)
    have hq := tssx hpc rfl
    rw [hf] at hq hs
    refine (keeps_iff ?_).mpr (hscan _ _ _ o found memory hq hs)
    rfl
  | finish memory hpc hf => exact ⟨s.memory, hf, tssx hpc rfl⟩
  | signal hpc | seesNone hpc _ | skip hpc _ | enter hpc | foreignError hpc _ | ownError hpc _ _
  | noEvents hpc _ _ | ownEvents hpc _ _ | store hpc | addCount hpc =>
    obtain ⟨hr, hq⟩ := normal hpc (by decide)
    refine (keeps_iff ?_).mpr hq
    exact hr
  | wake r hpc =>
    obtain ⟨hr, hq⟩ := normal hpc (by decide)
    rw [hi.unwaited (by rw [hpc]; rfl)] at hq
    refine (keeps_iff ?_).mpr (hwake _ _ _ r (ha r rfl) hq)
    exact hr
  | interrupt hpc _ _ =>
    obtain ⟨hr, hq⟩ := normal hpc (by decide)
    rw [hi.unwaited (by rw [hpc]; rfl)] at hq
    refine (keeps_iff ?_).mpr (hwake _ _ _ .interrupted hA hq)
    exact hr
  | handle _ _ _ => exact hk

/-- **The memory of a call in every interleaving.**  `Q` holds at first, scans from the local
count zero keep it, and so does the end of the real call with a result that satisfies `A`. -/
theorem keeps_run {A : WaitResult ρ → Prop} {as : List (WaitAction ο ρ)}
    (hinit : Q none 0 none memory)
    (hscan : ∀ seen r m o found m', Q seen 0 r m → c.scan o m 0 = some (found, m') →
      Q (some o) found r m')
    (hwake : ∀ seen found m r, A r → Q seen found none m →
      Q seen found (some r) (c.recordResult r m))
    (hA : A .interrupted) (ha : ∀ r, .wake r ∈ as → A r)
    (h : Run.run (waitStep c) (c.init memory blocked) as = some s) : s.Keeps c Q := by
  have hstart : (c.init memory blocked).Keeps c Q := by
    refine (keeps_iff ?_).mpr hinit
    cases hh : c.handshake <;> simp [ConcurrentWait.init, hh, TssxPc.isReturned]
  have hmeets : Run.Meets (waitStep c) (fun _ a => ∀ r, a = .wake r → A r)
      (c.init memory blocked) as := Run.meets_of_forall fun a hm _ r hr => ha r (hr ▸ hm)
  refine (Run.meets_induct (I := fun s => WaitInv c s ∧ s.Keeps c Q) ?_
    ⟨waitInv_init c memory blocked, hstart⟩ hmeets h).2
  rintro s a t ⟨hi, hk⟩ hc hs
  have hmove := waitMove hs
  exact ⟨waitInv_move hi hmove, keeps_move hscan hwake hA hi hk hc hmove⟩

end Memory

end Tssx
