import Tssx.Select

/-!
# Clock and timeouts

`current_milliseconds` narrows the time to an `int`, the start of a wait is kept as a `size_t`,
and the difference is compared with the timeout as a `size_t`.  The `int` wraps around every
`2 ^ 32` milliseconds, and a `struct timeval` of `2 ^ 31` milliseconds or more does not fit
either.  `timeouts_timely_iff` says when the checks still tell the right thing.

Times are in microseconds, which is what the clock counts.
-/

namespace Tssx

/-! ### The clock -/

/-- `current_milliseconds` when the clock shows this time. -/
def currentMilliseconds (time : Timeval) : Int := timevalToMilliseconds time

def Timeval.microseconds (time : Timeval) : Int := time.tvSec * 10 ^ 6 + time.tvUsec

/-- The milliseconds before the conversion to `int`. -/
def Timeval.milliseconds (time : Timeval) : Int := time.microseconds / 1000

/-- The microseconds are less than a second. -/
def Timeval.Normalized (time : Timeval) : Prop := 0 ≤ time.tvUsec ∧ time.tvUsec < 10 ^ 6

/-- `_poll_timeout_elapsed` at the time `now` of a wait that has begun at `start`. -/
def pollElapsedAt (start now : Timeval) (timeout : Int) : Bool :=
  pollTimeoutElapsed (sizeT (currentMilliseconds start)) (sizeT (currentMilliseconds now)) timeout

/-- `_select_timeout_elapsed` in the same place. -/
def selectElapsedAt (start now : Timeval) (timeout : Option Timeval) : Bool :=
  selectTimeoutElapsed (sizeT (currentMilliseconds start)) (sizeT (currentMilliseconds now))
    (selectMilliseconds timeout)

/-! ### What a check should tell -/

/-- The microseconds of a timeout of `poll`; `none` is for ever. -/
def pollRequest (timeout : Int) : Option Int :=
  if timeout = BLOCK_FOREVER then none else some (timeout * 1000)

/-- What is reported is right to a millisecond, and nothing is if no end is requested. -/
structure Timely (requested : Option Int) (passed : Int) (elapsed : Bool) : Prop where
  forever : requested = none → elapsed = false
  early : ∀ r, requested = some r → elapsed = true → r ≤ passed + 1000
  late : ∀ r, requested = some r → r + 1000 < passed → elapsed = true

def passed (start now : Timeval) : Int := now.microseconds - start.microseconds

/-- How much more an `int` that counts the milliseconds shows than at the start. -/
def gap (start now : Timeval) : Int := int32 now.milliseconds - int32 start.milliseconds

/-- It has not wrapped around since the start. -/
def Unwrapped (start now : Timeval) : Prop := gap start now = now.milliseconds - start.milliseconds

/-! ### The conversion to `int` -/

theorem int32_add (x y : Int) : int32 (int32 x + y) = int32 (x + y) := Int.bmod_add_bmod

theorem int32_wraps (x : Int) : ∃ w, x = int32 x + 2 ^ 32 * w := by
  have hmod : int32 x % (2 ^ 32 : Nat) = x % (2 ^ 32 : Nat) := Int.bmod_emod
  exact ⟨(x - int32 x) / 2 ^ 32, by omega⟩

variable {start now time : Timeval} {t : Int}

theorem timevalToMilliseconds_eq (h : time.Normalized) :
    timevalToMilliseconds time = int32 time.milliseconds := by
  have hdiv : time.tvUsec.tdiv 1000 = time.tvUsec / 1000 := Int.tdiv_eq_ediv_of_nonneg h.1
  have hsum : time.milliseconds = time.tvSec * 1000 + time.tvUsec / 1000 := by
    unfold Timeval.milliseconds Timeval.microseconds
    omega
  rw [timevalToMilliseconds, int32_add, hdiv, hsum]

theorem gap_wraps (start now : Timeval) :
    -2 ^ 32 < gap start now ∧ gap start now < 2 ^ 32 ∧
      ∃ w, now.milliseconds - start.milliseconds = gap start now + 2 ^ 32 * w := by
  obtain ⟨v, hv⟩ := int32_wraps start.milliseconds
  obtain ⟨w, hw⟩ := int32_wraps now.milliseconds
  have hstart := int32_range start.milliseconds
  have hnow := int32_range now.milliseconds
  unfold gap
  exact ⟨by omega, by omega, w - v, by omega⟩

theorem passed_milliseconds (start now : Timeval) :
    1000 * (now.milliseconds - start.milliseconds) < passed start now + 1000 ∧
      passed start now < 1000 * (now.milliseconds - start.milliseconds) + 1000 := by
  unfold passed Timeval.milliseconds
  omega

/-! ### The comparison -/

/-- The timeouts and gaps of a check that tells to go on. -/
def Waits (t gap : Int) : Prop :=
  t = BLOCK_FOREVER ∨ 0 < t ∧ 0 ≤ gap ∧ gap ≤ t ∨ t < BLOCK_FOREVER ∧ (0 ≤ gap ∨ gap ≤ t)

instance (t gap : Int) : Decidable (Waits t gap) :=
  inferInstanceAs (Decidable (_ ∨ _ ∧ _ ∧ _ ∨ _ ∧ (_ ∨ _)))

/-- **The comparison** of two `size_t`, in terms of the `int`s that they come from. -/
theorem pollElapsedAt_iff (hs : start.Normalized) (hn : now.Normalized) (ht : -2 ^ 31 ≤ t)
    (ht' : t < 2 ^ 31) : pollElapsedAt start now t = false ↔ Waits t (gap start now) := by
  obtain ⟨hlow, hhigh, -⟩ := gap_wraps start now
  have hsize : sizeT ((sizeT (currentMilliseconds now) : Int) - sizeT (currentMilliseconds start)) =
      sizeT (gap start now) := by
    unfold currentMilliseconds gap sizeT
    rw [timevalToMilliseconds_eq hs, timevalToMilliseconds_eq hn]
    omega
  rw [pollElapsedAt, pollTimeoutElapsed, hsize, Waits, BLOCK_FOREVER, DONT_BLOCK]
  generalize gap start now = gap at *
  by_cases hforever : t = -1
  · simp [hforever]
  by_cases hzero : t = 0
  · simp [hzero]
  rw [if_neg hforever, if_neg hzero, decide_eq_false_iff_not]
  unfold sizeT
  omega

/-! ### The condition -/

/-- A request that fits an `int` of milliseconds is met: there is nothing to wait for, the counter
has not wrapped around, or it has and by luck shows the right thing. -/
def Reliable (start now : Timeval) (t requested : Int) : Prop :=
  t = 0 ∨ Unwrapped start now ∨
    gap start now < 0 ∧ requested ≤ passed start now + 1000 ∨
    0 ≤ gap start now ∧ t < gap start now

/-- A longer request is met: what is left of it in an `int` still waits and it is not over for
more than a millisecond, or it waits no longer and it is over. -/
def ReliableLong (start now : Timeval) (t requested : Int) : Prop :=
  if Waits t (gap start now) then passed start now ≤ requested + 1000
  else requested ≤ passed start now + 1000

theorem timely_some {r p : Int} {elapsed : Bool} :
    Timely (some r) p elapsed ↔ if elapsed then r ≤ p + 1000 else p ≤ r + 1000 := by
  cases elapsed with
  | true =>
    rw [if_pos rfl]
    refine ⟨fun h => h.early r rfl rfl, fun hover => ⟨nofun, ?_, fun _ _ _ => rfl⟩⟩
    rintro _ ⟨⟩ -
    exact hover
  | false =>
    rw [if_neg Bool.false_ne_true]
    constructor
    · intro h
      by_contra hlate
      exact Bool.false_ne_true (h.late r rfl (by omega))
    · intro hleft
      refine ⟨fun _ => rfl, fun _ _ => nofun, ?_⟩
      rintro _ ⟨⟩ hlate
      omega

theorem timely_forever (p : Int) : Timely none p (pollElapsedAt start now BLOCK_FOREVER) :=
  ⟨fun _ => rfl, nofun, nofun⟩

/-- **Any request** is met as long as its `int` waits for the right time. -/
theorem timely_iff {r : Int} (hs : start.Normalized) (hn : now.Normalized) (ht : -2 ^ 31 ≤ t)
    (ht' : t < 2 ^ 31) :
    Timely (some r) (passed start now) (pollElapsedAt start now t) ↔
      ReliableLong start now t r := by
  have hwaits := pollElapsedAt_iff hs hn ht ht'
  rw [timely_some, ReliableLong]
  by_cases hw : Waits t (gap start now)
  · rw [if_pos hw, hwaits.mpr hw, if_neg Bool.false_ne_true]
  · have helapsed : pollElapsedAt start now t = true := by simpa using mt hwaits.mp hw
    rw [if_neg hw, helapsed, if_pos rfl]

/-- **A request that fits** is met exactly if the counter has not wrapped around, up to luck. -/
theorem reliableLong_iff {r : Int} (h : start.microseconds ≤ now.microseconds) (ht : 0 ≤ t)
    (ht' : t < 2 ^ 31) (hr : t * 1000 ≤ r) (hr' : r < t * 1000 + 1000) :
    ReliableLong start now t r ↔ Reliable start now t r := by
  obtain ⟨hlow, hhigh, w, hw⟩ := gap_wraps start now
  obtain ⟨hmore, hless⟩ := passed_milliseconds start now
  have hpassed : 0 ≤ passed start now := by unfold passed; omega
  have hforward : 0 ≤ now.milliseconds - start.milliseconds := by
    unfold Timeval.milliseconds
    omega
  unfold ReliableLong Reliable Unwrapped
  rw [hw] at hmore hless hforward ⊢
  generalize gap start now = gap at *
  generalize passed start now = passed at *
  have hwraps : 0 ≤ w := by omega
  by_cases hwaits : Waits t gap
  · rw [if_pos hwaits]
    unfold Waits BLOCK_FOREVER at hwaits
    omega
  · rw [if_neg hwaits]
    unfold Waits BLOCK_FOREVER at hwaits
    omega

theorem pollTimely_iff (hs : start.Normalized) (hn : now.Normalized)
    (h : start.microseconds ≤ now.microseconds) (ht : BLOCK_FOREVER ≤ t) (ht' : t < 2 ^ 31) :
    Timely (pollRequest t) (passed start now) (pollElapsedAt start now t) ↔
      t = BLOCK_FOREVER ∨ Reliable start now t (t * 1000) := by
  by_cases hforever : t = BLOCK_FOREVER
  · rw [pollRequest, if_pos hforever, hforever]
    exact iff_of_true (timely_forever _) (.inl rfl)
  have hzero : 0 ≤ t := by
    unfold BLOCK_FOREVER at ht hforever
    omega
  rw [pollRequest, if_neg hforever, timely_iff hs hn (by omega) ht',
    reliableLong_iff h hzero ht' (Int.le_refl _) (by omega)]
  exact ⟨.inr, fun hor => hor.resolve_left hforever⟩

theorem selectTimely_iff (hs : start.Normalized) (hn : now.Normalized)
    (h : start.microseconds ≤ now.microseconds) (htime : time.Normalized) (hpos : 0 ≤ time.tvSec) :
    Timely (some time.microseconds) (passed start now) (selectElapsedAt start now (some time)) ↔
      if time.milliseconds < 2 ^ 31 then Reliable start now time.milliseconds time.microseconds
      else ReliableLong start now (int32 time.milliseconds) time.microseconds := by
  obtain ⟨hlow, hhigh⟩ := int32_range time.milliseconds
  have hms : selectElapsedAt start now (some time) =
      pollElapsedAt start now (int32 time.milliseconds) := by
    rw [← timevalToMilliseconds_eq htime]
    rfl
  rw [hms, timely_iff hs hn hlow hhigh]
  by_cases hfits : time.milliseconds < 2 ^ 31
  · have hnonneg : 0 ≤ time.milliseconds := by
      unfold Timeval.milliseconds Timeval.microseconds
      have := htime.1
      omega
    have hwhole : time.milliseconds * 1000 ≤ time.microseconds ∧
        time.microseconds < time.milliseconds * 1000 + 1000 := by
      unfold Timeval.milliseconds
      omega
    rw [if_pos hfits, int32_eq (by omega) hfits]
    exact reliableLong_iff h hnonneg hfits hwhole.1 hwhole.2
  · rw [if_neg hfits]

/-- **Every timeout that fits an `int` is met** as long as the counter does not wrap around. -/
theorem timely_of_unwrapped {timeout : Option Timeval} (hs : start.Normalized)
    (hn : now.Normalized) (h : start.microseconds ≤ now.microseconds)
    (hunwrapped : Unwrapped start now) (ht : BLOCK_FOREVER ≤ t) (ht' : t < 2 ^ 31)
    (htimeout : ∀ time, timeout = some time →
      time.Normalized ∧ 0 ≤ time.tvSec ∧ time.milliseconds < 2 ^ 31) :
    Timely (pollRequest t) (passed start now) (pollElapsedAt start now t) ∧
      Timely (timeout.map Timeval.microseconds) (passed start now)
        (selectElapsedAt start now timeout) := by
  refine ⟨(pollTimely_iff hs hn h ht ht').mpr (.inr (.inr (.inl hunwrapped))), ?_⟩
  cases timeout with
  | none => exact timely_forever _
  | some time =>
    obtain ⟨htime, hpos, hfits⟩ := htimeout time rfl
    refine (selectTimely_iff hs hn h htime hpos).mpr ?_
    rw [if_pos hfits]
    exact .inr (.inl hunwrapped)

/-- **The checks tell the right thing exactly if** the counter has not wrapped around since the
start (up to luck), and for a `struct timeval` of `2 ^ 31` milliseconds or more only if what is
left of it in an `int` happens to wait for the right time. -/
theorem timeouts_timely_iff {timeout : Option Timeval} (hs : start.Normalized)
    (hn : now.Normalized) (h : start.microseconds ≤ now.microseconds) (ht : BLOCK_FOREVER ≤ t)
    (ht' : t < 2 ^ 31)
    (htimeout : ∀ time, timeout = some time → time.Normalized ∧ 0 ≤ time.tvSec) :
    (Timely (pollRequest t) (passed start now) (pollElapsedAt start now t) ↔
        t = BLOCK_FOREVER ∨ Reliable start now t (t * 1000)) ∧
      (Timely (timeout.map Timeval.microseconds) (passed start now)
          (selectElapsedAt start now timeout) ↔
        ∀ time, timeout = some time →
          if time.milliseconds < 2 ^ 31 then
            Reliable start now time.milliseconds time.microseconds
          else ReliableLong start now (int32 time.milliseconds) time.microseconds) := by
  refine ⟨pollTimely_iff hs hn h ht ht', ?_⟩
  cases timeout with
  | none => exact iff_of_true (timely_forever _) nofun
  | some time =>
    obtain ⟨htime, hpos⟩ := htimeout time rfl
    rw [Option.map_some, selectTimely_iff hs hn h htime hpos]
    simp only [Option.some.injEq, forall_eq']

theorem timeouts_timely_iff_second :
    (Timely (pollRequest 10) (passed ⟨0, 0⟩ ⟨1, 0⟩) (pollElapsedAt ⟨0, 0⟩ ⟨1, 0⟩ 10) ↔
        10 = BLOCK_FOREVER ∨ Reliable ⟨0, 0⟩ ⟨1, 0⟩ 10 (10 * 1000)) ∧
      (Timely ((some ⟨2, 500⟩ : Option Timeval).map Timeval.microseconds) (passed ⟨0, 0⟩ ⟨1, 0⟩)
          (selectElapsedAt ⟨0, 0⟩ ⟨1, 0⟩ (some ⟨2, 500⟩)) ↔
        ∀ time, some (⟨2, 500⟩ : Timeval) = some time →
          if time.milliseconds < 2 ^ 31 then
            Reliable ⟨0, 0⟩ ⟨1, 0⟩ time.milliseconds time.microseconds
          else ReliableLong ⟨0, 0⟩ ⟨1, 0⟩ (int32 time.milliseconds) time.microseconds) := by
  refine timeouts_timely_iff ⟨by decide, by decide⟩ ⟨by decide, by decide⟩ (by decide) (by decide)
    (by decide) ?_
  rintro time ⟨⟩
  exact ⟨⟨by decide, by decide⟩, by decide⟩

/-- **Ten seconds are over after a millisecond**, when the counter wraps around, and a `struct
timeval` of `2 ^ 32 - 1` milliseconds is for ever. -/
theorem timeout_at_wrap :
    pollElapsedAt ⟨1720134402, 47000⟩ ⟨1720134402, 48000⟩ 10000 = true ∧
      ¬ Timely (pollRequest 10000) (passed ⟨1720134402, 47000⟩ ⟨1720134402, 48000⟩)
        (pollElapsedAt ⟨1720134402, 47000⟩ ⟨1720134402, 48000⟩ 10000) ∧
      ∀ start now, selectElapsedAt start now (some ⟨4294967, 295000⟩) = false := by
  refine ⟨by decide, ?_, fun _ _ => rfl⟩
  intro htimely
  exact absurd (htimely.early (10000 * 1000) rfl (by decide)) (by decide)

end Tssx
