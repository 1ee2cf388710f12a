import Mathlib.Data.Nat.Find
import Mathlib.Data.Nat.Init
import Tssx.Lib.Run

/-!
# Fair executions

An execution of a step function makes the steps of a schedule, one after the other, until it is in
a final state.  It is weakly fair if a party that is live from some state on gets a step.

`fair_ends`: a measure that every step of a live party lowers, and no other step changes, brings a
weakly fair execution to a final state, if a live party stays so until it gets its step.
`exists_fair`: a run that ends in a final state is one.
-/

namespace Run

variable {σ α : Type*}

/-- `states` makes the steps of the schedule until a state is final. -/
def Executes (step : σ → α → Option σ) (final : σ → Prop) (schedule : ℕ → α) (states : ℕ → σ) :
    Prop :=
  ∀ n, ¬ final (states n) → step (states n) (schedule n) = some (states (n + 1))

/-- Every party that is live from some state on gets a step after it. -/
def WeaklyFair (live : σ → α → Prop) (schedule : ℕ → α) (states : ℕ → σ) : Prop :=
  ∀ a n, (∀ m ≥ n, live (states m) a) → ∃ m ≥ n, schedule m = a

variable {step : σ → α → Option σ} {final : σ → Prop} {live : σ → α → Prop}
  {R : σ → ℕ → Prop} {schedule : ℕ → α} {states : ℕ → σ} {bound : ℕ}

/-- **A weakly fair execution ends.** -/
theorem fair_ends
    (hstep : ∀ s n a t, R s n → step s a = some t → ∃ m, R t m ∧ (m < n ∨ ¬ live s a ∧ m = n))
    (hlive : ∀ s n, R s n → ¬ final s → ∃ a, live s a)
    (hkeep : ∀ s n a b t, R s n → step s a = some t → a ≠ b → live s b → live t b)
    (hR : R (states 0) bound) (hexec : Executes step final schedule states)
    (hfair : WeaklyFair live schedule states) :
    ∃ n m, R (states n) m ∧ final (states n) := by
  by_contra hnever
  have hnone : ∀ n k, R (states n) k → ¬ final (states n) :=
    fun n k hk hfinal => hnever ⟨n, k, hk, hfinal⟩
  have hcontra : ∀ k i, R (states i) k → False := by
    intro k
    induction k using Nat.strong_induction_on with
    | _ k ih =>
      intro i hi
      obtain ⟨a, ha⟩ := hlive _ _ hi (hnone i k hi)
      -- until the party is scheduled, it is live and the measure stays
      have hwaits : ∀ d, (∀ e < d, schedule (i + e) ≠ a) →
          R (states (i + d)) k ∧ live (states (i + d)) a := by
        intro d
        induction d with
        | zero => exact fun _ => ⟨hi, ha⟩
        | succ d hd =>
          intro hother
          obtain ⟨hd, hda⟩ := hd fun e he => hother e (Nat.lt_succ_of_lt he)
          have hnext := hexec _ (hnone _ k hd)
          obtain ⟨m, hm, hless | ⟨-, rfl⟩⟩ := hstep _ _ _ _ hd hnext
          · exact (ih m hless _ hm).elim
          · exact ⟨hm, hkeep _ _ _ _ _ hd hnext (hother d d.lt_succ_self) hda⟩
      have hscheduled : ∃ d, schedule (i + d) = a := by
        by_contra hother
        rw [not_exists] at hother
        obtain ⟨m, hm, hma⟩ := hfair a i fun m hm => by
          obtain ⟨d, rfl⟩ := Nat.exists_eq_add_of_le hm
          exact (hwaits d fun e _ => hother e).2
        obtain ⟨d, rfl⟩ := Nat.exists_eq_add_of_le hm
        exact hother d hma
      classical
      obtain ⟨hd, hda⟩ := hwaits (Nat.find hscheduled) fun e he => Nat.find_min hscheduled he
      have hfound := Nat.find_spec hscheduled
      obtain ⟨m, hm, hless | ⟨hidle, -⟩⟩ :=
        hstep _ _ _ _ hd (hexec _ (hnone _ k hd))
      · exact ih m hless _ hm
      · rw [hfound] at hidle
        exact hidle hda
  exact hcontra bound 0 hR

/-- **A run that ends in a final state is a weakly fair execution.** -/
theorem exists_fair [Inhabited α] {s t : σ} {as : List α} (h : run step s as = some t)
    (hfinal : final t) (hidle : ∀ s a, final s → ¬ live s a) :
    ∃ schedule states, states 0 = s ∧ Executes step final schedule states ∧
      WeaklyFair live schedule states := by
  have hexec : ∃ schedule states, states 0 = s ∧ Executes step final schedule states ∧
      ∃ n, ∀ m ≥ n, final (states m) := by
    induction as generalizing s with
    | nil =>
      obtain rfl := Option.some.inj h
      exact ⟨fun _ => default, fun _ => s, rfl, fun _ hnot => absurd hfinal hnot, 0,
        fun _ _ => hfinal⟩
    | cons a as ih =>
      obtain ⟨m, hm, hrest⟩ := run_cons.mp h
      obtain ⟨schedule, states, rfl, hexec, n, hn⟩ := ih hrest
      refine ⟨fun k => k.casesOn a schedule, fun k => k.casesOn s states, rfl, ?_, n + 1, ?_⟩
      · intro k hnot
        cases k with
        | zero => exact hm
        | succ k => exact hexec k hnot
      · intro k hk
        cases k with
        | zero => exact absurd hk (Nat.not_succ_le_zero n)
        | succ k => exact hn k (Nat.le_of_succ_le_succ hk)
  obtain ⟨schedule, states, hstart, hexec, n, hn⟩ := hexec
  refine ⟨schedule, states, hstart, hexec, fun a k hlive => ?_⟩
  -- nobody is live at the end
  exact absurd (hlive _ (Nat.le_max_left k n)) (hidle _ a (hn _ (Nat.le_max_right k n)))

end Run
