import Mathlib.Data.List.Basic
import Mathlib.Tactic.Common

/-!
# Runs of a step function

A system is a step function `step : σ → α → Option σ`: `step s a` is the state after the
action `a`, and `none` where `a` is not enabled in `s` (or ends the program).  Several
parties that run at once are one such system whose actions say which party moves, so an
interleaving is a list of actions.

* `run step s as`: the state after the actions `as`.
* `Reaches step s t`: some list of actions leads from `s` to `t`.
* `Visits step s as t`: the run of `as` from `s` passes through `t`.
* `upTo ends as`: the actions up to the first one that ends the list.
* `Meets step C s as`: every step of the run satisfies the condition `C` on the state
  before it and its action.

The rules carry a property along a run from what one step does: `run_induct` for an
invariant, `meets_induct` for one that needs `C`, `foldl_of_meets` for a simulation of a
specification, and `foldl_iff_meets` and `visits_iff_meets` when a step simulates the
specification, or keeps the invariant, exactly if it satisfies `C`.
-/

namespace Run

variable {σ α : Type*}

/-- The state after a list of actions. -/
def run (step : σ → α → Option σ) : σ → List α → Option σ
  | s, [] => some s
  | s, a :: as => (step s a).bind fun t => run step t as

def Reaches (step : σ → α → Option σ) (s t : σ) : Prop := ∃ as, run step s as = some t

/-- `t` is one of the states that the run of `as` from `s` passes through. -/
def Visits (step : σ → α → Option σ) (s : σ) (as : List α) (t : σ) : Prop :=
  ∃ bs, bs <+: as ∧ run step s bs = some t

/-- The actions up to the first one that ends the list, that one included. -/
def upTo (ends : α → Bool) : List α → List α
  | [] => []
  | a :: as => a :: if ends a then [] else upTo ends as

/-- Every step of the run of `as` from `s` satisfies `C` in the state before it. -/
def Meets (step : σ → α → Option σ) (C : σ → α → Prop) : σ → List α → Prop
  | _, [] => True
  | s, a :: as => C s a ∧ ∀ t, step s a = some t → Meets step C t as

instance decidableMeets (step : σ → α → Option σ) (C : σ → α → Prop)
    [∀ s a, Decidable (C s a)] : ∀ s as, Decidable (Meets step C s as)
  | _, [] => isTrue trivial
  | s, a :: as =>
    match h : step s a with
    | none => decidable_of_iff (C s a) (by simp [Meets, h])
    | some t =>
      have := decidableMeets step C t as
      decidable_of_iff (C s a ∧ Meets step C t as) (by simp [Meets, h])

variable {step : σ → α → Option σ} {C : σ → α → Prop} {I : σ → Prop} {s t u : σ}
  {a : α} {as bs : List α}

theorem run_cons :
    run step s (a :: as) = some u ↔ ∃ t, step s a = some t ∧ run step t as = some u :=
  Option.bind_eq_some_iff

theorem mem_upTo_cons {ends : α → Bool} {b : α} :
    b ∈ upTo ends (a :: as) ↔ b = a ∨ ends a = false ∧ b ∈ upTo ends as := by
  rw [upTo, List.mem_cons]
  cases ends a <;> simp

theorem forall_upTo_cons {ends : α → Bool} {P : α → Prop} :
    (∀ b ∈ upTo ends (a :: as), P b) ↔ P a ∧ (ends a = false → ∀ b ∈ upTo ends as, P b) := by
  constructor
  · intro h
    exact ⟨h a (mem_upTo_cons.mpr (.inl rfl)),
      fun hgo b hb => h b (mem_upTo_cons.mpr (.inr ⟨hgo, hb⟩))⟩
  · rintro ⟨ha, hrest⟩ b hb
    rcases mem_upTo_cons.mp hb with rfl | ⟨hgo, hb⟩
    · exact ha
    · exact hrest hgo b hb

theorem run_append : run step s (as ++ bs) = (run step s as).bind fun t => run step t bs := by
  induction as generalizing s with
  | nil => rfl
  | cons a as ih =>
    simp only [List.cons_append, run]
    cases step s a with
    | none => rfl
    | some t => exact ih

theorem run_append_some (h : run step s as = some t) :
    run step s (as ++ bs) = run step t bs := by
  rw [run_append, h]; rfl

theorem Reaches.refl (s : σ) : Reaches step s s := ⟨[], rfl⟩

theorem Reaches.head (h : step s a = some t) (ht : Reaches step t u) : Reaches step s u := by
  obtain ⟨as, has⟩ := ht
  exact ⟨a :: as, run_cons.mpr ⟨t, h, has⟩⟩

theorem Reaches.single (h : step s a = some t) : Reaches step s t := .head h (.refl t)

theorem Reaches.trans (h : Reaches step s t) (ht : Reaches step t u) : Reaches step s u := by
  obtain ⟨as, has⟩ := h
  obtain ⟨bs, hbs⟩ := ht
  exact ⟨as ++ bs, by rw [run_append_some has, hbs]⟩

/-- **An invariant of every step is an invariant of every run.** -/
theorem run_induct (hstep : ∀ s a t, I s → step s a = some t → I t)
    (hs : I s) (h : run step s as = some t) : I t := by
  induction as generalizing s with
  | nil => cases h; exact hs
  | cons a as ih =>
    obtain ⟨m, hm, hrest⟩ := run_cons.mp h
    exact ih (hstep s a m hs hm) hrest

theorem run_ends {E : α → Prop} (hend : ∀ s t a b, E a → step s a = some t → step t b = none)
    (h : run step s as = some t) :
    (∀ a ∈ as, ¬ E a) ∨ ∃ bs a u, as = bs ++ [a] ∧ E a ∧ (∀ b ∈ bs, ¬ E b) ∧
      run step s bs = some u ∧ step u a = some t := by
  induction as generalizing s with
  | nil => exact .inl fun a ha => absurd ha List.not_mem_nil
  | cons a as ih =>
    obtain ⟨m, hm, hrest⟩ := run_cons.mp h
    by_cases ha : E a
    · cases as with
      | nil =>
        cases hrest
        exact .inr ⟨[], a, s, rfl, ha, fun b hb => absurd hb List.not_mem_nil, rfl, hm⟩
      | cons b as =>
        obtain ⟨n, hn, -⟩ := run_cons.mp hrest
        rw [hend s m a b ha hm] at hn
        cases hn
    · rcases ih hrest with hnone | ⟨bs, b, u, rfl, hb, hbs, hrun, hlast⟩
      · refine .inl ?_
        intro c hc
        rcases List.mem_cons.mp hc with rfl | hc
        · exact ha
        · exact hnone c hc
      · refine .inr ⟨a :: bs, b, u, rfl, hb, ?_, run_cons.mpr ⟨m, hm, hrun⟩, hlast⟩
        intro c hc
        rcases List.mem_cons.mp hc with rfl | hc
        · exact ha
        · exact hbs c hc

theorem Reaches.induct (hstep : ∀ s a t, I s → step s a = some t → I t)
    (hs : I s) (h : Reaches step s t) : I t := by
  obtain ⟨as, has⟩ := h
  exact run_induct hstep hs has

/-- **A run shows the run of what its states show**, where every step of a state of the invariant
does. -/
theorem map_run {τ : Type*} {f : σ → τ} {step' : τ → α → Option τ}
    (hstep : ∀ s a, I s → (step s a).map f = step' (f s) a)
    (hkeep : ∀ s a t, I s → step s a = some t → I t) (hs : I s) :
    (run step s as).map f = run step' (f s) as := by
  induction as generalizing s with
  | nil => rfl
  | cons a as ih =>
    rw [run, run, ← hstep s a hs]
    cases hm : step s a with
    | none => rfl
    | some m => exact ih (hkeep s a m hs hm)

/-! ### Runs whose steps satisfy a condition -/

/-- **An invariant of the steps that satisfy `C`** is one of the runs that meet `C`. -/
theorem meets_induct (hstep : ∀ s a t, I s → C s a → step s a = some t → I t)
    (hs : I s) (hm : Meets step C s as) (h : run step s as = some t) : I t := by
  induction as generalizing s with
  | nil => cases h; exact hs
  | cons a as ih =>
    obtain ⟨m, hstep', hrest⟩ := run_cons.mp h
    exact ih (hstep s a m hs hm.1 hstep') (hm.2 m hstep') hrest

/-- **A run that does not meet `C`** ends in a state that a step which breaks `C` leads to and no
step leaves. -/
theorem not_meets_induct {J : σ → Prop} (hI : ∀ s a t, I s → step s a = some t → I t)
    (hbreak : ∀ s a t, I s → ¬ C s a → step s a = some t → J t)
    (hJ : ∀ s a t, J s → step s a = some t → J t) (hs : I s) (hm : ¬ Meets step C s as)
    (h : run step s as = some t) : J t := by
  induction as generalizing s with
  | nil => exact absurd trivial hm
  | cons a as ih =>
    obtain ⟨m, hstep, hrest⟩ := run_cons.mp h
    by_cases hc : C s a
    · refine ih (hI s a m hs hstep) ?_ hrest
      intro htail
      refine hm ⟨hc, ?_⟩
      intro u hu
      rwa [Option.some.inj (hu.symm.trans hstep)]
    · exact run_induct hJ (hbreak s a m hs hc hstep) hrest

/-- Where every step that satisfies `C` is enabled and keeps the invariant, a list of actions
that meets `C` is a run. -/
theorem exists_of_meets (hstep : ∀ s a, I s → C s a → ∃ t, step s a = some t ∧ I t)
    (hs : I s) (hm : Meets step C s as) : ∃ t, run step s as = some t ∧ I t := by
  induction as generalizing s with
  | nil => exact ⟨s, rfl, hs⟩
  | cons a as ih =>
    obtain ⟨m, hm', him⟩ := hstep s a hs hm.1
    obtain ⟨t, ht, hit⟩ := ih him (hm.2 m hm')
    exact ⟨t, run_cons.mpr ⟨m, hm', ht⟩, hit⟩

/-- **A run computes what the specification folds**: where every step that satisfies `C` is
enabled and simulates one step of `spec`, so does a list of actions that meets `C`. -/
theorem foldl_of_meets {τ : Type*} {R : σ → τ → Prop} {spec : τ → α → τ} {x : τ}
    (hstep : ∀ s x a, R s x → C s a → ∃ t, step s a = some t ∧ R t (spec x a))
    (hs : R s x) (hm : Meets step C s as) :
    ∃ t, run step s as = some t ∧ R t (as.foldl spec x) := by
  induction as generalizing s x with
  | nil => exact ⟨s, rfl, hs⟩
  | cons a as ih =>
    obtain ⟨m, hm', hr⟩ := hstep s x a hs hm.1
    obtain ⟨t, ht, hrt⟩ := ih hr (hm.2 m hm')
    exact ⟨t, run_cons.mpr ⟨m, hm', ht⟩, hrt⟩

theorem foldl_of_spec {τ : Type*} {R : σ → τ → Prop} {spec : τ → α → τ} {V : τ → α → Prop} {x : τ}
    (hstep : ∀ s x a, R s x → V x a → ∃ t, step s a = some t ∧ R t (spec x a))
    (hs : R s x) (hm : Meets (fun x a => some (spec x a)) V x as) :
    ∃ t, run step s as = some t ∧ R t (as.foldl spec x) := by
  induction as generalizing s x with
  | nil => exact ⟨s, rfl, hs⟩
  | cons a as ih =>
    obtain ⟨m, hm', hr⟩ := hstep s x a hs hm.1
    obtain ⟨t, ht, hrt⟩ := ih hr (hm.2 _ rfl)
    exact ⟨t, run_cons.mpr ⟨m, hm', ht⟩, hrt⟩

/-- **Exactly the runs that meet `C` compute what the specification folds**, at every step, when a
step that satisfies the assumption `E` does so if and only if it satisfies `C`. -/
theorem foldl_iff_meets {τ : Type*} {R : σ → τ → Prop} {spec : τ → α → τ} {E : σ → α → Prop} {x : τ}
    (hstep : ∀ s x a, R s x → E s a → ((∃ t, step s a = some t ∧ R t (spec x a)) ↔ C s a))
    (hs : R s x) (he : Meets step E s as) :
    (∀ bs, bs <+: as → ∃ t, run step s bs = some t ∧ R t (bs.foldl spec x)) ↔
      Meets step C s as := by
  induction as generalizing s x with
  | nil =>
    refine ⟨fun _ => trivial, ?_⟩
    intro _ bs hbs
    rw [List.prefix_nil.mp hbs]
    exact ⟨s, rfl, hs⟩
  | cons a as ih =>
    constructor
    · intro hall
      obtain ⟨m, hrun, hm⟩ := hall [a] (List.cons_prefix_cons.mpr ⟨rfl, List.nil_prefix⟩)
      obtain ⟨n, hone, hnil⟩ := run_cons.mp hrun
      obtain rfl := Option.some.inj hnil
      refine ⟨(hstep s x a hs he.1).mp ⟨n, hone, hm⟩, ?_⟩
      intro t ht
      obtain rfl := Option.some.inj (ht.symm.trans hone)
      refine (ih hm (he.2 t ht)).mp ?_
      intro bs hbs
      obtain ⟨u, hu, hr⟩ := hall (a :: bs) (List.cons_prefix_cons.mpr ⟨rfl, hbs⟩)
      obtain ⟨v, hv, hrest⟩ := run_cons.mp hu
      rw [Option.some.inj (hv.symm.trans ht)] at hrest
      exact ⟨u, hrest, hr⟩
    · rintro ⟨hc, hrest⟩ bs hbs
      obtain ⟨m, hone, hm⟩ := (hstep s x a hs he.1).mpr hc
      cases bs with
      | nil => exact ⟨s, rfl, hs⟩
      | cons b bs =>
        obtain ⟨rfl, hpre⟩ := List.cons_prefix_cons.mp hbs
        obtain ⟨u, hu, hr⟩ := (ih hm (he.2 m hone)).mpr (hrest m hone) bs hpre
        exact ⟨u, run_cons.mpr ⟨m, hone, hu⟩, hr⟩

theorem Meets.and {D : σ → α → Prop} (h : Meets step C s as) (hd : Meets step D s as) :
    Meets step (fun s a => C s a ∧ D s a) s as := by
  induction as generalizing s with
  | nil => trivial
  | cons a as ih => exact ⟨⟨h.1, hd.1⟩, fun t ht => ih (h.2 t ht) (hd.2 t ht)⟩

theorem meets_of_forall (h : ∀ a ∈ as, ∀ s, C s a) : Meets step C s as := by
  induction as generalizing s with
  | nil => trivial
  | cons a as ih =>
    exact ⟨h a List.mem_cons_self s, fun t _ => ih fun b hb => h b (List.mem_cons_of_mem a hb)⟩

theorem meets_append (h : Meets step C s (as ++ bs)) : Meets step C s as := by
  induction as generalizing s with
  | nil => trivial
  | cons a as ih => exact ⟨h.1, fun t ht => ih (h.2 t ht)⟩

theorem meets_after (hrun : run step s as = some t) (h : Meets step C s (as ++ bs)) :
    Meets step C t bs := by
  induction as generalizing s with
  | nil => cases hrun; exact h
  | cons a as ih =>
    obtain ⟨m, hm, hrest⟩ := run_cons.mp hrun
    exact ih hrest (h.2 m hm)

theorem Meets.initial (h : Meets step C s as) (hp : bs <+: as) : Meets step C s bs := by
  obtain ⟨cs, rfl⟩ := hp
  exact meets_append h

theorem visits_self (h : run step s as = some t) : Visits step s as t :=
  ⟨as, List.prefix_refl as, h⟩

theorem visits_start : Visits step s as s := ⟨[], List.nil_prefix, rfl⟩

theorem Visits.cons (hs : step s a = some t) (h : Visits step t as u) :
    Visits step s (a :: as) u := by
  obtain ⟨bs, hbs, hrun⟩ := h
  exact ⟨a :: bs, List.cons_prefix_cons.mpr ⟨rfl, hbs⟩, run_cons.mpr ⟨t, hs, hrun⟩⟩

theorem exists_of_not_meets (h : (run step s as).isSome) (hm : ¬ Meets step C s as) :
    ∃ t a u, Visits step s as t ∧ Visits step s as u ∧ step t a = some u ∧ ¬ C t a := by
  induction as generalizing s with
  | nil => exact absurd trivial hm
  | cons a as ih =>
    obtain ⟨v, hv⟩ := Option.isSome_iff_exists.mp h
    obtain ⟨m, hstep, hrest⟩ := run_cons.mp hv
    by_cases hc : C s a
    · have htail : ¬ Meets step C m as := by
        intro htail
        refine hm ⟨hc, ?_⟩
        intro t ht
        rwa [Option.some.inj (ht.symm.trans hstep)]
      obtain ⟨t, b, u, ht, hu, hb, hnc⟩ := ih (by rw [hrest]; rfl) htail
      exact ⟨t, b, u, ht.cons hstep, hu.cons hstep, hb, hnc⟩
    · exact ⟨s, a, m, visits_start, .cons hstep visits_start, hstep, hc⟩

/-- **Two conditions that agree in the states of an invariant**, for the actions that `E` allows,
are met by the same runs, if the steps that satisfy them keep the invariant. -/
theorem Meets.congr {J : σ → Prop} {D E : σ → α → Prop}
    (hJ : ∀ s a t, J s → E s a → D s a → step s a = some t → J t)
    (hstep : ∀ s a, J s → E s a → (C s a ↔ D s a)) (hj : J s) (he : Meets step E s as) :
    Meets step C s as ↔ Meets step D s as := by
  induction as generalizing s with
  | nil => exact Iff.rfl
  | cons a as ih =>
    constructor
    · rintro ⟨hc, hrest⟩
      have hd := (hstep s a hj he.1).mp hc
      exact ⟨hd, fun t ht => (ih (hJ s a t hj he.1 hd ht) (he.2 t ht)).mp (hrest t ht)⟩
    · rintro ⟨hd, hrest⟩
      exact ⟨(hstep s a hj he.1).mpr hd,
        fun t ht => (ih (hJ s a t hj he.1 hd ht) (he.2 t ht)).mpr (hrest t ht)⟩

theorem meets_congr {J : σ → Prop} {D : σ → α → Prop}
    (hJ : ∀ s a t, J s → D s a → step s a = some t → J t)
    (hstep : ∀ s a, J s → (C s a ↔ D s a)) (hj : J s) : Meets step C s as ↔ Meets step D s as :=
  Meets.congr (fun s a t hj _ => hJ s a t hj) (fun s a hj _ => hstep s a hj) hj
    (meets_of_forall fun _ _ _ => trivial)

theorem meets_of_meets {J W : σ → Prop} {D : σ → α → Prop}
    (hJ : ∀ s a t, J s → step s a = some t → J t)
    (hC : ∀ s a, step s a = none → C s a)
    (hstep : ∀ s a t, J s → step s a = some t → W s → D s a → C s a ∧ W t)
    (hj : J s) (hw : W s) (hm : Meets step D s as) : Meets step C s as := by
  induction as generalizing s with
  | nil => trivial
  | cons a as ih =>
    cases hs : step s a with
    | none => exact ⟨hC s a hs, fun t ht => absurd (ht.symm.trans hs) (by simp)⟩
    | some m =>
      obtain ⟨hc, hwm⟩ := hstep s a m hj hs hw hm.1
      refine ⟨hc, ?_⟩
      intro t ht
      obtain rfl := Option.some.inj (ht.symm.trans hs)
      exact ih (hJ s a t hj hs) hwm (hm.2 t hs)

/-- **Two conditions on the runs that end in a `W`-state**: if a step satisfies `C` and ends in
a `W`-state exactly when it begins in one and satisfies `D`, the runs that meet `C` are those
that begin in a `W`-state and meet `D`.  `B` is any property that no step regains. -/
theorem meets_iff_meets {J B W : σ → Prop} {D : σ → α → Prop}
    (hJ : ∀ s a t, J s → step s a = some t → J t)
    (hB : ∀ s a t, J s → step s a = some t → B t → B s)
    (hstep : ∀ s a t, J s → B t → step s a = some t → (C s a ∧ W t ↔ W s ∧ D s a))
    (hj : J s) (h : run step s as = some u) (hb : B u) (hw : W u) :
    Meets step C s as ↔ W s ∧ Meets step D s as := by
  have main : ∀ as s, J s → run step s as = some u →
      B s ∧ (Meets step C s as ↔ W s ∧ Meets step D s as) := by
    intro as
    induction as with
    | nil =>
      intro s _ h
      cases h
      exact ⟨hb, fun _ => ⟨hw, trivial⟩, fun _ => trivial⟩
    | cons a as ih =>
      intro s hj h
      obtain ⟨m, hm, hrest⟩ := run_cons.mp h
      obtain ⟨hbm, hiff⟩ := ih m (hJ s a m hj hm) hrest
      have hone := hstep s a m hj hbm hm
      have hall : ∀ E : σ → α → Prop,
          Meets step E s (a :: as) ↔ E s a ∧ Meets step E m as := by
        intro E
        refine and_congr_right fun _ => ⟨fun he => he m hm, ?_⟩
        intro he t ht
        rwa [Option.some.inj (ht.symm.trans hm)]
      refine ⟨hB s a m hj hm hbm, ?_⟩
      rw [hall C, hall D, hiff, ← and_assoc, hone, and_assoc]
  exact (main as s hj h).2

theorem visits_induct (hstep : ∀ s a t, I s → C s a → step s a = some t → I t)
    (hs : I s) (hm : Meets step C s as) (h : Visits step s as t) : I t := by
  obtain ⟨bs, hbs, hrun⟩ := h
  exact meets_induct hstep hs (hm.initial hbs) hrun

/-- **Exactly the runs that meet `C` keep `P` throughout**, when `J` is an invariant of all
steps and, within `J`, a step from a `P`-state ends in a `P`-state if and only if `C` holds
of it. -/
theorem visits_iff_meets {J P : σ → Prop} (hJ : ∀ s a t, J s → P s → step s a = some t → J t)
    (hstep : ∀ s a t, J s → P s → step s a = some t → (P t ↔ C s a))
    (hj : J s) (hp : P s) (h : (run step s as).isSome) :
    (∀ t, Visits step s as t → P t) ↔ Meets step C s as := by
  induction as generalizing s with
  | nil =>
    refine ⟨fun _ => trivial, ?_⟩
    intro _ t ht
    obtain ⟨bs, hbs, hrun⟩ := ht
    rw [List.prefix_nil.mp hbs] at hrun
    cases hrun
    exact hp
  | cons a as ih =>
    obtain ⟨u, hu⟩ := Option.isSome_iff_exists.mp h
    obtain ⟨m, hm, hrest⟩ := run_cons.mp hu
    have hmeets : ∀ t, step s a = some t → t = m := fun t ht => Option.some.inj (ht.symm.trans hm)
    have htail : (run step m as).isSome := by rw [hrest]; rfl
    constructor
    · intro hall
      have hpm : P m := hall m (.cons hm visits_start)
      refine ⟨(hstep s a m hj hp hm).mp hpm, ?_⟩
      intro t ht
      rw [hmeets t ht]
      exact (ih (hJ s a m hj hp hm) hpm htail).mp fun v hv => hall v (.cons hm hv)
    · rintro ⟨hc, hrest'⟩ t ⟨bs, hbs, hrun⟩
      have hpm : P m := (hstep s a m hj hp hm).mpr hc
      cases bs with
      | nil => cases hrun; exact hp
      | cons b bs =>
        obtain ⟨rfl, hpre⟩ := List.cons_prefix_cons.mp hbs
        obtain ⟨v, hv, htl⟩ := run_cons.mp hrun
        rw [hmeets v hv] at htl
        exact (ih (hJ s b m hj hp hm) hpm htail).mpr (hrest' m hm) t ⟨bs, hpre, htl⟩

theorem visits_iff_last {J P : σ → Prop} (hJ : ∀ s a t, J s → step s a = some t → J t)
    (hP : ∀ s a t, J s → step s a = some t → P t → P s) (hj : J s) (h : run step s as = some u) :
    (∀ t, Visits step s as t → P t) ↔ P u := by
  refine ⟨fun hall => hall u (visits_self h), ?_⟩
  intro hu t ht
  obtain ⟨bs, ⟨cs, rfl⟩, hrun⟩ := ht
  rw [run_append_some hrun] at h
  have hjt : J t := run_induct hJ hj hrun
  clear hrun
  induction cs generalizing t with
  | nil => cases h; exact hu
  | cons c cs ih =>
    obtain ⟨m, hm, hrest⟩ := run_cons.mp h
    exact hP t c m hjt hm (ih m hrest (hJ t c m hjt hm))

end Run
