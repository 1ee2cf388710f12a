import Tssx.HashTable.Map
import Tssx.StringSet.Members

/-!
# When the tables are resized

Hash tables and string sets have the same capacities: a table of capacity `c` becomes full at
`5 * c` nodes, and a removal resizes it when it leaves a quarter of that.  The new capacity is
twice the number of nodes, so a removal that resizes a table takes its capacity from `c` to
`2 * (5 * c / 4)`, which is more than `c`.

A resize does leave the size in the middle between the two points: `steady` says that the next
one takes as many calls as there are nodes, and half as many again.
-/

namespace Tssx

open ChainedTable

section Tables

/-- The parameters that both tables have. -/
structure Standard {κ ν : Type} (S : Scheme κ ν) : Prop where
  minimum : S.minimumCapacity = 8
  load : S.loadFactor = 5
  pointer : S.pointerSize = 8
  word : S.word = 2 ^ 64

theorem htScheme_standard {α : Type} : Standard (htScheme (α := α)) := ⟨rfl, rfl, rfl, rfl⟩

theorem ssScheme_standard : Standard ssScheme := ⟨rfl, rfl, rfl, rfl⟩

/-- A table whose nodes, of 16 bytes at least, fit into memory. -/
structure Resident {κ ν : Type} (S : Scheme κ ν) (table : Table ν) : Prop where
  valid : Valid S table
  fits : 16 * table.size < 2 ^ 64

variable {κ ν : Type} {S : Scheme κ ν} {table table' : Table ν} {key : κ} {p : ν → Bool}
  {f : ν → ν} {node : Option ν} {flag : Bool}

theorem Resident.bytes (hs : Standard S) (h : Resident S table) :
    S.pointerSize * (table.size * 2) < S.word := by
  rw [hs.pointer, hs.word]
  have := h.fits
  omega

theorem Standard.minimum_fits (hs : Standard S) :
    S.pointerSize * S.minimumCapacity < S.word := by
  rw [hs.pointer, hs.minimum, hs.word]
  decide

/-- **The new capacity is larger** than the old one. -/
theorem capacity_lt_of_quarter (hs : Standard S) (h : Sound S table)
    (hquarter : table.size - 1 = table.threshold / 4) :
    table.capacity < (table.size - 1) * 2 ∧ S.minimumCapacity ≤ (table.size - 1) * 2 := by
  have hminimum := h.minimum
  have hthreshold := h.threshold
  rw [hs.minimum] at *
  rw [hs.load] at hthreshold
  omega

theorem Resident.insert (hs : Standard S) (h : Resident S table)
    (hroom : 16 * (table.size + 1) < 2 ^ 64)
    (hi : insert S table key p f node = some (flag, table'))
    (hp : ∀ node, p node = true ↔ S.key node = key) (hf : ∀ node, S.key (f node) = S.key node)
    (hnode : ∀ n, node = some n → S.key n = key) :
    Sound S table' ∧ 16 * table'.size < 2 ^ 64 ∧ table'.size ≤ table.size + 1 ∧
      table'.capacity = preparedCapacity S table := by
  obtain ⟨ready, hr, hready, hsize, hfull, hcap, -⟩ :=
    h.valid.prepare hs.minimum_fits (h.bytes hs)
  rw [ChainedTable.insert, hr, Option.bind_some] at hi
  rcases hready.store key hfull hp hf node with
    ⟨old, rest, stored, -, -, hst, hsound, -, hsz, hcp⟩ | ⟨-, hcrash, hnew⟩
  · obtain ⟨-, rfl⟩ := Prod.mk.inj (Option.some.inj (hst.symm.trans hi))
    exact ⟨hsound, by omega, by omega, hcp.trans hcap⟩
  · cases node with
    | none => exact absurd (hcrash.symm.trans hi) (Option.some_ne_none _).symm
    | some n =>
      obtain ⟨stored, hst, hsound, -, hsz, hcp⟩ := hnew n (hnode n rfl)
      obtain ⟨-, rfl⟩ := Prod.mk.inj (Option.some.inj (hst.symm.trans hi))
      exact ⟨hsound, by omega, by omega, hcp.trans hcap⟩

theorem Resident.remove (hs : Standard S) (h : Resident S table) (key : κ) (p : ν → Bool)
    (hp : ∀ node ∈ table.held, p node = true → S.key node = key) :
    ((∀ node ∈ table.held, S.key node = key → p node = false) ∧
        remove S table key p = some (false, table)) ∨
      ((∃ node ∈ table.held, S.key node = key ∧ p node = true) ∧ Sound S table ∧ ∃ table',
        remove S table key p = some (true, table') ∧ Sound S table' ∧
        table'.size = table.size - 1 ∧
        table'.capacity =
          if table.size - 1 = table.threshold / 4 then (table.size - 1) * 2
          else table.capacity) := by
  rcases h.valid with rfl | hsound
  · exact .inl ⟨fun node hn => absurd hn List.not_mem_nil, rfl⟩
  · rcases hsound.remove (h.bytes hs) key p with
      ⟨hr, hnone⟩ | ⟨old, rest, table', hold, hperm, hr, hs', hsize, hcap, -⟩
    · exact .inl ⟨hnone, hr⟩
    · have hin : old ∈ table.held := hperm.mem_iff.mpr List.mem_cons_self
      refine .inr ⟨⟨old, hin, hp old hin hold, hold⟩, hsound, table', hr, hs', hsize, ?_⟩
      rw [hcap]
      by_cases hquarter : table.size - 1 = table.threshold / 4
      · rw [if_pos hquarter, if_pos ⟨hquarter, (capacity_lt_of_quarter hs hsound hquarter).2⟩]
      · rw [if_neg hquarter, if_neg fun hboth => hquarter hboth.1]

/-- What a call that `clears` a table or `resizes` it, or does neither, does to the sizes. -/
structure Kept (S : Scheme κ ν) (table table' : Table ν) (clears resizes : Prop) : Prop where
  resident : Resident S table'
  sound : Sound S table → ¬ clears → Sound S table'
  size : ¬ clears → table'.size ≤ table.size + 1
  capacity : Sound S table → ¬ clears → ¬ resizes → table'.capacity = table.capacity

variable {clears resizes : Prop}

theorem Kept.refl (h : Resident S table) : Kept S table table clears resizes :=
  ⟨h, fun hs _ => hs, fun _ => Nat.le_succ _, fun _ _ _ => rfl⟩

theorem Kept.insert (hs : Standard S) (h : Resident S table)
    (hroom : 16 * (table.size + 1) < 2 ^ 64)
    (hi : insert S table key p f node = some (flag, table'))
    (hp : ∀ node, p node = true ↔ S.key node = key) (hf : ∀ node, S.key (f node) = S.key node)
    (hnode : ∀ n, node = some n → S.key n = key)
    (hr : table.nodes ≠ none ∧ table.size = table.threshold → resizes) :
    Kept S table table' clears resizes := by
  obtain ⟨hsound, hsmall, hsize, hcap⟩ := h.insert hs hroom hi hp hf hnode
  refine ⟨⟨.inr hsound, hsmall⟩, fun _ _ => hsound, fun _ => hsize, ?_⟩
  intro hold _ hno
  obtain ⟨nodes, hn, -, -⟩ := hold.nodes
  have hnotfull : ¬ table.size = table.threshold := fun hfull => hno (hr ⟨by simp [hn], hfull⟩)
  rw [hcap, preparedCapacity, hn, if_neg (by simp), if_neg hnotfull]

theorem Kept.remove (hs : Standard S) (h : Resident S table)
    (hi : remove S table key p = some (flag, table'))
    (hp : ∀ node ∈ table.held, p node = true → S.key node = key)
    (hr : (∃ node ∈ table.held, S.key node = key ∧ p node = true) ∧
      table.size - 1 = table.threshold / 4 → resizes) : Kept S table table' clears resizes := by
  rcases h.remove hs key p hp with
    ⟨-, hnot⟩ | ⟨hnode, hold, removed, hrem, hsound, hsize, hcap⟩
  · obtain ⟨-, rfl⟩ := Prod.mk.inj (Option.some.inj (hnot.symm.trans hi))
    exact .refl h
  · obtain ⟨-, rfl⟩ := Prod.mk.inj (Option.some.inj (hrem.symm.trans hi))
    have hsmall := h.fits
    refine ⟨⟨.inr hsound, by omega⟩, fun _ _ => hsound, fun _ => by omega, ?_⟩
    intro _ _ hno
    rw [hcap, if_neg fun hquarter => hno (hr ⟨hnode, hquarter⟩)]

theorem Kept.clear (hs : Standard S) (h : Resident S table) (hc : clear S table = some table')
    (hclears : clears) : Kept S table table' clears resizes := by
  obtain ⟨cleared, hc', hv, -, hsize⟩ := h.valid.clear hs.minimum_fits
  obtain rfl := Option.some.inj (hc'.symm.trans hc)
  exact ⟨⟨hv, by omega⟩, fun _ hne => absurd hclears hne, fun hne => absurd hclears hne,
    fun _ hne => absurd hclears hne⟩

/-! ### Between two resizes -/

variable {σ α : Type} {step : σ → α → Option σ} {view : σ → Table ν} {J : σ → Prop}
  {Env Resizes : σ → α → Prop} {s : σ} {later : List α}

theorem steady (size n : Nat) (hs : Standard S) (hJ : ∀ s, J s → Sound S (view s))
    (hstep : ∀ s a t, J s → Env s a → ¬ Resizes s a → step s a = some t →
      J t ∧ (view t).size ≤ (view s).size + 1 ∧ (view t).capacity = (view s).capacity)
    (hresize : ∀ s a, Resizes s a → (view s).size = (view s).threshold ∨
      (view s).size - 1 = (view s).threshold / 4)
    (hj : J s) (hpos : 8 ≤ size * 2) (hcap : (view s).capacity = size * 2)
    (hsize : (view s).size ≤ size + n) (hlen : n + later.length ≤ size + size / 2)
    (henv : Run.Meets step Env s later) : Run.Meets step (fun s a => ¬ Resizes s a) s later := by
  induction later generalizing s n with
  | nil => trivial
  | cons a later ih =>
    rw [List.length_cons] at hlen
    have hthreshold := (hJ s hj).threshold
    rw [hs.load, hcap] at hthreshold
    have hno : ¬ Resizes s a := by
      intro hr
      rcases hresize s a hr with hfull | hquarter <;> omega
    refine ⟨hno, ?_⟩
    intro t ht
    obtain ⟨hjt, hst, hct⟩ := hstep s a t hj henv.1 hno ht
    exact ih (n + 1) hjt (hct.trans hcap) (by omega) (by omega) (henv.2 t ht)

/-- What a removal `a` from `s` to `t` does to the capacity, and when the next resize is. -/
structure RemovalOutcome (step : σ → α → Option σ) (view : σ → Table ν) (Env Resizes : σ → α → Prop)
    (clears : α → Prop) (s t : σ) (a : α) : Prop where
  capacity : (view t).capacity ≤ (view s).capacity ↔ ¬ Resizes s a
  apart : Resizes s a → ∀ later, later.length ≤ (view t).size + (view t).size / 2 →
    (∀ b ∈ later, ¬ clears b) → Run.Meets step Env t later →
      Run.Meets step (fun s b => ¬ Resizes s b) t later

/-- **A removal that resizes** a table enlarges it, and leaves it between two resizes. -/
theorem removal_outcome {clears : α → Prop} {t : σ} {a : α} (hs : Standard S)
    (hcall : ∀ s a t, Resident S (view s) → Env s a → step s a = some t →
      Kept S (view s) (view t) (clears a) (Resizes s a))
    (hresize : ∀ s a, Resizes s a → (view s).size = (view s).threshold ∨
      (view s).size - 1 = (view s).threshold / 4)
    (h : (view t = view s ∧ ¬ Resizes s a) ∨
      Resident S (view s) ∧ Sound S (view s) ∧ Sound S (view t) ∧
        (Resizes s a ↔ (view s).size - 1 = (view s).threshold / 4) ∧
        (view t).size = (view s).size - 1 ∧
        (view t).capacity =
          if (view s).size - 1 = (view s).threshold / 4 then ((view s).size - 1) * 2
          else (view s).capacity) :
    RemovalOutcome step view Env Resizes clears s t a := by
  rcases h with ⟨hsame, hno⟩ | ⟨hresident, hsound, hsound', hiff, hsize, hcap⟩
  · exact ⟨by simp [hsame, hno], fun hr => absurd hr hno⟩
  · by_cases hquarter : (view s).size - 1 = (view s).threshold / 4
    · have hr := hiff.mpr hquarter
      obtain ⟨hlt, hmin⟩ := capacity_lt_of_quarter hs hsound hquarter
      rw [hs.minimum] at hmin
      rw [if_pos hquarter] at hcap
      refine ⟨iff_of_false (by omega) (not_not_intro hr), ?_⟩
      intro _ later hlen hclears henv
      have hboth : Run.Meets step (fun s b => Env s b ∧ ¬ clears b) t later :=
        henv.and (Run.meets_of_forall fun b hb _ => hclears b hb)
      have hfits := hresident.fits
      refine steady ((view s).size - 1) 0 hs (J := fun s => Resident S (view s) ∧ Sound S (view s))
        (fun s hj => hj.2) ?_ hresize ⟨⟨.inr hsound', by omega⟩, hsound'⟩ hmin hcap (by omega)
        (by omega) hboth
      rintro u b v ⟨hru, hsu⟩ ⟨he, hnc⟩ hno hv
      have hk := hcall u b v hru he hv
      exact ⟨⟨hk.resident, hk.sound hsu hnc⟩, hk.size hnc, hk.capacity hsu hnc hno⟩
    · have hno : ¬ Resizes s a := fun hr => hquarter (hiff.mp hr)
      rw [if_neg hquarter] at hcap
      exact ⟨by simp [hcap, hno], fun hr => absurd hr hno⟩

end Tables

/-! ### Hash tables -/

section HashTables

variable {α : Type} {table table' : HashTable α}

/-- The call resizes the table. -/
def HashTableResizes (table : HashTable α) : HashTableCall α → Prop
  | .insert _ _ => table.nodes ≠ none ∧ table.size = table.threshold
  | .remove key =>
    (∃ node ∈ table.held, node.key = key) ∧ table.size - 1 = table.threshold / 4
  | _ => False

/-- A node can only be allocated while the nodes fit into memory. -/
def HashTableFits (table : HashTable α) : HashTableCall α → Prop
  | .insert _ _ => 16 * (table.size + 1) < 2 ^ 64
  | _ => True

instance (table : HashTable α) : ∀ call, Decidable (HashTableResizes table call)
  | .insert _ _ => inferInstanceAs (Decidable (table.nodes ≠ none ∧ _ = _))
  | .remove key => inferInstanceAs (Decidable ((∃ node ∈ table.held, node.key = key) ∧ _ = _))
  | .contains _ | .get _ | .clear | .isEmpty => isFalse id

instance (table : HashTable α) : ∀ call, Decidable (HashTableFits table call)
  | .insert _ _ => inferInstanceAs (Decidable (_ < _))
  | .remove _ | .contains _ | .get _ | .clear | .isEmpty => isTrue trivial

theorem Kept.hashTable {call : HashTableCall α} {result : HashTableResult α}
    (h : Resident htScheme table) (hfits : HashTableFits table call)
    (hp : call.perform table = some (result, table')) :
    Kept htScheme table table' (call = .clear) (HashTableResizes table call) := by
  cases call with
  | insert key connection =>
    obtain ⟨⟨flag, inserted⟩, hi, he⟩ := Option.map_eq_some_iff.mp hp
    obtain ⟨-, rfl⟩ := Prod.mk.inj he
    exact .insert htScheme_standard h hfits hi (fun node => beq_iff_eq) (fun _ => rfl)
      (fun n hn => by rw [← Option.some.inj hn]; rfl) id
  | remove key =>
    obtain ⟨⟨flag, removed⟩, hi, he⟩ := Option.map_eq_some_iff.mp hp
    obtain ⟨-, rfl⟩ := Prod.mk.inj he
    refine .remove htScheme_standard h hi (fun node _ hk => beq_iff_eq.mp hk) ?_
    rintro ⟨⟨node, hn, hk, -⟩, hquarter⟩
    exact ⟨⟨node, hn, hk⟩, hquarter⟩
  | contains key =>
    obtain ⟨found, -, he⟩ := Option.map_eq_some_iff.mp hp
    obtain ⟨-, rfl⟩ := Prod.mk.inj he
    exact .refl h
  | get key =>
    obtain ⟨found, -, he⟩ := Option.map_eq_some_iff.mp hp
    obtain ⟨-, rfl⟩ := Prod.mk.inj he
    exact .refl h
  | clear =>
    obtain ⟨cleared, hc, he⟩ := Option.map_eq_some_iff.mp hp
    obtain ⟨-, rfl⟩ := Prod.mk.inj he
    exact .clear htScheme_standard h hc rfl
  | isEmpty =>
    obtain ⟨-, rfl⟩ := Prod.mk.inj (Option.some.inj hp)
    exact .refl h

theorem hashTableResizes_or {call : HashTableCall α} (h : HashTableResizes table call) :
    table.size = table.threshold ∨ table.size - 1 = table.threshold / 4 := by
  cases call with
  | insert key connection => exact .inl h.2
  | remove key => exact .inr h.2
  | contains key => exact absurd h id
  | get key => exact absurd h id
  | clear => exact absurd h id
  | isEmpty => exact absurd h id

theorem Resident.hashTable_run {start : Option Nat} (hstart : ∀ capacity ∈ start, capacity < 2 ^ 61)
    {calls : List (HashTableCall α)} {state : HashTable α × List (HashTableResult α)}
    (hfits : Run.Meets hashTableStep (fun state call => HashTableFits state.1 call)
      (htStart start, []) calls)
    (hrun : Run.run hashTableStep (htStart start, []) calls = some state) :
    Resident htScheme state.1 := by
  refine Run.meets_induct (I := fun state => Resident htScheme state.1) ?_ ?_ hfits hrun
  · rintro ⟨table, results⟩ call t h he ht
    obtain ⟨⟨result, table'⟩, hp, rfl⟩ := Option.map_eq_some_iff.mp ht
    exact (Kept.hashTable h he hp).resident
  · have hempty := (RepresentsMap.start_iff (α := α)).mpr hstart
    refine ⟨hempty.valid, ?_⟩
    rw [← hempty.card_keys, Finmap.keys_empty, Finset.card_empty]
    decide

theorem hashTable_removal {state : HashTable α × List (HashTableResult α)}
    (h : Resident htScheme state.1) (key : CInt) :
    ∃ after, hashTableStep state (.remove key) = some after ∧
      RemovalOutcome hashTableStep Prod.fst (fun state call => HashTableFits state.1 call)
        (fun state call => HashTableResizes state.1 call) (fun call => call = .clear)
        state after (.remove key) := by
  have houtcome : ∀ after, _ → RemovalOutcome hashTableStep Prod.fst
      (fun state call => HashTableFits state.1 call)
      (fun state call => HashTableResizes state.1 call) (fun call => call = .clear)
      state after (.remove key) := fun after =>
    removal_outcome htScheme_standard (by
      rintro ⟨table, results⟩ call t hr he ht
      obtain ⟨⟨result, table'⟩, hp, rfl⟩ := Option.map_eq_some_iff.mp ht
      exact Kept.hashTable hr he hp) (fun s a hr => hashTableResizes_or hr)
  obtain ⟨table, results⟩ := state
  rcases h.remove htScheme_standard key (fun node => node.key == key)
      (fun node _ hk => beq_iff_eq.mp hk) with
    ⟨hnone, hr⟩ | ⟨⟨node, hn, hk, -⟩, hs, table', hr, hs', hsize, hcap⟩
  · refine ⟨(table, results ++ [.flag false]), ?_, houtcome _ (.inl ⟨rfl, ?_⟩)⟩
    · rw [hashTableStep, HashTableCall.perform, htRemove, hr]
      rfl
    · rintro ⟨⟨node, hn, hk⟩, -⟩
      have := hnone node hn hk
      rw [beq_iff_eq.mpr hk] at this
      cases this
  · refine ⟨(table', results ++ [.flag true]), ?_,
      houtcome _ (.inr ⟨h, hs, hs', ?_, hsize, hcap⟩)⟩
    · rw [hashTableStep, HashTableCall.perform, htRemove, hr]
      rfl
    · exact ⟨fun hres => hres.2, fun hquarter => ⟨⟨node, hn, hk⟩, hquarter⟩⟩

end HashTables

/-! ### String sets -/

section StringSets

variable {set set' : StringSet}

def StringSetResizes (set : StringSet) : StringSetCall → Prop
  | .insert _ _ => set.nodes ≠ none ∧ set.size = set.threshold
  | .remove key owner => (∃ node ∈ set.held, node.key = key ∧ some node.address = owner) ∧
      set.size - 1 = set.threshold / 4
  | _ => False

/-- The nodes fit into memory, and pointers point where memory says. -/
def StringSetFits (set : StringSet) (call : StringSetCall) : Prop :=
  StringMemory set call ∧
    ∀ key block, call = .insert key block → 16 * (set.size + 1) < 2 ^ 64

instance (set : StringSet) : ∀ call, Decidable (StringSetResizes set call)
  | .insert _ _ => inferInstanceAs (Decidable (set.nodes ≠ none ∧ _ = _))
  | .remove key owner => inferInstanceAs (Decidable
      ((∃ node ∈ set.held, node.key = key ∧ some node.address = owner) ∧ _ = _))
  | .contains _ | .clear | .isEmpty => isFalse id

instance (set : StringSet) (call : StringSetCall) : Decidable (StringSetFits set call) :=
  match call with
  | .insert key block =>
    decidable_of_iff (StringMemory set (.insert key block) ∧ 16 * (set.size + 1) < 2 ^ 64)
      (and_congr_right' (by simp))
  | .remove key owner =>
    decidable_of_iff (StringMemory set (.remove key owner)) (by simp [StringSetFits])
  | .contains _ | .clear | .isEmpty => isTrue ⟨trivial, fun _ _ h => by cases h⟩

theorem Kept.stringSet {call : StringSetCall} {result : Option Bool}
    (h : Resident ssScheme set) (hfits : StringSetFits set call)
    (hp : call.perform set = some (result, set')) :
    Kept ssScheme set set' (call = .clear) (StringSetResizes set call) := by
  cases call with
  | insert key block =>
    obtain ⟨⟨flag, inserted⟩, hi, he⟩ := Option.map_eq_some_iff.mp hp
    obtain ⟨-, rfl⟩ := Prod.mk.inj he
    refine .insert ssScheme_standard h (hfits.2 key block rfl) hi (fun node => beq_iff_eq)
      (fun _ => rfl) ?_ id
    intro n hn
    rw [ssCreateNode] at hn
    split at hn
    · rw [← Option.some.inj hn]
      rfl
    · cases hn
  | remove key owner =>
    obtain ⟨⟨flag, removed⟩, hi, he⟩ := Option.map_eq_some_iff.mp hp
    obtain ⟨-, rfl⟩ := Prod.mk.inj he
    refine .remove ssScheme_standard h hi
      (fun node hn ho => hfits.1 node hn (beq_iff_eq.mp ho)) ?_
    rintro ⟨⟨node, hn, hk, ho⟩, hquarter⟩
    exact ⟨⟨node, hn, hk, beq_iff_eq.mp ho⟩, hquarter⟩
  | contains key =>
    obtain ⟨found, -, he⟩ := Option.map_eq_some_iff.mp hp
    obtain ⟨-, rfl⟩ := Prod.mk.inj he
    exact .refl h
  | clear =>
    obtain ⟨cleared, hc, he⟩ := Option.map_eq_some_iff.mp hp
    obtain ⟨-, rfl⟩ := Prod.mk.inj he
    exact .clear ssScheme_standard h hc rfl
  | isEmpty =>
    obtain ⟨-, rfl⟩ := Prod.mk.inj (Option.some.inj hp)
    exact .refl h

theorem stringSetResizes_or {call : StringSetCall} (h : StringSetResizes set call) :
    set.size = set.threshold ∨ set.size - 1 = set.threshold / 4 := by
  cases call with
  | insert key block => exact .inl h.2
  | remove key owner => exact .inr h.2
  | contains key => exact absurd h id
  | clear => exact absurd h id
  | isEmpty => exact absurd h id

theorem Resident.stringSet_run {start : Option Nat} (hstart : ∀ capacity ∈ start, capacity < 2 ^ 61)
    {calls : List StringSetCall} {state : StringSet × List (Option Bool)}
    (hfits : Run.Meets stringSetStep (fun state call => StringSetFits state.1 call)
      (ssStart start, []) calls)
    (hrun : Run.run stringSetStep (ssStart start, []) calls = some state) :
    Resident ssScheme state.1 := by
  refine Run.meets_induct (I := fun state => Resident ssScheme state.1) ?_ ?_ hfits hrun
  · rintro ⟨set, results⟩ call t h he ht
    obtain ⟨⟨result, set'⟩, hp, rfl⟩ := Option.map_eq_some_iff.mp ht
    exact (Kept.stringSet h he hp).resident
  · have hempty := RepresentsSet.start_iff.mpr hstart
    refine ⟨hempty.valid, ?_⟩
    rw [← hempty.card]
    decide

theorem stringSet_removal {state : StringSet × List (Option Bool)}
    (h : Resident ssScheme state.1) {key : CString} {owner : Option BlockAddress}
    (hown : StringMemory state.1 (.remove key owner)) :
    ∃ after, stringSetStep state (.remove key owner) = some after ∧
      RemovalOutcome stringSetStep Prod.fst (fun state call => StringSetFits state.1 call)
        (fun state call => StringSetResizes state.1 call) (fun call => call = .clear)
        state after (.remove key owner) := by
  have houtcome : ∀ after, _ → RemovalOutcome stringSetStep Prod.fst
      (fun state call => StringSetFits state.1 call)
      (fun state call => StringSetResizes state.1 call) (fun call => call = .clear)
      state after (.remove key owner) := fun after =>
    removal_outcome ssScheme_standard (by
      rintro ⟨set, results⟩ call t hr he ht
      obtain ⟨⟨result, set'⟩, hp, rfl⟩ := Option.map_eq_some_iff.mp ht
      exact Kept.stringSet hr he hp) (fun s a hr => stringSetResizes_or hr)
  obtain ⟨set, results⟩ := state
  rcases h.remove ssScheme_standard key (fun node => some node.address == owner)
      (fun node hn ho => hown node hn (beq_iff_eq.mp ho)) with
    ⟨hnone, hr⟩ | ⟨⟨node, hn, hk, ho⟩, hs, set', hr, hs', hsize, hcap⟩
  · refine ⟨(set, results ++ [some false]), ?_, houtcome _ (.inl ⟨rfl, ?_⟩)⟩
    · rw [stringSetStep, StringSetCall.perform, ssRemove, hr]
      rfl
    · rintro ⟨⟨node, hn, hk, ho⟩, -⟩
      have := hnone node hn hk
      rw [beq_iff_eq.mpr ho] at this
      cases this
  · refine ⟨(set', results ++ [some true]), ?_, houtcome _ (.inr ⟨h, hs, hs', ?_, hsize, hcap⟩)⟩
    · rw [stringSetStep, StringSetCall.perform, ssRemove, hr]
      rfl
    · exact ⟨fun hres => hres.2,
        fun hquarter => ⟨⟨node, hn, hk, beq_iff_eq.mp ho⟩, hquarter⟩⟩

end StringSets

/-! ### Both tables -/

/-- **A removal increases the capacity exactly when it resizes the table**, and the next resize is
then as many calls away as there are nodes, and half as many again. -/
theorem removals_resize_apart {α : Type} :
    (∀ start : Option Nat, (∀ capacity ∈ start, capacity < 2 ^ 61) →
      ∀ (calls : List (HashTableCall α)) state,
        Run.Meets hashTableStep (fun state call => HashTableFits state.1 call)
          (htStart start, []) calls →
        Run.run hashTableStep (htStart start, []) calls = some state →
        ∀ key, ∃ after, hashTableStep state (.remove key) = some after ∧
          RemovalOutcome hashTableStep Prod.fst (fun state call => HashTableFits state.1 call)
            (fun state call => HashTableResizes state.1 call) (fun call => call = .clear)
            state after (.remove key)) ∧
    (∀ start : Option Nat, (∀ capacity ∈ start, capacity < 2 ^ 61) →
      ∀ (calls : List StringSetCall) state,
        Run.Meets stringSetStep (fun state call => StringSetFits state.1 call)
          (ssStart start, []) calls →
        Run.run stringSetStep (ssStart start, []) calls = some state →
        ∀ key owner, StringMemory state.1 (.remove key owner) →
          ∃ after, stringSetStep state (.remove key owner) = some after ∧
            RemovalOutcome stringSetStep Prod.fst (fun state call => StringSetFits state.1 call)
              (fun state call => StringSetResizes state.1 call) (fun call => call = .clear)
              state after (.remove key owner)) := by
  constructor
  · intro start hstart calls state hfits hrun key
    exact hashTable_removal (.hashTable_run hstart hfits hrun) key
  · intro start hstart calls state hfits hrun key owner hown
    exact stringSet_removal (.stringSet_run hstart hfits hrun) hown

/-- The keys from 0 to 10. -/
private def elevenKeys : List (HashTableCall Nat) :=
  (List.range 11).map fun n => .insert (.ofNat n) n

/-- The strings from `a` to `k`, of one character each. -/
private def letter (n : Fin 11) : CString := ⟨[97 + n.val.toUInt8], by revert n; decide⟩

private def letterBlock (n : Fin 11) : Allocation := ⟨⟨n + 1, by omega⟩, 16⟩

private def elevenLetters : List StringSetCall :=
  (List.finRange 11).map fun n => .insert (letter n) (letterBlock n)

/-- The removals of the first key and of the first string do resize the table and the set. -/
theorem elevenKeys_removals :
    (∃ state after, Run.run hashTableStep (htStart none, []) elevenKeys = some state ∧
      hashTableStep state (.remove (.ofNat 0)) = some after ∧
      HashTableResizes state.1 (.remove (.ofNat 0)) ∧
      RemovalOutcome hashTableStep Prod.fst (fun state call => HashTableFits state.1 call)
        (fun state call => HashTableResizes state.1 call) (fun call => call = .clear)
        state after (.remove (.ofNat 0))) ∧
    ∃ state after, Run.run stringSetStep (ssStart none, []) elevenLetters = some state ∧
      stringSetStep state (.remove (letter 0) (some (letterBlock 0).address)) = some after ∧
      StringSetResizes state.1 (.remove (letter 0) (some (letterBlock 0).address)) ∧
      RemovalOutcome stringSetStep Prod.fst (fun state call => StringSetFits state.1 call)
        (fun state call => StringSetResizes state.1 call) (fun call => call = .clear)
        state after (.remove (letter 0) (some (letterBlock 0).address)) := by
  constructor
  · have hfits : Run.Meets hashTableStep (fun state call => HashTableFits state.1 call)
        (htStart none, []) elevenKeys := by decide +kernel
    have hrun : ((Run.run hashTableStep (htStart none, []) elevenKeys).any fun state =>
        HashTableResizes state.1 (.remove (.ofNat 0))) = true := by decide +kernel
    obtain ⟨state, hstate, hres⟩ := (Option.any_eq_true _ _).mp hrun
    obtain ⟨after, hstep, houtcome⟩ :=
      removals_resize_apart.1 none (by simp) elevenKeys state hfits hstate (.ofNat 0)
    exact ⟨state, after, hstate, hstep, of_decide_eq_true hres, houtcome⟩
  · have hfits : Run.Meets stringSetStep (fun state call => StringSetFits state.1 call)
        (ssStart none, []) elevenLetters := by decide +kernel
    have hrun : ((Run.run stringSetStep (ssStart none, []) elevenLetters).any fun state =>
        decide (StringSetResizes state.1 (.remove (letter 0) (some (letterBlock 0).address))) &&
          decide (StringMemory state.1 (.remove (letter 0) (some (letterBlock 0).address)))) =
      true := by decide +kernel
    obtain ⟨state, hstate, hboth⟩ := (Option.any_eq_true _ _).mp hrun
    obtain ⟨hres, hown⟩ := Bool.and_eq_true_iff.mp hboth
    obtain ⟨after, hstep, houtcome⟩ := (removals_resize_apart (α := Nat)).2 none (by simp)
      elevenLetters state hfits hstate _ _ (of_decide_eq_true hown)
    exact ⟨state, after, hstate, hstep, of_decide_eq_true hres, houtcome⟩

/-- **With eleven keys a removal enlarges the table** from eight chains to twenty. -/
theorem removal_enlarges :
    ¬ ∀ (calls : List (HashTableCall Nat)) state key after,
      Run.run hashTableStep (htStart none, []) calls = some state →
      hashTableStep state (.remove key) = some after →
        after.1.capacity ≤ state.1.capacity := by
  intro h
  have hbefore : ((Run.run hashTableStep (htStart none, []) elevenKeys).map fun state =>
      state.1.capacity) = some 8 := by decide +kernel
  have hafter : (((Run.run hashTableStep (htStart none, []) elevenKeys).bind fun state =>
      hashTableStep state (.remove (.ofNat 0))).map fun state => state.1.capacity) = some 20 := by
    decide +kernel
  obtain ⟨state, hrun, hstate⟩ := Option.map_eq_some_iff.mp hbefore
  rw [hrun] at hafter
  obtain ⟨after, hstep, hcap⟩ := Option.map_eq_some_iff.mp hafter
  have hle := h elevenKeys state (.ofNat 0) after hrun hstep
  omega

end Tssx
