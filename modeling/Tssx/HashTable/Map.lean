import Mathlib.Data.Finmap
import Mathlib.Data.Int.Interval
import Tssx.HashTable
import Tssx.Lib.Run

/-!
# A hash table is a finite map

`KeyMap` is what a hash table is for: a finite map from keys to connections.  Every call does to
the table what it does to the map and returns the same, as long as no resize leaves a node behind
(`ScansAll`) and the table was not set up with a capacity whose bytes wrap around.
-/

namespace Tssx

open ChainedTable

/-! ### The map -/

abbrev KeyMap (α : Type) := Finmap fun _ : CInt => α

variable {α : Type}

def HashTableCall.performMap (call : HashTableCall α) (map : KeyMap α) :
    HashTableResult α × KeyMap α :=
  match call with
  | .insert key connection =>
    (.flag (if key ∈ map then HT_UPDATED else HT_INSERTED), map.insert key connection)
  | .contains key => (.flag (if key ∈ map then HT_FOUND else HT_NOT_FOUND), map)
  | .get key => (.connection (map.lookup key), map)
  | .remove key => (.flag (if key ∈ map then HT_OK else HT_NOT_FOUND), map.erase key)
  | .clear => (.nothing, ∅)
  | .isEmpty => (.flag (map.keys.card == 0), map)

def mapStep (state : KeyMap α × List (HashTableResult α)) (call : HashTableCall α) :
    KeyMap α × List (HashTableResult α) :=
  let (result, map) := call.performMap state.1
  (map, state.2 ++ [result])

/-! ### The table -/

/-- The nodes are the entries of the map. -/
structure RepresentsMap (table : HashTable α) (map : KeyMap α) : Prop where
  valid : Valid htScheme table
  lookup : ∀ key value, map.lookup key = some value ↔ (⟨key, value⟩ : HashNode α) ∈ table.held
  size : table.size = table.held.length

/-- A removal that resizes the table looks at the chains of all other nodes. -/
def ScansAll (table : HashTable α) : HashTableCall α → Prop
  | .remove key =>
    (∃ node ∈ table.held, node.key = key) → table.size - 1 = table.threshold / 4 →
      ∀ node ∈ table.held, node.key ≠ key → htHash table.capacity node.key < 2 ^ 31
  | _ => True

instance (table : HashTable α) : ∀ call : HashTableCall α, Decidable (ScansAll table call)
  | .remove key => inferInstanceAs (Decidable ((∃ node ∈ table.held, node.key = key) →
      table.size - 1 = table.threshold / 4 →
        ∀ node ∈ table.held, node.key ≠ key → htHash table.capacity node.key < 2 ^ 31))
  | .insert _ _ | .contains _ | .get _ | .clear | .isEmpty => isTrue trivial

variable {table table' : HashTable α} {map : KeyMap α} {key : CInt} {connection : α}
  {capacity : Nat}

theorem length_le_of_nodup {keys : List CInt} (h : keys.Nodup) : keys.length ≤ 2 ^ 32 := by
  have hnodup : (keys.map Subtype.val).Nodup := h.map Subtype.val_injective
  have hsub : (keys.map Subtype.val).toFinset ⊆ Finset.Ico (-2 ^ 31 : Int) (2 ^ 31) := by
    intro x hx
    obtain ⟨key, -, rfl⟩ := List.mem_map.mp (List.mem_toFinset.mp hx)
    exact Finset.mem_Ico.mpr key.2
  calc keys.length = (keys.map Subtype.val).toFinset.card := by
        rw [List.toFinset_card_of_nodup hnodup, List.length_map]
    _ ≤ (Finset.Ico (-2 ^ 31 : Int) (2 ^ 31)).card := Finset.card_le_card hsub
    _ = 2 ^ 32 := by rw [Int.card_Ico]; rfl

theorem htHash_lt (hpos : 0 < capacity) : htHash capacity key < capacity := Nat.mod_lt _ hpos

namespace RepresentsMap

theorem nodup (h : RepresentsMap table map) : (table.held.map HashNode.key).Nodup := by
  rcases h.valid with rfl | hs
  · exact List.nodup_nil
  · exact hs.keys

theorem size_le (h : RepresentsMap table map) : table.size ≤ 2 ^ 32 := by
  rw [h.size, ← List.length_map HashNode.key]
  exact length_le_of_nodup h.nodup

theorem fits (h : RepresentsMap table map) :
    (htScheme (α := α)).pointerSize * (table.size * 2) < (htScheme (α := α)).word := by
  have := h.size_le
  show 8 * (table.size * 2) < 2 ^ 64
  omega

theorem mem_iff (h : RepresentsMap table map) :
    key ∈ map ↔ ∃ node ∈ table.held, node.key = key := by
  rw [Finmap.mem_iff]
  constructor
  · rintro ⟨value, hv⟩
    exact ⟨_, (h.lookup key value).mp hv, rfl⟩
  · rintro ⟨node, hn, rfl⟩
    exact ⟨node.connection, (h.lookup node.key node.connection).mpr hn⟩

theorem keys_eq (h : RepresentsMap table map) :
    map.keys = (table.held.map HashNode.key).toFinset := by
  ext key
  rw [Finmap.mem_keys, h.mem_iff, List.mem_toFinset, List.mem_map]

theorem card_keys (h : RepresentsMap table map) : map.keys.card = table.size := by
  rw [h.keys_eq, List.toFinset_card_of_nodup h.nodup, List.length_map, h.size]

theorem zero : RepresentsMap (Table.zero : HashTable α) ∅ :=
  ⟨.inl rfl, fun key value => by simp [Table.held, Table.zero], rfl⟩

theorem of_empty (hv : Valid htScheme table) (hheld : table.held = []) (hsize : table.size = 0) :
    RepresentsMap table ∅ :=
  ⟨hv, fun key value => by simp [hheld], by rw [hsize, hheld]; rfl⟩

theorem find (h : RepresentsMap table map) (key : CInt) :
    ∃ found, ChainedTable.find htScheme table key (fun node => node.key == key) = some found ∧
      found.map HashNode.connection = map.lookup key := by
  refine ⟨_, h.valid.find fun node _ => beq_iff_eq, ?_⟩
  cases hf : table.held.find? fun node => node.key == key with
  | none =>
    have hnone : key ∉ map := by
      rw [h.mem_iff]
      rintro ⟨node, hn, hk⟩
      exact absurd (beq_iff_eq.mpr hk) (List.find?_eq_none.mp hf node hn)
    rw [Finmap.lookup_eq_none.mpr hnone]
    rfl
  | some node =>
    have hkey : node.key = key := beq_iff_eq.mp (by simpa only using List.find?_some hf)
    subst hkey
    exact ((h.lookup node.key node.connection).mpr (List.mem_of_find?_eq_some hf)).symm

/-- An entry in the place of all others with its key. -/
theorem insert_of_perm (h : RepresentsMap table map) (hv : Valid htScheme table')
    (hsize : table'.size = table'.held.length) {rest : List (HashNode α)}
    (hperm : table'.held.Perm (⟨key, connection⟩ :: rest))
    (hrest : ∀ node ∈ rest, node.key ≠ key)
    (hother : ∀ node : HashNode α, node.key ≠ key → (node ∈ rest ↔ node ∈ table.held)) :
    RepresentsMap table' (map.insert key connection) := by
  refine ⟨hv, ?_, hsize⟩
  intro k value
  rw [hperm.mem_iff, List.mem_cons]
  by_cases hk : k = key
  · subst hk
    rw [Finmap.lookup_insert]
    constructor
    · intro hv
      exact .inl (by rw [Option.some.inj hv])
    · rintro (he | hm)
      · rw [(HashNode.mk.inj he).2]
      · exact absurd rfl (hrest _ hm)
  · rw [Finmap.lookup_insert_of_ne map hk, h.lookup, ← hother _ hk]
    constructor
    · exact .inr
    · rintro (he | hm)
      · exact absurd (HashNode.mk.inj he).1 hk
      · exact hm

/-- The first resize of a table that is full looks at every chain: a table with all keys in it has
fewer than `2 ^ 31` chains. -/
theorem kept_of_full (h : RepresentsMap table map) (hfull : table.size = table.threshold) :
    kept htScheme table table.held = table.held := by
  apply List.filter_eq_self.mpr
  intro node hnode
  rcases h.valid with rfl | hs
  · exact absurd hnode List.not_mem_nil
  · have hcapacity := hs.minimum
    have hthreshold := hs.threshold
    have hsize := h.size_le
    simp only [htScheme, HT_MINIMUM_CAPACITY, HT_LOAD_FACTOR] at hcapacity hthreshold
    have hlt : htHash table.capacity node.key < table.capacity := htHash_lt (by omega)
    have hscan : htHash table.capacity node.key < min table.capacity (2 ^ 31) := by omega
    exact decide_eq_true hscan

/-- **`ht_insert`** maps the key to the connection. -/
theorem insert (h : RepresentsMap table map) (key : CInt) (connection : α) :
    ∃ table', htInsert table key connection =
        some (if key ∈ map then HT_UPDATED else HT_INSERTED, table') ∧
      RepresentsMap table' (map.insert key connection) := by
  rcases h.valid.insert key (p := fun node => node.key == key)
      (f := fun node => { node with connection }) (by exact (by decide : 8 * 8 < 2 ^ 64))
      h.fits h.kept_of_full
      (fun node => beq_iff_eq) (fun node => rfl) (some { key, connection }) with
    ⟨old, rest, table', hkey, hold, hi, hs, hheld, hsize, -⟩ | ⟨hnone, -, hnew⟩
  · obtain rfl : old.key = key := hkey
    have hmem : old.key ∈ map := h.mem_iff.mpr ⟨old, hold.mem_iff.mpr List.mem_cons_self, rfl⟩
    have hrest := hs.rest_ne hheld
    refine ⟨table', by rw [if_pos hmem]; exact hi, h.insert_of_perm (.inr hs) ?_ hheld hrest ?_⟩
    · rw [hsize, h.size, hold.length_eq, hheld.length_eq, List.length_cons, List.length_cons]
    · intro node hne
      rw [hold.mem_iff, List.mem_cons]
      constructor
      · exact .inr
      · rintro (rfl | hm)
        · exact absurd rfl hne
        · exact hm
  · have hmem : key ∉ map := by
      rw [h.mem_iff]
      rintro ⟨node, hn, hk⟩
      exact hnone node hn hk
    obtain ⟨table', hi, hs, hheld, hsize, -⟩ := hnew { key, connection } rfl
    refine ⟨table', by rw [if_neg hmem]; exact hi,
      h.insert_of_perm (.inr hs) ?_ hheld hnone fun node _ => Iff.rfl⟩
    rw [hsize, h.size, hheld.length_eq, List.length_cons]

theorem erase_of_mem (h : RepresentsMap table map) (hv : Valid htScheme table')
    (hsize : table'.size = table'.held.length)
    (hmem : ∀ node, node ∈ table'.held ↔ node ∈ table.held ∧ node.key ≠ key) :
    RepresentsMap table' (map.erase key) := by
  refine ⟨hv, ?_, hsize⟩
  intro k value
  rw [hmem]
  by_cases hk : k = key
  · subst hk
    simp
  · rw [Finmap.lookup_erase_ne hk, h.lookup]
    exact ⟨fun hm => ⟨hm, hk⟩, fun hm => hm.1⟩

theorem absent (h : RepresentsMap table map) (hnone : ∀ node ∈ table.held, node.key ≠ key) :
    key ∉ map ∧ (RepresentsMap table (map.erase key) ↔ ScansAll table (.remove key)) := by
  constructor
  · rw [h.mem_iff]
    rintro ⟨node, hn, hk⟩
    exact hnone node hn hk
  · refine iff_of_true ?_ ?_
    · exact h.erase_of_mem h.valid h.size fun node => ⟨fun hm => ⟨hm, hnone node hm⟩, And.left⟩
    · rintro ⟨node, hn, hk⟩
      exact absurd hk (hnone node hn)

/-- **The table without a node** stands for the map without its key, unless it leaves other nodes
behind. -/
theorem removed {old : HashNode α} {rest : List (HashNode α)} (h : RepresentsMap table map)
    (hs : Sound htScheme table) (hperm : table.held.Perm (old :: rest))
    (hs' : Sound htScheme table') (hsize : table'.size = table.size - 1)
    (hheld : table'.held.Perm
      (if table.size - 1 = table.threshold / 4 ∧
          (htScheme (α := α)).minimumCapacity ≤ (table.size - 1) * 2
        then kept htScheme table rest else rest)) :
    RepresentsMap table' (map.erase old.key) ↔ ScansAll table (.remove old.key) := by
  have hin : old ∈ table.held := hperm.mem_iff.mpr List.mem_cons_self
  have hrest : ∀ node ∈ rest, node.key ≠ old.key := hs.rest_ne hperm
  have hlength : table.size - 1 = rest.length := by
    rw [h.size, hperm.length_eq, List.length_cons, Nat.add_sub_cancel]
  have hminimum : 8 ≤ table.capacity := hs.minimum
  have hthreshold : table.threshold = 5 * table.capacity := hs.threshold
  constructor
  · -- the size counts the nodes that are left behind
    intro hr' _ hquarter node hnode hne
    have hlarge : (htScheme (α := α)).minimumCapacity ≤ (table.size - 1) * 2 := by
      show 8 ≤ _
      omega
    rw [if_pos ⟨hquarter, hlarge⟩] at hheld
    have hall : (kept htScheme table rest).length = rest.length := by
      rw [← hheld.length_eq, ← hr'.size, hsize, hlength]
    have hmem : node ∈ rest := by
      rcases List.mem_cons.mp (hperm.mem_iff.mp hnode) with rfl | hmem
      · exact absurd rfl hne
      · exact hmem
    have hkept := List.length_filter_eq_length_iff.mp hall node hmem
    exact (Nat.lt_min.mp (of_decide_eq_true hkept)).2
  · intro hscan
    have hall : (if table.size - 1 = table.threshold / 4 ∧
        (htScheme (α := α)).minimumCapacity ≤ (table.size - 1) * 2
        then kept htScheme table rest else rest) = rest := by
      refine ite_eq_right_iff.mpr fun hquarter => List.filter_eq_self.mpr ?_
      intro node hnode
      have hlow := hscan ⟨old, hin, rfl⟩ hquarter.1 node
        (hperm.mem_iff.mpr (List.mem_cons_of_mem old hnode)) (hrest node hnode)
      have hlt : htHash table.capacity node.key < table.capacity := htHash_lt (by omega)
      exact decide_eq_true (Nat.lt_min.mpr ⟨hlt, hlow⟩)
    rw [hall] at hheld
    refine h.erase_of_mem (.inr hs') (by rw [hsize, hlength, hheld.length_eq]) ?_
    intro node
    rw [hheld.mem_iff, hperm.mem_iff, List.mem_cons]
    constructor
    · exact fun hm => ⟨.inr hm, hrest node hm⟩
    · rintro ⟨rfl | hm, hne⟩
      · exact absurd rfl hne
      · exact hm

/-- **`ht_remove`** takes the key out of the map, unless it leaves other nodes behind. -/
theorem remove (h : RepresentsMap table map) (key : CInt) :
    ∃ table', htRemove table key =
        some (if key ∈ map then HT_OK else HT_NOT_FOUND, table') ∧
      (RepresentsMap table' (map.erase key) ↔ ScansAll table (.remove key)) := by
  rcases h.valid with rfl | hs
  · obtain ⟨hmem, hr⟩ := h.absent fun node (hnode : node ∈ []) =>
      absurd hnode List.not_mem_nil
    exact ⟨.zero, by rw [if_neg hmem]; rfl, hr⟩
  · rcases hs.remove h.fits key (fun node => node.key == key) with
      ⟨hr, hnone⟩ | ⟨old, rest, table', hold, hperm, hr, hs', hsize, -, hheld⟩
    · have hother : ∀ node ∈ table.held, node.key ≠ key := by
        intro node hnode hk
        have := hnone node hnode hk
        rw [beq_iff_eq.mpr hk] at this
        cases this
      obtain ⟨hmem, hr'⟩ := h.absent hother
      exact ⟨table, by rw [if_neg hmem]; exact hr, hr'⟩
    · obtain rfl : old.key = key := beq_iff_eq.mp hold
      have hmem : old.key ∈ map :=
        h.mem_iff.mpr ⟨old, hperm.mem_iff.mpr List.mem_cons_self, rfl⟩
      exact ⟨table', by rw [if_pos hmem]; exact hr, h.removed hs hperm hs' hsize hheld⟩

/-- **Every call** returns what it returns for the map, and does to the table what it does to the
map unless it leaves nodes behind. -/
theorem perform (h : RepresentsMap table map) (call : HashTableCall α) :
    ∃ table', call.perform table = some ((call.performMap map).1, table') ∧
      (RepresentsMap table' (call.performMap map).2 ↔ ScansAll table call) := by
  cases call with
  | insert key connection =>
    obtain ⟨table', hi, hr⟩ := h.insert key connection
    exact ⟨table', by rw [HashTableCall.perform, hi]; rfl, iff_of_true hr trivial⟩
  | contains key =>
    obtain ⟨found, hf, heq⟩ := h.find key
    refine ⟨table, ?_, iff_of_true h trivial⟩
    rw [HashTableCall.perform, htContains, hf, HashTableCall.performMap]
    have hmem : found.isSome = true ↔ key ∈ map := by
      rw [← Finmap.lookup_isSome, ← heq, Option.isSome_map]
    simp [hmem]
  | get key =>
    obtain ⟨found, hf, heq⟩ := h.find key
    refine ⟨table, ?_, iff_of_true h trivial⟩
    rw [HashTableCall.perform, htGet, hf, HashTableCall.performMap, ← heq]
    rfl
  | remove key =>
    obtain ⟨table', hr, hmap⟩ := h.remove key
    exact ⟨table', by rw [HashTableCall.perform, hr]; rfl, hmap⟩
  | clear =>
    obtain ⟨table', hc, hv, hheld, hsize⟩ :=
      h.valid.clear (by exact (by decide : 8 * 8 < 2 ^ 64))
    exact ⟨table', by rw [HashTableCall.perform, htClear, hc]; rfl,
      iff_of_true (.of_empty hv hheld hsize) trivial⟩
  | isEmpty =>
    refine ⟨table, ?_, iff_of_true h trivial⟩
    rw [HashTableCall.perform, HashTableCall.performMap, h.card_keys]
    rfl

theorem start_iff {start : Option Nat} :
    RepresentsMap (htStart start : HashTable α) ∅ ↔ ∀ capacity ∈ start, capacity < 2 ^ 61 := by
  cases start with
  | none => exact iff_of_true .zero (by simp)
  | some capacity =>
    have hfits : 8 * max capacity 8 < 2 ^ 64 ↔ capacity < 2 ^ 61 := by omega
    have hvalid : Valid htScheme (htStart (some capacity) : HashTable α) ↔ capacity < 2 ^ 61 :=
      Valid.setup_iff.trans hfits
    have hheld : (htStart (some capacity) : HashTable α).held = [] :=
      List.flatten_replicate_nil
    have hstart : (∀ c ∈ some capacity, c < 2 ^ 61) ↔ capacity < 2 ^ 61 := by simp
    rw [hstart, ← hvalid]
    exact ⟨RepresentsMap.valid, fun hv => .of_empty hv hheld rfl⟩

end RepresentsMap

/-! ### Runs -/

/-- The table represents the map, and the calls so far have returned the same. -/
def AgreesWithMap (state : HashTable α × List (HashTableResult α))
    (spec : KeyMap α × List (HashTableResult α)) : Prop :=
  RepresentsMap state.1 spec.1 ∧ state.2 = spec.2

/-- After each of the calls the results are those of the map, which the table represents. -/
def RefinesMap (start : Option Nat) (calls : List (HashTableCall α)) : Prop :=
  ∀ before, before <+: calls → ∃ table map results,
    Run.run hashTableStep (htStart start, []) before = some (table, results) ∧
    before.foldl mapStep (∅, []) = (map, results) ∧ RepresentsMap table map ∧
    map.keys.card = table.size ∧ Invariant htScheme table

/-- **The hash table refines a finite map** in exactly the runs in which no removal leaves a node
behind, from a table whose first array does not have fewer chains than its capacity, since its
bytes wrap around. -/
theorem hashTable_refines_map (start : Option Nat) (calls : List (HashTableCall α)) :
    RefinesMap start calls ↔ (∀ capacity ∈ start, capacity < 2 ^ 61) ∧
      Run.Meets hashTableStep (fun state call => ScansAll state.1 call)
        (htStart start, []) calls := by
  by_cases hstart : ∀ capacity ∈ start, capacity < 2 ^ 61
  case neg =>
    refine iff_of_false (fun h => hstart ?_) (fun h => hstart h.1)
    obtain ⟨table, map, results, hrun, hmap, hr, -⟩ := h [] List.nil_prefix
    cases hrun
    cases hmap
    exact RepresentsMap.start_iff.mp hr
  rw [and_iff_right hstart]
  have hexact : (∀ before, before <+: calls → ∃ state,
      Run.run hashTableStep (htStart start, []) before = some state ∧
        AgreesWithMap state (before.foldl mapStep (∅, []))) ↔
      Run.Meets hashTableStep (fun state call => ScansAll state.1 call)
        (htStart start, []) calls := by
    refine Run.foldl_iff_meets (E := fun _ _ => True) ?_ ⟨RepresentsMap.start_iff.mpr hstart, rfl⟩
      (Run.meets_of_forall fun _ _ _ => trivial)
    rintro ⟨table, results⟩ ⟨map, _⟩ call ⟨h, rfl⟩ -
    obtain ⟨table', hp, hr⟩ := h.perform call
    have hstep : hashTableStep (table, results) call =
        some (table', results ++ [(call.performMap map).1]) := by rw [hashTableStep, hp]; rfl
    constructor
    · rintro ⟨t, ht, hrep, -⟩
      obtain rfl := Option.some.inj (ht.symm.trans hstep)
      exact hr.mp hrep
    · intro hs
      exact ⟨_, hstep, hr.mpr hs, rfl⟩
  rw [← hexact]
  refine forall₂_congr fun before _ => ?_
  constructor
  · rintro ⟨table, map, results, hrun, hmap, hr, -, -⟩
    exact ⟨(table, results), hrun, by rw [hmap]; exact ⟨hr, rfl⟩⟩
  · rintro ⟨⟨table, results⟩, hrun, hr, hlog⟩
    exact ⟨table, _, results, hrun, Prod.ext rfl hlog.symm, hr, hr.card_keys, hr.valid.invariant⟩

/-- A table that is set up for nine chains, with a negative key. -/
theorem negativeKey_refines :
    RefinesMap (some 9) [HashTableCall.insert ⟨-1, by decide⟩ 4, .insert ⟨7, by decide⟩ 5,
      .remove ⟨-1, by decide⟩] :=
  (hashTable_refines_map (some 9) _).mpr ⟨by simp, by decide +kernel⟩

/-- An array for `2 ^ 61` chains has no bytes, and the first insertion looks outside it. -/
theorem wrappedSetup_fails :
    ¬ ∀ (start : Option Nat) (calls : List (HashTableCall Nat)), RefinesMap start calls := by
  intro h
  obtain ⟨table, map, results, hrun, -⟩ :=
    h (some (2 ^ 61)) [.insert ⟨0, by decide⟩ 1] _ (List.prefix_refl _)
  have hnone : Run.run hashTableStep (htStart (some (2 ^ 61)), [])
      [HashTableCall.insert ⟨0, by decide⟩ 1] = none := by decide +kernel
  rw [hnone] at hrun
  cases hrun

end Tssx
