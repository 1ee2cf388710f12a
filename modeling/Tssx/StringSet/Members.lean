import Mathlib.Data.Finset.Card
import Mathlib.Order.Interval.Finset.Nat
import Tssx.Lib.Run
import Tssx.StringSet

/-!
# A string set is a set of strings

Every call does to a string set what it does to a finite set of strings, and returns what it
returns for that, in exactly the runs that `Cares` for two things: a new string is put into a
block with a spare byte, and a string that is removed is passed as the node's own copy.
-/

namespace Tssx

open ChainedTable

/-! ### The set -/

def StringSetCall.performSet (call : StringSetCall) (strings : Finset CString) :
    Option Bool × Finset CString :=
  match call with
  | .insert key _ =>
    (some (if key ∈ strings then SS_NOT_INSERTED else SS_INSERTED), Insert.insert key strings)
  | .remove key _ =>
    (some (if key ∈ strings then SS_OK else SS_NOT_FOUND), strings.erase key)
  | .contains key => (some (if key ∈ strings then SS_FOUND else SS_NOT_FOUND), strings)
  | .clear => (none, ∅)
  | .isEmpty => (some (strings.card == 0), strings)

def memberStep (state : Finset CString × List (Option Bool)) (call : StringSetCall) :
    Finset CString × List (Option Bool) :=
  let (result, strings) := call.performSet state.1
  (strings, state.2 ++ [result])

/-! ### The table -/

/-- The nodes are the strings of the set, in different blocks. -/
structure RepresentsSet (set : StringSet) (strings : Finset CString) : Prop where
  valid : Valid ssScheme set
  mem : ∀ key, key ∈ strings ↔ ∃ node ∈ set.held, node.key = key
  size : set.size = set.held.length
  blocks : (set.held.map StringNode.address).Nodup

/-- What memory guarantees: a new block is not in use, and a pointer into a node points to the
string of the node. -/
def StringMemory (set : StringSet) : StringSetCall → Prop
  | .insert _ block => ∀ node ∈ set.held, node.address ≠ block.address
  | .remove key owner => ∀ node ∈ set.held, some node.address = owner → node.key = key
  | _ => True

/-- A new node has a byte for the NUL, and a string is removed by its node's own copy. -/
def Cares (set : StringSet) : StringSetCall → Prop
  | .insert key block => (∀ node ∈ set.held, node.key ≠ key) →
      STRING_NODE_SIZE + key.length < block.room
  | .remove key owner => ∀ node ∈ set.held, node.key = key → owner = some node.address
  | _ => True

instance (set : StringSet) : ∀ call, Decidable (StringMemory set call)
  | .insert _ block =>
    inferInstanceAs (Decidable (∀ node ∈ set.held, node.address ≠ block.address))
  | .remove key owner =>
    inferInstanceAs (Decidable (∀ node ∈ set.held, some node.address = owner → node.key = key))
  | .contains _ | .clear | .isEmpty => isTrue trivial

instance (set : StringSet) : ∀ call, Decidable (Cares set call)
  | .insert key block => inferInstanceAs (Decidable
      ((∀ node ∈ set.held, node.key ≠ key) → STRING_NODE_SIZE + key.length < block.room))
  | .remove key owner =>
    inferInstanceAs (Decidable (∀ node ∈ set.held, node.key = key → owner = some node.address))
  | .contains _ | .clear | .isEmpty => isTrue trivial

variable {set set' : StringSet} {strings : Finset CString} {key : CString}
  {owner : Option BlockAddress} {block : Allocation}

theorem length_lt_of_nodup {addresses : List BlockAddress} (h : addresses.Nodup) :
    addresses.length < 2 ^ 60 := by
  have hnodup : (addresses.map Subtype.val).Nodup := h.map Subtype.val_injective
  have hsub : (addresses.map Subtype.val).toFinset ⊆ Finset.Ioo 0 (2 ^ 60) := by
    intro x hx
    obtain ⟨address, -, rfl⟩ := List.mem_map.mp (List.mem_toFinset.mp hx)
    exact Finset.mem_Ioo.mpr address.2
  have hcard := Finset.card_le_card hsub
  rw [List.toFinset_card_of_nodup hnodup, List.length_map, Nat.card_Ioo] at hcard
  omega

theorem ss_kept (hv : Valid ssScheme set) {nodes : List StringNode} (hsub : nodes ⊆ set.held) :
    kept ssScheme set nodes = nodes := by
  apply List.filter_eq_self.mpr
  intro node hnode
  rcases hv with rfl | hs
  · exact absurd (hsub hnode) List.not_mem_nil
  · exact decide_eq_true (Nat.mod_lt _ (Nat.lt_of_lt_of_le ssScheme.minimum_pos hs.minimum))

namespace RepresentsSet

theorem nodup (h : RepresentsSet set strings) : (set.held.map StringNode.key).Nodup :=
  h.valid.invariant.once

theorem fits (h : RepresentsSet set strings) :
    ssScheme.pointerSize * (set.size * 2) < ssScheme.word := by
  have hlt := length_lt_of_nodup h.blocks
  rw [List.length_map, ← h.size] at hlt
  show 8 * (set.size * 2) < 2 ^ 64
  omega

theorem strings_eq (h : RepresentsSet set strings) :
    strings = (set.held.map StringNode.key).toFinset := by
  ext key
  rw [h.mem, List.mem_toFinset, List.mem_map]

theorem card (h : RepresentsSet set strings) : strings.card = set.size := by
  rw [h.strings_eq, List.toFinset_card_of_nodup h.nodup, List.length_map, h.size]

theorem of_empty (hv : Valid ssScheme set) (hheld : set.held = []) (hsize : set.size = 0) :
    RepresentsSet set ∅ :=
  { valid := hv, mem := fun key => by simp [hheld], size := by rw [hsize, hheld]; rfl,
    blocks := by rw [hheld]; exact List.nodup_nil }

theorem contains (h : RepresentsSet set strings) (key : CString) :
    ssContains set key = some (if key ∈ strings then SS_FOUND else SS_NOT_FOUND) := by
  have hfind : find ssScheme set key (fun node => ssEquals node.key key) =
      some (set.held.find? fun node => ssEquals node.key key) :=
    h.valid.find fun node _ => beq_iff_eq
  rw [ssContains, hfind, Option.map_some]
  have hmem : (set.held.find? fun node => ssEquals node.key key).isSome = true ↔
      key ∈ strings := by
    rw [List.find?_isSome, h.mem]
    constructor
    · rintro ⟨node, hn, hk⟩
      exact ⟨node, hn, beq_iff_eq.mp hk⟩
    · rintro ⟨node, hn, hk⟩
      exact ⟨node, hn, beq_iff_eq.mpr hk⟩
  simp only [hmem]

theorem insert_cases (h : RepresentsSet set strings) (key : CString)
    (hfresh : ∀ node ∈ set.held, node.address ≠ block.address) :
    (key ∈ strings ∧ ∃ set', ssInsert set key block = some (SS_NOT_INSERTED, set') ∧
        RepresentsSet set' strings ∧ set'.held.Perm set.held) ∨
      (key ∉ strings ∧ STRING_NODE_SIZE + key.length < block.room ∧
        ∃ set', ssInsert set key block = some (SS_INSERTED, set') ∧
          RepresentsSet set' (Insert.insert key strings) ∧
          set'.held.Perm ({ address := block.address, key } :: set.held)) ∨
      (key ∉ strings ∧ ¬ STRING_NODE_SIZE + key.length < block.room ∧
        ssInsert set key block = none) := by
  rcases h.valid.insert key (p := fun node => ssEquals node.key key) (f := id)
      (by exact (by decide : 8 * 8 < 2 ^ 64)) h.fits
      (fun _ => ss_kept h.valid (List.Subset.refl _)) (fun node => beq_iff_eq) (fun node => rfl)
      (ssCreateNode block key) with
    ⟨old, rest, set', hkey, hold, hi, hs, hheld, hsize, -⟩ | ⟨hnone, hcrash, hnew⟩
  · have hperm : set'.held.Perm set.held := hheld.trans hold.symm
    have hin : old ∈ set.held := hold.mem_iff.mpr List.mem_cons_self
    refine .inl ⟨(h.mem key).mpr ⟨old, hin, hkey⟩, set', hi, ?_, hperm⟩
    refine { valid := .inr hs, mem := ?_, size := by rw [hsize, h.size, hperm.length_eq],
             blocks := ((hperm.map _).nodup_iff).mpr h.blocks }
    intro k
    rw [h.mem]
    simp only [hperm.mem_iff]
  · have hmem : key ∉ strings := by
      rw [h.mem]
      rintro ⟨node, hn, hk⟩
      exact hnone node hn hk
    by_cases hroom : STRING_NODE_SIZE + key.length < block.room
    · have hcreate : ssCreateNode block key = some { address := block.address, key } :=
        if_pos hroom
      obtain ⟨set', hi, hs, hheld, hsize, -⟩ := hnew { address := block.address, key } rfl
      refine .inr (.inl ⟨hmem, hroom, set', by rw [ssInsert, hcreate]; exact hi, ?_, hheld⟩)
      refine { valid := .inr hs, mem := ?_, size := ?_, blocks := ?_ }
      · intro k
        rw [Finset.mem_insert, h.mem]
        simp only [hheld.mem_iff, List.mem_cons, exists_eq_or_imp]
        exact or_congr eq_comm Iff.rfl
      · rw [hsize, h.size, hheld.length_eq, List.length_cons]
      · refine ((hheld.map _).nodup_iff).mpr (List.nodup_cons.mpr ⟨?_, h.blocks⟩)
        intro hused
        obtain ⟨node, hn, ha⟩ := List.mem_map.mp hused
        exact hfresh node hn ha
    · have hcreate : ssCreateNode block key = none := if_neg hroom
      exact .inr (.inr ⟨hmem, hroom, by rw [ssInsert, hcreate]; exact hcrash⟩)

/-- **`ss_insert`** adds the string, if there is room for it. -/
theorem insert (h : RepresentsSet set strings) (hfresh : StringMemory set (.insert key block)) :
    (∃ set', ssInsert set key block =
        some (if key ∈ strings then SS_NOT_INSERTED else SS_INSERTED, set') ∧
      RepresentsSet set' (Insert.insert key strings)) ↔ Cares set (.insert key block) := by
  have habsent : key ∉ strings → ∀ node ∈ set.held, node.key ≠ key := by
    intro hmem node hn hk
    exact hmem ((h.mem key).mpr ⟨node, hn, hk⟩)
  rcases h.insert_cases key hfresh with
    ⟨hmem, set', hi, hr, -⟩ | ⟨hmem, hroom, set', hi, hr, -⟩ | ⟨hmem, hroom, hi⟩
  · obtain ⟨node, hn, hk⟩ := (h.mem key).mp hmem
    refine iff_of_true ⟨set', by rw [hi, if_pos hmem], ?_⟩ fun hnone => absurd hk (hnone node hn)
    rwa [Finset.insert_eq_of_mem hmem]
  · exact iff_of_true ⟨set', by rw [hi, if_neg hmem], hr⟩ fun _ => hroom
  · refine iff_of_false ?_ fun hcares => hroom (hcares (habsent hmem))
    rintro ⟨set', hi', -⟩
    rw [hi] at hi'
    cases hi'

theorem removed {old : StringNode} {rest : List StringNode} (h : RepresentsSet set strings)
    (hs : Sound ssScheme set) (hperm : set.held.Perm (old :: rest)) (hs' : Sound ssScheme set')
    (hsize : set'.size = set.size - 1) (hheld : set'.held.Perm rest) :
    RepresentsSet set' (strings.erase old.key) := by
  have hrest : ∀ node ∈ rest, node.key ≠ old.key := hs.rest_ne hperm
  refine { valid := .inr hs', mem := ?_, size := ?_, blocks := ?_ }
  · intro k
    rw [Finset.mem_erase, h.mem]
    constructor
    · rintro ⟨hne, node, hn, rfl⟩
      rcases List.mem_cons.mp (hperm.mem_iff.mp hn) with rfl | hn
      · exact absurd rfl hne
      · exact ⟨node, hheld.mem_iff.mpr hn, rfl⟩
    · rintro ⟨node, hn, rfl⟩
      have hn := hheld.mem_iff.mp hn
      exact ⟨hrest node hn, node, hperm.mem_iff.mpr (List.mem_cons_of_mem old hn), rfl⟩
  · rw [hsize, h.size, hperm.length_eq, hheld.length_eq, List.length_cons, Nat.add_sub_cancel]
  · have hblocks := ((hperm.map StringNode.address).nodup_iff).mp h.blocks
    rw [List.map_cons, List.nodup_cons] at hblocks
    exact ((hheld.map _).nodup_iff).mpr hblocks.2

/-- **`ss_remove`** removes the string if it is given the node's own copy. -/
theorem remove (h : RepresentsSet set strings) (hown : StringMemory set (.remove key owner)) :
    (∃ set', ssRemove set key owner =
        some (if key ∈ strings then SS_OK else SS_NOT_FOUND, set') ∧
      RepresentsSet set' (strings.erase key)) ↔ Cares set (.remove key owner) := by
  have habsent : key ∉ strings → ssRemove set key owner = some (SS_NOT_FOUND, set) →
      ((∃ set', ssRemove set key owner =
          some (if key ∈ strings then SS_OK else SS_NOT_FOUND, set') ∧
        RepresentsSet set' (strings.erase key)) ↔ Cares set (.remove key owner)) := by
    intro hmem hr
    refine iff_of_true ⟨set, by rw [hr, if_neg hmem], ?_⟩ ?_
    · rwa [Finset.erase_eq_of_notMem hmem]
    · intro node hn hk
      exact absurd ((h.mem key).mpr ⟨node, hn, hk⟩) hmem
  rcases h.valid with rfl | hs
  · refine habsent ?_ rfl
    rw [h.mem]
    rintro ⟨node, hn, -⟩
    exact absurd hn List.not_mem_nil
  · rcases hs.remove h.fits key (fun node => some node.address == owner) with
      ⟨hr, hnone⟩ | ⟨old, rest, set', hold, hperm, hr, hs', hsize, -, hheld⟩
    · by_cases hmem : key ∈ strings
      · obtain ⟨node, hn, hk⟩ := (h.mem key).mp hmem
        have hother : some node.address ≠ owner := by simpa using hnone node hn hk
        refine iff_of_false ?_ fun hcares => hother (hcares node hn hk).symm
        rintro ⟨set', hr', -⟩
        rw [ssRemove, hr, if_pos hmem] at hr'
        cases hr'
      · exact habsent hmem hr
    · have hin : old ∈ set.held := hperm.mem_iff.mpr List.mem_cons_self
      have howner : some old.address = owner := beq_iff_eq.mp hold
      obtain rfl : old.key = key := hown old hin howner
      have hmem : old.key ∈ strings := (h.mem old.key).mpr ⟨old, hin, rfl⟩
      have hsub : rest ⊆ set.held := fun node hnode =>
        hperm.mem_iff.mpr (List.mem_cons_of_mem old hnode)
      rw [ss_kept h.valid hsub, ite_self] at hheld
      refine iff_of_true ⟨set', by rw [if_pos hmem]; exact hr, ?_⟩ ?_
      · exact h.removed hs hperm hs' hsize hheld
      · intro node hn hk
        rcases List.mem_cons.mp (hperm.mem_iff.mp hn) with rfl | hn
        · exact howner.symm
        · exact absurd hk (hs.rest_ne hperm node hn)

/-- **Every call** returns what it returns for the set of strings, and does to the table what it
does to the set, exactly if it cares. -/
theorem perform (h : RepresentsSet set strings) {call : StringSetCall}
    (hm : StringMemory set call) :
    (∃ set', call.perform set = some ((call.performSet strings).1, set') ∧
      RepresentsSet set' (call.performSet strings).2) ↔ Cares set call := by
  cases call with
  | insert key block =>
    rw [← h.insert hm]
    refine exists_congr fun set' => and_congr_left fun _ => ?_
    simp [StringSetCall.perform, StringSetCall.performSet, Prod.ext_iff]
  | remove key owner =>
    rw [← h.remove hm]
    refine exists_congr fun set' => and_congr_left fun _ => ?_
    simp [StringSetCall.perform, StringSetCall.performSet, Prod.ext_iff]
  | contains key =>
    refine iff_of_true ⟨set, ?_, h⟩ trivial
    rw [StringSetCall.perform, h.contains]
    rfl
  | clear =>
    obtain ⟨set', hc, hv, hheld, hsize⟩ := h.valid.clear (by decide)
    exact iff_of_true ⟨set', by rw [StringSetCall.perform, ssClear, hc]; rfl,
      .of_empty hv hheld hsize⟩ trivial
  | isEmpty =>
    refine iff_of_true ⟨set, ?_, h⟩ trivial
    rw [StringSetCall.perform, StringSetCall.performSet, h.card]
    rfl

theorem start_iff {start : Option Nat} :
    RepresentsSet (ssStart start) ∅ ↔ ∀ capacity ∈ start, capacity < 2 ^ 61 := by
  cases start with
  | none => exact iff_of_true (.of_empty (.inl rfl) rfl rfl) (by simp)
  | some capacity =>
    have hfits : 8 * max capacity 8 < 2 ^ 64 ↔ capacity < 2 ^ 61 := by omega
    have hvalid : Valid ssScheme (ssStart (some capacity)) ↔ capacity < 2 ^ 61 :=
      Valid.setup_iff.trans hfits
    have hheld : (ssStart (some capacity)).held = [] := List.flatten_replicate_nil
    have hstart : (∀ c ∈ some capacity, c < 2 ^ 61) ↔ capacity < 2 ^ 61 := by simp
    rw [hstart, ← hvalid]
    exact ⟨RepresentsSet.valid, fun hv => .of_empty hv hheld rfl⟩

end RepresentsSet

/-! ### Runs -/

/-- The table represents the set, and the calls so far have returned the same. -/
def AgreesWithSet (state : StringSet × List (Option Bool))
    (spec : Finset CString × List (Option Bool)) : Prop :=
  RepresentsSet state.1 spec.1 ∧ state.2 = spec.2

/-- After each of the calls the results are those of the set of strings, which the table
represents. -/
def RefinesSet (start : Option Nat) (calls : List StringSetCall) : Prop :=
  ∀ before, before <+: calls → ∃ set strings results,
    Run.run stringSetStep (ssStart start, []) before = some (set, results) ∧
    before.foldl memberStep (∅, []) = (strings, results) ∧ RepresentsSet set strings ∧
    strings.card = set.size ∧ Invariant ssScheme set

/-- **The string set refines a set of strings** in exactly the runs in which every new string gets
a block with a spare byte and every string that is removed is the node's own copy, from a table
whose first array does not have fewer chains than its capacity. -/
theorem stringSet_refines_set (start : Option Nat) (calls : List StringSetCall)
    (hmemory : Run.Meets stringSetStep (fun state call => StringMemory state.1 call)
      (ssStart start, []) calls) :
    RefinesSet start calls ↔ (∀ capacity ∈ start, capacity < 2 ^ 61) ∧
      Run.Meets stringSetStep (fun state call => Cares state.1 call)
        (ssStart start, []) calls := by
  by_cases hstart : ∀ capacity ∈ start, capacity < 2 ^ 61
  case neg =>
    refine iff_of_false (fun h => hstart ?_) (fun h => hstart h.1)
    obtain ⟨set, strings, results, hrun, hset, hr, -⟩ := h [] List.nil_prefix
    cases hrun
    cases hset
    exact RepresentsSet.start_iff.mp hr
  rw [and_iff_right hstart]
  have hexact : (∀ before, before <+: calls → ∃ state,
      Run.run stringSetStep (ssStart start, []) before = some state ∧
        AgreesWithSet state (before.foldl memberStep (∅, []))) ↔
      Run.Meets stringSetStep (fun state call => Cares state.1 call) (ssStart start, []) calls := by
    refine Run.foldl_iff_meets ?_ ⟨RepresentsSet.start_iff.mpr hstart, rfl⟩ hmemory
    rintro ⟨set, results⟩ ⟨strings, _⟩ call ⟨h, rfl⟩ hm
    rw [← h.perform hm]
    constructor
    · rintro ⟨⟨set', results'⟩, ht, hrep, hlog⟩
      obtain ⟨⟨result, table⟩, hp, he⟩ := Option.map_eq_some_iff.mp ht
      obtain ⟨rfl, rfl⟩ := Prod.mk.inj he
      have hresult : result = (call.performSet strings).1 :=
        List.singleton_inj.mp (List.append_cancel_left hlog)
      exact ⟨table, hp.trans (by rw [hresult]), hrep⟩
    · rintro ⟨set', hp, hrep⟩
      exact ⟨_, by rw [stringSetStep, hp]; rfl, hrep, rfl⟩
  rw [← hexact]
  refine forall₂_congr fun before _ => ?_
  constructor
  · rintro ⟨set, strings, results, hrun, hset, hr, -, -⟩
    exact ⟨(set, results), hrun, by rw [hset]; exact ⟨hr, rfl⟩⟩
  · rintro ⟨⟨set, results⟩, hrun, hr, hlog⟩
    exact ⟨set, _, results, hrun, Prod.ext rfl hlog.symm, hr, hr.card, hr.valid.invariant⟩

/-- The path `/a`. -/
def slashA : CString := ⟨[47, 97], by decide⟩

/-- A block of the smallest size, the first one. -/
def firstBlock : Allocation := ⟨⟨1, by decide⟩, 24⟩

/-- A string that is removed by the node's own copy. -/
theorem ownCopy_removed :
    RefinesSet none [.insert slashA firstBlock, .contains slashA,
      .remove slashA (some firstBlock.address)] :=
  (stringSet_refines_set none _ (by decide +kernel)).mpr ⟨by simp, by decide +kernel⟩

/-- **A string in another buffer is not found** by a removal. -/
theorem otherBuffer_kept :
    ¬ ∀ (start : Option Nat) (calls : List StringSetCall),
      Run.Meets stringSetStep (fun state call => StringMemory state.1 call)
        (ssStart start, []) calls → RefinesSet start calls := by
  intro h
  obtain ⟨set, strings, results, hrun, hset, -⟩ :=
    h none [.insert slashA firstBlock, .remove slashA none] (by decide +kernel) _
      (List.prefix_refl _)
  have hcode : (Run.run stringSetStep (ssStart none, [])
      [.insert slashA firstBlock, .remove slashA none]).map Prod.snd =
        some [some SS_INSERTED, some SS_NOT_FOUND] := by decide +kernel
  have hspec : ([StringSetCall.insert slashA firstBlock, .remove slashA none].foldl memberStep
      (∅, [])).2 = [some SS_INSERTED, some SS_OK] := by decide +kernel
  rw [hrun] at hcode
  rw [hset] at hspec
  have hresults := Option.some.inj hcode
  simp only at hspec hresults
  rw [hresults] at hspec
  cases hspec

end Tssx
