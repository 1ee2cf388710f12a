import Mathlib.Data.List.Nodup
import Mathlib.Data.List.Perm.Subperm
import Mathlib.Tactic.Common

/-!
# Hash tables with chains

A table is an array of chains of nodes.  It is allocated when it is first needed, and allocated
again, with all nodes put into new chains, when it becomes full and when a removal leaves a
quarter of the nodes that it has room for.  Sizes are machine words, so the size in bytes of an
array may wrap around, and an access outside the array is `none`.

* `Scheme`: the parameters of a table, which say what the key of a node is, what chain it
  belongs to, and how far a rehash looks at the old array.
* `insert`, `find`, `remove`, `clear`: the operations.  Which nodes of a chain match is an
  argument, since equality of keys need not be what an implementation compares.
* `Sound`: every node is in the chain of its key, keys are distinct, and the size is in bounds.
  `Valid` adds the table that is not allocated, and `Invariant` is what holds of both.

The rules say what an operation does to `held`, the list of all nodes, up to its order.
-/

namespace ChainedTable

variable {κ ν : Type}

structure Scheme (κ ν : Type) where
  key : ν → κ
  /-- The chain of a key in an array of a capacity. -/
  bucket : Nat → κ → Nat
  minimumCapacity : Nat
  loadFactor : Nat
  /-- Sizes are counted modulo `word`. -/
  word : Nat
  pointerSize : Nat
  /-- How many chains of the old array a rehash looks at. -/
  scanned : Nat → Nat
  bucket_lt : ∀ capacity k, 0 < capacity → bucket capacity k < capacity
  scanned_le : ∀ capacity, scanned capacity ≤ capacity
  minimum_pos : 0 < minimumCapacity
  load_pos : 0 < loadFactor
  load_le : loadFactor ≤ pointerSize

structure Table (ν : Type) where
  size : Nat
  threshold : Nat
  capacity : Nat
  nodes : Option (List (List ν))
  deriving DecidableEq

/-- A table that has not been allocated. -/
def Table.zero : Table ν := { size := 0, threshold := 0, capacity := 0, nodes := none }

/-- All nodes of a table. -/
def Table.held (table : Table ν) : List ν := (table.nodes.getD []).flatten

/-- Change the first element with a property. -/
def updateFirst (p : ν → Bool) (f : ν → ν) : List ν → List ν
  | [] => []
  | node :: nodes => if p node then f node :: nodes else node :: updateFirst p f nodes

section Operations

variable (S : Scheme κ ν)

def allocate (table : Table ν) (capacity : Nat) : Table ν :=
  { table with
    capacity
    threshold := capacity * S.loadFactor % S.word
    nodes := some (List.replicate (S.pointerSize * capacity % S.word / S.pointerSize) []) }

def setup (table : Table ν) (capacity : Nat) : Table ν :=
  { allocate S table (max capacity S.minimumCapacity) with size := 0 }

def createIfNecessary (table : Table ν) : Table ν :=
  if table.nodes.isNone then setup S table 0 else table

/-- Put a node at the head of its chain. -/
def link (capacity : Nat) (nodes : List (List ν)) (node : ν) : Option (List (List ν)) :=
  let index := S.bucket capacity (S.key node)
  nodes[index]?.map fun chain => nodes.set index (node :: chain)

def rehash (table : Table ν) (old : List (List ν)) (oldCapacity : Nat) : Option (Table ν) :=
  if old.length < S.scanned oldCapacity then none
  else
    table.nodes.bind fun nodes =>
      ((old.take (S.scanned oldCapacity)).flatten.foldlM (link S table.capacity) nodes).map
        fun nodes => { table with nodes := some nodes }

def resize (table : Table ν) : Option (Table ν) :=
  let newCapacity := table.size * 2 % S.word
  if newCapacity < S.minimumCapacity then some table
  else table.nodes.bind fun old => rehash S (allocate S table newCapacity) old table.capacity

/-- The allocated table, with room for one more node. -/
def prepare (table : Table ν) : Option (Table ν) :=
  let table := createIfNecessary S table
  if table.size = table.threshold then resize S table else some table

/-- Change the node that matches, or else put `node` at the head of the chain. -/
def store (table : Table ν) (key : κ) (p : ν → Bool) (update : ν → ν) (node : Option ν) :
    Option (Bool × Table ν) :=
  table.nodes.bind fun nodes =>
    let index := S.bucket table.capacity key
    nodes[index]?.bind fun chain =>
      if chain.any p then
        some (false, { table with nodes := some (nodes.set index (updateFirst p update chain)) })
      else
        node.map fun node =>
          (true,
            { table with
              size := table.size + 1
              nodes := some (nodes.set index (node :: chain)) })

/-- `node` is what is made for a key without a match. -/
def insert (table : Table ν) (key : κ) (p : ν → Bool) (update : ν → ν) (node : Option ν) :
    Option (Bool × Table ν) :=
  (prepare S table).bind fun table => store S table key p update node

def find (table : Table ν) (key : κ) (p : ν → Bool) : Option (Option ν) :=
  match table.nodes with
  | none => some none
  | some nodes => nodes[S.bucket table.capacity key]?.map fun chain => chain.find? p

def remove (table : Table ν) (key : κ) (p : ν → Bool) : Option (Bool × Table ν) :=
  match table.nodes with
  | none => some (false, table)
  | some nodes =>
    let index := S.bucket table.capacity key
    nodes[index]?.bind fun chain =>
      if chain.any p then
        let table :=
          { table with
            size := table.size - 1
            nodes := some (nodes.set index (chain.eraseP p)) }
        (if table.size = table.threshold / 4 then resize S table else some table).map
          fun table => (true, table)
      else some (false, table)

/-- The nodes of each chain are freed first. -/
def clear (table : Table ν) : Option (Table ν) :=
  match table.nodes with
  | none => some table
  | some nodes =>
    if nodes.length < table.capacity then none
    else some { allocate S table S.minimumCapacity with size := 0 }

/-! ### The invariant -/

/-- Every node is in the chain of its key. -/
def Placed (capacity : Nat) (nodes : List (List ν)) : Prop :=
  ∀ (index : Nat) (chain : List ν), nodes[index]? = some chain →
    ∀ node ∈ chain, S.bucket capacity (S.key node) = index

/-- The nodes whose chains a rehash of a table looks at. -/
def kept (table : Table ν) (nodes : List ν) : List ν :=
  nodes.filter fun node => S.bucket table.capacity (S.key node) < S.scanned table.capacity

structure Sound (table : Table ν) : Prop where
  nodes : ∃ nodes, table.nodes = some nodes ∧ nodes.length = table.capacity ∧
    Placed S table.capacity nodes
  keys : (table.held.map S.key).Nodup
  count : table.held.length ≤ table.size
  minimum : S.minimumCapacity ≤ table.capacity
  threshold : table.threshold = S.loadFactor * table.capacity
  size_le : table.size ≤ table.threshold
  fits : S.pointerSize * table.capacity < S.word

/-- The table has not been allocated yet, or is sound. -/
def Valid (table : Table ν) : Prop := table = .zero ∨ Sound S table

/-- What a table is like between the operations. -/
structure Invariant (table : Table ν) : Prop where
  placed : ∀ nodes, table.nodes = some nodes → nodes.length = table.capacity ∧
    Placed S table.capacity nodes ∧ ∀ key, S.bucket table.capacity key < table.capacity
  once : (table.held.map S.key).Nodup
  bounds : table.size ≤ table.threshold ∧ table.threshold = S.loadFactor * table.capacity
  minimum : table.nodes ≠ none → S.minimumCapacity ≤ table.capacity

/-- The capacity of `prepare S table`. -/
def preparedCapacity (table : Table ν) : Nat :=
  if table.nodes.isNone then S.minimumCapacity
  else if table.size = table.threshold then table.size * 2
  else table.capacity

end Operations

variable {S : Scheme κ ν} {table table' : Table ν} {nodes : List (List ν)}
  {node : ν} {key : κ} {capacity index : Nat} {p : ν → Bool} {f : ν → ν}

/-! ### Chains -/

theorem any_iff_exists_append (p : ν → Bool) (nodes : List ν) :
    nodes.any p = true ↔ ∃ front node back,
      nodes = front ++ node :: back ∧ p node = true ∧ ∀ n ∈ front, p n = false := by
  constructor
  · intro h
    obtain ⟨a, ha, hpa⟩ := List.any_eq_true.mp h
    obtain ⟨node, front, back, hfront, hp, rfl, -⟩ := List.exists_of_eraseP ha hpa
    exact ⟨front, node, back, rfl, hp, fun n hn => by simpa using hfront n hn⟩
  · rintro ⟨front, node, back, rfl, hp, -⟩
    exact List.any_eq_true.mpr ⟨node, List.mem_append_right _ List.mem_cons_self, hp⟩

theorem updateFirst_append {front : List ν} (hfront : ∀ n ∈ front, p n = false)
    (hp : p node = true) (back : List ν) :
    updateFirst p f (front ++ node :: back) = front ++ f node :: back := by
  induction front with
  | nil => rw [List.nil_append, updateFirst, if_pos hp, List.nil_append]
  | cons a front ih =>
    rw [List.cons_append, updateFirst, hfront a List.mem_cons_self, if_neg Bool.false_ne_true,
      ih fun n hn => hfront n (List.mem_cons_of_mem a hn), List.cons_append]

theorem eraseP_append_cons {front : List ν} (hfront : ∀ n ∈ front, p n = false)
    (hp : p node = true) (back : List ν) :
    (front ++ node :: back).eraseP p = front ++ back := by
  rw [List.eraseP_append_right _ (fun n hn => by simp [hfront n hn]),
    List.eraseP_cons_of_pos hp]

theorem perm_split (front before after back : List ν) (node : ν) :
    (front ++ ((before ++ node :: after) ++ back)).Perm
      (node :: (front ++ ((before ++ after) ++ back))) := by
  have hleft : front ++ ((before ++ node :: after) ++ back) =
      (front ++ before) ++ node :: (after ++ back) := by simp
  have hright : front ++ ((before ++ after) ++ back) = (front ++ before) ++ (after ++ back) := by
    simp
  rw [hleft, hright]
  exact List.perm_middle

theorem flatten_split (S : Scheme κ ν) (capacity : Nat) {chain : List ν}
    (h : nodes[index]? = some chain) :
    ∃ front back, nodes.flatten = front ++ (chain ++ back) ∧
      (∀ chain', (nodes.set index chain').flatten = front ++ (chain' ++ back)) ∧
      (Placed S capacity nodes →
        ∀ node ∈ front ++ back, S.bucket capacity (S.key node) ≠ index) := by
  obtain ⟨hlt, rfl⟩ := List.getElem?_eq_some_iff.mp h
  refine ⟨(nodes.take index).flatten, (nodes.drop (index + 1)).flatten, ?_, ?_, ?_⟩
  · conv_lhs => rw [← List.take_append_drop index nodes]
    rw [List.flatten_append, List.drop_eq_getElem_cons hlt, List.flatten_cons]
  · intro chain'
    rw [List.set_eq_take_append_cons_drop, if_pos hlt]
    simp
  · intro hplaced node hnode heq
    rcases List.mem_append.mp hnode with hnode | hnode
    · obtain ⟨chain, hc, hn⟩ := List.mem_flatten.mp hnode
      obtain ⟨i, hi⟩ := List.mem_iff_getElem?.mp hc
      rw [List.getElem?_take] at hi
      split at hi
      · have := hplaced i chain hi node hn
        omega
      · cases hi
    · obtain ⟨chain, hc, hn⟩ := List.mem_flatten.mp hnode
      obtain ⟨i, hi⟩ := List.mem_iff_getElem?.mp hc
      rw [List.getElem?_drop] at hi
      have := hplaced _ chain hi node hn
      omega

theorem placed_set {chain : List ν} (hplaced : Placed S capacity nodes)
    (hchain : ∀ node ∈ chain, S.bucket capacity (S.key node) = index) :
    Placed S capacity (nodes.set index chain) := by
  intro i chain' hi node hnode
  rw [List.getElem?_set] at hi
  split at hi
  · rename_i heq
    split at hi
    · obtain rfl := Option.some.inj hi
      rw [hchain node hnode, heq]
    · cases hi
  · exact hplaced i chain' hi node hnode

theorem placed_replicate (n : Nat) : Placed S capacity (List.replicate n []) := by
  intro i chain hi node hnode
  obtain ⟨-, rfl⟩ := List.mem_replicate.mp (List.mem_of_getElem? hi)
  exact absurd hnode List.not_mem_nil

theorem flatten_take_drop (nodes : List (List ν)) (n : Nat) :
    (nodes.take n).flatten ++ (nodes.drop n).flatten = nodes.flatten := by
  rw [← List.flatten_append, List.take_append_drop]

/-- The chains up to an index hold the nodes whose keys belong there. -/
theorem flatten_take_eq_filter (hplaced : Placed S capacity nodes) :
    (nodes.take index).flatten =
      nodes.flatten.filter fun node => S.bucket capacity (S.key node) < index := by
  rw [← flatten_take_drop nodes index, List.filter_append]
  have hleft : (nodes.take index).flatten.filter
      (fun node => S.bucket capacity (S.key node) < index) = (nodes.take index).flatten := by
    apply List.filter_eq_self.mpr
    intro node hnode
    obtain ⟨chain, hc, hn⟩ := List.mem_flatten.mp hnode
    obtain ⟨i, hi⟩ := List.mem_iff_getElem?.mp hc
    rw [List.getElem?_take] at hi
    split at hi
    · rw [hplaced i chain hi node hn]
      simpa
    · cases hi
  have hright : (nodes.drop index).flatten.filter
      (fun node => S.bucket capacity (S.key node) < index) = [] := by
    apply List.filter_eq_nil_iff.mpr
    intro node hnode
    obtain ⟨chain, hc, hn⟩ := List.mem_flatten.mp hnode
    obtain ⟨i, hi⟩ := List.mem_iff_getElem?.mp hc
    rw [List.getElem?_drop] at hi
    rw [hplaced _ chain hi node hn]
    simp
  rw [hleft, hright, List.append_nil]

/-! ### Rehashing -/

theorem link_placed (hplaced : Placed S capacity nodes) (hlen : nodes.length = capacity)
    (hpos : 0 < capacity) (node : ν) :
    ∃ nodes', link S capacity nodes node = some nodes' ∧ nodes'.length = capacity ∧
      Placed S capacity nodes' ∧ nodes'.flatten.Perm (node :: nodes.flatten) := by
  have hlt : S.bucket capacity (S.key node) < nodes.length := by
    rw [hlen]
    exact S.bucket_lt capacity _ hpos
  obtain ⟨front, back, hflat, hset, -⟩ :=
    flatten_split S capacity (List.getElem?_eq_getElem hlt)
  refine ⟨_, by rw [link, List.getElem?_eq_getElem hlt]; rfl, by rw [List.length_set, hlen],
    placed_set hplaced ?_, ?_⟩
  · intro n hn
    rcases List.mem_cons.mp hn with rfl | hn
    · rfl
    · exact hplaced _ _ (List.getElem?_eq_getElem hlt) n hn
  · rw [hset, hflat]
    exact List.perm_middle

/-- Every node that a rehash looks at is in its new chain afterwards. -/
theorem linkAll_placed (hplaced : Placed S capacity nodes) (hlen : nodes.length = capacity)
    (hpos : 0 < capacity) (xs : List ν) :
    ∃ nodes', xs.foldlM (link S capacity) nodes = some nodes' ∧ nodes'.length = capacity ∧
      Placed S capacity nodes' ∧ nodes'.flatten.Perm (xs ++ nodes.flatten) := by
  induction xs generalizing nodes with
  | nil => exact ⟨nodes, rfl, hlen, hplaced, .refl _⟩
  | cons node xs ih =>
    obtain ⟨linked, hl, hll, hlp, hperm⟩ := link_placed hplaced hlen hpos node
    obtain ⟨nodes', hn, hnl, hnp, hall⟩ := ih hlp hll
    refine ⟨nodes', ?_, hnl, hnp, hall.trans ((hperm.append_left xs).trans List.perm_middle)⟩
    rw [List.foldlM_cons, hl]
    exact hn

/-! ### Allocation -/

theorem allocate_buckets (S : Scheme κ ν) {capacity : Nat}
    (hfits : S.pointerSize * capacity < S.word) :
    S.pointerSize * capacity % S.word / S.pointerSize = capacity := by
  have hpointer : 0 < S.pointerSize := Nat.lt_of_lt_of_le S.load_pos S.load_le
  rw [Nat.mod_eq_of_lt hfits, Nat.mul_div_cancel_left _ hpointer]

theorem allocate_threshold (S : Scheme κ ν) {capacity : Nat}
    (hfits : S.pointerSize * capacity < S.word) :
    capacity * S.loadFactor % S.word = S.loadFactor * capacity := by
  have hload : S.loadFactor * capacity ≤ S.pointerSize * capacity :=
    Nat.mul_le_mul_right _ S.load_le
  rw [Nat.mul_comm, Nat.mod_eq_of_lt (by omega)]

theorem allocate_held (table : Table ν) (capacity : Nat) :
    (allocate S table capacity).held = [] := by
  simp [allocate, Table.held]

theorem allocate_sound (hcapacity : S.minimumCapacity ≤ capacity)
    (hfits : S.pointerSize * capacity < S.word) (table : Table ν) :
    Sound S { allocate S table capacity with size := 0 } ∧
      ({ allocate S table capacity with size := 0 } : Table ν).held = [] := by
  have hheld : ({ allocate S table capacity with size := 0 } : Table ν).held = [] :=
    allocate_held table capacity
  refine ⟨{ nodes := ⟨_, rfl, ?_, placed_replicate _⟩, keys := ?_, count := ?_,
            minimum := hcapacity, threshold := allocate_threshold S hfits,
            size_le := Nat.zero_le _, fits := hfits }, hheld⟩
  · rw [List.length_replicate]
    exact allocate_buckets S hfits
  · rw [hheld]
    exact List.nodup_nil
  · rw [hheld]
    exact Nat.zero_le _

theorem setup_sound (capacity : Nat)
    (hfits : S.pointerSize * max capacity S.minimumCapacity < S.word)
    (table : Table ν) : Sound S (setup S table capacity) ∧ (setup S table capacity).held = [] :=
  allocate_sound (Nat.le_max_right _ _) hfits table

namespace Sound

/-- The chain of a key is in the array, and the nodes outside it have other keys. -/
theorem split (h : Sound S table) (key : κ) :
    ∃ nodes chain front back, table.nodes = some nodes ∧ nodes.length = table.capacity ∧
      Placed S table.capacity nodes ∧ nodes[S.bucket table.capacity key]? = some chain ∧
      table.held = front ++ (chain ++ back) ∧
      (∀ chain', (nodes.set (S.bucket table.capacity key) chain').flatten =
        front ++ (chain' ++ back)) ∧
      ∀ node ∈ front ++ back, S.key node ≠ key := by
  obtain ⟨nodes, hn, hlen, hplaced⟩ := h.nodes
  have hlt : S.bucket table.capacity key < nodes.length := by
    rw [hlen]
    exact S.bucket_lt _ _ (Nat.lt_of_lt_of_le S.minimum_pos h.minimum)
  obtain ⟨front, back, hflat, hset, hother⟩ :=
    flatten_split S table.capacity (List.getElem?_eq_getElem hlt)
  refine ⟨nodes, _, front, back, hn, hlen, hplaced, List.getElem?_eq_getElem hlt, ?_, hset, ?_⟩
  · rw [Table.held, hn]
    exact hflat
  · intro node hnode hkey
    exact hother hplaced node hnode (by rw [hkey])

/-- **A resize keeps the invariant**, and the nodes of the chains that it looks at. -/
theorem resize (h : Sound S table) (hfits : S.pointerSize * (table.size * 2) < S.word) :
    ∃ table', resize S table = some table' ∧ Sound S table' ∧ table'.size = table.size ∧
      table'.capacity =
        (if table.size * 2 < S.minimumCapacity then table.capacity else table.size * 2) ∧
      table'.held.Perm
        (if table.size * 2 < S.minimumCapacity then table.held else kept S table table.held) := by
  obtain ⟨old, ho, holen, hoplaced⟩ := h.nodes
  have hpointer : 0 < S.pointerSize := Nat.lt_of_lt_of_le S.load_pos S.load_le
  have hword : table.size * 2 % S.word = table.size * 2 := by
    apply Nat.mod_eq_of_lt
    have := Nat.le_mul_of_pos_left (table.size * 2) hpointer
    omega
  unfold ChainedTable.resize
  simp only [hword]
  split
  · exact ⟨table, rfl, h, rfl, rfl, .refl _⟩
  · rename_i hmin
    have hheld : table.held = old.flatten := by rw [Table.held, ho]; rfl
    have hsub : (old.take (S.scanned table.capacity)).flatten.Sublist old.flatten := by
      rw [← flatten_take_drop old (S.scanned table.capacity)]
      exact List.sublist_append_left _ _
    obtain ⟨nodes, hn, hlen, hplaced, hperm⟩ := linkAll_placed (S := S)
      (placed_replicate (table.size * 2))
      (List.length_replicate (n := table.size * 2) (a := ([] : List ν)))
      (Nat.lt_of_lt_of_le S.minimum_pos (Nat.not_lt.mp hmin))
      (old.take (S.scanned table.capacity)).flatten
    rw [List.flatten_replicate_nil, List.append_nil] at hperm
    have hscan : ¬ old.length < S.scanned table.capacity := by
      rw [holen]
      exact Nat.not_lt.mpr (S.scanned_le _)
    rw [ho, Option.bind_some, rehash, if_neg hscan, allocate, Option.bind_some]
    simp only [allocate_buckets S hfits, hn, Option.map_some]
    refine ⟨_, rfl, { nodes := ⟨nodes, rfl, hlen, hplaced⟩, keys := ?_, count := ?_,
                      minimum := Nat.not_lt.mp hmin, threshold := allocate_threshold S hfits,
                      size_le := ?_, fits := hfits }, rfl, rfl, ?_⟩
    · refine ((hperm.map S.key).nodup_iff).mpr (List.Nodup.sublist (hsub.map S.key) ?_)
      rw [← hheld]
      exact h.keys
    · calc nodes.flatten.length = (old.take (S.scanned table.capacity)).flatten.length :=
            hperm.length_eq
        _ ≤ old.flatten.length := hsub.length_le
        _ ≤ table.size := hheld ▸ h.count
    · show table.size ≤ table.size * 2 * S.loadFactor % S.word
      rw [allocate_threshold S hfits]
      have := Nat.le_mul_of_pos_left (table.size * 2) S.load_pos
      omega
    · rw [kept, hheld, ← flatten_take_eq_filter hoplaced]
      exact hperm

/-- **A search looks at one chain and finds what is in the table.** -/
theorem find (h : Sound S table) (hp : ∀ node ∈ table.held, p node = true ↔ S.key node = key) :
    find S table key p = some (table.held.find? p) := by
  obtain ⟨nodes, chain, front, back, hn, -, -, hc, hheld, -, hother⟩ := h.split key
  have hnone : ∀ xs : List ν, (∀ node ∈ xs, node ∈ front ++ back) → xs.find? p = none := by
    intro xs hxs
    apply List.find?_eq_none.mpr
    intro node hnode hpn
    have hmem : node ∈ table.held := by
      rw [hheld]
      have := hxs node hnode
      simp only [List.mem_append] at this ⊢
      tauto
    exact hother node (hxs node hnode) ((hp node hmem).mp hpn)
  rw [hheld, List.find?_append, List.find?_append,
    hnone front fun node hnode => List.mem_append_left _ hnode,
    hnone back fun node hnode => List.mem_append_right _ hnode, ChainedTable.find]
  simp only [hn, hc, Option.map_some, Option.none_or, Option.or_none]

theorem rest_ne (h : Sound S table) {old : ν} {rest : List ν}
    (hperm : table.held.Perm (old :: rest)) : ∀ node ∈ rest, S.key node ≠ S.key old := by
  intro node hnode heq
  have hnodup := ((hperm.map S.key).nodup_iff).mp h.keys
  rw [List.map_cons, List.nodup_cons] at hnodup
  exact hnodup.1 (heq ▸ List.mem_map_of_mem hnode)

theorem absent {chain front back : List ν} (hheld : table.held = front ++ (chain ++ back))
    (hother : ∀ node ∈ front ++ back, S.key node ≠ key) (hany : ¬ chain.any p = true) :
    ∀ node ∈ table.held, S.key node = key → p node = false := by
  intro node hnode hkey
  rw [hheld] at hnode
  rcases List.mem_append.mp hnode with hmem | hmem
  · exact absurd hkey (hother node (List.mem_append_left _ hmem))
  · rcases List.mem_append.mp hmem with hmem | hmem
    · rw [← Bool.not_eq_true]
      exact fun hp => hany (List.any_eq_true.mpr ⟨node, hmem, hp⟩)
    · exact absurd hkey (hother node (List.mem_append_right _ hmem))

theorem setChain (h : Sound S table) {chain held : List ν} {size : Nat}
    (hlen : nodes.length = table.capacity) (hplaced : Placed S table.capacity nodes)
    (hchain : ∀ node ∈ chain, S.bucket table.capacity (S.key node) = index)
    (hperm : (nodes.set index chain).flatten.Perm held) (hkeys : (held.map S.key).Nodup)
    (hcount : held.length ≤ size) (hsize : size ≤ table.threshold) :
    Sound S { table with size, nodes := some (nodes.set index chain) } where
  nodes := ⟨_, rfl, by rw [List.length_set, hlen], placed_set hplaced hchain⟩
  keys := ((hperm.map S.key).nodup_iff).mpr hkeys
  count := hperm.length_eq ▸ hcount
  minimum := h.minimum
  threshold := h.threshold
  size_le := hsize
  fits := h.fits

/-- **Storing a node** changes the one with its key, or adds it. -/
theorem store (h : Sound S table) (key : κ) (hroom : table.size < table.threshold)
    (hp : ∀ node, p node = true ↔ S.key node = key) (hf : ∀ node, S.key (f node) = S.key node)
    (new : Option ν) :
    (∃ old rest table', S.key old = key ∧ table.held.Perm (old :: rest) ∧
        store S table key p f new = some (false, table') ∧ Sound S table' ∧
        table'.held.Perm (f old :: rest) ∧ table'.size = table.size ∧
        table'.capacity = table.capacity) ∨
      ((∀ node ∈ table.held, S.key node ≠ key) ∧
        store S table key p f none = none ∧
        ∀ node, S.key node = key → ∃ table',
          store S table key p f (some node) = some (true, table') ∧ Sound S table' ∧
          table'.held.Perm (node :: table.held) ∧ table'.size = table.size + 1 ∧
          table'.capacity = table.capacity) := by
  obtain ⟨nodes, chain, front, back, hn, hlen, hplaced, hc, hheld, hset, hother⟩ := h.split key
  unfold ChainedTable.store
  simp only [hn, hc, Option.bind_some]
  by_cases hany : chain.any p = true
  · obtain ⟨before, old, after, rfl, hold, hbefore⟩ := (any_iff_exists_append p chain).mp hany
    have hperm : table.held.Perm (old :: (front ++ ((before ++ after) ++ back))) :=
      hheld ▸ perm_split front before after back old
    have hnew : (nodes.set (S.bucket table.capacity key)
        (before ++ f old :: after)).flatten.Perm
        (f old :: (front ++ ((before ++ after) ++ back))) := by
      rw [hset]
      exact perm_split front before after back (f old)
    rw [if_pos hany, updateFirst_append hbefore hold]
    refine .inl ⟨old, _, _, (hp old).mp hold, hperm, rfl, ?_, hnew, rfl, rfl⟩
    refine h.setChain hlen hplaced ?_ hnew ?_ ?_ h.size_le
    · intro n hnode
      rcases List.mem_append.mp hnode with hmem | hmem
      · exact hplaced _ _ hc n (List.mem_append_left _ hmem)
      · rcases List.mem_cons.mp hmem with rfl | hmem
        · rw [hf, (hp old).mp hold]
        · exact hplaced _ _ hc n (List.mem_append_right _ (List.mem_cons_of_mem old hmem))
    · rw [List.map_cons, hf, ← List.map_cons]
      exact ((hperm.map S.key).nodup_iff).mp h.keys
    · exact Nat.le_trans (Nat.le_of_eq hperm.length_eq.symm) h.count
  · have hnone : ∀ node ∈ table.held, S.key node ≠ key := by
      intro node hnode hkey
      have hfalse := absent hheld hother hany node hnode hkey
      rw [(hp node).mpr hkey] at hfalse
      cases hfalse
    refine .inr ⟨hnone, by rw [if_neg hany]; rfl, ?_⟩
    intro node hkey
    have hperm : (nodes.set (S.bucket table.capacity key) (node :: chain)).flatten.Perm
        (node :: table.held) := by
      rw [hset, hheld]
      exact perm_split front [] chain back node
    refine ⟨_, if_neg hany, ?_, hperm, rfl, rfl⟩
    refine h.setChain hlen hplaced ?_ hperm ?_ (Nat.succ_le_succ h.count) hroom
    · intro n hmem
      rcases List.mem_cons.mp hmem with rfl | hmem
      · rw [hkey]
      · exact hplaced _ _ hc n hmem
    · refine List.nodup_cons.mpr ⟨?_, h.keys⟩
      intro hmem
      obtain ⟨n, hn', hk⟩ := List.mem_map.mp hmem
      exact hnone n hn' (hk.trans hkey)

/-- **Removing a node** takes it out of its chain, and may resize the table. -/
theorem remove (h : Sound S table) (hfits : S.pointerSize * (table.size * 2) < S.word)
    (key : κ) (p : ν → Bool) :
    (remove S table key p = some (false, table) ∧
        ∀ node ∈ table.held, S.key node = key → p node = false) ∨
      ∃ old rest table', p old = true ∧ table.held.Perm (old :: rest) ∧
        remove S table key p = some (true, table') ∧ Sound S table' ∧
        table'.size = table.size - 1 ∧
        table'.capacity =
          (if table.size - 1 = table.threshold / 4 ∧ S.minimumCapacity ≤ (table.size - 1) * 2
            then (table.size - 1) * 2 else table.capacity) ∧
        table'.held.Perm
          (if table.size - 1 = table.threshold / 4 ∧ S.minimumCapacity ≤ (table.size - 1) * 2
            then kept S table rest else rest) := by
  obtain ⟨nodes, chain, front, back, hn, hlen, hplaced, hc, hheld, hset, hother⟩ := h.split key
  unfold ChainedTable.remove
  simp only [hn, hc, Option.bind_some]
  by_cases hany : chain.any p = true
  · obtain ⟨before, old, after, rfl, hold, hbefore⟩ := (any_iff_exists_append p chain).mp hany
    have hperm : table.held.Perm (old :: (front ++ ((before ++ after) ++ back))) :=
      hheld ▸ perm_split front before after back old
    have hcount : (front ++ ((before ++ after) ++ back)).length ≤ table.size - 1 := by
      have := hperm.length_eq
      have := h.count
      rw [List.length_cons] at *
      omega
    have hkeys : ((front ++ ((before ++ after) ++ back)).map S.key).Nodup := by
      have := ((hperm.map S.key).nodup_iff).mp h.keys
      exact (List.nodup_cons.mp this).2
    rw [if_pos hany, eraseP_append_cons hbefore hold]
    have hs := h.setChain hlen hplaced
      (fun n hmem => hplaced _ _ hc n (by
        rcases List.mem_append.mp hmem with hmem | hmem
        · exact List.mem_append_left _ hmem
        · exact List.mem_append_right _ (List.mem_cons_of_mem old hmem)))
      (.of_eq (hset (before ++ after))) hkeys hcount (Nat.le_trans (Nat.sub_le _ _) h.size_le)
    refine .inr ⟨old, front ++ ((before ++ after) ++ back), ?_⟩
    by_cases hquarter : table.size - 1 = table.threshold / 4
    · have hless : S.pointerSize * ((table.size - 1) * 2) ≤ S.pointerSize * (table.size * 2) :=
        Nat.mul_le_mul_left _ (by omega)
      obtain ⟨table', hr, hsound, hsize, hcap, hperm'⟩ :=
        hs.resize (Nat.lt_of_le_of_lt hless hfits)
      have hheld' : Table.held { table with
          size := table.size - 1
          nodes := some (nodes.set (S.bucket table.capacity key) (before ++ after)) } =
          front ++ ((before ++ after) ++ back) := hset _
      refine ⟨table', hold, hperm, ?_, hsound, hsize, ?_, ?_⟩
      · rw [if_pos hquarter, hr]
        rfl
      · rw [hcap]
        simp only [hquarter, true_and]
        split <;> split <;> omega
      · rw [hheld'] at hperm'
        simp only [hquarter, true_and] at hperm' ⊢
        split at hperm'
        · rw [if_neg (by omega)]
          exact hperm'
        · rw [if_pos (by omega)]
          exact hperm'
    · refine ⟨_, hold, hperm, by rw [if_neg hquarter]; rfl, hs, rfl, ?_, ?_⟩
      · rw [if_neg fun hboth => hquarter hboth.1]
      · rw [if_neg fun hboth => hquarter hboth.1]
        exact (hset _).symm ▸ List.Perm.refl _
  · exact .inl ⟨if_neg hany, absent hheld hother hany⟩

theorem clear (h : Sound S table) (hfits : S.pointerSize * S.minimumCapacity < S.word) :
    ∃ table', clear S table = some table' ∧ Sound S table' ∧ table'.held = [] ∧
      table'.size = 0 := by
  obtain ⟨nodes, hn, hlen, -⟩ := h.nodes
  obtain ⟨hs, hheld⟩ := allocate_sound (Nat.le_refl _) hfits table
  refine ⟨_, ?_, hs, hheld, rfl⟩
  unfold ChainedTable.clear
  simp only [hn]
  rw [if_neg (by omega)]

end Sound

/-! ### Tables that are allocated when they are needed -/

theorem Sound.minimum_le_of_full (h : Sound S table) (hfull : table.size = table.threshold) :
    ¬ table.size * 2 < S.minimumCapacity := by
  intro hlt
  have hle : table.capacity ≤ S.loadFactor * table.capacity :=
    Nat.le_mul_of_pos_left _ S.load_pos
  have hmin := h.minimum
  have hthreshold := h.threshold
  omega

/-- A table that is full gets room for at least as many nodes again. -/
theorem Sound.prepare (h : Sound S table) (hfits : S.pointerSize * (table.size * 2) < S.word) :
    ∃ table', prepare S table = some table' ∧ Sound S table' ∧ table'.size = table.size ∧
      table'.size < table'.threshold ∧ table'.capacity = preparedCapacity S table ∧
      table'.held.Perm
        (if table.size = table.threshold then kept S table table.held else table.held) := by
  obtain ⟨nodes, hn, -, -⟩ := h.nodes
  have hcreate : createIfNecessary S table = table := by rw [createIfNecessary, hn]; rfl
  rw [ChainedTable.prepare, hcreate, preparedCapacity, hn, Option.isNone_some,
    if_neg Bool.false_ne_true]
  by_cases hfull : table.size = table.threshold
  · obtain ⟨table', hr, hs, hsize, hcap, hheld⟩ := h.resize hfits
    have hmin := h.minimum_le_of_full hfull
    rw [if_neg hmin] at hcap hheld
    refine ⟨table', by simp only [if_pos hfull, hr], hs, hsize, ?_, by rw [if_pos hfull, hcap],
      by rwa [if_pos hfull]⟩
    have hle : table.size * 2 ≤ S.loadFactor * (table.size * 2) :=
      Nat.le_mul_of_pos_left _ S.load_pos
    have hpos := S.minimum_pos
    rw [hs.threshold, hcap, hsize]
    omega
  · exact ⟨table, by simp only [if_neg hfull], h, rfl, Nat.lt_of_le_of_ne h.size_le hfull,
      by rw [if_neg hfull], by rw [if_neg hfull]⟩

namespace Valid

theorem prepare (h : Valid S table) (hmin : S.pointerSize * S.minimumCapacity < S.word)
    (hfits : S.pointerSize * (table.size * 2) < S.word) :
    ∃ table', prepare S table = some table' ∧ Sound S table' ∧ table'.size = table.size ∧
      table'.size < table'.threshold ∧ table'.capacity = preparedCapacity S table ∧
      table'.held.Perm
        (if table.size = table.threshold then kept S table table.held else table.held) := by
  rcases h with rfl | h
  · have hmax : max 0 S.minimumCapacity = S.minimumCapacity := Nat.max_eq_right (Nat.zero_le _)
    obtain ⟨hs, hheld⟩ := setup_sound (S := S) 0 (by rwa [hmax]) (Table.zero : Table ν)
    have hthreshold : 0 < (setup S (Table.zero : Table ν) 0).threshold := by
      rw [hs.threshold]
      exact Nat.mul_pos S.load_pos (Nat.lt_of_lt_of_le S.minimum_pos hs.minimum)
    have hcreate : createIfNecessary S (Table.zero : Table ν) = setup S .zero 0 := rfl
    refine ⟨setup S .zero 0, ?_, hs, rfl, hthreshold, hmax, by rw [hheld]; exact .refl _⟩
    rw [ChainedTable.prepare, hcreate]
    exact if_neg (Nat.ne_of_lt hthreshold)
  · exact h.prepare hfits

/-- A table is set up with as many chains as it should have, or with too few because the size of
its array wraps around. -/
theorem setup_iff : Valid S (setup S table capacity) ↔
    S.pointerSize * max capacity S.minimumCapacity < S.word := by
  constructor
  · rintro (h | h)
    · cases congrArg Table.nodes h
    · exact h.fits
  · intro hfits
    exact .inr (setup_sound capacity hfits table).1

theorem invariant (h : Valid S table) : Invariant S table := by
  rcases h with rfl | h
  · refine { placed := fun nodes hn => ?_, once := List.nodup_nil,
             bounds := ⟨Nat.le_refl 0, rfl⟩, minimum := fun hn => absurd rfl hn }
    cases hn
  · obtain ⟨nodes, hn, hlen, hplaced⟩ := h.nodes
    refine { placed := ?_, once := h.keys, bounds := ⟨h.size_le, h.threshold⟩,
             minimum := fun _ => h.minimum }
    intro nodes' hn'
    obtain rfl := Option.some.inj (hn'.symm.trans hn)
    exact ⟨hlen, hplaced,
      fun key => S.bucket_lt _ key (Nat.lt_of_lt_of_le S.minimum_pos h.minimum)⟩

theorem find (h : Valid S table) (hp : ∀ node ∈ table.held, p node = true ↔ S.key node = key) :
    find S table key p = some (table.held.find? p) := by
  rcases h with rfl | h
  · rfl
  · exact h.find hp

/-- **Inserting** changes the node with the key, or adds one. -/
theorem insert (h : Valid S table) (key : κ)
    (hmin : S.pointerSize * S.minimumCapacity < S.word)
    (hfits : S.pointerSize * (table.size * 2) < S.word)
    (hscan : table.size = table.threshold → kept S table table.held = table.held)
    (hp : ∀ node, p node = true ↔ S.key node = key) (hf : ∀ node, S.key (f node) = S.key node)
    (new : Option ν) :
    (∃ old rest table', S.key old = key ∧ table.held.Perm (old :: rest) ∧
        insert S table key p f new = some (false, table') ∧ Sound S table' ∧
        table'.held.Perm (f old :: rest) ∧ table'.size = table.size ∧
        table'.capacity = preparedCapacity S table) ∨
      ((∀ node ∈ table.held, S.key node ≠ key) ∧
        insert S table key p f none = none ∧
        ∀ node, S.key node = key → ∃ table',
          insert S table key p f (some node) = some (true, table') ∧ Sound S table' ∧
          table'.held.Perm (node :: table.held) ∧ table'.size = table.size + 1 ∧
          table'.capacity = preparedCapacity S table) := by
  obtain ⟨ready, hr, hs, hsize, hroom, hcap, hperm⟩ := h.prepare hmin hfits
  have hall : (if table.size = table.threshold then kept S table table.held else table.held) =
      table.held := ite_eq_right_iff.mpr hscan
  rw [hall] at hperm
  unfold ChainedTable.insert
  simp only [hr, Option.bind_some]
  rcases hs.store key hroom hp hf new with
    ⟨old, rest, table', hkey, hold, hst, hs', hheld, hsz, hcp⟩ | ⟨hnone, hcrash, hnew⟩
  · exact .inl ⟨old, rest, table', hkey, hperm.symm.trans hold, hst, hs', hheld,
      hsz.trans hsize, hcp.trans hcap⟩
  · refine .inr ⟨fun node hnode => hnone node (hperm.mem_iff.mpr hnode), hcrash, ?_⟩
    intro node hkey
    obtain ⟨table', hst, hs', hheld, hsz, hcp⟩ := hnew node hkey
    exact ⟨table', hst, hs', hheld.trans (hperm.cons node), by rw [hsz, hsize], hcp.trans hcap⟩

theorem clear (h : Valid S table) (hfits : S.pointerSize * S.minimumCapacity < S.word) :
    ∃ table', clear S table = some table' ∧ Valid S table' ∧ table'.held = [] ∧
      table'.size = 0 := by
  rcases h with rfl | h
  · exact ⟨.zero, rfl, .inl rfl, rfl, rfl⟩
  · obtain ⟨table', hc, hs, hheld, hsize⟩ := h.clear hfits
    exact ⟨table', hc, .inr hs, hheld, hsize⟩

end Valid

end ChainedTable
