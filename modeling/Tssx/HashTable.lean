import Tssx.Definitions
import Tssx.Lib.ChainedTable

/-!
# Hash tables

`hashtable.c`: a table of chains that maps an `int` to a connection.  Keys are hashed in `int`
arithmetic, taken to wrap around, and the remainder is converted to `size_t` before it is reduced
to a bucket, so a negative one becomes very large.

The index of the loop in `_ht_rehash` is an `int`, taken to wrap around as well: from `2 ^ 31` on
it is a negative number, which the comparison with the old capacity converts to more than any
capacity.  The loop of `_ss_rehash` has a `size_t` there.  Every allocation succeeds.
-/

namespace Tssx

open ChainedTable

def HT_MINIMUM_CAPACITY : Nat := 8
def HT_LOAD_FACTOR : Nat := 5

def HT_UPDATED : Bool := false
def HT_INSERTED : Bool := true
def HT_NOT_FOUND : Bool := false
def HT_FOUND : Bool := true
def HT_OK : Bool := true

/-- `Node` of `hashtable.h`, less its `next`. -/
structure HashNode (α : Type) where
  key : CInt
  connection : α
  deriving DecidableEq

variable {α : Type}

/-- `_ht_hash`. -/
def htHash (capacity : Nat) (key : CInt) : Nat :=
  let a : Int := 69
  let b : Int := 99
  let p : Int := 123
  sizeT ((int32 (int32 (a * key) + b)).tmod p) % capacity

/-- `sizeof(Node*)` is 8. -/
def htScheme : Scheme CInt (HashNode α) where
  key := HashNode.key
  bucket := htHash
  minimumCapacity := HT_MINIMUM_CAPACITY
  loadFactor := HT_LOAD_FACTOR
  word := 2 ^ 64
  pointerSize := 8
  scanned := fun oldCapacity => min oldCapacity (2 ^ 31)
  bucket_lt := fun _ _ hpos => Nat.mod_lt _ hpos
  scanned_le := fun _ => Nat.min_le_left _ _
  minimum_pos := by decide
  load_pos := by decide
  load_le := by decide

abbrev HashTable (α : Type) := Table (HashNode α)

def htSetup (table : HashTable α) (capacity : Nat) : HashTable α := setup htScheme table capacity

def htInsert (table : HashTable α) (key : CInt) (connection : α) : Option (Bool × HashTable α) :=
  insert htScheme table key (fun node => node.key == key)
    (fun node => { node with connection }) (some { key, connection })

def htContains (table : HashTable α) (key : CInt) : Option Bool :=
  (find htScheme table key fun node => node.key == key).map fun node =>
    if node.isSome then HT_FOUND else HT_NOT_FOUND

/-- `*ht_get(table, key)`; the inner `none` is a null pointer. -/
def htGet (table : HashTable α) (key : CInt) : Option (Option α) :=
  (find htScheme table key fun node => node.key == key).map fun node =>
    node.map HashNode.connection

def htRemove (table : HashTable α) (key : CInt) : Option (Bool × HashTable α) :=
  remove htScheme table key fun node => node.key == key

def htClear (table : HashTable α) : Option (HashTable α) := clear htScheme table

def htIsEmpty (table : HashTable α) : Bool := table.size == 0

/-! ### Sequences of calls -/

inductive HashTableCall (α : Type)
  | insert (key : CInt) (connection : α)
  | contains (key : CInt)
  | get (key : CInt)
  | remove (key : CInt)
  | clear
  | isEmpty
  deriving DecidableEq

/-- What a call returns. -/
inductive HashTableResult (α : Type)
  | flag (value : Bool)
  | connection (value : Option α)
  | nothing
  deriving DecidableEq

def HashTableCall.perform (call : HashTableCall α) (table : HashTable α) :
    Option (HashTableResult α × HashTable α) :=
  match call with
  | .insert key connection =>
    (htInsert table key connection).map fun (inserted, table) => (.flag inserted, table)
  | .contains key => (htContains table key).map fun found => (.flag found, table)
  | .get key => (htGet table key).map fun connection => (.connection connection, table)
  | .remove key => (htRemove table key).map fun (removed, table) => (.flag removed, table)
  | .clear => (htClear table).map fun table => (.nothing, table)
  | .isEmpty => some (.flag (htIsEmpty table), table)

/-- A call, with what the calls so far have returned. -/
def hashTableStep (state : HashTable α × List (HashTableResult α)) (call : HashTableCall α) :
    Option (HashTable α × List (HashTableResult α)) :=
  (call.perform state.1).map fun (result, table) => (table, state.2 ++ [result])

/-- `HT_INITIALIZER`, or a table from `ht_setup`. -/
def htStart : Option Nat → HashTable α
  | none => .zero
  | some capacity => htSetup .zero capacity

end Tssx
