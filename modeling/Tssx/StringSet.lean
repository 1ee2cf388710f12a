import Tssx.Definitions
import Tssx.Lib.ChainedTable

/-!
# String sets

`string-set.c`: a table of chains whose nodes end with a copy of a string.  A string in memory is
its bytes up to the NUL, and `ss_remove` compares pointers where the other operations compare
these bytes, so what it is given is a string together with the node it may be a part of.

`_ss_create_node` allocates `sizeof(Node)` and `strlen(key)` bytes and writes one more, the NUL.
What `malloc` returns is an argument: the address of the block, and how many bytes there are
at the address, which may be more than were asked for.
-/

namespace Tssx

open ChainedTable

def SS_MINIMUM_CAPACITY : Nat := 8
def SS_LOAD_FACTOR : Nat := 5

def SS_NOT_INSERTED : Bool := false
def SS_INSERTED : Bool := true
def SS_NOT_FOUND : Bool := false
def SS_FOUND : Bool := true
def SS_OK : Bool := true

/-- The bytes of a C string before its NUL. -/
structure CString where
  bytes : List UInt8
  terminated : 0 ∉ bytes
  deriving DecidableEq

/-- `strlen`. -/
def CString.length (string : CString) : Nat := string.bytes.length

/-- The address of a block, divided by the 16 that `malloc` aligns blocks to. -/
abbrev BlockAddress := { a : Nat // 0 < a ∧ a < 2 ^ 60 }

/-- What `malloc` returns: a block with room for so many bytes. -/
structure Allocation where
  address : BlockAddress
  room : Nat
  deriving DecidableEq

/-- `Node` of `string-set.h`, less its `next`, and where it is in memory. -/
structure StringNode where
  address : BlockAddress
  key : CString
  deriving DecidableEq

/-- `sizeof(Node)`, up to the flexible array member. -/
def STRING_NODE_SIZE : Nat := 8

/-- `_ss_equals`. -/
def ssEquals (first second : CString) : Bool := first == second

/-- `_ss_hash`; a `char` is signed. -/
def ssHash (capacity : Nat) (key : CString) : Nat :=
  let hash := key.bytes.foldl
    (fun (hash : BitVec 64) char => ((hash <<< 5) + hash) ^^^ char.toBitVec.signExtend 64) 5381
  hash.toNat % capacity

/-- `_ss_create_node`: the copy ends with the NUL. -/
def ssCreateNode (block : Allocation) (key : CString) : Option StringNode :=
  if STRING_NODE_SIZE + (key.length + 1) ≤ block.room then some { address := block.address, key }
  else none

def ssScheme : Scheme CString StringNode where
  key := StringNode.key
  bucket := ssHash
  minimumCapacity := SS_MINIMUM_CAPACITY
  loadFactor := SS_LOAD_FACTOR
  word := 2 ^ 64
  pointerSize := 8
  scanned := fun oldCapacity => oldCapacity
  bucket_lt := fun _ _ hpos => Nat.mod_lt _ hpos
  scanned_le := fun _ => Nat.le_refl _
  minimum_pos := by decide
  load_pos := by decide
  load_le := by decide

abbrev StringSet := Table StringNode

def ssSetup (set : StringSet) (capacity : Nat) : StringSet := setup ssScheme set capacity

def ssInsert (set : StringSet) (key : CString) (block : Allocation) : Option (Bool × StringSet) :=
  insert ssScheme set key (fun node => ssEquals node.key key) id (ssCreateNode block key)

def ssContains (set : StringSet) (key : CString) : Option Bool :=
  (find ssScheme set key fun node => ssEquals node.key key).map fun node =>
    if node.isSome then SS_FOUND else SS_NOT_FOUND

/-- `owner` is the node that the pointer `key` points into, if it is a node's own string. -/
def ssRemove (set : StringSet) (key : CString) (owner : Option BlockAddress) :
    Option (Bool × StringSet) :=
  remove ssScheme set key fun node => some node.address == owner

def ssClear (set : StringSet) : Option StringSet := clear ssScheme set

def ssIsEmpty (set : StringSet) : Bool := set.size == 0

def ssIsInitialized (set : StringSet) : Bool := set.nodes.isSome

/-! ### Sequences of calls -/

inductive StringSetCall
  | insert (key : CString) (block : Allocation)
  | remove (key : CString) (owner : Option BlockAddress)
  | contains (key : CString)
  | clear
  | isEmpty
  deriving DecidableEq

/-- What the call returns is `none` for `void`. -/
def StringSetCall.perform (call : StringSetCall) (set : StringSet) :
    Option (Option Bool × StringSet) :=
  match call with
  | .insert key block => (ssInsert set key block).map fun (inserted, set) => (some inserted, set)
  | .remove key owner => (ssRemove set key owner).map fun (removed, set) => (some removed, set)
  | .contains key => (ssContains set key).map fun found => (some found, set)
  | .clear => (ssClear set).map fun set => (none, set)
  | .isEmpty => some (some (ssIsEmpty set), set)

/-- A call, with what the calls so far have returned. -/
def stringSetStep (state : StringSet × List (Option Bool)) (call : StringSetCall) :
    Option (StringSet × List (Option Bool)) :=
  (call.perform state.1).map fun (result, set) => (set, state.2 ++ [result])

/-- `SS_INITIALIZER`, or a set from `ss_setup`. -/
def ssStart : Option Nat → StringSet
  | none => .zero
  | some capacity => ssSetup .zero capacity

end Tssx
