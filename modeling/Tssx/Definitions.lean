import Mathlib.Algebra.Order.Ring.Int
import Mathlib.Tactic.Common

/-!
# Common definitions

`definitions.h`, and the C integer types that the library computes with on 64-bit Linux:
`size_t` has 64 bits and an `atomic_int` 32.  A `size_t` is a `Nat`, an `int` an `Int`, and
`sizeT` and `int32` are the conversions into the two types, which wrap around.  `sizeT_eq`
and `int32_eq` say that they do nothing to a value in range.
-/

namespace Tssx

def ERROR : Int := -1
def SUCCESS : Int := 0

/-- `EWOULDBLOCK` of `errno.h`, which is `EAGAIN`. -/
def EWOULDBLOCK : Int := 11

def ENOMEM : Int := 12
def EINVAL : Int := 22

/-- `Operation` of `definitions.h`. -/
inductive Operation
  | read
  | write
  deriving DecidableEq, Repr

/-- `Side` of `definitions.h`. -/
inductive Side
  | server
  | client
  deriving DecidableEq, Repr

/-- The other end of a connection. -/
def Side.peer : Side → Side
  | .server => .client
  | .client => .server

@[simp] theorem Side.peer_peer (side : Side) : side.peer.peer = side := by cases side <;> rfl

theorem Side.peer_ne (side : Side) : side.peer ≠ side := by cases side <;> decide

theorem Side.eq_or_eq_peer (a b : Side) : a = b ∨ a = b.peer := by
  cases a <;> cases b <;> decide

/-- What one check of a connection sees: `connection_peer_died` and `_ready_for`. -/
structure Observation where
  peerDied : Bool
  ready : Operation → Bool

/-- An `int`. -/
abbrev CInt := { x : Int // -2 ^ 31 ≤ x ∧ x < 2 ^ 31 }

/-- `sizeof(key_t)`. -/
def sizeofKey : Nat := 4

/-- A number below `2 ^ 31`. -/
def CInt.ofNat (n : Nat) : CInt := ⟨(n % 2 ^ 31 : Nat), by omega⟩

/-- The conversion to `size_t`. -/
def sizeT (x : Int) : Nat := (x % 2 ^ 64).toNat

/-- The conversion to `int`. -/
def int32 (x : Int) : Int := Int.bmod x (2 ^ 32)

/-- The conversion of a `size_t` to `ssize_t`. -/
def ssizeT (n : Nat) : Int := Int.bmod n (2 ^ 64)

theorem sizeT_eq {x : Int} {n : Nat} (h : x = n) (hn : n < 2 ^ 64) : sizeT x = n := by
  subst h
  unfold sizeT
  omega

theorem sizeT_inj {x y : CInt} (h : sizeT x = sizeT y) : x = y := by
  unfold sizeT at h
  exact Subtype.ext (by omega)

theorem int32_range (x : Int) : -2 ^ 31 ≤ int32 x ∧ int32 x < 2 ^ 31 := by
  have hle := @Int.le_bmod x (2 ^ 32) (by decide)
  have hlt := @Int.bmod_lt x (2 ^ 32) (by decide)
  unfold int32
  omega

theorem int32_eq {x : Int} (h : -2 ^ 31 ≤ x) (h' : x < 2 ^ 31) : int32 x = x := by
  unfold int32
  rw [Int.bmod_eq_of_le] <;> omega

theorem dvd_of_int32_add {x k : Int} (h : int32 (x + k) = x) : (2 ^ 32 : Int) ∣ k := by
  have hmod : int32 (x + k) % (2 ^ 32 : Nat) = (x + k) % (2 ^ 32 : Nat) := Int.bmod_emod
  rw [h] at hmod
  omega

theorem ssizeT_eq {n : Nat} (h : n < 2 ^ 63) : ssizeT n = n := by
  unfold ssizeT
  rw [Int.bmod_eq_of_le] <;> omega

/-- The return value `(size_t)-1` of a transfer is `-1` again as a `ssize_t`. -/
theorem ssizeT_error : ssizeT (sizeT (-1)) = ERROR := rfl

end Tssx
