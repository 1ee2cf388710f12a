import Tssx.Definitions
import Tssx.Lib.Bytes
import Tssx.Lib.Ring
import Tssx.Lib.Run
import Tssx.Lib.Sentinel

/-!
# The reverse map

`reverse-map.c`: a partial map from descriptors to keys, an array of `REVERSE_MAP_SIZE` keys in
memory where `INVALID_KEY` means that there is none.  The array is modelled with its bytes, because
`memset` is told to clear `REVERSE_MAP_SIZE` of them, and a key has four.

The functions do what they do to the map with three exceptions (`reverseMap_refines`): `setup` and
`destroy` leave the keys from descriptor 256 on as they are, a key that is `INVALID_KEY` cannot be
told from none, and the size is that of the array, so that no map is empty.
-/

namespace Tssx

open Sentinel

/-- `FD_SETSIZE` of `sys/select.h`. -/
def FD_SETSIZE : Nat := 1024

def REVERSE_MAP_SIZE : Nat := FD_SETSIZE
def REVERSE_MAP_SUCCESS : Int := 1

def INVALID_KEY : CInt := CInt.ofNat 0

/-- The bytes from the address of the map on. -/
abbrev ReverseMap := Nat → UInt8

/-- `memset` converts the value to an `unsigned char`, and counts bytes. -/
def memset (memory : Nat → UInt8) (value : CInt) (count : Nat) : Nat → UInt8 :=
  Ring.store memory 0 (List.replicate count (UInt8.ofInt value))

/-- A key in memory, in two's complement. -/
def keyBytes (key : CInt) : List UInt8 := Bytes.bytes sizeofKey ((key : Int) % 2 ^ 32).toNat

def keyOfBytes (bytes : List UInt8) : CInt := ⟨int32 (Bytes.value bytes), int32_range _⟩

def keyAt (reverse : ReverseMap) (index : Nat) : CInt :=
  keyOfBytes (Ring.load reverse (index * sizeofKey) sizeofKey)

def InReverseMap (socketFd : CInt) : Prop :=
  0 ≤ (socketFd : Int) ∧ (socketFd : Int) < REVERSE_MAP_SIZE

instance (socketFd : CInt) : Decidable (InReverseMap socketFd) :=
  inferInstanceAs (Decidable (_ ∧ _))

/-- `(*reverse)[socket_fd]`, which is `none` outside the array. -/
def loadKey (reverse : ReverseMap) (socketFd : CInt) : Option CInt :=
  if InReverseMap socketFd then some (keyAt reverse (socketFd : Int).toNat) else none

/-- `(*reverse)[socket_fd] = key`. -/
def storeKey (reverse : ReverseMap) (socketFd key : CInt) : Option ReverseMap :=
  if InReverseMap socketFd then
    some (Ring.store reverse ((socketFd : Int).toNat * sizeofKey) (keyBytes key))
  else none

/-! ### The functions -/

def reverseMapSetup (reverse : ReverseMap) : Int × ReverseMap :=
  (REVERSE_MAP_SUCCESS, memset reverse INVALID_KEY REVERSE_MAP_SIZE)

def reverseMapDestroy (reverse : ReverseMap) : Int × ReverseMap :=
  (REVERSE_MAP_SUCCESS, memset reverse INVALID_KEY REVERSE_MAP_SIZE)

def reverseMapLookup (reverse : ReverseMap) (socketFd : CInt) : Option CInt :=
  loadKey reverse socketFd

def reverseMapHasEntryFor (reverse : ReverseMap) (socketFd : CInt) : Option Int :=
  (loadKey reverse socketFd).map fun key => if key ≠ INVALID_KEY then 1 else 0

/-- A failed assertion has no result. -/
def reverseMapErase (reverse : ReverseMap) (socketFd : CInt) : Option (Int × ReverseMap) :=
  (reverseMapHasEntryFor reverse socketFd).bind fun found =>
    if found = 0 then none
    else (storeKey reverse socketFd INVALID_KEY).map fun reverse => (REVERSE_MAP_SUCCESS, reverse)

def reverseMapInsert (reverse : ReverseMap) (socketFd key : CInt) : Option (Int × ReverseMap) :=
  (reverseMapHasEntryFor reverse socketFd).bind fun found =>
    if found ≠ 0 then none
    else (storeKey reverse socketFd key).map fun reverse => (REVERSE_MAP_SUCCESS, reverse)

def reverseMapSize (_map : ReverseMap) : Int := REVERSE_MAP_SIZE

def reverseMapIsEmpty (map : ReverseMap) : Int := if reverseMapSize map = 0 then 1 else 0

/-! ### Sequences of calls -/

inductive ReverseMapCall
  | setup
  | destroy
  | insert (socketFd key : CInt)
  | erase (socketFd : CInt)
  | lookup (socketFd : CInt)
  | hasEntryFor (socketFd : CInt)
  | isEmpty
  deriving DecidableEq

/-- What the reverse map is for. -/
abbrev PartialMap := Finmap fun _ : CInt => CInt

namespace ReverseMapCall

/-- The returned value, and the array after the call. -/
def perform (reverse : ReverseMap) : ReverseMapCall → Option (Int × ReverseMap)
  | setup => some (reverseMapSetup reverse)
  | destroy => some (reverseMapDestroy reverse)
  | insert socketFd key => reverseMapInsert reverse socketFd key
  | erase socketFd => reverseMapErase reverse socketFd
  | lookup socketFd =>
    (reverseMapLookup reverse socketFd).map fun key : CInt => ((key : Int), reverse)
  | hasEntryFor socketFd =>
    (reverseMapHasEntryFor reverse socketFd).map fun found => (found, reverse)
  | isEmpty => some (reverseMapIsEmpty reverse, reverse)

/-- The call on the partial map. -/
def performMap (map : PartialMap) : ReverseMapCall → Int × PartialMap
  | setup | destroy => (REVERSE_MAP_SUCCESS, ∅)
  | insert socketFd key => (REVERSE_MAP_SUCCESS, map.insert socketFd key)
  | erase socketFd => (REVERSE_MAP_SUCCESS, map.erase socketFd)
  | lookup socketFd => ((map.lookup socketFd).getD INVALID_KEY, map)
  | hasEntryFor socketFd => (if socketFd ∈ map then 1 else 0, map)
  | isEmpty => (if map = ∅ then 1 else 0, map)

/-- The array, and the map that it is to be. -/
def step (s : ReverseMap × PartialMap) (call : ReverseMapCall) : Option (ReverseMap × PartialMap) :=
  (call.perform s.1).map fun (_, reverse) => (reverse, (call.performMap s.2).2)

/-- A descriptor in range, without an entry when one is inserted and with one when it is erased. -/
def Valid (s : ReverseMap × PartialMap) : ReverseMapCall → Prop
  | setup | destroy | isEmpty => True
  | insert socketFd _ => InReverseMap socketFd ∧ socketFd ∉ s.2
  | erase socketFd => InReverseMap socketFd ∧ socketFd ∈ s.2
  | lookup socketFd | hasEntryFor socketFd => InReverseMap socketFd

/-- The call returns what it returns for the map, and no descriptor has an entry after `setup` and
`destroy`. -/
def Answers (s : ReverseMap × PartialMap) (call : ReverseMapCall) : Prop :=
  ∃ reverse, call.perform s.1 = some ((call.performMap s.2).1, reverse) ∧
    (call = setup ∨ call = destroy →
      ∀ socketFd, InReverseMap socketFd → reverseMapHasEntryFor reverse socketFd = some 0)

/-- What is left behind is invalid, the key that is asked for is valid, and the map that is asked
for its emptiness has a key. -/
def CanTell (s : ReverseMap × PartialMap) : ReverseMapCall → Prop
  | setup | destroy =>
    ∀ index < REVERSE_MAP_SIZE, REVERSE_MAP_SIZE / sizeofKey ≤ index →
      keyAt s.1 index = INVALID_KEY
  | erase socketFd | hasEntryFor socketFd => s.2.lookup socketFd ≠ some INVALID_KEY
  | isEmpty => s.2 ≠ ∅
  | insert _ _ | lookup _ => True

instance (s : ReverseMap × PartialMap) : ∀ call, Decidable (Valid s call)
  | setup | destroy | isEmpty => inferInstanceAs (Decidable True)
  | insert _ _ | erase _ => inferInstanceAs (Decidable (_ ∧ _))
  | lookup socketFd | hasEntryFor socketFd => inferInstanceAs (Decidable (InReverseMap socketFd))

instance (s : ReverseMap × PartialMap) : ∀ call, Decidable (CanTell s call)
  | setup | destroy =>
    inferInstanceAs (Decidable (∀ index < REVERSE_MAP_SIZE, _ → keyAt s.1 index = INVALID_KEY))
  | erase _ | hasEntryFor _ | isEmpty => inferInstanceAs (Decidable (_ ≠ _))
  | insert _ _ | lookup _ => inferInstanceAs (Decidable True)

end ReverseMapCall

/-! ### The array -/

section Array

variable {reverse : ReverseMap} {index index' : Nat} {socketFd key : CInt}

theorem keyOfBytes_coe (bytes : List UInt8) :
    (keyOfBytes bytes : Int) = int32 (Bytes.value bytes) := by
  rw [keyOfBytes]

theorem keyOfBytes_keyBytes (key : CInt) : keyOfBytes (keyBytes key) = key := by
  have hvalue : (Bytes.value (keyBytes key) : Int) = (key : Int) % ((2 ^ 32 : Nat) : Int) := by
    rw [keyBytes, Bytes.value_bytes (by rw [sizeofKey]; omega)]
    exact Int.toNat_of_nonneg (Int.emod_nonneg _ (by decide))
  apply Subtype.ext
  rw [keyOfBytes_coe, hvalue, int32, Int.emod_bmod]
  exact int32_eq key.2.1 key.2.2

/-- The bytes that `memset` clears are a quarter of the array. -/
theorem keyAt_memset (reverse : ReverseMap) (index : Nat) :
    keyAt (memset reverse INVALID_KEY REVERSE_MAP_SIZE) index =
      if index < REVERSE_MAP_SIZE / sizeofKey then INVALID_KEY else keyAt reverse index := by
  have hcleared : (List.replicate REVERSE_MAP_SIZE (0 : UInt8)).length = 1024 :=
    List.length_replicate
  have hsize : REVERSE_MAP_SIZE / sizeofKey = 256 := rfl
  rw [hsize, keyAt, memset, show UInt8.ofInt INVALID_KEY = 0 from rfl, sizeofKey]
  split
  · have hbytes : ((List.replicate REVERSE_MAP_SIZE (0 : UInt8)).drop (index * 4 - 0)).take 4 =
        List.replicate 4 0 := by
      rw [List.drop_replicate, List.take_replicate, REVERSE_MAP_SIZE, FD_SETSIZE]
      congr 1
      omega
    have hzero : (keyOfBytes (List.replicate 4 0) : Int) = INVALID_KEY := by
      rw [keyOfBytes_coe, Bytes.value_replicate_zero]
      rfl
    rw [Ring.load_store_within reverse (Nat.zero_le _) (by omega), hbytes]
    exact Subtype.ext hzero
  · rw [Ring.load_store_disjoint reverse (.inr (by omega)), keyAt, sizeofKey]

theorem length_keyBytes (key : CInt) : (keyBytes key).length = sizeofKey := Bytes.length_bytes ..

theorem keyAt_store_self (key : CInt) :
    keyAt (Ring.store reverse (index * sizeofKey) (keyBytes key)) index = key := by
  have hload := Ring.load_store reverse (index * sizeofKey) (keyBytes key)
  rw [length_keyBytes] at hload
  rw [keyAt, hload, keyOfBytes_keyBytes]

theorem keyAt_store_of_ne (key : CInt) (h : index' ≠ index) :
    keyAt (Ring.store reverse (index * sizeofKey) (keyBytes key)) index' =
      keyAt reverse index' := by
  rw [keyAt, Ring.load_store_disjoint reverse (by rw [length_keyBytes, sizeofKey]; omega), keyAt]

/-- The keys of the descriptors. -/
def keysOf (reverse : ReverseMap) (socketFd : CInt) : CInt := keyAt reverse (socketFd : Int).toNat

/-- The array has the keys of the map. -/
def ShowsMap (reverse : ReverseMap) (map : PartialMap) : Prop :=
  Encodes {socketFd | InReverseMap socketFd} INVALID_KEY (keysOf reverse) map

theorem hasEntryFor_eq (hin : InReverseMap socketFd) :
    reverseMapHasEntryFor reverse socketFd =
      some (if keysOf reverse socketFd ≠ INVALID_KEY then 1 else 0) := by
  rw [reverseMapHasEntryFor, loadKey, if_pos hin, Option.map_some]
  rfl

theorem hasEntryFor_zero_iff (hin : InReverseMap socketFd) :
    reverseMapHasEntryFor reverse socketFd = some 0 ↔ keysOf reverse socketFd = INVALID_KEY := by
  rw [hasEntryFor_eq hin, Option.some_inj]
  by_cases hkey : keysOf reverse socketFd = INVALID_KEY
  · exact iff_of_true (if_neg (not_not_intro hkey)) hkey
  · exact iff_of_false (by rw [if_pos hkey]; decide) hkey

theorem storeKey_spec (hin : InReverseMap socketFd) (key : CInt) :
    ∃ stored, storeKey reverse socketFd key = some stored ∧ keysOf stored socketFd = key ∧
      ∀ fd, InReverseMap fd → fd ≠ socketFd → keysOf stored fd = keysOf reverse fd := by
  refine ⟨_, if_pos hin, keyAt_store_self key, ?_⟩
  intro fd hfd hne
  refine keyAt_store_of_ne key ?_
  intro heq
  have hnonneg := hin.1
  have hfdNonneg := hfd.1
  exact hne (Subtype.ext (by omega))

/-- **`memset` leaves an empty map** exactly if the keys that it does not reach are invalid. -/
theorem memset_empties_iff :
    (∀ socketFd, InReverseMap socketFd →
      keysOf (memset reverse INVALID_KEY REVERSE_MAP_SIZE) socketFd = INVALID_KEY) ↔
      ∀ index < REVERSE_MAP_SIZE, REVERSE_MAP_SIZE / sizeofKey ≤ index →
        keyAt reverse index = INVALID_KEY := by
  constructor
  · intro hall index hlt hle
    have hsize : REVERSE_MAP_SIZE = 1024 := rfl
    have hempty := hall ⟨index, by omega⟩ ⟨Int.natCast_nonneg index, Int.ofNat_lt.mpr hlt⟩
    rw [keysOf, Int.toNat_natCast, keyAt_memset, if_neg (Nat.not_lt.mpr hle)] at hempty
    exact hempty
  · intro hbehind socketFd hin
    obtain ⟨hnonneg, hlt⟩ := hin
    rw [keysOf, keyAt_memset]
    split
    · rfl
    · rename_i hle
      exact hbehind _ (by omega) (Nat.not_lt.mp hle)

end Array

/-! ### Calls -/

namespace ReverseMapCall

variable {s s' : ReverseMap × PartialMap} {call : ReverseMapCall} {socketFd key : CInt}

theorem memset_spec (hcall : call = setup ∨ call = destroy) :
    call.perform s.1 = some (REVERSE_MAP_SUCCESS, memset s.1 INVALID_KEY REVERSE_MAP_SIZE) ∧
      call.performMap s.2 = (REVERSE_MAP_SUCCESS, ∅) := by
  rcases hcall with rfl | rfl <;> exact ⟨rfl, rfl⟩

theorem memset_shows (hcall : call = setup ∨ call = destroy) (h : CanTell s .setup)
    (hs : call.step s = some s') : ShowsMap s'.1 s'.2 := by
  obtain ⟨hperform, hmap⟩ := @memset_spec s call hcall
  rw [step, hperform, hmap, Option.map_some] at hs
  obtain rfl := Option.some.inj hs
  exact encodes_empty.mpr fun socketFd hin => memset_empties_iff.mpr h socketFd hin

theorem answers_memset (hcall : call = setup ∨ call = destroy) :
    call.Answers s ↔ CanTell s .setup := by
  obtain ⟨hperform, hmap⟩ := @memset_spec s call hcall
  rw [CanTell, ← memset_empties_iff, Answers, hperform, hmap]
  constructor
  · rintro ⟨reverse, hreverse, hempty⟩ socketFd hin
    obtain ⟨-, rfl⟩ := Prod.mk.inj (Option.some.inj hreverse)
    exact (hasEntryFor_zero_iff hin).mp (hempty hcall socketFd hin)
  · intro hempty
    exact ⟨_, rfl, fun _ socketFd hin => (hasEntryFor_zero_iff hin).mpr (hempty socketFd hin)⟩

theorem insert_spec (h : ShowsMap s.1 s.2) (hv : Valid s (.insert socketFd key)) :
    ∃ reverse, reverseMapInsert s.1 socketFd key = some (REVERSE_MAP_SUCCESS, reverse) ∧
      ShowsMap reverse (s.2.insert socketFd key) := by
  obtain ⟨hin, hmem⟩ := hv
  obtain ⟨stored, hs, hself, hother⟩ := @storeKey_spec s.1 socketFd hin key
  refine ⟨stored, ?_, h.insert hself hother⟩
  rw [reverseMapInsert, (hasEntryFor_zero_iff hin).mpr (h.eq_absent hin hmem), Option.bind_some,
    if_neg (fun hne => hne rfl), hs, Option.map_some]

/-- An erasure succeeds exactly if the key is not the invalid one. -/
theorem erase_spec (h : ShowsMap s.1 s.2) (hv : Valid s (.erase socketFd)) :
    (s.2.lookup socketFd ≠ some INVALID_KEY → ∃ reverse,
        reverseMapErase s.1 socketFd = some (REVERSE_MAP_SUCCESS, reverse) ∧
          ShowsMap reverse (s.2.erase socketFd)) ∧
      (s.2.lookup socketFd = some INVALID_KEY → reverseMapErase s.1 socketFd = none) := by
  obtain ⟨hin, hmem⟩ := hv
  have hne := h.ne_absent_iff hin
  constructor
  · intro hvalid
    obtain ⟨stored, hs, hself, hother⟩ := @storeKey_spec s.1 socketFd hin INVALID_KEY
    refine ⟨stored, ?_, h.erase hself hother⟩
    rw [reverseMapErase, hasEntryFor_eq hin, if_pos (hne.mpr ⟨hmem, hvalid⟩), Option.bind_some,
      if_neg (by decide), hs, Option.map_some]
  · intro hinvalid
    have hkey : keysOf s.1 socketFd = INVALID_KEY := by
      by_contra hkey
      exact (hne.mp hkey).2 hinvalid
    rw [reverseMapErase, (hasEntryFor_zero_iff hin).mpr hkey, Option.bind_some, if_pos rfl]

theorem answers_iff_returns (hsetup : call ≠ setup) (hdestroy : call ≠ destroy) :
    call.Answers s ↔ (call.perform s.1).map Prod.fst = some (call.performMap s.2).1 := by
  rw [Option.map_eq_some_iff]
  constructor
  · rintro ⟨reverse, hp, -⟩
    exact ⟨_, hp, rfl⟩
  · rintro ⟨⟨code, reverse⟩, hp, rfl⟩
    exact ⟨reverse, hp, fun hcall => absurd hcall (not_or_intro hsetup hdestroy)⟩

/-- **A call of an array that shows the map** returns what it returns for the map exactly if the
array can tell. -/
theorem answers_iff (h : ShowsMap s.1 s.2) (hv : call.Valid s) :
    call.Answers s ↔ call.CanTell s := by
  cases call with
  | setup => exact answers_memset (.inl rfl)
  | destroy => exact answers_memset (.inr rfl)
  | insert socketFd key =>
    obtain ⟨reverse, hi, -⟩ := insert_spec h hv
    rw [answers_iff_returns (by simp) (by simp), perform, hi]
    exact iff_of_true rfl trivial
  | erase socketFd =>
    obtain ⟨hvalid, hinvalid⟩ := erase_spec h hv
    rw [answers_iff_returns (by simp) (by simp), perform, CanTell]
    by_cases hkey : s.2.lookup socketFd = some INVALID_KEY
    · rw [hinvalid hkey]
      exact iff_of_false (by simp) (not_not_intro hkey)
    · obtain ⟨reverse, he, -⟩ := hvalid hkey
      rw [he]
      exact iff_of_true rfl hkey
  | lookup socketFd =>
    have hin : InReverseMap socketFd := hv
    rw [answers_iff_returns (by simp) (by simp), perform, reverseMapLookup, loadKey, if_pos hin,
      performMap, ← h socketFd hin]
    exact iff_of_true rfl trivial
  | hasEntryFor socketFd =>
    have hin : InReverseMap socketFd := hv
    rw [answers_iff_returns (by simp) (by simp), perform, hasEntryFor_eq hin, performMap, CanTell,
      ← h.tells_iff hin]
    by_cases hkey : keysOf s.1 socketFd ≠ INVALID_KEY <;> by_cases hmem : socketFd ∈ s.2 <;>
      simp [hkey, hmem]
  | isEmpty =>
    have hfalse : reverseMapIsEmpty s.1 = 0 := rfl
    rw [answers_iff_returns (by simp) (by simp), perform, performMap, CanTell, hfalse]
    by_cases hempty : s.2 = ∅
    · rw [if_pos hempty]
      exact iff_of_false (by simp) (not_not_intro hempty)
    · rw [if_neg hempty]
      exact iff_of_true rfl hempty

theorem step_shows (h : ShowsMap s.1 s.2) (hv : call.Valid s) (ht : call.CanTell s)
    (hs : call.step s = some s') : ShowsMap s'.1 s'.2 := by
  cases call with
  | setup => exact memset_shows (.inl rfl) ht hs
  | destroy => exact memset_shows (.inr rfl) ht hs
  | insert socketFd key =>
    obtain ⟨inserted, hi, hshows⟩ := insert_spec h hv
    rw [step, perform, hi, Option.map_some] at hs
    obtain rfl := Option.some.inj hs
    exact hshows
  | erase socketFd =>
    obtain ⟨erased, he, hshows⟩ := (erase_spec h hv).1 ht
    rw [step, perform, he, Option.map_some] at hs
    obtain rfl := Option.some.inj hs
    exact hshows
  | lookup socketFd | hasEntryFor socketFd =>
    obtain ⟨found, hp, rfl⟩ := Option.map_eq_some_iff.mp hs
    obtain ⟨value, -, rfl⟩ := Option.map_eq_some_iff.mp hp
    exact h
  | isEmpty =>
    obtain rfl := Option.some.inj hs
    exact h

end ReverseMapCall

/-- **The reverse map is a partial map** for the sequences of calls that begin with `setup` and that
the array can tell, and for no others. -/
theorem reverseMap_refines (memory : ReverseMap) (calls : List ReverseMapCall)
    (hcalls : Run.Meets ReverseMapCall.step ReverseMapCall.Valid (memory, ∅) (.setup :: calls)) :
    Run.Meets ReverseMapCall.step ReverseMapCall.Answers (memory, ∅) (.setup :: calls) ↔
      Run.Meets ReverseMapCall.step ReverseMapCall.CanTell (memory, ∅) (.setup :: calls) := by
  have hfirst : ReverseMapCall.setup.Answers (memory, ∅) ↔
      ReverseMapCall.setup.CanTell (memory, ∅) :=
    ReverseMapCall.answers_memset (.inl rfl)
  -- the memory before the first call is arbitrary, and the array shows the map from then on
  have hrest : ReverseMapCall.setup.CanTell (memory, ∅) →
      ∀ t, ReverseMapCall.setup.step (memory, ∅) = some t →
        (Run.Meets ReverseMapCall.step ReverseMapCall.Answers t calls ↔
          Run.Meets ReverseMapCall.step ReverseMapCall.CanTell t calls) := by
    intro htell t ht
    have hstep : ∀ (s : ReverseMap × PartialMap) (call : ReverseMapCall) s', ShowsMap s.1 s.2 →
        call.Valid s → call.CanTell s → call.step s = some s' → ShowsMap s'.1 s'.2 :=
      fun s call s' hs hv htell hstep => ReverseMapCall.step_shows hs hv htell hstep
    have hshows : ShowsMap t.1 t.2 := ReverseMapCall.memset_shows (.inl rfl) htell ht
    exact Run.Meets.congr hstep (fun s call => ReverseMapCall.answers_iff) hshows (hcalls.2 t ht)
  constructor
  · rintro ⟨hanswers, hmeets⟩
    have htell := hfirst.mp hanswers
    exact ⟨htell, fun t ht => (hrest htell t ht).mp (hmeets t ht)⟩
  · rintro ⟨htell, hmeets⟩
    exact ⟨hfirst.mpr htell, fun t ht => (hrest htell t ht).mpr (hmeets t ht)⟩

/-- An entry that is found by its key, and erased. -/
theorem insertedKey_refines :
    Run.Meets ReverseMapCall.step ReverseMapCall.Answers (fun _ => 0, ∅)
      [.setup, .insert (CInt.ofNat 300) (CInt.ofNat 7), .hasEntryFor (CInt.ofNat 300),
        .lookup (CInt.ofNat 300), .isEmpty, .erase (CInt.ofNat 300),
        .hasEntryFor (CInt.ofNat 300)] :=
  (reverseMap_refines (fun _ => 0) [.insert (CInt.ofNat 300) (CInt.ofNat 7),
    .hasEntryFor (CInt.ofNat 300), .lookup (CInt.ofNat 300), .isEmpty, .erase (CInt.ofNat 300),
    .hasEntryFor (CInt.ofNat 300)] (by decide +kernel)).mpr (by decide +kernel)

/-- A key is left behind by `setup`, the key zero is not found, and the empty map is not empty. -/
theorem reverseMap_fails :
    (Run.Meets ReverseMapCall.step ReverseMapCall.Valid (fun _ => 1, ∅) [.setup] ∧
      ¬ Run.Meets ReverseMapCall.step ReverseMapCall.Answers (fun _ => 1, ∅) [.setup]) ∧
    (Run.Meets ReverseMapCall.step ReverseMapCall.Valid (fun _ => 0, ∅)
        [.setup, .insert (CInt.ofNat 3) (CInt.ofNat 0), .hasEntryFor (CInt.ofNat 3)] ∧
      ¬ Run.Meets ReverseMapCall.step ReverseMapCall.Answers (fun _ => 0, ∅)
        [.setup, .insert (CInt.ofNat 3) (CInt.ofNat 0), .hasEntryFor (CInt.ofNat 3)]) ∧
    (Run.Meets ReverseMapCall.step ReverseMapCall.Valid (fun _ => 0, ∅) [.setup, .isEmpty] ∧
      ¬ Run.Meets ReverseMapCall.step ReverseMapCall.Answers (fun _ => 0, ∅)
        [.setup, .isEmpty]) := by
  refine ⟨⟨by decide, ?_⟩, ⟨by decide +kernel, ?_⟩, ⟨by decide, ?_⟩⟩
  · rintro ⟨⟨reverse, hp, hempty⟩, -⟩
    obtain ⟨-, rfl⟩ := Prod.mk.inj (Option.some.inj hp)
    have hleft := hempty (.inl rfl) (CInt.ofNat 256) (by decide)
    revert hleft
    decide +kernel
  · rintro ⟨-, hsecond⟩
    obtain ⟨-, hthird⟩ := hsecond _ rfl
    have hfound := (ReverseMapCall.answers_iff_returns (by simp) (by simp)).mp (hthird _ rfl).1
    revert hfound
    decide +kernel
  · rintro ⟨-, hsecond⟩
    have hempty := (ReverseMapCall.answers_iff_returns (by simp) (by simp)).mp (hsecond _ rfl).1
    revert hempty
    decide +kernel

end Tssx
