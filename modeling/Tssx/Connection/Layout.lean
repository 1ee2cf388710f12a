import Tssx.Connection.Options
import Tssx.Lib.Bytes
import Tssx.Lib.Ring

/-!
# The layout of the shared segment

`create_connection` and `setup_connection` with the bytes that they write and read.  A pointer
into the segment is its offset from where the segment is attached, so that the pointers of two
processes can be compared.

The places are computed with the size of a pointer to the counter, and the size of the segment
with that of the counter: `segment_layout_iff` says that everything fits where the two are equal.
-/

namespace Tssx

inductive Platform
  | linux
  | osx
  deriving DecidableEq

/-- `sizeof(atomic_count_t)`, of an `atomic_uint_fast16_t`. -/
def sizeofCount : Platform → Nat
  | .linux => 8
  | .osx => 2

/-- `sizeof(connection->open_count)`, of a pointer. -/
def SIZEOF_POINTER : Nat := 8

/-! ### A `Buffer` in memory

`size` has 4 bytes and 4 of padding behind it, `capacity`, `read` and `write` have 8 each, and
`timeouts` has 24. -/

def SIZEOF_BUFFER : Nat := 56

def CAPACITY : Nat := 8
def TIMEOUTS : Nat := 16
def READ_INDEX : Nat := 40
def WRITE_INDEX : Nat := 48

/-- The bytes of a segment. -/
abbrev SegmentBytes := Nat → UInt8

def loadSizeT (memory : SegmentBytes) (place : Nat) : Nat := Bytes.value (Ring.load memory place 8)

def storeSizeT (memory : SegmentBytes) (place value : Nat) : SegmentBytes :=
  Ring.store memory place (Bytes.bytes 8 value)

def DEFAULT_LEVEL_ZERO_CLOCKS : Nat := 10 * 000
def DEFAULT_LEVEL_ONE_CLOCKS : Nat := 100 * 1000

/-- `Timeouts` in memory, with the default clock levels. -/
def Timeouts.bytes (timeouts : Timeouts) : List UInt8 :=
  [(timeouts.nonBlocking .read).toUInt8, (timeouts.nonBlocking .write).toUInt8] ++
    List.replicate 6 0 ++ Bytes.bytes 8 DEFAULT_LEVEL_ZERO_CLOCKS ++
    Bytes.bytes 8 DEFAULT_LEVEL_ONE_CLOCKS

def bufferClearAt (memory : SegmentBytes) (buffer : Nat) : SegmentBytes :=
  Ring.store (storeSizeT (storeSizeT memory (buffer + READ_INDEX) 0) (buffer + WRITE_INDEX) 0)
    buffer (Bytes.bytes 4 0)

def createBufferAt (memory : SegmentBytes) (sharedMemory requestedCapacity : Nat)
    (timeouts : Timeouts) :
    Option SegmentBytes :=
  if 0 < requestedCapacity then
    some (bufferClearAt (Ring.store (storeSizeT memory (sharedMemory + CAPACITY) requestedCapacity)
      (sharedMemory + TIMEOUTS) timeouts.bytes) sharedMemory)
  else none

/-! ### `connection.c` -/

/-- The object of a process, its pointers as offsets. -/
structure Connection where
  segmentId : Int
  openCount : Nat
  serverBuffer : Nat
  clientBuffer : Nat
  deriving DecidableEq

def optionsSegmentSize (platform : Platform) (options : ConnectionOptions) : Nat :=
  sizeT (sizeofCount platform + (SIZEOF_BUFFER + options.serverBufferSize) +
    (SIZEOF_BUFFER + options.clientBufferSize))

/-- `segment_size`, which asserts a positive capacity. -/
def segmentSize (memory : SegmentBytes) (buffer : Nat) : Option Int :=
  let capacity := loadSizeT memory (buffer + CAPACITY)
  if 0 < capacity then some (int32 (SIZEOF_BUFFER + capacity)) else none

def clientBufferOffset (memory : SegmentBytes) (serverBuffer sharedMemory : Nat) : Option Nat :=
  (segmentSize memory serverBuffer).map fun size => sizeT (sharedMemory + SIZEOF_POINTER + size)

/-- The size that `create_segment` is called with, the connection and the content of the
segment.  `segmentId` is what `shmget` returns, and `memory` what is in the segment. -/
def createConnectionIn (platform : Platform) (segmentId : Int) (memory : SegmentBytes)
    (options : ConnectionOptions) : Option (Int × Connection × SegmentBytes) :=
  let totalSize := int32 (optionsSegmentSize platform options)
  if totalSize ≤ 0 then none
  else
    let sharedMemory := 0
    let memory := Ring.store memory sharedMemory (Bytes.bytes (sizeofCount platform) 1)
    let serverBuffer := sharedMemory + SIZEOF_POINTER
    (createBufferAt memory serverBuffer options.serverBufferSize options.serverTimeouts).bind
      fun memory =>
        (clientBufferOffset memory serverBuffer sharedMemory).bind fun clientBuffer =>
          (createBufferAt memory clientBuffer options.clientBufferSize options.clientTimeouts).map
            fun memory =>
              (totalSize, { segmentId, openCount := sharedMemory, serverBuffer, clientBuffer },
                memory)

def setupConnectionIn (platform : Platform) (segmentId : Int) (memory : SegmentBytes) :
    Option (Connection × SegmentBytes) :=
  let sharedMemory := 0
  let count := Bytes.value (Ring.load memory sharedMemory (sizeofCount platform))
  let memory := Ring.store memory sharedMemory (Bytes.bytes (sizeofCount platform) (count + 1))
  let serverBuffer := sharedMemory + SIZEOF_POINTER
  (clientBufferOffset memory serverBuffer sharedMemory).map fun clientBuffer =>
    ({ segmentId, openCount := sharedMemory, serverBuffer, clientBuffer }, memory)

/-- `_connection_segment_size`, in an `int`. -/
def connectionSegmentSize (platform : Platform) (memory : SegmentBytes)
    (connection : Connection) : Int :=
  let size := int32 (sizeofCount platform)
  let size :=
    int32 (size + (SIZEOF_BUFFER + loadSizeT memory (connection.serverBuffer + CAPACITY) : Nat))
  int32 (size + (SIZEOF_BUFFER + loadSizeT memory (connection.clientBuffer + CAPACITY) : Nat))

/-! ### The layout -/

/-- The places and lengths of the counter and the two buffers with their data. -/
def Connection.extents (platform : Platform) (options : ConnectionOptions)
    (connection : Connection) : List (Nat × Nat) :=
  [(connection.openCount, sizeofCount platform),
    (connection.serverBuffer, SIZEOF_BUFFER + options.serverBufferSize),
    (connection.clientBuffer, SIZEOF_BUFFER + options.clientBufferSize)]

/-- The capacities of both buffers are as they were. -/
def SameCapacities (connection : Connection) (memory later : SegmentBytes) : Prop :=
  loadSizeT later (connection.serverBuffer + CAPACITY) =
      loadSizeT memory (connection.serverBuffer + CAPACITY) ∧
    loadSizeT later (connection.clientBuffer + CAPACITY) =
      loadSizeT memory (connection.clientBuffer + CAPACITY)

/-- The layout that `create_connection` makes, and what another process finds in the segment at
any later time. -/
structure SegmentLayout (platform : Platform) (options : ConnectionOptions) (total : Int)
    (connection : Connection) (memory : SegmentBytes) : Prop where
  total_eq : total = optionsSegmentSize platform options
  disjoint : (connection.extents platform options).Pairwise fun a b => a.1 + a.2 ≤ b.1
  inside : ∀ extent ∈ connection.extents platform options, (extent.1 + extent.2 : Nat) ≤ total
  setup : ∀ segmentId later, SameCapacities connection memory later →
    ∃ counted, setupConnectionIn platform segmentId later =
      some ({ connection with segmentId }, counted)
  segmentSize_eq : ∀ later, SameCapacities connection memory later →
    connectionSegmentSize platform later connection = optionsSegmentSize platform options

section Layout

variable {platform : Platform} {options : ConnectionOptions} {memory memory' : SegmentBytes}
  {place capacity : Nat} {timeouts : Timeouts}

theorem length_timeouts (timeouts : Timeouts) : timeouts.bytes.length = 24 := by
  simp [Timeouts.bytes]

theorem loadSizeT_store {value : Nat} (h : value < 2 ^ 64) :
    loadSizeT (storeSizeT memory place value) place = value := by
  have hload := Ring.load_store memory place (Bytes.bytes 8 value)
  rw [Bytes.length_bytes] at hload
  rw [loadSizeT, storeSizeT, hload, Bytes.value_bytes (by omega)]

theorem loadSizeT_disjoint {q : Nat} {bytes : List UInt8}
    (h : place + 8 ≤ q ∨ q + bytes.length ≤ place) :
    loadSizeT (Ring.store memory q bytes) place = loadSizeT memory place := by
  rw [loadSizeT, Ring.load_store_disjoint memory h, loadSizeT]

/-- **`create_buffer` writes its capacity**, and nothing outside the `Buffer`. -/
theorem createBufferAt_spec (h : createBufferAt memory place capacity timeouts = some memory')
    (hc : capacity < 2 ^ 64) : 0 < capacity ∧ loadSizeT memory' (place + CAPACITY) = capacity ∧
      ∀ p, p + 8 ≤ place ∨ place + SIZEOF_BUFFER ≤ p →
        loadSizeT memory' p = loadSizeT memory p := by
  unfold createBufferAt at h
  split at h
  · rename_i hpos
    obtain rfl := Option.some.inj h
    have hlen := length_timeouts timeouts
    refine ⟨hpos, ?_, ?_⟩
    · rw [bufferClearAt, loadSizeT_disjoint (by simp [CAPACITY]), storeSizeT,
        loadSizeT_disjoint (by simp [CAPACITY, WRITE_INDEX]), storeSizeT,
        loadSizeT_disjoint (by simp [CAPACITY, READ_INDEX]),
        loadSizeT_disjoint (by simp [CAPACITY, TIMEOUTS]), loadSizeT_store hc]
    · intro p hp
      unfold SIZEOF_BUFFER at hp
      rw [bufferClearAt, loadSizeT_disjoint (by rw [Bytes.length_bytes]; omega), storeSizeT,
        loadSizeT_disjoint (by rw [Bytes.length_bytes, WRITE_INDEX]; omega), storeSizeT,
        loadSizeT_disjoint (by rw [Bytes.length_bytes, READ_INDEX]; omega),
        loadSizeT_disjoint (by rw [hlen, TIMEOUTS]; omega), storeSizeT,
        loadSizeT_disjoint (by rw [Bytes.length_bytes, CAPACITY]; omega)]
  · cases h

theorem clientBufferOffset_eq {capacity : Nat}
    (h : loadSizeT memory (SIZEOF_POINTER + CAPACITY) = capacity) (hpos : 0 < capacity)
    (hlt : SIZEOF_BUFFER + capacity < 2 ^ 31) :
    clientBufferOffset memory SIZEOF_POINTER 0 =
      some (SIZEOF_POINTER + (SIZEOF_BUFFER + capacity)) := by
  rw [clientBufferOffset, segmentSize, h, if_pos hpos, Option.map_some,
    int32_eq (by omega) (by omega)]
  unfold SIZEOF_POINTER
  rw [sizeT_eq (n := 8 + (SIZEOF_BUFFER + capacity)) (by omega) (by omega)]

/-- The size of a segment fits into an `int`. -/
def FitsInt (platform : Platform) (options : ConnectionOptions) : Prop :=
  sizeofCount platform + (SIZEOF_BUFFER + options.serverBufferSize) +
    (SIZEOF_BUFFER + options.clientBufferSize) < 2 ^ 31

theorem FitsInt.size_eq (h : FitsInt platform options) : optionsSegmentSize platform options =
    sizeofCount platform + (SIZEOF_BUFFER + options.serverBufferSize) +
      (SIZEOF_BUFFER + options.clientBufferSize) := by
  unfold FitsInt at h
  exact sizeT_eq (by push_cast; rfl) (by omega)

/-- The connection that `create_connection` makes. -/
def Connection.placed (segmentId : Int) (options : ConnectionOptions) : Connection where
  segmentId := segmentId
  openCount := 0
  serverBuffer := SIZEOF_POINTER
  clientBuffer := SIZEOF_POINTER + (SIZEOF_BUFFER + options.serverBufferSize)

/-- The capacities of the options are in the segment. -/
def HasCapacities (options : ConnectionOptions) (connection : Connection)
    (memory : SegmentBytes) : Prop :=
  loadSizeT memory (connection.serverBuffer + CAPACITY) = options.serverBufferSize ∧
    loadSizeT memory (connection.clientBuffer + CAPACITY) = options.clientBufferSize

theorem createConnectionIn_eq (hs : 0 < options.serverBufferSize)
    (ht : 0 < options.clientBufferSize) (hfit : FitsInt platform options) (segmentId : Int)
    (memory : SegmentBytes) : ∃ memory', createConnectionIn platform segmentId memory options =
      some ((optionsSegmentSize platform options : Int), .placed segmentId options, memory') ∧
      HasCapacities options (.placed segmentId options) memory' := by
  have hsize := hfit.size_eq
  unfold FitsInt at hfit
  have htotal : int32 (optionsSegmentSize platform options) =
      optionsSegmentSize platform options := int32_eq (by omega) (by omega)
  have hcreate : ∀ m place capacity timeouts, 0 < capacity →
      ∃ m', createBufferAt m place capacity timeouts = some m' :=
    fun m place capacity timeouts hpos => ⟨_, if_pos hpos⟩
  obtain ⟨m₁, h₁⟩ := hcreate (Ring.store memory 0 (Bytes.bytes (sizeofCount platform) 1))
    SIZEOF_POINTER options.serverBufferSize options.serverTimeouts hs
  obtain ⟨-, hserver, -⟩ := createBufferAt_spec h₁ (by omega)
  have hoffset := clientBufferOffset_eq hserver hs (by omega)
  obtain ⟨m₂, h₂⟩ := hcreate m₁ (SIZEOF_POINTER + (SIZEOF_BUFFER + options.serverBufferSize))
    options.clientBufferSize options.clientTimeouts ht
  obtain ⟨-, hclient, hframe⟩ := createBufferAt_spec h₂ (by omega)
  refine ⟨m₂, ?_, ?_, hclient⟩
  · simp only [createConnectionIn, htotal, Nat.zero_add, h₁, hoffset, h₂, Option.bind_some,
      Option.map_some]
    rw [if_neg (by omega)]
    rfl
  · rw [← hserver]
    refine hframe _ (.inl ?_)
    simp only [Connection.placed, SIZEOF_POINTER, CAPACITY, SIZEOF_BUFFER]
    omega

/-- `setup_connection` finds the two buffers by the capacity of the server's. -/
theorem setupConnectionIn_eq (hs : 0 < options.serverBufferSize)
    (hfit : FitsInt platform options) (segmentId : Int) {connection : Connection}
    (hplace : connection.serverBuffer = SIZEOF_POINTER)
    (hcap : loadSizeT memory (connection.serverBuffer + CAPACITY) = options.serverBufferSize) :
    ∃ counted, setupConnectionIn platform segmentId memory =
      some (.placed segmentId options, counted) := by
  unfold FitsInt at hfit
  have hcount : sizeofCount platform ≤ 8 := by cases platform <;> decide
  rw [hplace] at hcap
  have hcounted : ∀ count, loadSizeT (Ring.store memory 0
      (Bytes.bytes (sizeofCount platform) count)) (SIZEOF_POINTER + CAPACITY) =
        options.serverBufferSize := by
    intro count
    rw [loadSizeT_disjoint (.inr ?_), hcap]
    rw [Bytes.length_bytes, SIZEOF_POINTER, CAPACITY]
    omega
  simp only [setupConnectionIn, Nat.zero_add,
    clientBufferOffset_eq (hcounted _) hs (by omega), Option.map_some]
  exact ⟨_, rfl⟩

theorem connectionSegmentSize_eq (hfit : FitsInt platform options) {connection : Connection}
    (hcap : HasCapacities options connection memory) :
    connectionSegmentSize platform memory connection = optionsSegmentSize platform options := by
  have hsize := hfit.size_eq
  unfold FitsInt at hfit
  rw [connectionSegmentSize, hcap.1, hcap.2]
  rw [int32_eq (x := sizeofCount platform) (by omega) (by omega),
    int32_eq (x := sizeofCount platform + _) (by omega) (by omega), int32_eq (by omega) (by omega),
    hsize]
  push_cast
  rfl

theorem client_end (hfit : FitsInt platform options) (segmentId : Int) :
    (Connection.placed segmentId options).clientBuffer +
        (SIZEOF_BUFFER + options.clientBufferSize) + sizeofCount platform =
      optionsSegmentSize platform options + SIZEOF_POINTER := by
  rw [hfit.size_eq]
  simp only [Connection.placed]
  omega

/-- **The buffers fit into the segment exactly where the counter is as long as a pointer.** -/
theorem segment_layout_iff (hs : 0 < options.serverBufferSize) (ht : 0 < options.clientBufferSize)
    (hfit : FitsInt platform options) (segmentId : Int) (memory : SegmentBytes) :
    (∃ total connection memory', createConnectionIn platform segmentId memory options =
        some (total, connection, memory') ∧
      SegmentLayout platform options total connection memory') ↔ platform = .linux := by
  obtain ⟨memory', hcreate, hcaps⟩ := createConnectionIn_eq hs ht hfit segmentId memory
  have hend := client_end hfit segmentId
  constructor
  · rintro ⟨total, connection, m, heq, hlayout⟩
    rw [hcreate] at heq
    obtain ⟨rfl, hrest⟩ := Prod.mk.inj (Option.some.inj heq)
    obtain ⟨rfl, rfl⟩ := Prod.mk.inj hrest
    have hin := hlayout.inside _ (List.mem_cons_of_mem _ (List.mem_cons_of_mem _
      List.mem_cons_self))
    cases platform with
    | linux => rfl
    | osx =>
      unfold sizeofCount SIZEOF_POINTER at hend
      dsimp only at hin hend
      omega
  · rintro rfl
    refine ⟨_, .placed segmentId options, memory', hcreate, ⟨rfl, ?_, ?_, ?_, ?_⟩⟩
    · simp [Connection.extents, Connection.placed, sizeofCount, SIZEOF_POINTER]
    · intro extent he
      have hcount : sizeofCount .linux = 8 := rfl
      rw [hcount, SIZEOF_POINTER] at hend
      simp only [Connection.extents, List.mem_cons, List.not_mem_nil, or_false] at he
      have hplaced : (Connection.placed segmentId options).openCount = 0 ∧
          (Connection.placed segmentId options).serverBuffer = 8 ∧
          (Connection.placed segmentId options).clientBuffer =
            8 + (SIZEOF_BUFFER + options.serverBufferSize) := ⟨rfl, rfl, rfl⟩
      obtain ⟨h0, h1, h2⟩ := hplaced
      rcases he with rfl | rfl | rfl <;> dsimp only <;> omega
    · intro id later hsame
      exact setupConnectionIn_eq hs hfit id rfl (hsame.1.trans hcaps.1)
    · intro later hsame
      exact connectionSegmentSize_eq hfit ⟨hsame.1.trans hcaps.1, hsame.2.trans hcaps.2⟩

theorem segment_layout_iff_default :
    (∃ total connection memory', createConnectionIn .osx 7 (fun _ => 0) {} =
        some (total, connection, memory') ∧
      SegmentLayout .osx {} total connection memory') ↔ Platform.osx = .linux :=
  segment_layout_iff (by decide) (by decide) (by unfold FitsInt; decide) 7 fun _ => 0

/-- **On OS X the client's data end six bytes behind the segment.** -/
theorem osx_client_outside :
    ∃ total connection memory', createConnectionIn .osx 7 (fun _ => 0) {} =
        some (total, connection, memory') ∧
      ((connection.clientBuffer + (SIZEOF_BUFFER + DEFAULT_BUFFER_SIZE) : Nat) : Int) = total + 6 ∧
      ¬ SegmentLayout .osx {} total connection memory' := by
  have hfit : FitsInt .osx {} := by unfold FitsInt; decide
  obtain ⟨memory', hcreate, -⟩ := @createConnectionIn_eq .osx {} (by decide) (by decide) hfit 7
    fun _ => 0
  have hend :
      ((Connection.placed 7 {}).clientBuffer + (SIZEOF_BUFFER + DEFAULT_BUFFER_SIZE) : Nat) =
      (optionsSegmentSize .osx {} + 6 : Nat) := by decide
  refine ⟨_, _, memory', hcreate, by rw [hend]; push_cast; rfl, ?_⟩
  intro hlayout
  have hin := hlayout.inside ((Connection.placed 7 {}).clientBuffer,
    SIZEOF_BUFFER + DEFAULT_BUFFER_SIZE)
    (List.mem_cons_of_mem _ (List.mem_cons_of_mem _ List.mem_cons_self))
  omega

end Layout

end Tssx
