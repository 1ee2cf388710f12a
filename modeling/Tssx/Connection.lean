import Tssx.Definitions

/-!
# The shared segment of a connection

`connection.c` and `shared-memory.c`, as one process runs them when nobody interferes.  The
segment begins with the counter `open_count`; the two buffers behind it are the subject of
`Buffer.lean`.  `disconnect` makes several accesses with other processes in between; the
steps are in `Connection/Disconnect.lean`.
-/

namespace Tssx

/-- The shared segment of a connection, without its buffers. -/
structure Segment where
  /-- An `atomic_uint_fast16_t`, of 64 bits: processes are too few to fill it. -/
  openCount : Int
  /-- Whether `IPC_RMID` has been executed for the segment. -/
  removed : Bool := false
  deriving DecidableEq

/-- `_init_open_count` in `create_connection`. -/
def createConnection : Segment := { openCount := 1 }

/-- `_init_and_increment_open_count` in `setup_connection`. -/
def setupConnection (segment : Segment) : Segment :=
  { segment with openCount := segment.openCount + 1 }

def connectionAddUser (segment : Segment) : Segment :=
  { segment with openCount := segment.openCount + 1 }

def connectionPeerDied (segment : Segment) : Bool := segment.openCount == 1

/-- `atomic_fetch_sub(connection->open_count, 1)`. -/
def Segment.fetchSub (segment : Segment) : Segment :=
  { segment with openCount := segment.openCount - 1 }

/-- `shmctl(segment_id, IPC_RMID, NULL)`: `throw` ends the process if the segment has been
removed already. -/
def destroySegment (segment : Segment) : Option Segment :=
  if segment.removed then none else some { segment with removed := true }

/-- `_detach_connection` concerns the address space of the process only. -/
def detachConnection (segment : Segment) : Segment := segment

def destroyConnection (segment : Segment) : Option Segment :=
  destroySegment (detachConnection segment)

def disconnect (segment : Segment) : Option Segment :=
  let segment := segment.fetchSub
  if segment.openCount = 0 then destroyConnection segment else some (detachConnection segment)

theorem disconnect_kept {segment : Segment} (h : segment.removed = false) :
    ∃ segment', disconnect segment = some segment' := by
  unfold disconnect
  dsimp only
  split
  · refine ⟨{ segment.fetchSub with removed := true }, ?_⟩
    simp [destroyConnection, detachConnection, destroySegment, Segment.fetchSub, h]
  · exact ⟨_, rfl⟩

theorem disconnect_eq {segment : Segment} (h : segment.openCount ≠ 1) :
    disconnect segment = some segment.fetchSub := by
  unfold disconnect
  exact if_neg (by simp only [Segment.fetchSub]; omega)

end Tssx
