import Tssx.Handshake
import Tssx.Lib.Words
import Tssx.StringSet

/-!
# Which sockets use TSSX

`selective.c`: the variable `USE_TSSX` is split at its spaces with `strtok` into the set of the
socket paths that use TSSX, when the set is first needed, and `check_tssx_usage` looks the path of
a socket up in it.

What `getsockname` or `getpeername` and `getsockopt` return are arguments, as is what `malloc`
returns: the room in the copy of the variable, for which `strlen` bytes are asked, and the
block of each node.  The address is a variable on the stack that a failed query leaves as it
was; a string or an access that leaves its memory is `none`, and so is a failed assertion.
-/

namespace Tssx

def AF_LOCAL : Nat := 1
def SOCK_STREAM : Int := 1

/-- The string that begins at the first of some bytes in memory. -/
def CString.ofBytes (bytes : List UInt8) : CString where
  bytes := bytes.takeWhile (· != 0)
  terminated := fun h => by simpa using List.mem_takeWhile_imp h

/-! ### The selective set -/

def isSpace (char : UInt8) : Bool := char == 32

/-- `strtok` for `" "`: the next token, and where the following call goes on. -/
def strtok (buffer : List UInt8) : Option (List UInt8 × List UInt8) := Words.next isSpace buffer

/-- What `malloc` returns while the set is made: the room of the buffer, and the block that an
insertion gets if it needs one. -/
structure SelectiveMemory where
  buffer : Nat
  block : Nat → Allocation

/-- The loop of `_parse_tssx_variable`, with the number of the next path. -/
def parsePaths (debug : Bool) (memory : SelectiveMemory) :
    Nat → Nat → List UInt8 → StringSet → Option StringSet
  | 0, _, _, _ => none
  | fuel + 1, n, buffer, set =>
    match strtok buffer with
    | none => some set
    | some (path, rest) =>
      (ssInsert set (.ofBytes path) (memory.block n)).bind fun (inserted, set) =>
        if debug && !inserted then none else parsePaths debug memory fuel (n + 1) rest set

/-- `strcpy` writes the NUL as well. -/
def parseTssxVariable (debug : Bool) (memory : SelectiveMemory) (value : CString)
    (set : StringSet) : Option StringSet :=
  if memory.buffer < value.length + 1 then none
  else parsePaths debug memory (value.length + 1) 0 value.bytes set

/-- `useTssx` is the variable, if `getenv` finds it. -/
def initializeSelectiveSet (debug : Bool) (memory : SelectiveMemory) (useTssx : Option CString)
    (set : StringSet) : Option StringSet :=
  match useTssx with
  | none => some set
  | some value => parseTssxVariable debug memory value set

/-! ### The socket -/

/-- `struct sockaddr_storage`: the family, and the bytes from `sun_path` on. -/
structure SocketStorage where
  family : Nat
  path : List UInt8
  size : path.length = 126

/-- The uninitialised variable, and what the system calls return: the address with its length,
and the type of the socket. -/
structure UsageQueries where
  garbage : SocketStorage
  address : Option (SocketStorage × BitVec 32)
  soType : Option (BitVec 32)

def getSocketAddress (queries : UsageQueries) : SocketStorage × Int :=
  match queries.address with
  | none => (queries.garbage, ERROR)
  | some (address, length) => (address, length.toInt)

def getSocketOption (option : Option (BitVec 32)) : Int :=
  match option with
  | none => ERROR
  | some option => option.toInt

def isStreamSocket (soType : Option (BitVec 32)) : Int :=
  let option := getSocketOption soType
  if option = ERROR then ERROR else if option = SOCK_STREAM then 1 else 0

def isDomainSocket (address : SocketStorage) : Int := if address.family = AF_LOCAL then 1 else 0

/-- `&&` makes 1 of every other value than 0. -/
def isDomainAndStreamSocket (soType : Option (BitVec 32)) (address : SocketStorage) : Int :=
  if isDomainSocket address ≠ 0 ∧ isStreamSocket soType ≠ 0 then 1 else 0

/-- `offsetof(struct sockaddr_un, sun_path)`. -/
def SUN_PATH_OFFSET : Int := 2

/-- The bytes from `sun_path` on. -/
def insertNullTerminator (address : SocketStorage) (length : Nat) : Option (List UInt8) :=
  let length := sizeT (length - SUN_PATH_OFFSET)
  if length < 126 then some (address.path.set length 0) else none

def inSelectiveSet (address : SocketStorage) (length : Nat) (set : StringSet) : Option Int :=
  (insertNullTerminator address length).bind fun path =>
    (ssContains set (.ofBytes path)).map fun found => if found then 1 else 0

def checkTssxUsage (debug : Bool) (memory : SelectiveMemory) (useTssx : Option CString)
    (queries : UsageQueries) (set : StringSet) : Option (Int × StringSet) :=
  let (address, length) := getSocketAddress queries
  let returnCode := isDomainAndStreamSocket queries.soType address
  if returnCode ≠ 1 then some (returnCode, set)
  else
    (if ssIsInitialized set then some set
      else initializeSelectiveSet debug memory useTssx set).bind fun set =>
        (inSelectiveSet address (sizeT length) set).map fun used => (used, set)

end Tssx
