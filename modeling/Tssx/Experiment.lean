import Tssx.Connection.Sides

/-!
# The experiment

`communicate` of `client.c` and `server.c`: the client sends one byte and then messages of
`size` bytes, each of which the server answers with one of the same size.  A program that gets
another number back than it has passed throws, which ends its process; `cleanup` closes the
connection.

A `Program` is what is left of a `communicate`.  Its calls go to the two sides of a connection,
access by access; the real calls, the clock and the `remove` of the socket's path are left out.
A failed assertion ends a process as a `throw` does, by the bridge's handler of `SIGABRT`.
-/

namespace Tssx

/-- `Arguments` of `arguments.h`. -/
structure Arguments where
  size : Int
  count : Int
  deriving DecidableEq

/-- The next call of a program, and what it does with the number that the call returns. -/
inductive Program
  | write (data : List UInt8) (next : Int → Program)
  | read (requestedBytes : Nat) (next : Int → Program)
  | throw (message : String)
  | cleanup

/-- The buffer after `memset(buffer, '*', args->size)`. -/
def Arguments.message (args : Arguments) : List UInt8 := List.replicate (sizeT args.size) 42

/-- The loop of the client. -/
def clientLoop (args : Arguments) : Nat → Program
  | 0 => .cleanup
  | count + 1 =>
    .write args.message fun written =>
      if written ≠ args.size then .throw "Error writing on client-side"
      else
        .read (sizeT args.size) fun received =>
          if received ≠ args.size then .throw "Error reading on client-side"
          else clientLoop args count

/-- `communicate` of the client; `first` is the first byte of its uninitialised buffer. -/
def clientCommunicate (first : UInt8) (args : Arguments) : Program :=
  .write [first] fun written =>
    if written < 1 then .throw "Error writing first byte to server"
    else clientLoop args args.count.toNat

/-- The assertion of `evaluate`, which the server calls before `cleanup`. -/
def evaluate (args : Arguments) : Program :=
  if 0 < args.count then .cleanup else .throw "Assertion failed: args->count > 0"

/-- The loop of the server. -/
def serverLoop (args : Arguments) : Nat → Program
  | 0 => evaluate args
  | count + 1 =>
    .read (sizeT args.size) fun received =>
      if received ≠ args.size then .throw "Error reading on server-side"
      else
        .write args.message fun written =>
          if written ≠ args.size then .throw "Error sending on server-side"
          else serverLoop args count

/-- `communicate` of the server. -/
def serverCommunicate (args : Arguments) : Program :=
  .read 1 fun received =>
    if received < 1 then .throw "Error reading first byte from client"
    else serverLoop args args.count.toNat

/-- The two programs. -/
def communicate (first : UInt8) (args : Arguments) : Side → Program
  | .server => serverCommunicate args
  | .client => clientCommunicate first args

/-- Where a process is. -/
inductive Control
  | run (program : Program)
  | writing (next : Int → Program)
  | reading (next : Int → Program)
  /-- `disconnect`, by `close` or by the exit handler after a `throw`. -/
  | exiting (message : Option String)

structure Experiment where
  sides : Sides
  control : Side → Control

/-- Both programs before their first call on a new connection. -/
def Experiment.start (buffer : Side → Buffer) (program : Side → Program) : Experiment where
  sides := .init buffer
  control := fun side => .run (program side)

def Experiment.goto (s : Experiment) (side : Side) (control : Control) : Experiment :=
  { s with control := Function.update s.control side control }

def Experiment.call (s : Experiment) (side : Side) (a : SidesAction) (control : Control) :
    Option Experiment :=
  (sidesStep s.sides a).map fun sides => { s with sides }.goto side control

/-- The next step of a process. -/
def experimentStep (s : Experiment) (side : Side) : Option Experiment :=
  match s.control side with
  | .run (.write data next) => s.call side (.write side data) (.writing next)
  | .run (.read requestedBytes next) => s.call side (.read side requestedBytes) (.reading next)
  | .run (.throw message) => s.call side (.close side) (.exiting (some message))
  | .run .cleanup => s.call side (.close side) (.exiting none)
  | .writing next =>
    if s.sides.pc side = .ready then
      (s.sides.writes side).getLast?.map fun record => s.goto side (.run (next record.2))
    else s.call side (.step side) (.writing next)
  | .reading next =>
    if s.sides.pc side = .ready then
      (s.sides.reads side).getLast?.map fun record => s.goto side (.run (next record.returned))
    else s.call side (.step side) (.reading next)
  | .exiting message => s.call side (.step side) (.exiting message)

/-- What a process has thrown. -/
def Experiment.thrown (s : Experiment) (side : Side) : Option String :=
  match s.control side with
  | .run (.throw message) | .exiting (some message) => some message
  | _ => none

/-- The process has closed the connection and left. -/
def Experiment.finished (s : Experiment) (side : Side) : Bool := s.sides.pc side = .closed

end Tssx
