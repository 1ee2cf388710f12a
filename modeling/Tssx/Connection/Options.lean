import Tssx.Buffer

/-!
# The options of a connection

`connection-options.c`: what `create_connection` is told about the two buffers.
-/

namespace Tssx

def DEFAULT_BUFFER_SIZE : Nat := 1000000

/-- `DEFAULT_TIMEOUTS_INITIALIZER`. -/
def DEFAULT_TIMEOUTS : Timeouts := { nonBlocking := fun _ => false }

structure ConnectionOptions where
  serverBufferSize : Nat := DEFAULT_BUFFER_SIZE
  serverTimeouts : Timeouts := DEFAULT_TIMEOUTS
  clientBufferSize : Nat := DEFAULT_BUFFER_SIZE
  clientTimeouts : Timeouts := DEFAULT_TIMEOUTS
  isBlocking : Bool := true

def Timeouts.setNonBlocking (timeouts : Timeouts) (operation : Operation) (nonBlocking : Bool) :
    Timeouts :=
  { nonBlocking := fun o => if o = operation then nonBlocking else timeouts.nonBlocking o }

/-- `nonBlocking` is the `socket_is_non_blocking` of the socket. -/
def optionsFromSocket (nonBlocking : Bool) (side : Side) : ConnectionOptions :=
  let serverAction : Operation := if side = .server then .write else .read
  let clientAction : Operation := if side = .client then .write else .read
  { serverBufferSize := DEFAULT_BUFFER_SIZE
    serverTimeouts := DEFAULT_TIMEOUTS.setNonBlocking serverAction nonBlocking
    clientBufferSize := DEFAULT_BUFFER_SIZE
    clientTimeouts := DEFAULT_TIMEOUTS.setNonBlocking clientAction nonBlocking }

/-- The timeouts of the two buffers, that of a side being the one it writes. -/
def ConnectionOptions.timeouts (options : ConnectionOptions) : Side → Timeouts
  | .server => options.serverTimeouts
  | .client => options.clientTimeouts

end Tssx
