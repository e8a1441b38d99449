import PacketTunnel.Loop.Basic

/-!
# The buffer for reads

All reads of the loop, from the socket and from the device, go through one buffer. A read puts its
bytes at the front, as many as there is room for, and leaves what stands behind them; only as many
bytes as were read are handed on.
-/
namespace PacketTunnel

/-- Pass on what was read, through an action that works on it. -/
def Reading.mapM {m : Type → Type} [Monad m] {α β : Type} (f : α → m β) : Reading α → m (Reading β)
  | data value => do return data (← f value)
  | nothing => pure nothing
  | interrupted => pure interrupted
  | failed => pure failed

namespace Loop

def bufferSize : Nat := 65536

def emptyBuffer : Bytes := List.replicate bufferSize 0

/-- Put bytes at the front of a buffer, as many as there is room for. -/
def fill (bytes buffer : Bytes) : Bytes := bytes.take buffer.length ++ buffer.drop bytes.length

/-- Read bytes through a buffer: what is handed on, and the buffer afterwards. -/
def passThrough (bytes buffer : Bytes) : Bytes × Bytes :=
  ((fill bytes buffer).take (min bytes.length buffer.length), fill bytes buffer)

end Loop

variable {m : Type → Type} [Monad m]

def WorkerPort.buffered (worker : WorkerPort m) : WorkerPort (StateT Bytes m) where
  finished := worker.finished
  submit job := worker.submit job

/-- The host, read through a buffer. -/
def Host.buffered (host : Host m) : Host (StateT Bytes m) where
  stopping := host.stopping
  now := host.now
  calendar := host.calendar
  wait duration := host.wait duration
  receive := do
    (← host.receive).mapM fun (bytes, sender) =>
      do return (← modifyGet (Loop.passThrough bytes), sender)
  read := do (← host.read).mapM fun bytes => modifyGet (Loop.passThrough bytes)
  worker := host.worker.map WorkerPort.buffered
  publish snapshot := host.publish snapshot
  withdraw := host.withdraw

def Handler.buffered (handler : Handler m) : Handler (StateT Bytes m) where
  handle now event := handler.handle now event
  takeJobs := handler.takeJobs
  snapshot now := handler.snapshot now

end PacketTunnel
