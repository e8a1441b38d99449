import PacketTunnel.Engine.Basic

/-!
# The event loop

The loop waits for the device and the socket, hands what they offer to an engine, and lets time pass
for it. It is written over any monad: a host gives the descriptors, the clock and the worker, and a
handler stands for the engine. One iteration makes at most 64 reads on each descriptor that was
reported ready, then hands over the outcomes of finished jobs, then ticks if it is time, then
submits new jobs. The request to stop is looked at between iterations.
-/
namespace PacketTunnel

/-- What a read from a descriptor gives. -/
inductive Reading (α : Type) where
  | data (value : α)
  | nothing
  | interrupted
  | failed
deriving DecidableEq, Repr

structure Readiness where
  device : Bool
  socket : Bool
deriving DecidableEq, Repr

/-- A worker as the loop sees it. -/
structure WorkerPort (m : Type → Type) where
  /-- The outcomes since the last call. -/
  finished : m (List HostOutcome)
  submit : HostJob → m Unit

structure Host (m : Type → Type) where
  stopping : m Bool
  now : m Time
  /-- Milliseconds since 1970. -/
  calendar : m UInt64
  wait : Duration → m Readiness
  receive : m (Reading (Bytes × Endpoint))
  read : m (Reading Bytes)
  worker : Option (WorkerPort m)
  publish : Snapshot → m Unit
  withdraw : m Unit

structure Handler (m : Type → Type) where
  handle : Time → Event → m Unit
  takeJobs : m (List HostJob)
  snapshot : Time → m Snapshot

namespace Loop

variable {m : Type → Type} [Monad m]

/-- The most reads on one descriptor in one iteration. -/
def readBudget : Nat := 64

/-- Read and use until nothing is waiting, a read fails, or the budget is spent. -/
def drain {α : Type} (read : m (Reading α)) (use : α → m Unit) : Nat → m Unit
  | 0 => pure ()
  | budget + 1 => do
    match ← read with
    | .data value =>
      use value
      drain read use budget
    | .interrupted => drain read use budget
    | .nothing => pure ()
    | .failed => pure ()

def ifReady (ready : Bool) (attend : m Unit) : m Unit := if ready then attend else pure ()

def readSocket (host : Host m) (handler : Handler m) : m Unit :=
  drain host.receive
    (fun (bytes, sender) => do handler.handle (← host.now) (.datagram bytes sender)) readBudget

/-- Hand over the packets that wait in the device, apart from empty ones. -/
def readDevice (host : Host m) (handler : Handler m) : m Unit :=
  drain host.read (fun bytes => do if !bytes.isEmpty then
    handler.handle (← host.now) (.packet bytes)) readBudget

def collect (host : Host m) (handler : Handler m) : m Unit :=
  match host.worker with
  | none => pure ()
  | some worker => do
    for outcome in ← worker.finished do
      handler.handle (← host.now) (.outcome outcome)

/-- Submit the jobs that the engine has queued. Without a worker they stay where they are. -/
def submit (host : Host m) (handler : Handler m) : m Unit :=
  match host.worker with
  | none => pure ()
  | some worker => do
    for job in ← handler.takeJobs do
      worker.submit job

/-- Tick and publish a snapshot, if it is time; the time of the next tick. -/
def tickIfDue (host : Host m) (handler : Handler m) (interval : Duration) (nextTick : Time) :
    m Time := do
  let now ← host.now
  if nextTick ≤ now then
    handler.handle now (.tick (← host.calendar))
    host.publish (← handler.snapshot now)
    pure (now + interval)
  else
    pure nextTick

def iterate (host : Host m) (handler : Handler m) (interval : Duration) (nextTick : Time) :
    m Time := do
  let ready ← host.wait (Time.since nextTick (← host.now))
  ifReady ready.socket (readSocket host handler)
  ifReady ready.device (readDevice host handler)
  collect host handler
  let nextTick ← tickIfDue host handler interval nextTick
  submit host handler
  pure nextTick

/-- Iterate until the loop is asked to stop, at most `fuel` times, then shut the engine down.
Whether the end was reached. -/
def runFrom (host : Host m) (handler : Handler m) (interval : Duration) : Nat → Time → m Bool
  | 0, _ => pure false
  | fuel + 1, nextTick => do
    if ← host.stopping then
      handler.handle (← host.now) .shutdown
      host.withdraw
      pure true
    else
      let nextTick ← iterate host handler interval nextTick
      runFrom host handler interval fuel nextTick

/-- Run the loop; the first iteration ticks. -/
def run (host : Host m) (handler : Handler m) (interval : Duration) (fuel : Nat) : m Bool := do
  runFrom host handler interval fuel (← host.now)

end Loop

end PacketTunnel
