import PacketTunnel.Host.Worker
import PacketTunnel.Loop.Buffer

/-!
# Rehearsals of the event loop

A rehearsal runs the loop on a stage on which everything is scripted: each read from the device
follows the next cues of a script, datagrams come from senders on the stage, the clock stands still,
and a worker, if there is one, has finished every submitted job by the next iteration. The engine on
the stage only notes what it is told. When the script is at its end, the loop is asked to stop.
-/
namespace PacketTunnel

/-- What a scripted device does at a read. -/
inductive Cue where
  | packet (bytes : Bytes)
  | nothing
  | interrupted
  | failure
  /-- Ask the loop to stop, and go on with the next cue. -/
  | stop
  | datagrams (bytes : Bytes) (sender : UInt16) (count : Nat)
  | published
  /-- Offer nothing until the engine has seen a number of outcomes. -/
  | awaitOutcomes (count : Nat)
deriving DecidableEq, Repr

inductive Note where
  | packet (bytes : Bytes)
  | datagram (bytes : Bytes) (sender : UInt16)
  | written (bytes : Bytes)
  | tick (count : Nat)
  | outcome (outcome : HostOutcome)
  | published (uptime : Option UInt64)
  | shutdown
deriving DecidableEq, Repr

/-- A job that the engine hands out once it has seen a number of ticks. -/
structure PlannedJob where
  afterTicks : Nat
  job : HostJob
deriving DecidableEq, Repr

structure Setting where
  interval : Duration
  stopped : Bool
  publishes : Bool
  /-- Whether the engine writes every datagram to the device. -/
  echo : Bool
  connected : Bool
  worker : Option Worker

structure Stage where
  script : List Cue
  stopping : Bool
  inbox : List (Bytes × UInt16)
  planned : List PlannedJob
  finished : List HostOutcome
  published : Option UInt64
  ticks : Nat
  outcomes : Nat
  notes : List Note

namespace Rehearsal

abbrev Play := StateM Stage

def jot (note : Note) : Play Unit := modify fun s => { s with notes := s.notes ++ [note] }

/-- Play the cues for one read from the device: the reading, and the stage afterwards. -/
def readDevice (setting : Setting) (s : Stage) : List Cue → Reading Bytes × Stage
  | [] => (.nothing, { s with script := [], stopping := true })
  | .packet bytes :: rest => (.data bytes, { s with script := rest })
  | .nothing :: rest => (.nothing, { s with script := rest })
  | .interrupted :: rest => (.interrupted, { s with script := rest })
  | .failure :: rest => (.failed, { s with script := rest })
  | .stop :: rest => readDevice setting { s with stopping := true } rest
  | .datagrams bytes sender count :: rest =>
    let arrived := if setting.connected then List.replicate count (bytes, sender) else []
    readDevice setting { s with inbox := s.inbox ++ arrived } rest
  | .published :: rest =>
    readDevice setting { s with notes := s.notes ++ [.published s.published] } rest
  | .awaitOutcomes count :: rest =>
    if s.outcomes < count then (.nothing, { s with script := .awaitOutcomes count :: rest })
    else readDevice setting s rest

def senderEndpoint (sender : UInt16) : Endpoint := .v4 (IPv4.ofBytes [127, 0, 0, 1]) sender

def receive (s : Stage) : Reading (Bytes × Endpoint) × Stage :=
  match s.inbox with
  | [] => (.nothing, s)
  | (bytes, sender) :: rest => (.data (bytes, senderEndpoint sender), { s with inbox := rest })

def workerPort (worker : Worker) : WorkerPort Play where
  finished := modifyGet fun s => (s.finished, { s with finished := [] })
  submit job := modify fun s => { s with finished := s.finished ++ [worker.perform job] }

def host (setting : Setting) : Host Play where
  stopping := return (← get).stopping
  now := pure 0
  calendar := pure 0
  wait _ := return { device := true, socket := !(← get).inbox.isEmpty }
  receive := modifyGet receive
  read := modifyGet fun s => readDevice setting s s.script
  worker := setting.worker.map workerPort
  publish snapshot :=
    if setting.publishes then modify fun s => { s with published := some snapshot.uptimeSeconds }
    else pure ()
  withdraw := modify fun s => { s with published := none }

def snapshot (ticks : Nat) : Snapshot where
  mode := "rehearsal"
  interface := ""
  state := none
  server := none
  encrypted := false
  uptimeSeconds := UInt64.ofNat ticks
  sessions := []
  routes := []
  counters := .zero

/-- An engine that notes what it is told. -/
def handler (setting : Setting) : Handler Play where
  handle _ event := do
    match event with
    | .packet bytes => jot (.packet bytes)
    | .datagram bytes sender =>
      jot (.datagram bytes sender.port)
      if setting.echo then jot (.written bytes)
    | .outcome outcome =>
      modify fun s => { s with outcomes := s.outcomes + 1 }
      jot (.outcome outcome)
    | .tick _ =>
      modify fun s => { s with ticks := s.ticks + 1 }
      jot (.tick (← get).ticks)
    | .shutdown => jot .shutdown
  takeJobs := modifyGet fun s =>
    let (due, later) := s.planned.partition fun p => p.afterTicks ≤ s.ticks
    (due.map PlannedJob.job, { s with planned := later })
  snapshot _ := return snapshot (← get).ticks

/-- How many iterations a rehearsal may need: one for each cue, and those until the last planned job
is done. -/
def enough (script : List Cue) (planned : List PlannedJob) : Nat :=
  script.length + planned.foldl (fun n p => n + p.afterTicks + 2) 4

def run (setting : Setting) (script : List Cue) (planned : List PlannedJob) : Stage :=
  let stage : Stage :=
    { script, stopping := setting.stopped, inbox := [], planned, finished := [], published := none,
      ticks := 0, outcomes := 0, notes := [] }
  (Loop.run (host setting).buffered (handler setting).buffered setting.interval
    (enough script planned) Loop.emptyBuffer stage).2

end Rehearsal

end PacketTunnel
