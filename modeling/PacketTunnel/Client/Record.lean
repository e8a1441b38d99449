import PacketTunnel.Client.Engine

/-!
# Clients field by field

A client as it is kept: its phase, its session, the time of its last login and the addresses that
were confirmed are fields of their own, and every event writes those it is about. Nothing here
makes the fields agree with each other; that they do is a property of the runs from a start.
-/
namespace PacketTunnel

/-- How far a client has come with its server. -/
inductive Phase where
  | disconnected
  | loginSent
  | established
deriving DecidableEq, Repr

def Phase.name : Phase → String
  | disconnected => "disconnected"
  | loginSent => "login-sent"
  | established => "established"

/-- A client, with the present endpoint of its server among its options. -/
structure ClientRecord where
  codec : Codec
  options : ClientOptions
  phase : Phase
  session : Option Session
  lastLogin : Option Time
  /-- The addresses that the server confirmed. -/
  assigned : Option VirtualAddresses
  routes : RouteTable
  jobs : List HostJob
  counters : Counters
  started : Time

namespace ClientRecord

def start (codec : Codec) (routes : RouteTable) (options : ClientOptions) (now : Time) :
    ClientRecord where
  codec := codec
  options := options
  phase := .disconnected
  session := none
  lastLogin := none
  assigned := none
  routes := routes
  jobs := []
  counters := .zero
  started := now

def count (r : ClientRecord) (f : Counters → Counters) : ClientRecord :=
  { r with counters := f r.counters }

def modifySession (r : ClientRecord) (f : Session → Session) : ClientRecord :=
  { r with session := r.session.map f }

/-- Open a session, unless there is one. -/
def openSession (r : ClientRecord) (now : Time) : ClientRecord :=
  if r.session.isNone then { r with session := some (.start r.options.server now) } else r

def login (r : ClientRecord) (now : Time) : ClientRecord × List Action :=
  ({ r.openSession now with lastLogin := some now, phase := .loginSent },
    [.send (.clientLogin r.options.requested) r.options.server])

def disconnect (r : ClientRecord) (lookUp : Bool) : ClientRecord :=
  { r with
    phase := .disconnected
    session := none
    lastLogin := none
    assigned := none
    jobs := if lookUp then r.jobs ++ [.resolve r.options.serverHost r.options.server] else r.jobs }

def confirm (r : ClientRecord) (addresses : VirtualAddresses) : ClientRecord :=
  if r.assigned = some addresses then r else { r with assigned := some addresses }

def learnRoute (r : ClientRecord) (route : Route) : ClientRecord :=
  if r.routes.contains route then { r with routes := r.routes.insert route }
  else { r with routes := r.routes.insert route, jobs := r.jobs ++ [.installRoute route] }

def accept (r : ClientRecord) : Message → ClientRecord × List Action
  | .data packet => (r, [.deliver packet])
  | .echoRequest echo => (r, [.send (.echoAck echo) r.options.server])
  | .echoAck echo => (r.modifySession fun session => session.acknowledge echo, [])
  | .clientLogin addresses => (r.confirm addresses, [])
  | .routeAdvertise routes => (routes.foldl learnRoute r, [])
  | .disconnect => (r, [])

/-- The first message but a farewell establishes a client that has logged in. -/
def establish (r : ClientRecord) : ClientRecord :=
  if r.phase = .loginSent then { r with phase := .established } else r

def hear (r : ClientRecord) (now : Time) (size : Nat) (message : Message) :
    ClientRecord × List Action :=
  match r.session with
  | none => (r, [])
  | some session =>
    let r := { r with session := some (session.touch now size) }
    if message = Message.disconnect then (r.disconnect false, []) else r.establish.accept message

def receive (r : ClientRecord) (now : Time) (datagram : Bytes) (sender : Endpoint) :
    ClientRecord × List Action :=
  if sender ≠ r.options.server then
    (r.count fun n => { n with droppedUnknown := n.droppedUnknown + 1 }, [])
  else match r.codec.decode datagram with
    | .error .unauthentic => (r.count fun n => { n with droppedAuth := n.droppedAuth + 1 }, [])
    | .error (.malformed _) =>
      (r.count fun n => { n with droppedFormat := n.droppedFormat + 1 }, [])
    | .ok message =>
      (r.count fun n => { n with datagramsIn := n.datagramsIn + 1 }).hear now datagram.length
        message

def dispatch (r : ClientRecord) (packet : Bytes) : ClientRecord × List Action :=
  if r.session.isNone then
    (r.count fun n => { n with droppedUnroutable := n.droppedUnroutable + 1 }, [])
  else (r, [.send (.data packet) r.options.server])

/-- Time passes. A silence is too long only where there is a session in the phase of the login, and
also where there is none in the phase that follows. -/
def tick (r : ClientRecord) (now : Time) (calendar : UInt64) : ClientRecord × List Action :=
  let idle := r.session.map fun session => session.idle now
  match r.phase with
  | .disconnected => r.login now
  | .loginSent =>
    if idle.any fun silence => r.options.reconnectTimeout < silence then (r.disconnect true, [])
    else if r.lastLogin.all fun last => r.options.keepalive ≤ now.since last then r.login now
    else (r, [])
  | .established =>
    if idle.all fun silence => r.options.reconnectTimeout < silence then (r.disconnect true, [])
    else match r.session with
      | some session =>
        if session.keepaliveDue now r.options.keepalive then
          let (session, echo) := session.nextEcho now calendar
          ({ r with session := some session }, [.send (.echoRequest echo) r.options.server])
        else (r, [])
      | none => (r, [])

def acceptOutcome (r : ClientRecord) : HostOutcome → ClientRecord
  | .resolved endpoint =>
    if endpoint = r.options.server then r
    else { r with options := { r.options with server := endpoint } }.modifySession
      fun session => { session with endpoint := endpoint }
  | .routeInstalled _ => r
  | .failed _ => r

def shutdown (r : ClientRecord) : ClientRecord × List Action :=
  if r.session.isSome then (r.disconnect false, [.send .disconnect r.options.server]) else (r, [])

def react (r : ClientRecord) (now : Time) : Event → ClientRecord × List Action
  | .packet bytes => r.dispatch bytes
  | .datagram bytes sender => r.receive now bytes sender
  | .outcome outcome => (r.acceptOutcome outcome, [])
  | .tick calendar => r.tick now calendar
  | .shutdown => r.shutdown

def credit (r : ClientRecord) : Emission → ClientRecord
  | .datagram _ bytes _ =>
    (r.count fun n => { n with datagramsOut := n.datagramsOut + 1 }).modifySession
      fun session => session.recordSent bytes.length
  | .packet _ => r.count fun n => { n with deviceWrites := n.deviceWrites + 1 }

def snapshot (r : ClientRecord) (now : Time) : Snapshot where
  mode := "client"
  interface := r.options.interface
  state := some r.phase.name
  server := some r.options.server.toText
  encrypted := r.codec.protection.isEncrypted
  uptimeSeconds := Time.seconds (now.since r.started)
  sessions := (r.session.map fun session => session.snapshot now).toList
  routes := r.routes.routes.map Route.toText
  counters := r.counters

def engine : Engine ClientRecord where
  codec := codec
  react := react
  credit := credit
  takeJobs r := (r.jobs, { r with jobs := [] })
  snapshot := snapshot

end ClientRecord

def Link.phase : Link → Phase
  | disconnected => .disconnected
  | loginSent .. => .loginSent
  | established .. => .established

/-- The fields that a client's link stands for. -/
def Client.toRecord (c : Client) : ClientRecord where
  codec := c.codec
  options := { c.options with server := c.server }
  phase := c.link.phase
  session := c.link.session?
  lastLogin := c.link.lastLogin?
  assigned := c.link.assigned?
  routes := c.routes
  jobs := c.jobs
  counters := c.counters
  started := c.started

end PacketTunnel
