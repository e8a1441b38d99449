import PacketTunnel.Client.Basic

/-!
# The client as an engine

How a client reacts to what it is told. Datagrams from anywhere but the server are dropped, and so
are those that do not decode; neither changes the link. A tick logs in, logs in again while there is
no answer, probes an established server, or gives up a link on which the server has been silent for
too long.
-/
namespace PacketTunnel

namespace Client

def count (c : Client) (f : Counters → Counters) : Client := { c with counters := f c.counters }

def modifySession (c : Client) (f : Session → Session) : Client :=
  { c with link := c.link.modifySession f }

def login (c : Client) (session : Session) (now : Time) : Client × List Action :=
  ({ c with link := .loginSent session now }, [.send (.clientLogin c.options.requested) c.server])

/-- Give up the link after a silence, and have the server's name looked up again. -/
def timeOut (c : Client) : Client :=
  { c with link := .disconnected, jobs := c.jobs ++ [.resolve c.options.serverHost c.server] }

/-- Take over an advertised route; a new one is to be installed. -/
def learnRoute (c : Client) (r : Route) : Client :=
  { c with
    routes := c.routes.insert r
    jobs := if c.routes.contains r then c.jobs else c.jobs ++ [.installRoute r] }

def accept (c : Client) : Message → Client × List Action
  | .data packet => (c, [.deliver packet])
  | .echoRequest echo => (c, [.send (.echoAck echo) c.server])
  | .echoAck echo => (c.modifySession fun session => session.acknowledge echo, [])
  | .clientLogin addresses => ({ c with link := c.link.confirm addresses }, [])
  | .routeAdvertise routes => (routes.foldl learnRoute c, [])
  | .disconnect => ({ c with link := .disconnected }, [])

/-- A sound message from the server in a datagram of the given size. Without a link it is ignored;
any but a farewell establishes the link. -/
def acceptOnLink (c : Client) (now : Time) (size : Nat) (message : Message) :
    Client × List Action :=
  match c.link with
  | .disconnected => (c, [])
  | link =>
    let link := link.modifySession fun session => session.touch now size
    { c with link := if message = Message.disconnect then link else link.answered }.accept message

def receive (c : Client) (now : Time) (datagram : Bytes) (sender : Endpoint) :
    Client × List Action :=
  if sender ≠ c.server then
    (c.count fun n => { n with droppedUnknown := n.droppedUnknown + 1 }, [])
  else match c.codec.decode datagram with
    | .error .unauthentic => (c.count fun n => { n with droppedAuth := n.droppedAuth + 1 }, [])
    | .error (.malformed _) =>
      (c.count fun n => { n with droppedFormat := n.droppedFormat + 1 }, [])
    | .ok message =>
      (c.count fun n => { n with datagramsIn := n.datagramsIn + 1 }).acceptOnLink now
        datagram.length message

def dispatch (c : Client) (packet : Bytes) : Client × List Action :=
  if c.session?.isSome then (c, [.send (.data packet) c.server])
  else (c.count fun n => { n with droppedUnroutable := n.droppedUnroutable + 1 }, [])

def tick (c : Client) (now : Time) (calendar : UInt64) : Client × List Action :=
  match c.link with
  | .disconnected => c.login (.start c.server now) now
  | .loginSent session lastLogin =>
    if c.options.reconnectTimeout < session.idle now then (c.timeOut, [])
    else if c.options.keepalive ≤ now.since lastLogin then c.login session now
    else (c, [])
  | .established session lastLogin assigned =>
    if c.options.reconnectTimeout < session.idle now then (c.timeOut, [])
    else if session.keepaliveDue now c.options.keepalive then
      let (session, echo) := session.nextEcho now calendar
      ({ c with link := .established session lastLogin assigned },
        [.send (.echoRequest echo) c.server])
    else (c, [])

/-- A job has an outcome. Another endpoint of the server applies at once. -/
def acceptOutcome (c : Client) : HostOutcome → Client
  | .resolved endpoint =>
    if endpoint = c.server then c
    else { c with server := endpoint }.modifySession fun session =>
      { session with endpoint := endpoint }
  | .routeInstalled _ => c
  | .failed _ => c

def shutdown (c : Client) : Client × List Action :=
  if c.session?.isSome then ({ c with link := .disconnected }, [.send .disconnect c.server])
  else (c, [])

def react (c : Client) (now : Time) : Event → Client × List Action
  | .packet bytes => c.dispatch bytes
  | .datagram bytes sender => c.receive now bytes sender
  | .outcome outcome => (c.acceptOutcome outcome, [])
  | .tick calendar => c.tick now calendar
  | .shutdown => c.shutdown

/-- Count what was emitted; a datagram also counts for the session. -/
def credit (c : Client) : Emission → Client
  | .datagram _ bytes _ =>
    (c.count fun n => { n with datagramsOut := n.datagramsOut + 1 }).modifySession
      fun session => session.recordSent bytes.length
  | .packet _ => c.count fun n => { n with deviceWrites := n.deviceWrites + 1 }

def snapshot (c : Client) (now : Time) : Snapshot where
  mode := "client"
  interface := c.options.interface
  state := some c.link.name
  server := some c.server.toText
  encrypted := c.codec.protection.isEncrypted
  uptimeSeconds := Time.seconds (now.since c.started)
  sessions := (c.session?.map fun session => session.snapshot now).toList
  routes := c.routes.routes.map Route.toText
  counters := c.counters

def engine : Engine Client where
  codec := codec
  react := react
  credit := credit
  takeJobs c := (c.jobs, { c with jobs := [] })
  snapshot := snapshot

end Client

end PacketTunnel
