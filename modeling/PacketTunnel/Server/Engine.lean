import PacketTunnel.Engine.Basic
import PacketTunnel.Packet
import PacketTunnel.Server.Basic

/-!
# The server as an engine

How a server reacts to what it is told. Datagrams that do not decode are counted and dropped. A
login gets its addresses confirmed and the routes advertised, or is refused; a packet from a peer
goes to the device, or straight to another peer when relaying is on; a probe is answered. A tick
removes silent sessions, and at shutdown every peer is told.
-/
namespace PacketTunnel

namespace Server

def count (s : Server) (f : Counters → Counters) : Server := { s with counters := f s.counters }

def modifySession (s : Server) (e : Endpoint) (f : Session → Session) : Server :=
  { s with sessions := s.sessions.modify e f }

def login (s : Server) (now : Time) (e : Endpoint) (requested : VirtualAddresses) (size : Nat) :
    Server × List Action :=
  let assigned := s.assign requested e
  if assigned.isEmpty then
    ({ s with sessions := s.sessions.remove e }, [.send .disconnect e])
  else
    let table := (reclaim s.sessions assigned e).ensure e now
    let table := (table.modify e fun session => session.touch now size).setAddresses e assigned
    let table := table.modify e fun session => { session with ownedRoutes := s.ownedBy assigned }
    let adverts :=
      if s.options.advertise then s.codec.advertisements (s.usableBy assigned) else []
    ({ s with sessions := table }, .send (.clientLogin assigned) e :: adverts.map (.send · e))

/-- The session table after an unknown sender's first packet, if the packet may start a session: the
sender takes the packet's source address, unless it is the server's. -/
def implicitLogin? (s : Server) (now : Time) (e : Endpoint) (packet : Bytes) :
    Option SessionTable :=
  (if s.options.implicitLogin then Packet.source? packet else none).bind fun source =>
    if s.options.own.contains source then none
    else
      let addresses := VirtualAddresses.single source
      some (((reclaim s.sessions addresses e).ensure e now).setAddresses e addresses)

def forward (s : Server) (e : Endpoint) (packet : Bytes) : Server × List Action :=
  let peer :=
    if s.options.relay then ((Packet.destination? packet).bind s.target?).filter (· ≠ e) else none
  match peer with
  | some peer => (s.count fun c => { c with relayed := c.relayed + 1 }, [.send (.data packet) peer])
  | none => (s, [.deliver packet])

def acceptData (s : Server) (now : Time) (e : Endpoint) (packet : Bytes) (size : Nat) :
    Server × List Action :=
  let table := if s.sessions.contains e then some s.sessions else s.implicitLogin? now e packet
  match table with
  | none => (s.count fun c => { c with droppedUnknown := c.droppedUnknown + 1 }, [])
  | some table =>
    ({ s with sessions := table }.modifySession e fun session => session.touch now size).forward e
      packet

def accept (s : Server) (now : Time) (e : Endpoint) (size : Nat) : Message → Server × List Action
  | .clientLogin requested => s.login now e requested size
  | .data packet => s.acceptData now e packet size
  | .echoRequest echo =>
    if s.sessions.contains e then
      (s.modifySession e fun session => session.touch now size, [.send (.echoAck echo) e])
    else
      (s.count fun c => { c with droppedUnknown := c.droppedUnknown + 1 }, [.send .disconnect e])
  | .echoAck echo =>
    (s.modifySession e fun session => (session.touch now size).acknowledge echo, [])
  | .routeAdvertise _ => (s.modifySession e fun session => session.touch now size, [])
  | .disconnect => ({ s with sessions := s.sessions.remove e }, [])

def receive (s : Server) (now : Time) (datagram : Bytes) (sender : Endpoint) :
    Server × List Action :=
  match s.codec.decode datagram with
  | .error .unauthentic => (s.count fun c => { c with droppedAuth := c.droppedAuth + 1 }, [])
  | .error (.malformed _) => (s.count fun c => { c with droppedFormat := c.droppedFormat + 1 }, [])
  | .ok message =>
    (s.count fun c => { c with datagramsIn := c.datagramsIn + 1 }).accept now sender datagram.length
      message

def dispatch (s : Server) (packet : Bytes) : Server × List Action :=
  match (Packet.destination? packet).bind s.target? with
  | some peer => (s, [.send (.data packet) peer])
  | none => (s.count fun c => { c with droppedUnroutable := c.droppedUnroutable + 1 }, [])

def shutdown (s : Server) : Server × List Action :=
  ({ s with sessions := s.sessions.endpoints.foldl SessionTable.remove s.sessions },
    s.sessions.endpoints.map (.send .disconnect ·))

def react (s : Server) (now : Time) : Event → Server × List Action
  | .packet bytes => s.dispatch bytes
  | .datagram bytes sender => s.receive now bytes sender
  | .outcome _ => (s, [])
  | .tick _ => ({ s with sessions := s.sessions.expire now s.options.sessionExpiry }, [])
  | .shutdown => s.shutdown

/-- Count what was emitted; a datagram also counts for its recipient's session. -/
def credit (s : Server) : Emission → Server
  | .datagram _ bytes recipient =>
    (s.count fun c => { c with datagramsOut := c.datagramsOut + 1 }).modifySession recipient
      fun session => session.recordSent bytes.length
  | .packet _ => s.count fun c => { c with deviceWrites := c.deviceWrites + 1 }

def snapshot (s : Server) (now : Time) : Snapshot where
  mode := "server"
  interface := s.options.interface
  state := none
  server := none
  encrypted := s.codec.protection.isEncrypted
  uptimeSeconds := Time.seconds (now.since s.started)
  sessions := s.sessions.snapshots now
  routes := s.routes.routes.map Route.toText
  counters := s.counters

/-- The server as an engine. It has no jobs for the host. -/
def engine : Engine Server where
  codec := codec
  react := react
  credit := credit
  takeJobs s := ([], s)
  snapshot := snapshot

end Server

end PacketTunnel
