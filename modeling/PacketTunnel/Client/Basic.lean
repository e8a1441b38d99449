import PacketTunnel.Engine.Basic
import PacketTunnel.Route.Table

/-!
# Clients

A client keeps one link to one server: it logs in, is established by the first valid answer, probes
the server at intervals, and starts over when the server is silent for too long or says farewell.
Routes that the server advertises are installed by the host, each one once. After a silence the host
looks up the server's name again.
-/
namespace PacketTunnel

structure ClientOptions where
  server : Endpoint
  /-- The name by which the server is looked up again. -/
  serverHost : String
  requested : VirtualAddresses
  keepalive : Duration
  reconnectTimeout : Duration
  interface : String
deriving DecidableEq, Repr

/-- How a client stands with its server. -/
inductive Link where
  | disconnected
  /-- Asked for addresses, last at the given time, without any answer. -/
  | loginSent (session : Session) (lastLogin : Time)
  /-- The server answered, and may have confirmed addresses. -/
  | established (session : Session) (lastLogin : Time) (assigned : Option VirtualAddresses)
deriving DecidableEq, Repr

namespace Link

def name : Link → String
  | disconnected => "disconnected"
  | loginSent .. => "login-sent"
  | established .. => "established"

def session? : Link → Option Session
  | disconnected => none
  | loginSent s _ => some s
  | established s _ _ => some s

def lastLogin? : Link → Option Time
  | disconnected => none
  | loginSent _ t => some t
  | established _ t _ => some t

def assigned? : Link → Option VirtualAddresses
  | established _ _ assigned => assigned
  | _ => none

def modifySession (f : Session → Session) : Link → Link
  | disconnected => disconnected
  | loginSent s t => loginSent (f s) t
  | established s t assigned => established (f s) t assigned

/-- The link once the server has answered. -/
def answered : Link → Link
  | loginSent s t => established s t none
  | link => link

def confirm (addresses : VirtualAddresses) : Link → Link
  | established s t _ => established s t (some addresses)
  | link => link

end Link

structure Client where
  codec : Codec
  options : ClientOptions
  /-- The endpoint of the server now; a later look-up may change it. -/
  server : Endpoint
  link : Link
  routes : RouteTable
  jobs : List HostJob
  counters : Counters
  started : Time

namespace Client

/-- A client that has not logged in, with routes of its own. -/
def start (codec : Codec) (routes : RouteTable) (options : ClientOptions) (now : Time) :
    Client where
  codec := codec
  options := options
  server := options.server
  link := .disconnected
  routes := routes
  jobs := []
  counters := .zero
  started := now

def session? (c : Client) : Option Session := c.link.session?

def assigned? (c : Client) : Option VirtualAddresses := c.link.assigned?

end Client

end PacketTunnel
