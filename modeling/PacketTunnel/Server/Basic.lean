import PacketTunnel.Address.Subnet
import PacketTunnel.Datagram
import PacketTunnel.Route.Table
import PacketTunnel.Session.Table

/-!
# Servers

A server keeps one session for each peer, hands out virtual addresses and decides which peer a
destination belongs to. A version 4 address is the one asked for if the server may give it, else the
one that the peer already has, else the lowest free one of the pool; a version 6 address is only
ever the one asked for. The server's own addresses are never given away.
-/
namespace PacketTunnel

structure ServerOptions where
  own : VirtualAddresses
  pool : Option (Subnet 32)
  sessionExpiry : Duration
  relay : Bool
  implicitLogin : Bool
  /-- Whether peers are told the routes after login. -/
  advertise : Bool
  interface : String
deriving DecidableEq, Repr

structure Server where
  codec : Codec
  options : ServerOptions
  sessions : SessionTable
  routes : RouteTable
  counters : Counters
  started : Time

namespace Server

def start (codec : Codec) (routes : RouteTable) (options : ServerOptions) (now : Time) :
    Server where
  codec := codec
  options := options
  sessions := .empty
  routes := routes
  counters := .zero
  started := now

/-- The endpoint that traffic for a destination goes to: the peer that holds the address, else the
peer that holds the gateway of the route to it. -/
def target? (s : Server) (destination : Address) : Option Endpoint :=
  (s.sessions.endpointFor? destination).or
    ((s.routes.gateway? destination).bind s.sessions.endpointFor?)

/-- Whether an address lies in the pool and is neither its first nor its last. -/
def inPool (pool : Subnet 32) (a : IPv4) : Bool :=
  pool.contains a && a != pool.first && a != pool.last

/-- Whether the server may give an address to a peer, whoever has it now. -/
def mayAssign (s : Server) (a : IPv4) : Bool :=
  s.options.pool.all (inPool · a) && !s.options.own.contains (.v4 a)

/-- The first of `count` addresses from `start` on that is free. -/
def firstFree? (isFree : IPv4 → Bool) : Nat → Nat → Option IPv4
  | 0, _ => none
  | count + 1, start =>
    if isFree (BitVec.ofNat 32 start) then some (BitVec.ofNat 32 start)
    else firstFree? isFree count (start + 1)

/-- The lowest address of the pool, its first and last left out, that the server may give and that
no other peer holds. -/
def freeAddress? (s : Server) (pool : Subnet 32) (e : Endpoint) : Option IPv4 :=
  firstFree? (fun a => s.mayAssign a && !s.sessions.isTaken (.v4 a) e)
    (pool.last.toNat - pool.first.toNat - 1) (pool.first.toNat + 1)

def assignIPv4 (s : Server) (requested : Option IPv4) (e : Endpoint) : Option IPv4 :=
  (requested.filter s.mayAssign).or <|
    ((s.sessions.find? e).bind fun session => session.addresses.ipv4).or <|
      s.options.pool.bind (s.freeAddress? · e)

def assignIPv6 (s : Server) (requested : Option IPv6) : Option IPv6 :=
  requested.filter fun a => !s.options.own.contains (.v6 a)

def assign (s : Server) (requested : VirtualAddresses) (e : Endpoint) : VirtualAddresses :=
  ⟨s.assignIPv4 requested.ipv4 e, s.assignIPv6 requested.ipv6⟩

/-- Remove the session of another endpoint that holds an address. -/
def evict (e : Endpoint) (t : SessionTable) (a : Address) : SessionTable :=
  match t.endpointFor? a with
  | some holder => if holder = e then t else t.remove holder
  | none => t

def reclaim (t : SessionTable) (addresses : VirtualAddresses) (e : Endpoint) : SessionTable :=
  addresses.toList.foldl (evict e) t

def ownedBy (s : Server) (addresses : VirtualAddresses) : List Route :=
  s.routes.routes.filter fun r => addresses.contains r.gateway

/-- The routes that a peer with the given addresses may use: those that do not lead back to it. -/
def usableBy (s : Server) (addresses : VirtualAddresses) : List Route :=
  s.routes.routes.filter fun r => !addresses.contains r.gateway

end Server

end PacketTunnel
