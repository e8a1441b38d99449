import PacketTunnel.Address.Endpoint
import PacketTunnel.Route.Basic

/-!
# Host jobs

Work that an engine leaves to the host because it may take long: installing a route, and looking up
the server's name again. Each job has one outcome.
-/
namespace PacketTunnel

/-- Work for the host. -/
inductive HostJob where
  | installRoute (route : Route)
  /-- Look up a host again, keeping the address family of its current endpoint. -/
  | resolve (host : String) (current : Endpoint)
deriving DecidableEq, Repr

inductive HostOutcome where
  | routeInstalled (route : Route)
  | resolved (endpoint : Endpoint)
  | failed (reason : String)
deriving DecidableEq, Repr

end PacketTunnel
