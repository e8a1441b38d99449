import PacketTunnel.Address.Endpoint

/-!
# Sockets

A client's socket is bound before the first datagram, once and for all: to any address of its
server's family, at a port that the host chooses. From there it can send to endpoints of that family
only.
-/
namespace PacketTunnel.Endpoint

/-- Where the socket of a client is bound whose server is at an endpoint; zero leaves the choice to
the host. -/
def socketFor : Endpoint → Endpoint
  | v4 .. => v4 0 0
  | v6 .. => v6 0 0 0

def canReach (bound remote : Endpoint) : Bool := bound.isV4 == remote.isV4

theorem canReach_socketFor {server remote : Endpoint} :
    server.socketFor.canReach remote = true ↔ remote.isV4 = server.isV4 := by
  cases server <;> exact beq_iff_eq.trans eq_comm

end PacketTunnel.Endpoint
