/-!
# Settings

Settings as they are written by people, before anything is checked. Every one may be missing, so
that settings from several places can be laid over each other: what the later place sets wins, flags
that either sets are set, and routes add up.
-/
namespace PacketTunnel

structure Settings where
  listen : Option String
  remote : Option String
  ipv4Address : Option String
  ipv6Address : Option String
  mtu : Option UInt16
  /-- Seconds between probes. -/
  keepalive : Option UInt64
  /-- Seconds of silence after which a client starts top. -/
  reconnectTimeout : Option UInt64
  /-- Seconds of silence after which a server forgets a peer. -/
  sessionExpiry : Option UInt64
  interface : Option String
  pidFile : Option String
  encryptionKey : Option String
  noEncryption : Bool
  routes : List String
  relay : Bool
  implicitLogin : Option Bool
  advertiseRoutes : Option Bool
  addressPool : Option String
  statusFile : Option String
deriving DecidableEq, Repr

namespace Settings

def unset : Settings where
  listen := none
  remote := none
  ipv4Address := none
  ipv6Address := none
  mtu := none
  keepalive := none
  reconnectTimeout := none
  sessionExpiry := none
  interface := none
  pidFile := none
  encryptionKey := none
  noEncryption := false
  routes := []
  relay := false
  implicitLogin := none
  advertiseRoutes := none
  addressPool := none
  statusFile := none

/-- Lay later settings over earlier ones. -/
def overlay (base top : Settings) : Settings where
  listen := top.listen <|> base.listen
  remote := top.remote <|> base.remote
  ipv4Address := top.ipv4Address <|> base.ipv4Address
  ipv6Address := top.ipv6Address <|> base.ipv6Address
  mtu := top.mtu <|> base.mtu
  keepalive := top.keepalive <|> base.keepalive
  reconnectTimeout := top.reconnectTimeout <|> base.reconnectTimeout
  sessionExpiry := top.sessionExpiry <|> base.sessionExpiry
  interface := top.interface <|> base.interface
  pidFile := top.pidFile <|> base.pidFile
  encryptionKey := top.encryptionKey <|> base.encryptionKey
  noEncryption := base.noEncryption || top.noEncryption
  routes := base.routes ++ top.routes
  relay := base.relay || top.relay
  implicitLogin := top.implicitLogin <|> base.implicitLogin
  advertiseRoutes := top.advertiseRoutes <|> base.advertiseRoutes
  addressPool := top.addressPool <|> base.addressPool
  statusFile := top.statusFile <|> base.statusFile

end Settings

end PacketTunnel
