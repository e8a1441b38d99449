import PacketTunnel.Json.Basic
import PacketTunnel.Settings.Basic

/-!
# Settings as JSON

Every setting under the key that it has in settings documents; what is not set is null.
-/
namespace PacketTunnel

namespace Settings

def toJson (s : Settings) : JsonValue :=
  .object [
    JsonValue.field "local" (.ofOption .ofString s.listen),
    JsonValue.field "remote" (.ofOption .ofString s.remote),
    JsonValue.field "ipv4_addr" (.ofOption .ofString s.ipv4Address),
    JsonValue.field "ipv6_addr" (.ofOption .ofString s.ipv6Address),
    JsonValue.field "mtu" (.ofOption (.ofNat ∘ UInt16.toNat) s.mtu),
    JsonValue.field "keepalive" (.ofOption (.ofNat ∘ UInt64.toNat) s.keepalive),
    JsonValue.field "reconnect_timeout" (.ofOption (.ofNat ∘ UInt64.toNat) s.reconnectTimeout),
    JsonValue.field "session_expiry" (.ofOption (.ofNat ∘ UInt64.toNat) s.sessionExpiry),
    JsonValue.field "ifname" (.ofOption .ofString s.interface),
    JsonValue.field "pidfile" (.ofOption .ofString s.pidFile),
    JsonValue.field "encryption_key" (.ofOption .ofString s.encryptionKey),
    JsonValue.field "no_encryption" (.bool s.noEncryption),
    JsonValue.field "routes" (.array (s.routes.map .ofString)),
    JsonValue.field "relay" (.bool s.relay),
    JsonValue.field "implicit_login" (.ofOption .bool s.implicitLogin),
    JsonValue.field "route_advertise" (.ofOption .bool s.advertiseRoutes),
    JsonValue.field "address_pool" (.ofOption .ofString s.addressPool),
    JsonValue.field "status_file" (.ofOption .ofString s.statusFile)]

end Settings

end PacketTunnel
