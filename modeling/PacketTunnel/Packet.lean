import PacketTunnel.Address.Basic

/-!
# Addresses inside packets

The tunnel looks only at the version and the two addresses of an IP packet. A packet that is too
short for the header of its version, or of no known version, has neither.
-/
namespace PacketTunnel.Packet

def version? (packet : Bytes) : Option Nat := packet.head?.map fun b => b.toNat / 16

/-- The bytes of a packet from `start` on, as an address of its version. -/
def addressAt? (packet : Bytes) (start4 start6 : Nat) : Option Address :=
  match version? packet with
  | some 4 =>
    if 20 ≤ packet.length then some (.v4 (IPv4.ofBytes ((packet.drop start4).take 4))) else none
  | some 6 =>
    if 40 ≤ packet.length then some (.v6 (IPv6.ofBytes ((packet.drop start6).take 16))) else none
  | _ => none

def source? (packet : Bytes) : Option Address := addressAt? packet 12 8

def destination? (packet : Bytes) : Option Address := addressAt? packet 16 24

end PacketTunnel.Packet
