import PacketTunnel.Status.Basic

/-!
# Status reports

A snapshot for people: a headline, the state of a client, a line for each session in columns, the
routes, and the counters.
-/
namespace PacketTunnel

def padRight (width : Nat) (text : String) : String :=
  text ++ String.ofList (List.replicate (width - text.length) ' ')

def padLeft (width : Nat) (text : String) : String :=
  String.ofList (List.replicate (width - text.length) ' ') ++ text

def SessionSnapshot.report (s : SessionSnapshot) : String :=
  let endpoint := padRight 24 s.endpoint
  let ipv4 := padRight 15 (s.ipv4.getD "-")
  let ipv6 := padRight 20 (s.ipv6.getD "-")
  let idle := padLeft 4 (toString s.idleSeconds.toNat)
  let received := s!"{s.receivedPackets.toNat}/{s.receivedBytes.toNat}B"
  let sent := s!"{s.sentPackets.toNat}/{s.sentBytes.toNat}B"
  s!"  {endpoint} {ipv4} {ipv6} idle {idle}s  rx {received}  tx {sent}\n"

def Counters.report (c : Counters) : String :=
  s!"datagrams in {c.datagramsIn.toNat} out {c.datagramsOut.toNat}, " ++
    s!"dropped format {c.droppedFormat.toNat} auth {c.droppedAuth.toNat} " ++
    s!"unknown {c.droppedUnknown.toNat} unroutable {c.droppedUnroutable.toNat}, " ++
    s!"relayed {c.relayed.toNat}\n"

namespace Snapshot

def headline (s : Snapshot) : String :=
  let cover := if s.encrypted then "encrypted" else "PLAINTEXT"
  s!"vtunnel {s.mode} on {s.interface} ({cover}), up {s.uptimeSeconds.toNat}s\n"

def stateLine (s : Snapshot) : String :=
  match s.state with
  | some state =>
    let server := s.server.getD "-"
    s!"state: {state} server: {server}\n"
  | none => ""

def routeLines (s : Snapshot) : String :=
  if s.routes.isEmpty then "" else "routes:\n" ++ String.join (s.routes.map fun r => s!"  {r}\n")

def report (s : Snapshot) : String :=
  s.headline ++ s.stateLine ++ s!"sessions: {s.sessions.length}\n" ++
    String.join (s.sessions.map SessionSnapshot.report) ++ s.routeLines ++ s.counters.report

end Snapshot

end PacketTunnel
