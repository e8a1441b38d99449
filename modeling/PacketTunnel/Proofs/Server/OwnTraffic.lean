import PacketTunnel.Proofs.Server.Forwarding

/-!
# Packets for the server itself

No peer ever holds an address of the server. The index therefore never leads a packet for the server
to a peer, but the routes may: with relaying on, the packet of a peer is captured by another one
that holds the gateway of the best route to the server's address. Every other packet for the server,
from a peer that has a session, goes to the device.
-/
namespace PacketTunnel.Server

open SessionTable

/-- The endpoint captures what the sender sends to an address that nobody holds: relaying is on, and
it is not the sender and holds the gateway of the best route to the address. -/
def Captures (s : Server) (sender : Endpoint) (a : Address) (f : Endpoint) : Prop :=
  s.options.relay = true ∧ f ≠ sender ∧
    ∃ r, RouteTable.Best a s.routes.routes (some r) ∧ s.Holds f r.gateway

variable {s : Server} {e f : Endpoint} {x : Session} {packet datagram : Bytes} {a : Address}

theorem not_holds_own (hs : Sound s.options.own s.sessions) (hown : s.options.own.contains a = true)
    (f : Endpoint) : ¬ s.Holds f a := by
  rintro ⟨y, hy, ha⟩
  rw [hs.foreign hy hown] at ha
  cases ha

theorem relaysTo_own_iff (hs : Sound s.options.own s.sessions)
    (ha : Packet.destination? packet = some a) (hown : s.options.own.contains a = true) :
    s.RelaysTo e packet f ↔ s.Captures e a f := by
  have hfor : s.PacketFor packet f ↔ ∃ r, RouteTable.Best a s.routes.routes (some r) ∧
      s.Holds f r.gateway := by
    constructor
    · rintro ⟨destination, hdestination, htarget⟩
      cases ha.symm.trans hdestination
      rcases htarget with hholds | ⟨-, hgateway⟩
      · exact absurd hholds (not_holds_own hs hown f)
      · exact hgateway
    · exact fun hgateway => ⟨a, ha, .inr ⟨not_holds_own hs hown, hgateway⟩⟩
  rw [RelaysTo, Captures, hfor, and_comm (a := f ≠ e)]

theorem holds_modifySession (s : Server) (e : Endpoint) {update : Session → Session}
    (h : Keeps update) (f : Endpoint) (b : Address) :
    (s.modifySession e update).Holds f b ↔ s.Holds f b := by
  simp only [Holds, modifySession, find?_modify]
  split
  · rename_i hf
    subst hf
    simp only [Option.map_eq_some_iff]
    constructor
    · rintro ⟨_, ⟨y, hy, rfl⟩, hb⟩
      exact ⟨y, hy, (h y).2 ▸ hb⟩
    · rintro ⟨y, hy, hb⟩
      exact ⟨update y, ⟨y, hy, rfl⟩, (h y).2.symm ▸ hb⟩
  · exact Iff.rfl

theorem relaysTo_step_data (hx : s.sessions.find? e = some x)
    (hd : s.codec.decode datagram = .ok (.data packet)) (c : Conditions) (now : Time) :
    (engine.step c now (.datagram datagram e) s).1.RelaysTo e packet f ↔ s.RelaysTo e packet f := by
  have hroutes : (s.heard.modifySession e fun y => y.touch now datagram.length).routes = s.routes :=
    rfl
  have hholds := holds_modifySession s.heard e (keeps_touch now datagram.length)
  rw [step_data c now hd, acceptData_of_session (s := s.heard) now hx packet,
    relaysTo_forward_credits, RelaysTo, packetFor_congr hroutes hholds]
  exact Iff.rfl

/-- In every reachable state, a packet for the server from a peer that has a session goes to whoever
captures it, and to the device if nobody does. -/
theorem own_traffic_delivered_unless_captured (hs : s.Reachable) (hx : s.sessions.find? e = some x)
    (hd : s.codec.decode datagram = .ok (.data packet)) (ha : Packet.destination? packet = some a)
    (hown : s.options.own.contains a = true) (c : Conditions) (now : Time) :
    ((∀ f, ¬ s.Captures e a f) →
      (engine.step c now (.datagram datagram e) s).2 =
        if c.writes 0 = true then [.packet packet] else []) ∧
    ∀ f, s.Captures e a f →
      (engine.step c now (.datagram datagram e) s).1.counters.relayed = s.counters.relayed + 1 ∧
      ∃ bytes, s.codec.encode (c.vector 0) (.data packet) = .ok bytes ∧
        (engine.step c now (.datagram datagram e) s).2 =
          if c.sends 0 = true then [.datagram (.data packet) bytes f] else [] := by
  have hpasses := passes_of_admits hs.sound.toIndexed hs.maxPayload_le c now hd (.inl ⟨x, hx⟩)
  obtain ⟨y, hy⟩ := hpasses.admitted.mpr (.inl ⟨x, hx⟩)
  have hsession : (engine.step c now (.datagram datagram e) s).1.sessions.find? e ≠ none := by
    rw [hy]
    nofun
  have hrelays (f : Endpoint) :
      (engine.step c now (.datagram datagram e) s).1.RelaysTo e packet f ↔ s.Captures e a f := by
    rw [relaysTo_step_data hx hd, relaysTo_own_iff hs.sound ha hown]
  constructor
  · intro hnobody
    exact hpasses.delivered hsession fun f hf => hnobody f ((hrelays f).mp hf)
  · intro f hf
    obtain ⟨hcounted, bytes, hbytes, -, hemissions⟩ :=
      hpasses.relayed hsession f ((hrelays f).mpr hf)
    exact ⟨hcounted, bytes, hbytes, hemissions⟩

def toServer : Bytes := [0x45, 0, 0, 20] ++ List.replicate 8 0 ++ [10, 7, 0, 3, 10, 7, 0, 1]

def toServerDatagram : Bytes := (clearCodec.encode default (.data toServer)).toOption.getD []

theorem decode_toServerDatagram : clearCodec.decode toServerDatagram = .ok (.data toServer) := by
  have hencode : clearCodec.encode default (.data toServer) = .ok toServerDatagram := rfl
  exact Codec.decode_encode (Codec.ofMtu_limit _ _) (m := .data toServer) nofun hencode

theorem own_traffic_delivered_unless_captured_pair :
    pair.Reachable ∧ pair.options.own.contains (.v4 0x0a070001) = true ∧
      (engine.step Conditions.fair 2 (.datagram toServerDatagram (caller 1)) pair).2 =
        [.packet toServer] := by
  have hsome : (pair.sessions.find? (caller 1)).isSome = true := by decide +kernel
  obtain ⟨x, hx⟩ := Option.isSome_iff_exists.mp hsome
  have hown : pair.options.own.contains (.v4 0x0a070001) = true := by decide +kernel
  have hroutes : pair.routes.routes = [] := by decide +kernel
  have hd : pair.codec.decode toServerDatagram = .ok (.data toServer) := by
    rw [pair, (sameSetup_run _ _).codec]
    exact decode_toServerDatagram
  obtain ⟨hdelivered, -⟩ :=
    own_traffic_delivered_unless_captured reachable_pair hx hd (a := .v4 0x0a070001)
      (by decide +kernel) hown Conditions.fair 2
  refine ⟨reachable_pair, hown, (hdelivered ?_).trans (if_pos rfl)⟩
  rintro f ⟨-, -, r, ⟨earlier, later, hcut, -⟩, -⟩
  rw [hroutes] at hcut
  exact absurd hcut.symm (by simp)

/-- A server with a default route through 10.7.0.2, which the first of two peers holds. -/
def bypassed : Server :=
  (engine.run
    (start clearCodec (.ofList (Route.make (.v4 0) 0 (.v4 0x0a070002)).toOption.toList) poolOptions
      0) [hears 0 (caller 1) (.clientLogin .empty), hears 1 (caller 2) (.clientLogin .empty)]).1

/-- What the second peer sends to the server goes to the first. -/
theorem bypassed_relays_away :
    bypassed.Reachable ∧ bypassed.sessions.contains (caller 2) = true ∧
      bypassed.codec.decode toServerDatagram = .ok (.data toServer) ∧
      Packet.destination? toServer = some (.v4 0x0a070001) ∧
      bypassed.options.own.contains (.v4 0x0a070001) = true ∧
      (engine.step Conditions.fair 2 (.datagram toServerDatagram (caller 2)) bypassed).2 =
        [.datagram (.data toServer) toServerDatagram (caller 1)] := by
  have hd : bypassed.codec.decode toServerDatagram = .ok (.data toServer) := by
    rw [bypassed, (sameSetup_run _ _).codec]
    exact decode_toServerDatagram
  refine ⟨⟨.clear, 1416, _, poolOptions, 0, _, rfl⟩, ?_, hd, ?_, ?_, ?_⟩
  all_goals decide +kernel

end PacketTunnel.Server
