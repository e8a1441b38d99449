import PacketTunnel.Proofs.Route.LongestPrefix
import PacketTunnel.Proofs.Server.Step

/-!
# Whom a packet is for

The target of a destination is a statement about the live sessions: the one that holds the address
or, if none does, the one that holds the gateway of the best route. With an exact index there is at
most one such session and `target?` finds it, so that a packet is passed on exactly when there is
somebody to pass it to.
-/
namespace PacketTunnel.Server

open SessionTable

def Holds (s : Server) (e : Endpoint) (a : Address) : Prop :=
  ∃ x, s.sessions.find? e = some x ∧ x.addresses.contains a = true

/-- The endpoint holds the address or, if nobody does, the gateway of the best route to it. -/
def IsTarget (s : Server) (destination : Address) (e : Endpoint) : Prop :=
  s.Holds e destination ∨ (∀ f, ¬ s.Holds f destination) ∧
    ∃ r, RouteTable.Best destination s.routes.routes (some r) ∧ s.Holds e r.gateway

def PacketFor (s : Server) (packet : Bytes) (e : Endpoint) : Prop :=
  ∃ destination, Packet.destination? packet = some destination ∧ s.IsTarget destination e

/-- The packet from a peer is to go on to another: relaying is on and it is for that other peer. -/
def RelaysTo (s : Server) (sender : Endpoint) (packet : Bytes) (peer : Endpoint) : Prop :=
  s.options.relay = true ∧ s.PacketFor packet peer ∧ peer ≠ sender

section
variable {s : Server} (hs : s.sessions.Indexed)
include hs

theorem endpointFor?_eq_none_iff {a : Address} :
    s.sessions.endpointFor? a = none ↔ ∀ e, ¬ s.Holds e a := by
  rw [Option.eq_none_iff_forall_ne_some]
  exact forall_congr' fun e => not_congr hs.owner_iff

theorem gateway_holder_iff {destination : Address} {e : Endpoint} :
    (s.routes.gateway? destination).bind s.sessions.endpointFor? = some e ↔
      ∃ r, RouteTable.Best destination s.routes.routes (some r) ∧ s.Holds e r.gateway := by
  rw [RouteTable.gateway?, Option.bind_map, Option.bind_eq_some_iff]
  constructor
  · rintro ⟨r, hr, he⟩
    exact ⟨r, RouteTable.lookup?_eq_iff.mp hr, hs.owner_iff.mp he⟩
  · rintro ⟨r, hr, he⟩
    exact ⟨r, RouteTable.lookup?_eq_iff.mpr hr, hs.owner_iff.mpr he⟩

theorem target?_eq_some_iff {destination : Address} {e : Endpoint} :
    s.target? destination = some e ↔ s.IsTarget destination e := by
  rw [target?, Option.or_eq_some_iff, endpointFor?_eq_none_iff hs, gateway_holder_iff hs,
    hs.owner_iff]
  rfl

theorem IsTarget.unique {destination : Address} {e e' : Endpoint} (h : s.IsTarget destination e)
    (h' : s.IsTarget destination e') : e = e' := by
  rw [← target?_eq_some_iff hs] at h h'
  exact Option.some.inj (h.symm.trans h')

theorem packetFor_iff {packet : Bytes} {e : Endpoint} :
    (Packet.destination? packet).bind s.target? = some e ↔ s.PacketFor packet e := by
  rw [Option.bind_eq_some_iff]
  exact exists_congr fun destination => and_congr_right fun _ => target?_eq_some_iff hs

theorem not_packetFor_iff {packet : Bytes} :
    (Packet.destination? packet).bind s.target? = none ↔ ∀ e, ¬ s.PacketFor packet e := by
  rw [Option.eq_none_iff_forall_ne_some]
  exact forall_congr' fun e => not_congr (packetFor_iff hs)

theorem dispatch_of_packetFor {packet : Bytes} {e : Endpoint} (h : s.PacketFor packet e) :
    s.dispatch packet = (s, [.send (.data packet) e]) := by
  simp only [dispatch, (packetFor_iff hs).mpr h]

theorem dispatch_of_not_packetFor {packet : Bytes} (h : ∀ e, ¬ s.PacketFor packet e) :
    s.dispatch packet =
      (s.count fun c => { c with droppedUnroutable := c.droppedUnroutable + 1 }, []) := by
  simp only [dispatch, (not_packetFor_iff hs).mpr h]

theorem forward_of_relaysTo {sender peer : Endpoint} {packet : Bytes}
    (h : s.RelaysTo sender packet peer) :
    s.forward sender packet =
      (s.count fun c => { c with relayed := c.relayed + 1 }, [.send (.data packet) peer]) := by
  obtain ⟨hrelay, hfor, hne⟩ := h
  have hpeer := (packetFor_iff hs).mpr hfor
  simp only [forward, hrelay, if_true, hpeer, Option.filter_some, hne, ne_eq, not_false_eq_true,
    decide_true]

theorem forward_of_not_relaysTo {sender : Endpoint} {packet : Bytes}
    (h : ∀ peer, ¬ s.RelaysTo sender packet peer) :
    s.forward sender packet = (s, [.deliver packet]) := by
  have hnone : (if s.options.relay = true then
      ((Packet.destination? packet).bind s.target?).filter (· ≠ sender) else none) = none := by
    rw [Option.eq_none_iff_forall_ne_some]
    intro peer hpeer
    split at hpeer
    · rename_i hrelay
      obtain ⟨hsome, hne⟩ := Option.filter_eq_some_iff.mp hpeer
      exact h peer ⟨hrelay, (packetFor_iff hs).mp hsome, by simpa using hne⟩
    · cases hpeer
  simp only [forward, hnone]

end

theorem packetFor_congr {s s' : Server} (hroutes : s'.routes = s.routes)
    (hholds : ∀ e a, s'.Holds e a ↔ s.Holds e a) (packet : Bytes) (e : Endpoint) :
    s'.PacketFor packet e ↔ s.PacketFor packet e := by
  simp only [PacketFor, IsTarget, hroutes, hholds]

end PacketTunnel.Server
