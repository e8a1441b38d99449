import PacketTunnel.Proofs.Datagram.RoundTrip
import PacketTunnel.Proofs.Server.Ownership
import PacketTunnel.Proofs.Server.Targets

/-!
# Where packets go

A packet from the device goes to its target or is dropped. A packet from a peer that has a session,
or gets one by this very packet, goes to another peer or to the device, never to both; a packet from
anybody else goes nowhere. Targets are those of the sessions after the step, since admitting the
sender may have removed others; what the step does later changes no session's addresses.
-/
namespace PacketTunnel.Server

open SessionTable

theorem counters_credits (s : Server) (emissions : List Emission) :
    ∃ sent written, (emissions.foldl credit s).counters =
      { s.counters with datagramsOut := sent, deviceWrites := written } := by
  induction emissions generalizing s with
  | nil => exact ⟨_, _, rfl⟩
  | cons emission rest ih =>
    obtain ⟨sent, written, h⟩ := ih (s.credit emission)
    rw [List.foldl_cons, h]
    cases emission <;> exact ⟨sent, written, rfl⟩

theorem holds_credits (s : Server) (emissions : List Emission) (e : Endpoint) (a : Address) :
    (emissions.foldl credit s).Holds e a ↔ s.Holds e a := by
  simp only [Holds, find?_credits, Option.map_eq_some_iff]
  constructor
  · rintro ⟨_, ⟨x, hx, rfl⟩, ha⟩
    exact ⟨x, hx, ha⟩
  · rintro ⟨x, hx, ha⟩
    exact ⟨_, ⟨x, hx, rfl⟩, ha⟩

theorem relaysTo_credits (s : Server) (emissions : List Emission) (e : Endpoint) (packet : Bytes)
    (peer : Endpoint) :
    (emissions.foldl credit s).RelaysTo e packet peer ↔ s.RelaysTo e packet peer := by
  have hsetup := sameSetup_credits s emissions
  simp only [RelaysTo, hsetup.options, packetFor_congr hsetup.routes (holds_credits s emissions)]

theorem step_packet_dropped {s : Server} (hs : s.sessions.Indexed) (c : Conditions) (now : Time)
    {packet : Bytes} (h : ∀ e, ¬ s.PacketFor packet e) :
    engine.step c now (.packet packet) s =
      (s.count fun c => { c with droppedUnroutable := c.droppedUnroutable + 1 }, []) := by
  simp only [Engine.step, engine, react, dispatch_of_not_packetFor hs h, Action.performAll_nil,
    List.foldl_nil]

theorem step_packet_sent {s : Server} (hs : s.sessions.Indexed) {c : Conditions} (now : Time)
    {packet bytes : Bytes} {e : Endpoint} (h : s.PacketFor packet e)
    (hbytes : s.codec.encode (c.vector 0) (.data packet) = .ok bytes) (hsend : c.sends 0 = true) :
    (engine.step c now (.packet packet) s).2 = [.datagram (.data packet) bytes e] := by
  simp only [Engine.step, engine, react, dispatch_of_packetFor hs h, Action.performAll_send hbytes,
    hsend, if_true]

/-- The sender has a session, or the packet starts one: it names a source, which is not the server.
-/
def Admits (s : Server) (e : Endpoint) (packet : Bytes) : Prop :=
  (∃ x, s.sessions.find? e = some x) ∨ s.options.implicitLogin = true ∧
    ∃ a, Packet.source? packet = some a ∧ s.options.own.contains a = false

theorem acceptData_of_not_admits {s : Server} (now : Time) {e : Endpoint} {packet : Bytes}
    (size : Nat) (h : ¬ s.Admits e packet) :
    s.acceptData now e packet size =
      (s.count fun c => { c with droppedUnknown := c.droppedUnknown + 1 }, []) := by
  obtain ⟨hsession, himplicit⟩ := not_or.mp h
  have hcontains : s.sessions.contains e = false := by
    rw [contains_eq_isSome, Option.isSome_eq_false_iff, Option.isNone_iff_eq_none,
      Option.eq_none_iff_forall_ne_some]
    exact fun x hx => hsession ⟨x, hx⟩
  have hlogin : s.implicitLogin? now e packet = none := by
    rw [Option.eq_none_iff_forall_ne_some]
    intro t ht
    obtain ⟨hon, a, ha, hown, -⟩ := implicitLogin?_eq_some_iff.mp ht
    exact himplicit ⟨hon, a, ha, hown⟩
  simp only [acceptData, hcontains, Bool.false_eq_true, if_false, hlogin]

/-- A packet that is admitted is passed on by the server in which the sender has its session. -/
theorem acceptData_of_admits {s : Server} (hs : s.sessions.Indexed) (now : Time) {e : Endpoint}
    {packet : Bytes} (size : Nat) (h : s.Admits e packet) :
    ∃ t x, t.Indexed ∧ t.find? e = some x ∧
      s.acceptData now e packet size = { s with sessions := t }.forward e packet := by
  cases hx : s.sessions.find? e with
  | some x =>
    refine ⟨s.sessions.modify e fun x => x.touch now size, x.touch now size,
      hs.modify e (keeps_touch now size), ?_, acceptData_of_session now hx packet size⟩
    rw [find?_modify, if_pos rfl, hx, Option.map_some]
  | none =>
    rcases h with ⟨x, hsome⟩ | ⟨hon, a, ha, hown⟩
    · rw [hx] at hsome
      cases hsome
    · have hcontains : s.sessions.contains e = false := by
        rw [contains_eq_isSome, hx, Option.isSome_none]
      have hlogin : s.implicitLogin? now e packet = some (settle s.sessions now e (.single a)) :=
        implicitLogin?_eq_some_iff.mpr ⟨hon, a, ha, hown, rfl⟩
      refine ⟨(settle s.sessions now e (.single a)).modify e fun x => x.touch now size,
        (settled s.sessions now e (.single a)).touch now size,
        (indexed_settle hs now e (.single a)).modify e (keeps_touch now size), ?_, ?_⟩
      · rw [find?_modify, if_pos rfl, find?_settle hs, if_pos rfl, Option.map_some]
      · simp only [acceptData, hcontains, Bool.false_eq_true, if_false, hlogin, modifySession]

/-- What becomes of a packet from a peer, by the state after the step. -/
structure Passes (s : Server) (c : Conditions) (e : Endpoint) (packet : Bytes) (s' : Server)
    (emissions : List Emission) : Prop where
  admitted : (∃ x, s'.sessions.find? e = some x) ↔ s.Admits e packet
  /-- The packet goes on to another peer, at most once, and the socket alone can prevent it. -/
  relayed : s'.sessions.find? e ≠ none → ∀ peer, s'.RelaysTo e packet peer →
    s'.counters.relayed = s.counters.relayed + 1 ∧
    ∃ bytes, s.codec.encode (c.vector 0) (.data packet) = .ok bytes ∧
      s.codec.decode bytes = .ok (.data packet) ∧
      emissions = if c.sends 0 = true then [.datagram (.data packet) bytes peer] else []
  /-- The packet goes to the device, at most once, and the device alone can prevent it. -/
  delivered : s'.sessions.find? e ≠ none → (∀ peer, ¬ s'.RelaysTo e packet peer) →
    emissions = if c.writes 0 = true then [.packet packet] else []
  ignored : s'.sessions.find? e = none →
    emissions = [] ∧ s'.counters.droppedUnknown = s.counters.droppedUnknown + 1

theorem step_data {s : Server} (c : Conditions) (now : Time) {e : Endpoint}
    {packet datagram : Bytes} (hd : s.codec.decode datagram = .ok (.data packet)) :
    engine.step c now (.datagram datagram e) s =
      ((Action.performAll s.codec c (s.heard.acceptData now e packet datagram.length).2).foldl
        credit (s.heard.acceptData now e packet datagram.length).1,
        Action.performAll s.codec c (s.heard.acceptData now e packet datagram.length).2) := by
  simp only [Engine.step, engine, react, receive_of_decode hd, accept]

theorem passes_of_not_admits {s : Server} (c : Conditions) (now : Time) {e : Endpoint}
    {packet datagram : Bytes} (hd : s.codec.decode datagram = .ok (.data packet))
    (h : ¬ s.Admits e packet) :
    s.Passes c e packet (engine.step c now (.datagram datagram e) s).1
      (engine.step c now (.datagram datagram e) s).2 := by
  have hdrop := acceptData_of_not_admits (s := s.heard) now datagram.length h
  have hnone : s.sessions.find? e = none := by
    rw [Option.eq_none_iff_forall_ne_some]
    exact fun x hx => h (.inl ⟨x, hx⟩)
  have hadmitted : (∃ x, s.sessions.find? e = some x) ↔ s.Admits e packet := by
    constructor
    · exact .inl
    · intro hadmits
      exact absurd hadmits h
  rw [step_data c now hd, hdrop]
  exact ⟨hadmitted, fun hsome => absurd hnone hsome, fun hsome => absurd hnone hsome,
    fun _ => ⟨rfl, rfl⟩⟩

/-- Passing a packet on, and crediting for it, changes no target. -/
theorem relaysTo_forward_credits (s : Server) (e : Endpoint) (packet : Bytes)
    (emissions : List Emission) (peer : Endpoint) :
    (emissions.foldl credit (s.forward e packet).1).RelaysTo e packet peer ↔
      s.RelaysTo e packet peer := by
  have hsetup := sameSetup_forward s e packet
  have hholds (f : Endpoint) (a : Address) : (s.forward e packet).1.Holds f a ↔ s.Holds f a := by
    rw [Holds, Holds, forward_sessions]
  rw [relaysTo_credits]
  simp only [RelaysTo, hsetup.options, packetFor_congr hsetup.routes hholds]

theorem passes_of_admits {s : Server} (hs : s.sessions.Indexed)
    (hlimit : s.codec.maxPayload ≤ 65535) (c : Conditions) (now : Time) {e : Endpoint}
    {packet datagram : Bytes} (hd : s.codec.decode datagram = .ok (.data packet))
    (h : s.Admits e packet) :
    s.Passes c e packet (engine.step c now (.datagram datagram e) s).1
      (engine.step c now (.datagram datagram e) s).2 := by
  obtain ⟨t, x, ht, hx, haccept⟩ := acceptData_of_admits (s := s.heard) hs now datagram.length h
  rw [step_data c now hd, haccept]
  generalize hemissions : Action.performAll s.codec c _ = emissions
  obtain ⟨sent, written, hcounters⟩ :=
    counters_credits (forward { s.heard with sessions := t } e packet).1 emissions
  have hrelays := relaysTo_forward_credits { s.heard with sessions := t } e packet emissions
  have hsession : ∃ y,
      (emissions.foldl credit (forward { s.heard with sessions := t } e packet).1).sessions.find?
      e = some y := by
    rw [find?_credits, forward_sessions]
    exact ⟨_, congrArg (Option.map _) hx⟩
  refine ⟨⟨fun _ => h, fun _ => hsession⟩, fun _ peer hpeer => ?_, fun _ hnone => ?_,
    fun hnone => ?_⟩
  · have hforward := forward_of_relaysTo ht ((hrelays peer).mp hpeer)
    obtain ⟨hnonempty, hfits⟩ := Codec.fits_of_decode hd (c.vector 0)
    obtain ⟨bytes, hbytes, hback⟩ := Codec.exists_encode_data hlimit hnonempty hfits
    refine ⟨?_, bytes, hbytes, hback, ?_⟩
    · rw [hcounters, hforward]
      rfl
    · rw [← hemissions, hforward]
      exact Action.performAll_send hbytes
  · have hforward := forward_of_not_relaysTo ht fun peer hpeer =>
      hnone peer ((hrelays peer).mpr hpeer)
    rw [← hemissions, hforward]
    exact Action.performAll_deliver s.codec c packet
  · obtain ⟨y, hy⟩ := hsession
    rw [hy] at hnone
    cases hnone

/-- In every reachable state the server finds the one target of a destination. It sends a packet
from the device to the target of its destination alone, and drops it if there is none; a packet from
a peer passes as `Passes` says. -/
theorem forwarding {s : Server} (hs : s.Reachable) (c : Conditions) (now : Time) :
    (∀ destination e, s.target? destination = some e ↔ s.IsTarget destination e) ∧
    (∀ destination e e', s.IsTarget destination e → s.IsTarget destination e' → e = e') ∧
    (∀ packet, (∀ e, ¬ s.PacketFor packet e) →
      (engine.step c now (.packet packet) s).2 = [] ∧
      (engine.step c now (.packet packet) s).1.counters.droppedUnroutable =
        s.counters.droppedUnroutable + 1) ∧
    (∀ packet e, s.PacketFor packet e →
      (s.codec.protection.encrypt (c.vector 0) packet).length ≤ s.codec.maxPayload →
      c.sends 0 = true →
      ∃ bytes, (engine.step c now (.packet packet) s).2 = [.datagram (.data packet) bytes e] ∧
        s.codec.decode bytes = .ok (.data packet)) ∧
    (∀ packet datagram e, s.codec.decode datagram = .ok (.data packet) →
      s.Passes c e packet (engine.step c now (.datagram datagram e) s).1
        (engine.step c now (.datagram datagram e) s).2) := by
  have h := hs.sound.toIndexed
  refine ⟨fun destination e => target?_eq_some_iff h, fun destination e e' => IsTarget.unique h, ?_,
    ?_, ?_⟩
  · intro packet hnone
    rw [step_packet_dropped h c now hnone]
    exact ⟨rfl, rfl⟩
  · intro packet e hfor hfits hsend
    have hnonempty : packet ≠ [] := by
      rintro rfl
      obtain ⟨destination, hdestination, -⟩ := hfor
      cases hdestination
    obtain ⟨bytes, hbytes, hback⟩ := Codec.exists_encode_data hs.maxPayload_le hnonempty hfits
    exact ⟨bytes, step_packet_sent h now hfor hbytes hsend, hback⟩
  · intro packet datagram e hd
    by_cases hadmits : s.Admits e packet
    · exact passes_of_admits h hs.maxPayload_le c now hd hadmits
    · exact passes_of_not_admits c now hd hadmits

def across : Bytes := 0x60 :: List.replicate 38 0 ++ [7]

def acrossDatagram : Bytes := (clearCodec.encode default (.data across)).toOption.getD []

theorem forwarding_across :
    pair.Reachable ∧ pair.codec.decode acrossDatagram = .ok (.data across) ∧
      ∃ bytes, pair.codec.decode bytes = .ok (.data across) ∧
        (engine.step Conditions.fair 2 (.datagram acrossDatagram (caller 1)) pair).2 =
          [.datagram (.data across) bytes (caller 2)] := by
  have hd : pair.codec.decode acrossDatagram = .ok (.data across) := by
    have hsome : (pair.codec.decode acrossDatagram).toOption = some (.data across) := by
      decide +kernel
    cases h : pair.codec.decode acrossDatagram with
    | error r =>
      rw [h] at hsome
      cases hsome
    | ok m =>
      rw [h] at hsome
      exact congrArg Except.ok (Option.some.inj hsome)
  have h :=
    (forwarding reachable_pair Conditions.fair 2).2.2.2.2 across acrossDatagram (caller 1) hd
  have hsession :
      (engine.step Conditions.fair 2 (.datagram acrossDatagram (caller 1)) pair).1.sessions.find?
      (caller 1) ≠ none := by decide +kernel
  have hreached := reachable_pair.step Conditions.fair 2 (.datagram acrossDatagram (caller 1))
  have htarget :
      (engine.step Conditions.fair 2 (.datagram acrossDatagram (caller 1)) pair).1.target? (.v6 7) =
      some (caller 2) := by decide +kernel
  have hfor := (target?_eq_some_iff hreached.sound.toIndexed).mp htarget
  obtain ⟨-, bytes, -, hback, hemissions⟩ :=
    h.relayed hsession (caller 2) ⟨by decide +kernel, ⟨.v6 7, by decide +kernel, hfor⟩, by decide⟩
  exact ⟨reachable_pair, hd, bytes, hback, hemissions.trans (if_pos rfl)⟩

end PacketTunnel.Server
