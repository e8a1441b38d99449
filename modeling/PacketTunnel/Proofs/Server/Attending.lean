import PacketTunnel.Proofs.Server.Isolation

/-!
# A session that goes on

What the device, the clock and unsound datagrams do leaves a session that is not yet silent for too
long, and makes the server send packets at most. A probe or a packet from the session's own peer
renews it: a probe is answered at once, a packet goes to the device or to another peer.
-/
namespace PacketTunnel

namespace Server

variable {s : Server} {e : Endpoint} {y : Session}

/-- The session of an endpoint goes on and was last heard at the given time. -/
def GoesOn (s : Server) (e : Endpoint) (y : Session) (heard : Time) : Prop :=
  ∃ y', s.sessions.find? e = some y' ∧ y.Same y' ∧ y'.lastReceived = heard

/-- Crediting leaves it to the reaction whether a session goes on. -/
theorem goesOn_step {k : Conditions} {now : Time} {event : Event} {y' : Session}
    (h : (s.react now event).1.sessions.find? e = some y') (hsame : y.Same y') :
    (engine.step k now event s).1.GoesOn e y y'.lastReceived := by
  rw [GoesOn, find?_step, h]
  exact ⟨_, rfl, ⟨hsame.endpoint, hsame.addresses, hsame.created⟩, rfl⟩

theorem step_harmless (hs : s.sessions.Indexed) (hy : s.sessions.find? e = some y)
    {server : Endpoint} {event : Event} (hevent : event.IsHarmless s.codec server) {now : Time}
    (hidle : y.idle now ≤ s.options.sessionExpiry) (k : Conditions) :
    (engine.step k now event s).1.GoesOn e y y.lastReceived ∧
      ∀ m g, .send m g ∈ (s.react now event).2 → m.kind = .data := by
  cases event with
  | packet bytes =>
    have hstay : (s.react now (.packet bytes)).1.sessions.find? e = some y := by
      rw [react, dispatch]
      split <;> exact hy
    refine ⟨goesOn_step hstay (.refl y), fun m g hm => ?_⟩
    rw [react, dispatch] at hm
    split at hm
    · cases List.mem_singleton.mp hm
      rfl
    · cases hm
  | datagram bytes sender =>
    obtain ⟨r, hr⟩ := hevent
    have hstay : (s.react now (.datagram bytes sender)).1.sessions.find? e = some y := by
      rw [react, receive_rejected hr]
      exact hy
    refine ⟨goesOn_step hstay (.refl y), fun m g hm => ?_⟩
    rw [react, receive, hr] at hm
    cases r <;> cases hm
  | outcome outcome =>
    have hstay : (s.react now (.outcome outcome)).1.sessions.find? e = some y := hy
    exact ⟨goesOn_step hstay (.refl y), fun m g hm => by cases hm⟩
  | tick calendar =>
    have hstay := find?_tick hs now calendar hy
    rw [if_neg (Nat.not_lt.mpr hidle)] at hstay
    exact ⟨goesOn_step hstay (.refl y), fun m g hm => by cases hm⟩
  | shutdown => exact hevent.elim

theorem step_echoRequest (hy : s.sessions.find? e = some y) {bytes : Bytes} {echo : Echo}
    (hd : s.codec.decode bytes = .ok (.echoRequest echo)) (now : Time) (k : Conditions) :
    (engine.step k now (.datagram bytes e) s).1.GoesOn e y now ∧
      (s.react now (.datagram bytes e)).2 = [.send (.echoAck echo) e] := by
  have hreact : s.react now (.datagram bytes e) =
      (s.heard.modifySession e fun x => x.touch now bytes.length, [.send (.echoAck echo) e]) := by
    have hcontains : s.heard.sessions.contains e = true := SessionTable.contains_of_find? hy
    rw [react, receive_of_decode hd, accept, if_pos hcontains]
  have hstay : (s.react now (.datagram bytes e)).1.sessions.find? e =
      some (y.touch now bytes.length) := by
    rw [hreact]
    change (s.sessions.modify e _).find? e = _
    rw [SessionTable.find?_modify, if_pos rfl, hy, Option.map_some]
  exact ⟨goesOn_step hstay ⟨rfl, rfl, rfl⟩, congrArg Prod.snd hreact⟩

theorem step_data_of_find? (hy : s.sessions.find? e = some y) {bytes packet : Bytes}
    (hd : s.codec.decode bytes = .ok (.data packet)) (now : Time) (k : Conditions) :
    (engine.step k now (.datagram bytes e) s).1.GoesOn e y now ∧
      ∀ m g, .send m g ∈ (s.react now (.datagram bytes e)).2 → m.kind = .data := by
  have hreact : s.react now (.datagram bytes e) =
      (s.heard.modifySession e fun x => x.touch now bytes.length).forward e packet := by
    rw [react, receive_of_decode hd, accept]
    exact acceptData_of_session (s := s.heard) now hy packet bytes.length
  have hstay : (s.react now (.datagram bytes e)).1.sessions.find? e =
      some (y.touch now bytes.length) := by
    rw [hreact, forward_sessions]
    change (s.sessions.modify e _).find? e = _
    rw [SessionTable.find?_modify, if_pos rfl, hy, Option.map_some]
  refine ⟨goesOn_step hstay ⟨rfl, rfl, rfl⟩, fun m g hm => ?_⟩
  rw [hreact, forward] at hm
  split at hm
  · cases List.mem_singleton.mp hm
    rfl
  · cases List.mem_singleton.mp hm

end Server

end PacketTunnel
