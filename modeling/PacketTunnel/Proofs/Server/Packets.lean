import PacketTunnel.Proofs.Server.Forwarding
import PacketTunnel.Proofs.Server.Login

/-!
# What a server does with packets

A server sends a packet from its device to a peer that has a session. A packet from a peer goes to
another peer that has a session, if relaying is on, or to the device. Whatever else the server does,
it sends nothing but notices, messages that carry no packet, to the sender of the datagram at hand
and to peers that have a session.
-/
namespace PacketTunnel.Server

variable {s : Server}

/-- All that a server may want done on an event that leads to the given sessions. -/
inductive Conduct (s : Server) (t : SessionTable) : Event → List Action → Prop
  | notices {event : Event} {actions : List Action}
      (h : ∀ action ∈ actions, ∃ m g, action = .send m g ∧ m.kind ≠ .data ∧
        ((∃ bytes, event = .datagram bytes g) ∨ ∃ x, s.sessions.find? g = some x)) :
      Conduct s t event actions
  | sends {packet : Bytes} {g : Endpoint} {x : Session} (hx : s.sessions.find? g = some x) :
      Conduct s t (.packet packet) [.send (.data packet) g]
  | relays {bytes packet : Bytes} {f g : Endpoint} {x : Session}
      (hd : s.codec.decode bytes = .ok (.data packet)) (hrelay : s.options.relay = true)
      (hne : g ≠ f)
      (hx : t.find? g = some x) : Conduct s t (.datagram bytes f) [.send (.data packet) g]
  | writes {bytes packet : Bytes} {f : Endpoint} (hd : s.codec.decode bytes = .ok (.data packet)) :
      Conduct s t (.datagram bytes f) [.deliver packet]

theorem Conduct.silent (t : SessionTable) (event : Event) : Conduct s t event [] :=
  .notices fun _ h => by cases h

theorem Conduct.replies (t : SessionTable) (bytes : Bytes) (f : Endpoint) (ms : List Message)
    (hms : ∀ m ∈ ms, m.kind ≠ .data) : Conduct s t (.datagram bytes f) (ms.map (.send · f)) := by
  refine .notices fun action haction => ?_
  obtain ⟨m, hm, rfl⟩ := List.mem_map.mp haction
  exact ⟨m, f, rfl, hms m hm, .inl ⟨bytes, rfl⟩⟩

theorem exists_session_of_target? (hs : s.sessions.Indexed) {destination : Address} {e : Endpoint}
    (h : s.target? destination = some e) : ∃ x, s.sessions.find? e = some x := by
  have howner {a : Address} (ha : s.sessions.endpointFor? a = some e) : ∃ x,
      s.sessions.find? e = some x := by
    obtain ⟨x, hx, -⟩ := hs.owner_iff.mp ha
    exact ⟨x, hx⟩
  rw [target?, Option.or_eq_some_iff] at h
  rcases h with h | ⟨-, h⟩
  · exact howner h
  · obtain ⟨gateway, -, hgateway⟩ := Option.bind_eq_some_iff.mp h
    exact howner hgateway

theorem conduct_data (hs : s.sessions.Indexed) (now : Time) {bytes packet : Bytes} (f : Endpoint)
    (hd : s.codec.decode bytes = .ok (.data packet)) :
    Conduct s (s.react now (.datagram bytes f)).1.sessions (.datagram bytes f)
      (s.react now (.datagram bytes f)).2 := by
  rw [react, receive_of_decode hd, accept]
  by_cases hadmits : s.heard.Admits f packet
  · obtain ⟨t, x, ht, -, haccept⟩ := acceptData_of_admits (s := s.heard) hs now bytes.length hadmits
    rw [haccept, forward_sessions, forward]
    dsimp only
    split
    · rename_i g hpeer
      split at hpeer
      · rename_i hrelay
        obtain ⟨htarget, hne⟩ := Option.filter_eq_some_iff.mp hpeer
        obtain ⟨destination, -, htarget⟩ := Option.bind_eq_some_iff.mp htarget
        obtain ⟨y, hy⟩ := exists_session_of_target? ht htarget
        exact .relays hd hrelay (of_decide_eq_true hne) hy
      · cases hpeer
    · exact .writes hd
  · rw [acceptData_of_not_admits now bytes.length hadmits]
    exact .silent _ _

theorem conduct_datagram (hs : s.sessions.Indexed) (now : Time) (bytes : Bytes) (f : Endpoint) :
    Conduct s (s.react now (.datagram bytes f)).1.sessions (.datagram bytes f)
      (s.react now (.datagram bytes f)).2 := by
  cases hd : s.codec.decode bytes with
  | error r =>
    have hsilent : (s.react now (.datagram bytes f)).2 = [] := by
      rw [react, receive, hd]
      cases r <;> rfl
    rw [hsilent]
    exact .silent _ _
  | ok m =>
    cases m with
    | data packet => exact conduct_data hs now f hd
    | clientLogin requested =>
      have hactions : ∃ ms : List Message, (∀ m ∈ ms, m.kind ≠ .data) ∧
          (s.react now (.datagram bytes f)).2 = ms.map (.send · f) := by
        rw [react, receive_of_decode hd, accept, login]
        split
        · exact ⟨[.disconnect], by simp [Message.kind], rfl⟩
        · refine ⟨s.heard.welcome (s.heard.assign requested f), fun m hm => ?_, rfl⟩
          rcases kind_of_mem_welcome hm with hkind | hkind
          · simp [hkind]
          · simp [hkind]
      obtain ⟨ms, hms, hactions⟩ := hactions
      rw [hactions]
      exact .replies _ bytes f ms hms
    | echoRequest echo =>
      rw [react, receive_of_decode hd, accept]
      split
      · exact .replies _ bytes f [.echoAck echo] (by simp [Message.kind])
      · exact .replies _ bytes f [.disconnect] (by simp [Message.kind])
    | echoAck echo =>
      rw [react, receive_of_decode hd, accept]
      exact .silent _ _
    | routeAdvertise routes =>
      rw [react, receive_of_decode hd, accept]
      exact .silent _ _
    | disconnect =>
      rw [react, receive_of_decode hd, accept]
      exact .silent _ _

theorem conduct (hs : s.sessions.Indexed) (now : Time) (event : Event) :
    Conduct s (s.react now event).1.sessions event (s.react now event).2 := by
  cases event with
  | packet bytes =>
    rw [react, dispatch]
    split
    · rename_i g hpeer
      obtain ⟨destination, -, htarget⟩ := Option.bind_eq_some_iff.mp hpeer
      obtain ⟨x, hx⟩ := exists_session_of_target? hs htarget
      exact .sends hx
    · exact .silent _ _
  | datagram bytes f => exact conduct_datagram hs now bytes f
  | outcome outcome => exact .silent _ _
  | tick calendar => exact .silent _ _
  | shutdown =>
    refine .notices fun action haction => ?_
    obtain ⟨g, hg, rfl⟩ := List.mem_map.mp haction
    exact ⟨.disconnect, g, rfl, by simp [Message.kind], .inr (hs.mem_endpoints.mp hg)⟩

end PacketTunnel.Server
