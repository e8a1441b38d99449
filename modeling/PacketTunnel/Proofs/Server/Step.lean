import PacketTunnel.Proofs.Engine.Run
import PacketTunnel.Proofs.Server.Assignment
import PacketTunnel.Proofs.Server.Settling

/-!
# What one step of a server does

A step changes sessions and counters only. Crediting what was emitted touches nothing but counters
and the counts of sent datagrams. A sound message from a peer changes the session table in one of
four ways, which `Reception` lists together with the causes of a removal; everything later about the
table is derived from this list and not from the code of the messages.
-/
namespace PacketTunnel

def Emission.tally (e : Endpoint) (sent : Tally) : Emission → Tally
  | .datagram _ bytes recipient => if recipient = e then sent.add bytes.length else sent
  | .packet _ => sent

namespace Server

open SessionTable

/-- A state of a server that was started with any protection, MTU, routes and options and has gone
through any moments. -/
def Reachable (s : Server) : Prop :=
  ∃ protection mtu routes options now,
    engine.Reaches (start (.ofMtu protection mtu) routes options now) s

theorem Reachable.step {s : Server} (h : s.Reachable) (c : Conditions) (now : Time)
    (event : Event) :
    (engine.step c now event s).1.Reachable := by
  obtain ⟨protection, mtu, routes, options, origin, hs⟩ := h
  exact ⟨protection, mtu, routes, options, origin, hs.step ⟨now, event, c⟩⟩

theorem find?_credit (s : Server) (emission : Emission) (e : Endpoint) :
    (s.credit emission).sessions.find? e =
      (s.sessions.find? e).map fun x => { x with sent := emission.tally e x.sent } := by
  cases emission with
  | datagram message bytes recipient =>
    have hm := find?_modify s.sessions recipient (fun x => x.recordSent bytes.length) e
    by_cases he : e = recipient
    · subst he
      simpa [credit, count, modifySession, Emission.tally, Session.recordSent] using hm
    · simpa [credit, count, modifySession, Emission.tally, he, Ne.symm he] using hm
  | packet bytes => simp [credit, count, Emission.tally]

theorem find?_credits (s : Server) (emissions : List Emission) (e : Endpoint) :
    (emissions.foldl credit s).sessions.find? e =
      (s.sessions.find? e).map fun x =>
        { x with sent := emissions.foldl (Emission.tally e) x.sent } := by
  induction emissions generalizing s with
  | nil => simp
  | cons emission rest ih =>
    rw [List.foldl_cons, ih, find?_credit, Option.map_map]
    rfl

structure SameSetup (s s' : Server) : Prop where
  codec : s'.codec = s.codec
  options : s'.options = s.options
  routes : s'.routes = s.routes
  started : s'.started = s.started

theorem SameSetup.refl (s : Server) : SameSetup s s := ⟨rfl, rfl, rfl, rfl⟩

theorem SameSetup.trans {s s' s'' : Server} (h : SameSetup s s') (h' : SameSetup s' s'') :
    SameSetup s s'' :=
  ⟨h'.codec.trans h.codec, h'.options.trans h.options, h'.routes.trans h.routes,
    h'.started.trans h.started⟩

theorem sameSetup_credits (s : Server) (emissions : List Emission) :
    SameSetup s (emissions.foldl credit s) := by
  induction emissions generalizing s with
  | nil => exact .refl s
  | cons emission rest ih =>
    refine SameSetup.trans ?_ (ih (s.credit emission))
    cases emission <;> exact ⟨rfl, rfl, rfl, rfl⟩

theorem sameSetup_forward (s : Server) (e : Endpoint) (packet : Bytes) :
    SameSetup s (s.forward e packet).1 := by
  unfold forward
  dsimp only
  split <;> exact ⟨rfl, rfl, rfl, rfl⟩

theorem sameSetup_accept (s : Server) (now : Time) (e : Endpoint) (size : Nat) (m : Message) :
    SameSetup s (s.accept now e size m).1 := by
  cases m with
  | clientLogin requested =>
    rw [accept, login]
    dsimp only
    split <;> exact ⟨rfl, rfl, rfl, rfl⟩
  | data packet =>
    rw [accept, acceptData]
    split
    · exact ⟨rfl, rfl, rfl, rfl⟩
    · refine SameSetup.trans ?_ (sameSetup_forward _ e packet)
      exact ⟨rfl, rfl, rfl, rfl⟩
  | echoRequest echo =>
    rw [accept]
    split <;> exact ⟨rfl, rfl, rfl, rfl⟩
  | echoAck echo => exact ⟨rfl, rfl, rfl, rfl⟩
  | routeAdvertise routes => exact ⟨rfl, rfl, rfl, rfl⟩
  | disconnect => exact ⟨rfl, rfl, rfl, rfl⟩

theorem sameSetup_react (s : Server) (now : Time) (event : Event) :
    SameSetup s (s.react now event).1 := by
  cases event with
  | packet bytes =>
    rw [react, dispatch]
    split <;> exact ⟨rfl, rfl, rfl, rfl⟩
  | datagram bytes sender =>
    rw [react, receive]
    split
    · exact ⟨rfl, rfl, rfl, rfl⟩
    · exact ⟨rfl, rfl, rfl, rfl⟩
    · refine SameSetup.trans ?_ (sameSetup_accept _ now sender bytes.length _)
      exact ⟨rfl, rfl, rfl, rfl⟩
  | outcome outcome => exact ⟨rfl, rfl, rfl, rfl⟩
  | tick calendar => exact ⟨rfl, rfl, rfl, rfl⟩
  | shutdown => exact ⟨rfl, rfl, rfl, rfl⟩

theorem sameSetup_step (s : Server) (c : Conditions) (now : Time) (event : Event) :
    SameSetup s (engine.step c now event s).1 :=
  (sameSetup_react s now event).trans (sameSetup_credits _ _)

theorem sameSetup_run (s : Server) (moments : List Engine.Moment) :
    SameSetup s (engine.run s moments).1 := by
  induction moments generalizing s with
  | nil => exact .refl s
  | cons m rest ih => exact (sameSetup_step s m.conditions m.now m.event).trans (ih _)

theorem step_emissions (s : Server) (c : Conditions) (now : Time) (event : Event) :
    (engine.step c now event s).2 = Action.performAll s.codec c (s.react now event).2 := rfl

theorem Reachable.maxPayload_le {s : Server} (h : s.Reachable) : s.codec.maxPayload ≤ 65535 := by
  obtain ⟨protection, mtu, routes, options, origin, hs⟩ := h
  refine hs.preserves (P := fun u => u.codec.maxPayload ≤ 65535) (Nat.min_le_right _ _) ?_
  intro u m hu
  rw [(sameSetup_step u m.conditions m.now m.event).codec]
  exact hu

/-- The session table after a sound message from an endpoint: as before, changed in the session of
the endpoint, without it, or with the endpoint settled on addresses. -/
inductive Reception (s : Server) (now : Time) (e : Endpoint) (m : Message) : SessionTable → Prop
  | untouched : Reception s now e m s.sessions
  | touched (f : Session → Session) (hf : Keeps f) : Reception s now e m (s.sessions.modify e f)
  | removed (h : m = .disconnect ∨ ∃ v, m = .clientLogin v ∧ (s.assign v e).isEmpty = true) :
      Reception s now e m (s.sessions.remove e)
  | settled (v : VirtualAddresses) (f : Session → Session) (hf : Keeps f)
      (hv : Proper s.options.own v) : Reception s now e m ((settle s.sessions now e v).modify e f)

/-- The table after a login that gets addresses: the peer is settled on them, and its session notes
the datagram and the routes that it owns. -/
theorem login_sessions (s : Server) (now : Time) (e : Endpoint) (requested : VirtualAddresses)
    (size : Nat) (h : (s.assign requested e).isEmpty = false) :
    (s.login now e requested size).1.sessions =
      (settle s.sessions now e (s.assign requested e)).modify e fun x =>
        { x.touch now size with ownedRoutes := s.ownedBy (s.assign requested e) } := by
  simp only [login, h, Bool.false_eq_true, if_false]
  rw [setAddresses_modify _ e (fun _ _ => rfl), modify_modify]
  rfl

theorem implicitLogin?_eq_some_iff {s : Server} {now : Time} {e : Endpoint} {packet : Bytes}
    {t : SessionTable} :
    s.implicitLogin? now e packet = some t ↔
      s.options.implicitLogin = true ∧ ∃ a, Packet.source? packet = some a ∧
        s.options.own.contains a = false ∧ t = settle s.sessions now e (.single a) := by
  unfold implicitLogin?
  constructor
  · intro h
    obtain ⟨a, ha, h⟩ := Option.bind_eq_some_iff.mp h
    split at ha
    · rename_i himplicit
      split at h
      · cases h
      · rename_i hown
        exact ⟨himplicit, a, ha, by simpa using hown, (Option.some.inj h).symm⟩
    · cases ha
  · rintro ⟨himplicit, a, ha, hown, rfl⟩
    simp only [himplicit, ha, hown, if_true, Option.bind_some, Bool.false_eq_true, if_false]
    rfl

theorem forward_sessions (s : Server) (e : Endpoint) (packet : Bytes) :
    (s.forward e packet).1.sessions = s.sessions := by
  unfold forward
  dsimp only
  split <;> rfl

theorem acceptData_of_session {s : Server} (now : Time) {e : Endpoint} {x : Session}
    (hx : s.sessions.find? e = some x) (packet : Bytes) (size : Nat) :
    s.acceptData now e packet size =
      (s.modifySession e fun x => x.touch now size).forward e packet := by
  rw [acceptData, if_pos (contains_of_find? hx)]

theorem keeps_touch (now : Time) (size : Nat) : Keeps fun x => x.touch now size :=
  fun _ => ⟨rfl, rfl⟩

theorem accept_reception {s : Server} (hs : Foreign s.options.own s.sessions) (now : Time)
    (e : Endpoint) (size : Nat) (m : Message) :
    Reception s now e m (s.accept now e size m).1.sessions := by
  cases m with
  | clientLogin requested =>
    rw [accept]
    cases h : (s.assign requested e).isEmpty with
    | true =>
      have hr : (s.login now e requested size).1.sessions = s.sessions.remove e := by
        simp [login, h]
      rw [hr]
      exact .removed (.inr ⟨requested, rfl, h⟩)
    | false =>
      rw [login_sessions s now e requested size h]
      exact .settled _ _ (fun _ => ⟨rfl, rfl⟩) ⟨h, assign_own hs requested e⟩
  | data packet =>
    rw [accept, acceptData]
    cases hc : s.sessions.contains e with
    | true =>
      simp only [if_true, forward_sessions]
      exact .touched _ (keeps_touch now size)
    | false =>
      simp only [Bool.false_eq_true, if_false]
      cases hi : s.implicitLogin? now e packet with
      | none => exact .untouched
      | some t =>
        obtain ⟨-, a, -, hown, rfl⟩ := implicitLogin?_eq_some_iff.mp hi
        simp only [forward_sessions]
        refine .settled (.single a) _ (keeps_touch now size) ⟨by cases a <;> rfl, ?_⟩
        intro b hb
        rw [Bool.eq_false_iff]
        intro hab
        rw [VirtualAddresses.contains_single.mp hab, hown] at hb
        cases hb
  | echoRequest echo =>
    rw [accept]
    split
    · exact .touched _ (keeps_touch now size)
    · exact .untouched
  | echoAck echo =>
    refine .touched _ fun x => ?_
    unfold Session.acknowledge
    split <;> exact ⟨rfl, rfl⟩
  | routeAdvertise routes => exact .touched _ (keeps_touch now size)
  | disconnect => exact .removed (.inl rfl)

/-- The server once it has counted a datagram that decodes. -/
def heard (s : Server) : Server := s.count fun c => { c with datagramsIn := c.datagramsIn + 1 }

theorem receive_of_decode {s : Server} {bytes : Bytes} {m : Message}
    (hd : s.codec.decode bytes = .ok m) (now : Time) (e : Endpoint) :
    s.receive now bytes e = s.heard.accept now e bytes.length m := by
  simp only [receive, hd, heard]

theorem receive_reception {s : Server} (hs : Foreign s.options.own s.sessions) (now : Time)
    (e : Endpoint) {bytes : Bytes} {m : Message} (hd : s.codec.decode bytes = .ok m) :
    Reception s now e m (s.receive now bytes e).1.sessions := by
  have h := accept_reception (s := s.heard) hs now e bytes.length m
  rw [receive_of_decode hd]
  generalize (s.heard.accept now e bytes.length m).1.sessions = t at h ⊢
  cases h with
  | untouched => exact .untouched
  | touched f hf => exact .touched f hf
  | removed hm => exact .removed hm
  | settled v f hf hv => exact .settled v f hf hv

theorem receive_rejected {s : Server} {now : Time} {e : Endpoint} {bytes : Bytes} {r : Rejection}
    (hd : s.codec.decode bytes = .error r) : (s.receive now bytes e).1.sessions = s.sessions := by
  cases r <;> simp only [receive, hd, count]

end Server

end PacketTunnel
