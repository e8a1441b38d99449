import PacketTunnel.Proofs.Server.Isolation

/-!
# What a login leads to

A login is refused when the server has no address for it: the sender then has no session and is told
farewell. Otherwise the sender has a session with the assigned addresses, which was heard just now,
and is told its addresses and then, if the server advertises, the routes that do not lead back to
it.
-/
namespace PacketTunnel.Server

/-- What the server says to a peer that it has assigned addresses. -/
def welcome (s : Server) (assigned : VirtualAddresses) : List Message :=
  .clientLogin assigned ::
    if s.options.advertise then s.codec.advertisements (s.usableBy assigned) else []

variable {s : Server} {v : VirtualAddresses} {e : Endpoint} {bytes : Bytes}

theorem kind_of_mem_welcome {assigned : VirtualAddresses} {m : Message}
    (hm : m ∈ s.welcome assigned) :
    m.kind = .clientLogin ∨ m.kind = .routeAdvertise := by
  rw [welcome] at hm
  rcases List.mem_cons.mp hm with rfl | hm
  · exact .inl rfl
  · split at hm
    · obtain ⟨part, -, rfl⟩ := List.mem_map.mp hm
      exact .inr rfl
    · cases hm

theorem react_login_refused (hd : s.codec.decode bytes = .ok (.clientLogin v)) (h : s.NoAddress v e)
    (now : Time) :
    s.react now (.datagram bytes e) =
      ({ s.heard with sessions := s.sessions.remove e }, [.send .disconnect e]) := by
  have hempty : (s.heard.assign v e).isEmpty = true := (assign_isEmpty_iff (s := s)).mpr h
  rw [react, receive_of_decode hd, accept, login]
  simp only [hempty, if_true]
  rfl

theorem react_login_accepted (hd : s.codec.decode bytes = .ok (.clientLogin v))
    (h : ¬ s.NoAddress v e) (now : Time) :
    s.react now (.datagram bytes e) =
      ({ s.heard with
        sessions := (settle s.sessions now e (s.assign v e)).modify e fun x =>
          { x.touch now bytes.length with ownedRoutes := s.ownedBy (s.assign v e) } },
        (s.welcome (s.assign v e)).map (.send · e)) := by
  have hassigned : (s.heard.assign v e).isEmpty = false := by
    rw [Bool.eq_false_iff]
    exact fun hempty => h (assign_isEmpty_iff.mp hempty)
  have hsessions := login_sessions s.heard now e v bytes.length hassigned
  rw [react, receive_of_decode hd, accept]
  refine Prod.ext ?_ ?_
  · rw [login] at hsessions ⊢
    simp only [hassigned, Bool.false_eq_true, if_false] at hsessions ⊢
    rw [hsessions]
    rfl
  · rw [login]
    simp only [hassigned, Bool.false_eq_true, if_false]
    rfl

theorem step_login_refused (hd : s.codec.decode bytes = .ok (.clientLogin v)) (h : s.NoAddress v e)
    (k : Conditions) (now : Time) :
    (engine.step k now (.datagram bytes e) s).1.sessions.find? e = none ∧
      (engine.step k now (.datagram bytes e) s).2 =
        Action.performAll s.codec k [.send .disconnect e] := by
  have hreact := react_login_refused hd h now
  constructor
  · have hgone : (s.sessions.remove e).find? e = none := by
      rw [SessionTable.find?_remove, if_pos rfl]
    rw [find?_step_eq_none_iff, hreact]
    exact hgone
  · simp only [Engine.step, engine, hreact]

theorem step_login_accepted (hs : s.sessions.Indexed)
    (hd : s.codec.decode bytes = .ok (.clientLogin v)) (h : ¬ s.NoAddress v e) (k : Conditions)
    (now : Time) :
    (∃ y, (engine.step k now (.datagram bytes e) s).1.sessions.find? e = some y ∧
        y.addresses = s.assign v e ∧ y.lastReceived = now) ∧
      (engine.step k now (.datagram bytes e) s).2 =
        Action.performAll s.codec k ((s.welcome (s.assign v e)).map (.send · e)) := by
  have hreact := react_login_accepted hd h now
  constructor
  · rw [find?_step, hreact, SessionTable.find?_modify, if_pos rfl, find?_settle hs, if_pos rfl]
    exact ⟨_, rfl, rfl, rfl⟩
  · simp only [Engine.step, engine, hreact]

end PacketTunnel.Server
