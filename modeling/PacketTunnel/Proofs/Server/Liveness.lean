import PacketTunnel.Proofs.Server.Hearing

/-!
# How long a session lives

A session knows when its peer was last heard, whatever was said. A tick ends exactly the sessions of
peers that have been silent for too long, frees exactly their addresses, touches nothing else and
says nothing. An endpoint without a session, one that has just been forgotten for instance, gets a
session by a login for which there is an address or by a packet that is admitted, and by nothing
else; it then starts from nothing.
-/
namespace PacketTunnel.Server

open SessionTable

variable {s : Server} {now : Time} {e : Endpoint}

/-- What a tick makes of a server. -/
structure Sweeps (s : Server) (now : Time) (after : Server × List Emission) : Prop where
  session : ∀ e, after.1.sessions.find? e =
    (s.sessions.find? e).filter fun x => x.idle now ≤ s.options.sessionExpiry
  index : ∀ a e, after.1.sessions.endpointFor? a = some e ↔ s.sessions.endpointFor? a = some e ∧
    ∃ x, s.sessions.find? e = some x ∧ x.idle now ≤ s.options.sessionExpiry
  rest : after.1 = { s with sessions := after.1.sessions }
  silent : after.2 = []

theorem sweeps_tick (hs : s.sessions.Indexed) (c : Conditions) (now : Time) (calendar : UInt64) :
    Sweeps s now (engine.step c now (.tick calendar) s) := by
  have hstale (f : Endpoint) : f ∈ s.sessions.stale now s.options.sessionExpiry ↔
      ∃ x, s.sessions.find? f = some x ∧ s.options.sessionExpiry < x.idle now := by
    simp [hs.mem_stale, Session.isExpired]
  have hstep : engine.step c now (.tick calendar) s =
      ({ s with sessions := s.sessions.removeAll (s.sessions.stale now s.options.sessionExpiry) },
        []) :=
    Engine.step_of_silent rfl c
  rw [hstep]
  refine ⟨fun f => ?_, fun a f => ?_, rfl, rfl⟩
  · rw [find?_removeAll]
    cases hx : s.sessions.find? f with
    | none => simp
    | some x =>
      by_cases hidle : s.options.sessionExpiry < x.idle now
      · simp [hstale, hx, hidle, Option.filter_some, Nat.not_le.mpr hidle]
      · simp [hstale, hx, hidle, Option.filter_some, Nat.not_lt.mp hidle]
  · rw [hs.endpointFor?_removeAll, hs.owner_iff]
    refine and_congr_right fun howner => ?_
    obtain ⟨x, hx, -⟩ := howner
    simp [hstale, hx]

theorem Sequel.exists_of_opens {size : Nat} {m : Message} {found : Option Session}
    (h : Sequel s now e size m found) (hm : s.Opens e m) : ∃ x, found = some x := by
  cases h with
  | ignored hx hno => exact absurd hm hno
  | farewell => exact hm.elim
  | refused hv => exact absurd hv hm
  | renewed hx hkind hx' => exact ⟨_, rfl⟩
  | admitted hx hopens => exact ⟨_, rfl⟩
  | loggedIn hopens => exact ⟨_, rfl⟩

theorem Sequel.fresh {size : Nat} {m : Message} {x : Session} (h : Sequel s now e size m (some x))
    (hnone : s.sessions.find? e = none) :
    s.Opens e m ∧ x = { Session.start e now with
      addresses := x.addresses
      ownedRoutes := x.ownedRoutes
      received := Tally.zero.add size } := by
  cases h with
  | renewed hx hkind hx' =>
    rw [hnone] at hx
    cases hx
  | admitted hx hopens => exact ⟨hopens, rfl⟩
  | loggedIn hopens =>
    rw [hnone]
    exact ⟨hopens, rfl⟩

/-- How a session begins, at an endpoint that has none: with a message that opens it, fresh in all
that it remembers and counts. -/
structure Begins (s : Server) (now : Time) (event : Event) (e : Endpoint)
    (after : Server × List Emission) : Prop where
  opened : (∃ x, after.1.sessions.find? e = some x) ↔
    ∃ bytes m, event = .datagram bytes e ∧ s.codec.decode bytes = .ok m ∧ s.Opens e m
  fresh : ∀ x, after.1.sessions.find? e = some x → ∃ bytes, event = .datagram bytes e ∧
    x = { Session.start e now with
      addresses := x.addresses
      ownedRoutes := x.ownedRoutes
      received := Tally.zero.add bytes.length
      sent := after.2.foldl (Emission.tally e) .zero }

theorem begins_step (hs : Sound s.options.own s.sessions) (c : Conditions) (now : Time)
    (event : Event) (hnone : s.sessions.find? e = none) :
    Begins s now event e (engine.step c now event s) := by
  have hheard {x : Session} (hx : (engine.step c now event s).1.sessions.find? e = some x) :
      ∃ bytes m, event = .datagram bytes e ∧ s.codec.decode bytes = .ok m := by
    cases h : s.hearing? e now event with
    | none =>
      obtain ⟨x₀, sent, hx₀, -⟩ := find?_step_of_unheard hs h hx
      rw [hnone] at hx₀
      cases hx₀
    | some latest =>
      obtain ⟨bytes, hevent, hd, -⟩ := hearing?_eq_some_iff.mp h
      exact ⟨bytes, latest.message, hevent, hd⟩
  constructor
  · constructor
    · rintro ⟨x, hx⟩
      obtain ⟨bytes, m, rfl, hd⟩ := hheard hx
      obtain ⟨x₀, hsequel, -⟩ := find?_step_of_heard hs.toIndexed hd hx
      exact ⟨bytes, m, rfl, hd, (hsequel.fresh hnone).1⟩
    · rintro ⟨bytes, m, rfl, hd, hopens⟩
      obtain ⟨x, hx⟩ := (sequel_receive hs.toIndexed now e hd).exists_of_opens hopens
      rw [find?_step, hx]
      exact ⟨_, rfl⟩
  · intro x hx
    obtain ⟨bytes, m, rfl, hd⟩ := hheard hx
    obtain ⟨x₀, hsequel, rfl⟩ := find?_step_of_heard hs.toIndexed hd hx
    obtain ⟨-, hfresh⟩ := hsequel.fresh hnone
    have hsent : x₀.sent = .zero := congrArg Session.sent hfresh
    refine ⟨bytes, rfl, ?_⟩
    rw [hsent]
    exact congrArg (fun y : Session => { y with
      sent := (engine.step c now (.datagram bytes e) s).2.foldl (Emission.tally e) .zero }) hfresh

/-- After any run of a server: the sessions are those of the endpoints that have been heard since
their session began, each began at the time of the first message and was last heard at the time of
the last; a tick sweeps the silent sessions and does nothing else; and an endpoint without a session
gets a fresh one by a message that opens it alone. -/
theorem liveness_exact (codec : Codec) (routes : RouteTable) (options : ServerOptions)
    (origin : Time) (moments : List Engine.Moment) :
    let s₀ := start codec routes options origin
    let s := (engine.run s₀ moments).1
    let log := s₀.logFrom (fun _ => []) moments
    (∀ e, (s.sessions.find? e).map Session.lastReceived = (log e).head?.map Hearing.time) ∧
    (∀ e, (s.sessions.find? e).map Session.created = (log e).getLast?.map Hearing.time) ∧
    (∀ c now calendar, Sweeps s now (engine.step c now (.tick calendar) s)) ∧
    (∀ c now event e, s.sessions.find? e = none →
      Begins s now event e (engine.step c now event s)) := by
  intro s₀ s log
  have hsound : Sound s.options.own s.sessions := sound_run Sound.empty moments
  have hlog : Remembers s log :=
    (remembers_start codec routes options origin).run Sound.empty moments
  refine ⟨fun e => ?_, fun e => ?_,
    fun c now calendar => sweeps_tick hsound.toIndexed c now calendar, fun c now event e hnone =>
    begins_step hsound c now event hnone⟩
  · cases hx : s.sessions.find? e with
    | none => rw [hlog.gone hx]; rfl
    | some x => exact (hlog.live hx).lastReceived.symm
  · cases hx : s.sessions.find? e with
    | none => rw [hlog.gone hx]; rfl
    | some x => exact (hlog.live hx).created.symm

def forgotten : List Engine.Moment :=
  [hears 0 (caller 1) (.clientLogin .empty), ⟨40000, .tick 0, Conditions.fair⟩]

def comesBack : Engine.Moment := hears 50000 (caller 1) (.clientLogin .empty)

theorem liveness_exact_comesBack :
    (engine.run (start clearCodec .empty poolOptions 0) forgotten).1.sessions.find? (caller 1) =
      none ∧
      ∃ x, (engine.step Conditions.fair 50000 comesBack.event
          (engine.run (start clearCodec .empty poolOptions 0) forgotten).1).1.sessions.find?
            (caller 1) = some x ∧
        x.created = 50000 ∧ x.received.packets = 1 := by
  have hnone : (engine.run (start clearCodec .empty poolOptions 0) forgotten).1.sessions.find?
      (caller 1) = none := by
    decide +kernel
  have hbegins := (liveness_exact clearCodec .empty poolOptions 0 forgotten).2.2.2 Conditions.fair
    50000 comesBack.event (caller 1) hnone
  have hsome : ((engine.step Conditions.fair 50000 comesBack.event
      (engine.run (start clearCodec .empty poolOptions 0) forgotten).1).1.sessions.find?
        (caller 1)).isSome = true := by
    decide +kernel
  obtain ⟨x, hx⟩ := Option.isSome_iff_exists.mp hsome
  obtain ⟨bytes, -, hfresh⟩ := hbegins.fresh x hx
  refine ⟨hnone, x, hx, ?_, ?_⟩
  · rw [hfresh]
    rfl
  · rw [hfresh]
    rfl

end PacketTunnel.Server
