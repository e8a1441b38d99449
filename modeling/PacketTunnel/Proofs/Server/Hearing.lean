import PacketTunnel.Proofs.Server.Forwarding
import PacketTunnel.Proofs.Server.Isolation

/-!
# What a server hears from a peer

A sound message renews its sender's session, starts one for a sender that has none, or ends it, and
each of these is stated with its guard. Whatever else happens leaves a session as it was, its count
of sent datagrams apart, or ends it. So everything that a session remembers of its peer follows from
what was heard from the peer since the session began; this is a list, kept for every endpoint
through all steps, and it is empty where there is no session.
-/
namespace PacketTunnel.Server

open SessionTable

variable {s : Server} {now : Time} {e : Endpoint}

/-- A sound message that starts a session for a sender without one: a login for which there is an
address, or a packet that is admitted. -/
def Opens (s : Server) (e : Endpoint) : Message → Prop
  | .clientLogin v => ¬ s.NoAddress v e
  | .data packet => s.Admits e packet
  | _ => False

/-- The session that a sender has after a sound message. -/
inductive Sequel (s : Server) (now : Time) (e : Endpoint) (size : Nat) :
    Message → Option Session → Prop
  | ignored {m : Message} (hx : s.sessions.find? e = none) (hm : ¬ s.Opens e m) :
      Sequel s now e size m none
  | farewell : Sequel s now e size .disconnect none
  | refused {v : VirtualAddresses} (hv : s.NoAddress v e) : Sequel s now e size
      (.clientLogin v) none
  | renewed {m : Message} {x x' : Session} (hx : s.sessions.find? e = some x)
      (hm : m.kind ≠ .clientLogin) (hx' : x.Renews now size x') : Sequel s now e size m (some x')
  | admitted {packet : Bytes} {a : Address} (hx : s.sessions.find? e = none)
      (hm : s.Opens e (.data packet)) :
      Sequel s now e size (.data packet)
      (some { (Session.start e now).touch now size with addresses := .single a })
  | loggedIn {v : VirtualAddresses} (hm : s.Opens e (.clientLogin v)) :
      Sequel s now e size (.clientLogin v) (some
        { ((s.sessions.find? e).getD (.start e now)).touch now size with
          addresses := s.assign v e
          ownedRoutes := s.ownedBy (s.assign v e) })

theorem sequel_login (hs : s.sessions.Indexed) (v : VirtualAddresses) (size : Nat) :
    Sequel s now e size (.clientLogin v) ((s.login now e v size).1.sessions.find? e) := by
  cases h : (s.assign v e).isEmpty with
  | true =>
    have hgone : (s.login now e v size).1.sessions.find? e = none := by
      simp [login, h, find?_remove]
    rw [hgone]
    exact .refused (assign_isEmpty_iff.mp h)
  | false =>
    have hopens : s.Opens e (.clientLogin v) := fun hno => by
      rw [assign_isEmpty_iff.mpr hno] at h
      cases h
    rw [login_sessions s now e v size h, find?_modify, if_pos rfl, find?_settle hs, if_pos rfl]
    exact .loggedIn hopens

theorem sequel_data (hs : s.sessions.Indexed) (packet : Bytes) (size : Nat) :
    Sequel s now e size (.data packet) ((s.acceptData now e packet size).1.sessions.find? e) := by
  rw [acceptData]
  cases hx : s.sessions.find? e with
  | some x =>
    rw [contains_eq_isSome, hx]
    simp only [Option.isSome_some, if_true, forward_sessions, modifySession, find?_modify, hx,
      Option.map_some]
    exact .renewed hx (by simp [Message.kind]) (.inl rfl)
  | none =>
    rw [contains_eq_isSome, hx]
    simp only [Option.isSome_none, Bool.false_eq_true, if_false]
    cases hi : s.implicitLogin? now e packet with
    | none =>
      simp only [count, hx]
      refine .ignored hx fun hadmits => ?_
      rcases hadmits with ⟨x, hsome⟩ | ⟨hon, a, ha, hown⟩
      · rw [hx] at hsome
        cases hsome
      · rw [implicitLogin?_eq_some_iff.mpr ⟨hon, a, ha, hown, rfl⟩] at hi
        cases hi
    | some t =>
      obtain ⟨hon, a, ha, hown, rfl⟩ := implicitLogin?_eq_some_iff.mp hi
      simp only [forward_sessions, modifySession, find?_modify, find?_settle hs, if_true,
        Option.map_some, settled, hx, Option.getD_none]
      exact .admitted (a := a) hx (.inr ⟨hon, a, ha, hown⟩)

theorem sequel_modify {m : Message} (hm : m.kind ≠ .clientLogin) (hopens : ¬ s.Opens e m)
    {size : Nat} {f : Session → Session} (hf : ∀ x : Session, x.Renews now size (f x)) :
    Sequel s now e size m ((s.modifySession e f).sessions.find? e) := by
  rw [modifySession, find?_modify, if_pos rfl]
  cases hx : s.sessions.find? e with
  | none => exact .ignored hx hopens
  | some x => exact .renewed hx hm (hf x)

theorem sequel_accept (hs : s.sessions.Indexed) (now : Time) (e : Endpoint) (size : Nat)
    (m : Message) :
    Sequel s now e size m ((s.accept now e size m).1.sessions.find? e) := by
  cases m with
  | clientLogin v => exact sequel_login hs v size
  | data packet => exact sequel_data hs packet size
  | echoRequest echo =>
    rw [accept]
    split
    · exact sequel_modify (by simp [Message.kind]) id fun x => .inl rfl
    · rename_i hnone
      have hx : s.sessions.find? e = none := by simpa [contains_eq_isSome] using hnone
      simp only [count, hx]
      exact .ignored hx id
  | echoAck echo => exact sequel_modify (by simp [Message.kind]) id fun x => .inr ⟨echo, rfl⟩
  | routeAdvertise routes => exact sequel_modify (by simp [Message.kind]) id fun x => .inl rfl
  | disconnect =>
    have hgone : (s.sessions.remove e).find? e = none := by rw [find?_remove, if_pos rfl]
    simp only [accept, hgone]
    exact .farewell

theorem noAddress_heard_iff {v : VirtualAddresses} : s.heard.NoAddress v e ↔ s.NoAddress v e :=
  assign_isEmpty_iff.symm.trans (assign_isEmpty_iff (s := s))

theorem opens_heard_iff {m : Message} : s.heard.Opens e m ↔ s.Opens e m := by
  cases m with
  | clientLogin v => exact not_congr noAddress_heard_iff
  | _ => exact Iff.rfl

theorem sequel_receive (hs : s.sessions.Indexed) (now : Time) (e : Endpoint) {bytes : Bytes}
    {m : Message} (hd : s.codec.decode bytes = .ok m) :
    Sequel s now e bytes.length m ((s.react now (.datagram bytes e)).1.sessions.find? e) := by
  have h := sequel_accept (s := s.heard) hs now e bytes.length m
  rw [react, receive_of_decode hd]
  generalize (s.heard.accept now e bytes.length m).1.sessions.find? e = found at h ⊢
  cases h with
  | ignored hx hm => exact .ignored hx fun hopens => hm (opens_heard_iff.mpr hopens)
  | farewell => exact .farewell
  | refused hv => exact .refused (noAddress_heard_iff.mp hv)
  | renewed hx hm hx' => exact .renewed hx hm hx'
  | admitted hx hm => exact .admitted hx hm
  | loggedIn hm => exact .loggedIn (opens_heard_iff.mp hm)

/-- A message that a server has heard from a peer, and when. -/
structure Hearing where
  time : Time
  message : Message
deriving DecidableEq, Repr

def hearing? (s : Server) (e : Endpoint) (now : Time) : Event → Option Hearing
  | .datagram bytes sender =>
    if sender = e then (s.codec.decode bytes).toOption.map (⟨now, ·⟩) else none
  | _ => none

theorem hearing?_eq_some_iff {event : Event} {h : Hearing} :
    s.hearing? e now event = some h ↔
      ∃ bytes, event = .datagram bytes e ∧ s.codec.decode bytes = .ok h.message ∧ h.time = now := by
  cases event with
  | datagram bytes sender =>
    by_cases hsender : sender = e
    · subst hsender
      obtain ⟨time, message⟩ := h
      cases hd : s.codec.decode bytes <;>
        simp [hearing?, hd, Except.toOption, eq_comm, and_comm]
    · simp [hearing?, hsender]
  | _ => simp [hearing?]

theorem find?_react_of_unheard (hs : Sound s.options.own s.sessions) {event : Event}
    (hevent : s.hearing? e now event = none) :
    (s.react now event).1.sessions.find? e = s.sessions.find? e ∨
      (s.react now event).1.sessions.find? e = none := by
  by_cases hown : ∃ bytes, event = .datagram bytes e
  · obtain ⟨bytes, rfl⟩ := hown
    cases hd : s.codec.decode bytes with
    | error r => exact .inl (by rw [react, receive_rejected hd])
    | ok m => simp [hearing?, hd, Except.toOption] at hevent
  · cases hx : s.sessions.find? e with
    | none => exact .inr (find?_react_eq_none hs now (fun bytes h => hown ⟨bytes, h⟩) hx)
    | some x =>
      cases event with
      | packet bytes =>
        rw [react, dispatch]
        split <;> exact .inl hx
      | datagram bytes f =>
        have hne : e ≠ f := fun he => hown ⟨bytes, by rw [he]⟩
        exact (find?_receive_of_ne hs now bytes hne hx).imp id And.left
      | outcome outcome => exact .inl hx
      | tick calendar =>
        rw [find?_tick hs.toIndexed now calendar hx]
        split
        · exact .inr rfl
        · exact .inl rfl
      | shutdown => exact .inr (find?_shutdown hs.toIndexed now e)

/-- Where nothing is heard from a peer, its session after the step is the one before, its count of
sent datagrams apart. -/
theorem find?_step_of_unheard (hs : Sound s.options.own s.sessions) {c : Conditions} {event : Event}
    {x' : Session} (hevent : s.hearing? e now event = none)
    (hx' : (engine.step c now event s).1.sessions.find? e = some x') :
    ∃ x sent, s.sessions.find? e = some x ∧ x' = { x with sent := sent } := by
  rw [find?_step] at hx'
  obtain ⟨x, hx, rfl⟩ := Option.map_eq_some_iff.mp hx'
  rcases find?_react_of_unheard hs hevent with h | h
  · exact ⟨x, _, h.symm.trans hx, rfl⟩
  · rw [h] at hx
    cases hx

theorem find?_step_of_heard (hs : s.sessions.Indexed) {c : Conditions} {bytes : Bytes} {m : Message}
    {x' : Session} (hd : s.codec.decode bytes = .ok m)
    (hx' : (engine.step c now (.datagram bytes e) s).1.sessions.find? e = some x') :
    ∃ x, Sequel s now e bytes.length m (some x) ∧ x' = { x with
      sent := (engine.step c now (.datagram bytes e) s).2.foldl (Emission.tally e) x.sent } := by
  rw [find?_step] at hx'
  obtain ⟨x, hx, rfl⟩ := Option.map_eq_some_iff.mp hx'
  have h := sequel_receive hs now e hd
  rw [hx] at h
  exact ⟨x, h, rfl⟩

/-- What was heard from each endpoint since its session began, the last message first, after a
further moment. Where there is no session nothing is kept. -/
def logAfter (s : Server) (log : Endpoint → List Hearing) (m : Engine.Moment) (e : Endpoint) :
    List Hearing :=
  if (engine.step m.conditions m.now m.event s).1.sessions.contains e then
    (s.hearing? e m.now m.event).toList ++ log e
  else []

def logFrom (s : Server) (log : Endpoint → List Hearing) :
    List Engine.Moment → Endpoint → List Hearing
  | [] => log
  | m :: rest => logFrom (engine.step m.conditions m.now m.event s).1 (s.logAfter log m) rest

/-- What a session remembers of its peer is what was heard: the time of the first message and of the
last one, and the routes of its addresses if any of the messages was a login. -/
structure Recalls (s : Server) (x : Session) (log : List Hearing) : Prop where
  created : log.getLast?.map Hearing.time = some x.created
  lastReceived : log.head?.map Hearing.time = some x.lastReceived
  owned : x.ownedRoutes =
    if ∃ h ∈ log, h.message.kind = .clientLogin then s.ownedBy x.addresses else []

structure Remembers (s : Server) (log : Endpoint → List Hearing) : Prop where
  live : ∀ {e : Endpoint} {x : Session}, s.sessions.find? e = some x → Recalls s x (log e)
  gone : ∀ {e : Endpoint}, s.sessions.find? e = none → log e = []

variable {x x' : Session} {log : Endpoint → List Hearing}

/-- What a session remembers does not depend on the datagrams that were sent to its peer. -/
theorem Recalls.step {heard : List Hearing} (h : Recalls s x heard) (c : Conditions) (event : Event)
    (sent : Tally) :
    Recalls (engine.step c now event s).1 { x with sent := sent } heard where
  created := h.created
  lastReceived := h.lastReceived
  owned := by
    rw [ownedBy, (sameSetup_step s c now event).routes]
    exact h.owned

theorem getLast?_time_cons {heard : List Hearing} {created : Time}
    (h : heard.getLast?.map Hearing.time = some created) (latest : Hearing) :
    (latest :: heard).getLast?.map Hearing.time = some created := by
  obtain ⟨first, hfirst, rfl⟩ := Option.map_eq_some_iff.mp h
  rw [List.getLast?_cons, hfirst]
  rfl

theorem Remembers.sequel (h : Remembers s log) {size : Nat} {m : Message}
    (hx : Sequel s now e size m (some x)) :
    Recalls s x (⟨now, m⟩ :: log e) := by
  cases hx with
  | renewed hx₀ hm hrenews =>
    obtain ⟨hcreated, haddresses, howned, hlast⟩ := hrenews.keeps
    have hrecalls := h.live hx₀
    refine ⟨?_, congrArg some hlast.symm, ?_⟩
    · rw [hcreated]
      exact getLast?_time_cons hrecalls.created _
    · rw [howned, haddresses, hrecalls.owned]
      simp only [List.mem_cons, exists_eq_or_imp, hm, false_or]
  | admitted hx₀ hm =>
    rw [h.gone hx₀]
    exact ⟨rfl, rfl, by simp [Session.start, Session.touch, Message.kind]⟩
  | loggedIn hm =>
    have hlogin (v : VirtualAddresses) :
        ∃ g ∈ (⟨now, .clientLogin v⟩ : Hearing) :: log e, g.message.kind = .clientLogin :=
      ⟨_, List.mem_cons_self, rfl⟩
    refine ⟨?_, rfl, (if_pos (hlogin _)).symm⟩
    cases hx₀ : s.sessions.find? e with
    | none =>
      rw [h.gone hx₀]
      rfl
    | some x₀ => exact getLast?_time_cons (h.live hx₀).created _

theorem logAfter_of_find? {m : Engine.Moment}
    (hx : (engine.step m.conditions m.now m.event s).1.sessions.find? e = some x) :
    s.logAfter log m e = (s.hearing? e m.now m.event).toList ++ log e := by
  rw [logAfter, contains_eq_isSome, hx, Option.isSome_some, if_pos rfl]

theorem Remembers.step (h : Remembers s log) (hs : Sound s.options.own s.sessions)
    (m : Engine.Moment) :
    Remembers (engine.step m.conditions m.now m.event s).1 (s.logAfter log m) where
  gone {e} hx := by
    rw [logAfter, contains_eq_isSome, hx, Option.isSome_none, if_neg Bool.false_ne_true]
  live {e x'} hx' := by
    rw [logAfter_of_find? hx']
    cases hheard : s.hearing? e m.now m.event with
    | none =>
      obtain ⟨x, sent, hx, rfl⟩ := find?_step_of_unheard hs hheard hx'
      exact (h.live hx).step m.conditions m.event sent
    | some latest =>
      obtain ⟨bytes, hevent, hd, htime⟩ := hearing?_eq_some_iff.mp hheard
      obtain ⟨now, event, conditions⟩ := m
      obtain ⟨time, message⟩ := latest
      cases hevent
      cases htime
      obtain ⟨x, hx, rfl⟩ := find?_step_of_heard hs.toIndexed hd hx'
      exact (h.sequel hx).step conditions _ _

theorem Remembers.run (h : Remembers s log) (hs : Sound s.options.own s.sessions)
    (moments : List Engine.Moment) :
    Remembers (engine.run s moments).1 (s.logFrom log moments) := by
  induction moments generalizing s log with
  | nil => exact h
  | cons m rest ih => exact ih (h.step hs m) (sound_step hs m.conditions m.now m.event)

theorem remembers_start (codec : Codec) (routes : RouteTable) (options : ServerOptions)
    (origin : Time) :
    Remembers (start codec routes options origin) fun _ => [] where
  live h := by cases h
  gone _ := rfl

end PacketTunnel.Server
