import PacketTunnel.Proofs.Client.Hearing

/-!
# A client that stays established

Short of a farewell or a silence that lasts too long, nothing ends an established link. A tick sends
a probe when the last one is a keepalive interval ago, or when there was none yet; packets and
answers from the server renew the session.
-/
namespace PacketTunnel.Client

/-- The client is established as before; its session was last heard and last probed at the given
times. -/
structure Stays (c : Client) (x : Session) (lastLogin : Time) (assigned : Option VirtualAddresses)
    (heard : Time) (probed : Option Time) (c' : Client) : Prop where
  codec : c'.codec = c.codec
  options : c'.options = c.options
  server : c'.server = c.server
  link : ∃ x', c'.link = .established x' lastLogin assigned ∧ x.Same x' ∧
    x'.lastReceived = heard ∧ x'.lastKeepalive = probed

variable {c : Client} {x : Session} {t : Time} {assigned : Option VirtualAddresses}

/-- Crediting leaves it to the reaction whether a client stays established. -/
theorem stays_step {k : Conditions} {now : Time} {event : Event} {heard : Time}
    {probed : Option Time} (h : Stays c x t assigned heard probed (c.react now event).1) :
    Stays c x t assigned heard probed (engine.step k now event c).1 := by
  obtain ⟨counters, f, hstep⟩ := exists_step c k now event
  obtain ⟨hcodec, hoptions, hserver, x', hlink, hsame, hheard, hprobed⟩ := h
  rw [hstep]
  refine ⟨hcodec, hoptions, hserver, x'.recount f, congrArg (Link.recount f) hlink, ?_, hheard,
    hprobed⟩
  exact hsame.trans ⟨rfl, rfl, rfl⟩

private theorem lt_add_of_not_le_sub {now last interval : Nat} (h : ¬ interval ≤ now - last) :
    now < last + interval := by
  omega

/-- As long as no probe is due, there was one less than the interval ago. -/
theorem exists_of_not_keepaliveDue {now : Time} {interval : Duration}
    (h : x.keepaliveDue now interval = false) :
    ∃ last, x.lastKeepalive = some last ∧ now < last + interval := by
  cases hlast : x.lastKeepalive with
  | none =>
    rw [Session.keepaliveDue, hlast] at h
    cases h
  | some last =>
    rw [Session.keepaliveDue, hlast, Option.all_some, decide_eq_false_iff_not] at h
    exact ⟨last, rfl, lt_add_of_not_le_sub h⟩

section
variable (hlink : c.link = .established x t assigned)
include hlink

theorem stays_of_link_eq {c' : Client} (hcodec : c'.codec = c.codec)
    (hoptions : c'.options = c.options) (hserver : c'.server = c.server)
    (hsame : c'.link = c.link) :
    Stays c x t assigned x.lastReceived x.lastKeepalive c' :=
  ⟨hcodec, hoptions, hserver, x, hsame.trans hlink, .refl x, rfl, rfl⟩

theorem step_harmless {event : Event} (hevent : event.IsHarmless c.codec c.server)
    (htick : ∀ calendar, event ≠ .tick calendar) (now : Time) (k : Conditions) :
    Stays c x t assigned x.lastReceived x.lastKeepalive (engine.step k now event c).1 ∧
      ∀ m g, .send m g ∈ (c.react now event).2 → g = c.server ∧ m.kind = .data := by
  cases event with
  | packet bytes =>
    have hopen : c.session?.isSome = true := by rw [session?, hlink]; rfl
    have hreact : c.react now (.packet bytes) = (c, [.send (.data bytes) c.server]) := by
      rw [react, dispatch, if_pos hopen]
    refine ⟨stays_step ?_, fun m g hm => ?_⟩
    · rw [hreact]
      exact stays_of_link_eq hlink rfl rfl rfl rfl
    · rw [hreact] at hm
      cases List.mem_singleton.mp hm
      exact ⟨rfl, rfl⟩
  | datagram bytes sender =>
    obtain ⟨counters, hreact⟩ := react_rejected now sender (.inr hevent)
    refine ⟨stays_step ?_, fun m g hm => ?_⟩
    · rw [hreact]
      exact stays_of_link_eq hlink rfl rfl rfl rfl
    · rw [hreact] at hm
      cases hm
  | outcome outcome =>
    have hreact : c.react now (.outcome outcome) = (c, []) := by
      cases outcome with
      | resolved endpoint =>
        have hsame : endpoint = c.server := hevent
        rw [react, acceptOutcome, if_pos hsame]
      | routeInstalled r => rfl
      | failed reason => rfl
    refine ⟨stays_step ?_, fun m g hm => ?_⟩
    · rw [hreact]
      exact stays_of_link_eq hlink rfl rfl rfl rfl
    · rw [hreact] at hm
      cases hm
  | tick calendar => exact absurd rfl (htick calendar)
  | shutdown => exact hevent.elim

/-- A tick within the time for an answer either sends a probe, or comes before the next is due. -/
theorem step_tick {now : Time} (hidle : x.idle now ≤ c.options.reconnectTimeout) (calendar : UInt64)
    (k : Conditions) :
    (∃ echo,
      Stays c x t assigned x.lastReceived (some now) (engine.step k now (.tick calendar) c).1 ∧
        (c.react now (.tick calendar)).2 = [.send (.echoRequest echo) c.server]) ∨
      (∃ last, x.lastKeepalive = some last ∧ now < last + c.options.keepalive ∧
        Stays c x t assigned x.lastReceived x.lastKeepalive
          (engine.step k now (.tick calendar) c).1 ∧
        (c.react now (.tick calendar)).2 = []) := by
  cases hdue : x.keepaliveDue now c.options.keepalive with
  | true =>
    have hreact : c.react now (.tick calendar) =
        ({ c with link := .established (x.nextEcho now calendar).1 t assigned },
          [.send (.echoRequest (x.nextEcho now calendar).2) c.server]) := by
      rw [react, tick]
      simp only [hlink, hdue, if_neg (Nat.not_lt.mpr hidle), if_true]
    refine .inl ⟨_, stays_step ?_, congrArg Prod.snd hreact⟩
    rw [hreact]
    exact ⟨rfl, rfl, rfl, _, rfl, ⟨rfl, rfl, rfl⟩, rfl, rfl⟩
  | false =>
    have hreact : c.react now (.tick calendar) = (c, []) := by
      rw [react, tick]
      simp only [hlink, hdue, if_neg (Nat.not_lt.mpr hidle), Bool.false_eq_true, if_false]
    obtain ⟨last, hlast, hearly⟩ := exists_of_not_keepaliveDue hdue
    refine .inr ⟨last, hlast, hearly, stays_step ?_, congrArg Prod.snd hreact⟩
    rw [hreact]
    exact stays_of_link_eq hlink rfl rfl rfl rfl

theorem step_renewed {bytes : Bytes} {m : Message} (hd : c.codec.decode bytes = .ok m)
    (hm : m.kind = .data ∨ m.kind = .echoAck) (now : Time) (k : Conditions) :
    Stays c x t assigned now x.lastKeepalive (engine.step k now (.datagram bytes c.server) c).1 ∧
      ∀ m g, .send m g ∉ (c.react now (.datagram bytes c.server)).2 := by
  have hassigned : c.assigned? = assigned := by rw [assigned?, hlink]; rfl
  cases m with
  | data packet =>
    have hreact :=
      react_of_decode (c := c) (by rw [hlink]; rfl) (by rw [hlink]; rfl) now hd (by simp)
    rw [accept] at hreact
    refine ⟨stays_step ?_, fun m g hm => ?_⟩
    · rw [hreact]
      refine ⟨rfl, rfl, rfl, x.touch now bytes.length, ?_, ⟨rfl, rfl, rfl⟩, rfl, rfl⟩
      rw [joined_link, hassigned]
    · rw [hreact] at hm
      cases List.mem_singleton.mp hm
  | echoAck echo =>
    have hreact :=
      react_of_decode (c := c) (by rw [hlink]; rfl) (by rw [hlink]; rfl) now hd (by simp)
    rw [accept] at hreact
    refine ⟨stays_step ?_, fun m g hm => ?_⟩
    · rw [hreact]
      have htouched : x.Same (x.touch now bytes.length) := ⟨rfl, rfl, rfl⟩
      have hrenewed (y : Session) : y.Same (y.acknowledge echo) ∧
          (y.acknowledge echo).lastReceived = y.lastReceived ∧
          (y.acknowledge echo).lastKeepalive = y.lastKeepalive := by
        unfold Session.acknowledge
        split <;> exact ⟨⟨rfl, rfl, rfl⟩, rfl, rfl⟩
      obtain ⟨hsame, hheard, hprobed⟩ := hrenewed (x.touch now bytes.length)
      refine ⟨rfl, rfl, rfl, (x.touch now bytes.length).acknowledge echo, ?_, ?_, hheard, hprobed⟩
      · rw [modifySession, joined_link, hassigned]
        rfl
      · exact htouched.trans hsame
    · rw [hreact] at hm
      cases hm
  | _ => rcases hm with hm | hm <;> cases hm

end

end PacketTunnel.Client
