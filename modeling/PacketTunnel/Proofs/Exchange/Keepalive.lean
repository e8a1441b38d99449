import PacketTunnel.Proofs.Client.Attending
import PacketTunnel.Proofs.Datagram.RoundTrip
import PacketTunnel.Proofs.Exchange.Orderly
import PacketTunnel.Proofs.Server.Attending

/-!
# A tunnel that is kept alive

In an orderly run neither end of a tunnel that is logged in ever finds the other silent for too
long. What the run preserves is `Alive`: both sessions are those of the login, only packets, probes
and answers are under way, and the pulse beats.
-/
namespace PacketTunnel

open Exchange

namespace Exchange

theorem exists_send_of_mem {codec : Codec} {k : Conditions} {actions : List Action}
    {sender : Endpoint} {l : Letter}
    (h : l ∈ (Action.performAll codec k actions).filterMap (letter? sender)) :
    l.sender = sender ∧ ∃ m iv, .send m l.recipient ∈ actions ∧
      codec.encode iv m = .ok l.bytes := by
  obtain ⟨emission, hemission, hl⟩ := List.mem_filterMap.mp h
  cases emission with
  | datagram m bytes recipient =>
    cases hl
    obtain ⟨hsend, iv, hbytes⟩ := Action.send_of_mem_performAll hemission
    exact ⟨rfl, m, iv, hsend, hbytes⟩
  | packet bytes => cases hl

theorem exists_mem_of_sent {codec : Codec} (hlimit : codec.maxPayload ≤ 65535) {k : Conditions}
    {actions : List Action} {m : Message} (hm : m.Sound) {recipient : Endpoint} (sender : Endpoint)
    (h : (m, recipient) ∈ (Action.performAll codec k actions).filterMap Emission.sent?) :
    ∃ l ∈ (Action.performAll codec k actions).filterMap (letter? sender),
      l.sender = sender ∧ l.recipient = recipient ∧ codec.decode l.bytes = .ok m := by
  obtain ⟨emission, hemission, hsent⟩ := List.mem_filterMap.mp h
  cases emission with
  | datagram message bytes recipient' =>
    cases hsent
    obtain ⟨-, iv, hbytes⟩ := Action.send_of_mem_performAll hemission
    exact ⟨⟨sender, recipient, bytes⟩, List.mem_filterMap.mpr ⟨_, hemission, rfl⟩, rfl, rfl,
      Codec.decode_encode hlimit hm hbytes⟩
  | packet bytes => cases hsent

end Exchange

namespace Line

variable (L : Line)

def IsProbe (l : Letter) : Prop :=
  l.sender = L.client ∧ l.recipient = L.server ∧ ∃ echo,
    L.codec.decode l.bytes = .ok (.echoRequest echo)

def IsAnswer (l : Letter) : Prop :=
  l.sender = L.server ∧ l.recipient = L.client ∧ ∃ echo,
    L.codec.decode l.bytes = .ok (.echoAck echo)

/-- The client sends nothing but packets and probes, and the server nothing but packets and answers
to it. -/
def Regular (l : Letter) : Prop :=
  l.sender = L.client ∧ l.recipient = L.server ∧
      (∀ m, L.codec.decode l.bytes = .ok m → m.kind = .data ∨ m.kind = .echoRequest) ∨
    l.sender = L.server ∧
      (l.recipient = L.client → ∀ m, L.codec.decode l.bytes = .ok m → m.kind = .data ∨
        m.kind = .echoAck)

variable {L}

theorem regular_of_client {k : Conditions} {actions : List Action}
    (h : ∀ m g, .send m g ∈ actions → g = L.server ∧ (m.kind = .data ∨ m.kind = .echoRequest))
    {l : Letter} (hl : l ∈ (Action.performAll L.codec k actions).filterMap (letter? L.client)) :
    L.Regular l := by
  obtain ⟨hsender, m, iv, hsend, hbytes⟩ := exists_send_of_mem hl
  obtain ⟨hrecipient, hkind⟩ := h m l.recipient hsend
  refine .inl ⟨hsender, hrecipient, fun m' hm' => ?_⟩
  rw [Codec.kind_of_decode_encode hbytes hm']
  exact hkind

theorem regular_of_server {k : Conditions} {actions : List Action}
    (h : ∀ m g, .send m g ∈ actions → m.kind = .data ∨ m.kind = .echoAck) {l : Letter}
    (hl : l ∈ (Action.performAll L.codec k actions).filterMap (letter? L.server)) :
    L.Regular l := by
  obtain ⟨hsender, m, iv, hsend, hbytes⟩ := exists_send_of_mem hl
  refine .inr ⟨hsender, fun _ m' hm' => ?_⟩
  rw [Codec.kind_of_decode_encode hbytes hm']
  exact h m l.recipient hsend

end Line

/-- A tunnel as a login has left it, with durations that leave time for a probe and its answer. -/
structure Tunnel extends Line where
  interval : Duration
  slack : Duration
  reconnectTimeout : Duration
  sessionExpiry : Duration
  lastLogin : Time
  assigned : Option VirtualAddresses
  clientSession : Session
  serverSession : Session
  distinct : client ≠ server
  limit : codec.maxPayload ≤ 65535
  reconnects : interval + slack ≤ reconnectTimeout
  expires : interval + slack ≤ sessionExpiry

namespace Tunnel

variable (T : Tunnel)

/-- Both ends of the tunnel are what they were at the login, as far as it matters here. -/
structure Alive (k : Clock) (s : Server) (c : Client) (wire : List Letter) : Prop where
  serverCodec : s.codec = T.codec
  sessionExpiry : s.options.sessionExpiry = T.sessionExpiry
  sound : Server.Sound s.options.own s.sessions
  clientCodec : c.codec = T.codec
  keepalive : c.options.keepalive = T.interval
  reconnectTimeout : c.options.reconnectTimeout = T.reconnectTimeout
  server : c.server = T.server
  letters : ∀ l ∈ wire, T.Regular l
  sessions : ∃ x y, c.link = .established x T.lastLogin T.assigned ∧ T.clientSession.Same x ∧
    s.sessions.find? T.client = some y ∧ T.serverSession.Same y ∧
    Pulse T.interval T.slack k x.lastReceived y.lastReceived x.lastKeepalive
      (∃ l ∈ wire, T.IsProbe l) (∃ l ∈ wire, T.IsAnswer l)

namespace Alive

variable {T} {k : Clock} {s : Server} {c : Client} {wire : List Letter}

theorem advance (h : T.Alive k s c wire) {x : Exchange} (hx : x.wire = wire) {now : Time}
    (htimely : T.Timely T.slack k x now) : T.Alive { k with now := now } s c wire := by
  obtain ⟨u, y, hlink, hsame, hsession, hsame', hpulse⟩ := h.sessions
  refine { h with sessions := ⟨u, y, hlink, hsame, hsession, hsame', ?_⟩ }
  rcases Nat.eq_or_lt_of_le htimely.later with heq | hlt
  · rw [← heq]
    exact hpulse
  · have hquiet := htimely.quiet hlt
    rw [hx] at hquiet
    refine hpulse.advance ?_ ?_ htimely.later htimely.close
    · rintro ⟨l, hl, hsender, hrecipient, -⟩
      exact hquiet l hl (.inl ⟨hsender, hrecipient⟩)
    · rintro ⟨l, hl, hsender, hrecipient, -⟩
      exact hquiet l hl (.inr ⟨hsender, hrecipient⟩)

theorem of_stays (h : T.Alive k s c wire) {x y : Session} (hsame : T.clientSession.Same x)
    (hy : s.sessions.find? T.client = some y) (hsame' : T.serverSession.Same y) {c' : Client}
    {heard : Time} {probed : Option Time}
    (hstays : Client.Stays c x T.lastLogin T.assigned heard probed c') {k' : Clock}
    {wire' : List Letter} (hletters : ∀ l ∈ wire', T.Regular l)
    (hpulse : Pulse T.interval T.slack k' heard y.lastReceived probed (∃ l ∈ wire', T.IsProbe l)
      (∃ l ∈ wire', T.IsAnswer l)) : T.Alive k' s c' wire' := by
  obtain ⟨hcodec, hoptions, hserver, x', hlink, hsame'', rfl, rfl⟩ := hstays
  exact
    { serverCodec := h.serverCodec
      sessionExpiry := h.sessionExpiry
      sound := h.sound
      clientCodec := hcodec.trans h.clientCodec
      keepalive := by rw [hoptions]; exact h.keepalive
      reconnectTimeout := by rw [hoptions]; exact h.reconnectTimeout
      server := hserver.trans h.server
      letters := hletters
      sessions := ⟨x', y, hlink, hsame.trans hsame'', hy, hsame', hpulse⟩ }

theorem of_goesOn (h : T.Alive k s c wire) {x y : Session}
    (hlink : c.link = .established x T.lastLogin T.assigned) (hsame : T.clientSession.Same x)
    (hsame' : T.serverSession.Same y) {conditions : Conditions} {now : Time} {event : Event}
    {heard : Time} (hgoes : (Server.engine.step conditions now event s).1.GoesOn T.client y heard)
    {wire' : List Letter} (hletters : ∀ l ∈ wire', T.Regular l)
    (hpulse : Pulse T.interval T.slack k x.lastReceived heard x.lastKeepalive
      (∃ l ∈ wire', T.IsProbe l) (∃ l ∈ wire', T.IsAnswer l)) :
    T.Alive k (Server.engine.step conditions now event s).1 c wire' := by
  obtain ⟨y', hy', hsame'', rfl⟩ := hgoes
  have hsetup := Server.sameSetup_step s conditions now event
  exact
    { serverCodec := hsetup.codec.trans h.serverCodec
      sessionExpiry := by rw [hsetup.options]; exact h.sessionExpiry
      sound := Server.sound_step h.sound conditions now event
      clientCodec := h.clientCodec
      keepalive := h.keepalive
      reconnectTimeout := h.reconnectTimeout
      server := h.server
      letters := hletters
      sessions := ⟨x, y', hlink, hsame, hy', hsame'.trans hsame'', hpulse⟩ }

theorem exists_mem_append {P : Letter → Prop} (new : List Letter) (h : ∃ l ∈ wire, P l) :
    ∃ l ∈ wire ++ new, P l := by
  obtain ⟨l, hl, hp⟩ := h
  exact ⟨l, List.mem_append_left new hl, hp⟩

theorem exists_mem_eraseIdx {P : Letter → Prop} {position : Nat} {l : Letter}
    (hl : wire[position]? = some l) (h : ∃ l' ∈ wire, P l') :
    P l ∨ ∃ l' ∈ wire.eraseIdx position, P l' := by
  obtain ⟨l', hl', hp⟩ := h
  obtain ⟨i, hi⟩ := List.mem_iff_getElem?.mp hl'
  by_cases hposition : i = position
  · subst hposition
    rw [hl] at hi
    cases hi
    exact .inl hp
  · exact .inr ⟨l', List.mem_eraseIdx_iff_getElem?.mpr ⟨i, hposition, hi⟩, hp⟩

theorem regular_append (h : ∀ l ∈ wire, T.Regular l) {new : List Letter}
    (hnew : ∀ l ∈ new, T.Regular l) :
    ∀ l ∈ wire ++ new, T.Regular l := by
  intro l hl
  rcases List.mem_append.mp hl with hl | hl
  · exact h l hl
  · exact hnew l hl

theorem regular_eraseIdx (h : ∀ l ∈ wire, T.Regular l) (position : Nat) :
    ∀ l ∈ wire.eraseIdx position, T.Regular l := by
  intro l hl
  exact h l (List.mem_of_mem_eraseIdx hl)

/-- Neither end has been silent for too long. -/
theorem idle_le {now heard : Time} {interval slack limit : Duration}
    (hlate : now ≤ heard + interval + slack) (hlimit : interval + slack ≤ limit) :
    now.since heard ≤ limit := by
  unfold Time.since
  unfold Time Duration at *
  omega

theorem server_harmless (h : T.Alive k s c wire) {event : Event}
    (hevent : event.IsHarmless T.codec T.server) (conditions : Conditions) :
    T.Alive k (Server.engine.step conditions k.now event s).1 c
      (wire ++ (Server.engine.step conditions k.now event s).2.filterMap (letter? T.server)) := by
  obtain ⟨x, y, hlink, hsame, hy, hsame', hpulse⟩ := h.sessions
  have hidle : y.idle k.now ≤ s.options.sessionExpiry := by
    rw [h.sessionExpiry]
    exact idle_le hpulse.server T.expires
  rw [← h.serverCodec] at hevent
  obtain ⟨hgoes, hsends⟩ := Server.step_harmless h.sound.toIndexed hy hevent hidle conditions
  refine h.of_goesOn hlink hsame hsame' hgoes (regular_append h.letters fun l hl => ?_)
    (hpulse.wire (exists_mem_append _) (exists_mem_append _))
  refine Line.regular_of_server (fun m g hm => .inl (hsends m g hm)) (k := conditions) ?_
  rw [← h.serverCodec]
  exact hl

theorem client_harmless (h : T.Alive k s c wire) {event : Event}
    (hevent : event.IsHarmless T.codec T.server) (htick : ∀ calendar, event ≠ .tick calendar)
    (conditions : Conditions) :
    T.Alive k s (Client.engine.step conditions k.now event c).1
      (wire ++ (Client.engine.step conditions k.now event c).2.filterMap (letter? T.client)) := by
  obtain ⟨x, y, hlink, hsame, hy, hsame', hpulse⟩ := h.sessions
  rw [← h.clientCodec, ← h.server] at hevent
  obtain ⟨hstays, hsends⟩ := Client.step_harmless hlink hevent htick k.now conditions
  refine h.of_stays hsame hy hsame' hstays (regular_append h.letters fun l hl => ?_)
    (hpulse.wire (exists_mem_append _) (exists_mem_append _))
  refine Line.regular_of_client (k := conditions) (fun m g (hm : _ ∈ (c.react k.now event).2) => ?_)
    ?_
  · obtain ⟨hg, hkind⟩ := hsends m g hm
    exact ⟨hg.trans h.server, .inl hkind⟩
  · rw [← h.clientCodec]
    exact hl

theorem client_tick (h : T.Alive k s c wire) (calendar : UInt64) (conditions : Conditions)
    (hsent : ∀ notice ∈ (c.react k.now (.tick calendar)).2.filterMap Action.notice?,
      notice ∈ (Client.engine.step conditions k.now (.tick calendar) c).2.filterMap
    Emission.sent?) :
    T.Alive ⟨k.now, k.now⟩ s (Client.engine.step conditions k.now (.tick calendar) c).1
      (wire ++ (Client.engine.step conditions k.now (.tick calendar) c).2.filterMap
        (letter? T.client)) := by
  obtain ⟨x, y, hlink, hsame, hy, hsame', hpulse⟩ := h.sessions
  have hidle : x.idle k.now ≤ c.options.reconnectTimeout := by
    rw [h.reconnectTimeout]
    exact idle_le hpulse.client T.reconnects
  rw [Client.step_emissions, h.clientCodec] at *
  rcases Client.step_tick hlink hidle calendar conditions with
    ⟨echo, hstays, hactions⟩ | ⟨last, hlast, hearly, hstays, hactions⟩
  · have hprobe :=
      hsent (.echoRequest echo, c.server) (by rw [hactions]; exact List.mem_singleton.mpr rfl)
    obtain ⟨l, hl, hsender, hrecipient, hdecode⟩ :=
      exists_mem_of_sent T.limit (m := .echoRequest echo) trivial T.client hprobe
    refine h.of_stays hsame hy hsame' hstays (regular_append h.letters fun l' hl' => ?_) ?_
    · refine Line.regular_of_client (fun m g hm => ?_) hl'
      rw [hactions] at hm
      cases List.mem_singleton.mp hm
      exact ⟨h.server, .inr rfl⟩
    · refine hpulse.tick_probe ⟨l, List.mem_append_right wire hl, hsender, ?_, echo, hdecode⟩
      exact hrecipient.trans h.server
  · -- The last probe is less than an interval ago; by now both ends have news as late as that.
    rw [h.keepalive] at hearly
    refine h.of_stays hsame hy hsame' hstays (regular_append h.letters fun l' hl' => ?_) ?_
    · rw [hactions] at hl'
      cases hl'
    · exact (hpulse.wire (exists_mem_append _) (exists_mem_append _)).tick_early hlast hearly

/-- A letter that is neither a probe nor an answer may leave the wire. -/
theorem lose (h : T.Alive k s c wire) {position : Nat} {l : Letter} (hl : wire[position]? = some l)
    (hprobe : ¬ T.IsProbe l) (hanswer : ¬ T.IsAnswer l) :
    T.Alive k s c (wire.eraseIdx position) := by
  obtain ⟨x, y, hlink, hsame, hy, hsame', hpulse⟩ := h.sessions
  refine
    { h with
      letters := regular_eraseIdx h.letters position
      sessions := ⟨x, y, hlink, hsame, hy, hsame', hpulse.wire ?_ ?_⟩ }
  · exact fun hp => (exists_mem_eraseIdx hl hp).resolve_left hprobe
  · exact fun hq => (exists_mem_eraseIdx hl hq).resolve_left hanswer

theorem server_hears (h : T.Alive k s c wire) {position : Nat} {l : Letter}
    (hl : wire[position]? = some l) (hsender : l.sender = T.client) (conditions : Conditions)
    (hsent : ∀ notice ∈ (s.react k.now (.datagram l.bytes l.sender)).2.filterMap Action.notice?,
      notice ∈ (Server.engine.step conditions k.now (.datagram l.bytes l.sender) s).2.filterMap
      Emission.sent?) :
    T.Alive k (Server.engine.step conditions k.now (.datagram l.bytes l.sender) s).1 c
      (wire.eraseIdx position ++
        (Server.engine.step conditions k.now (.datagram l.bytes l.sender) s).2.filterMap
          (letter? T.server)) := by
  have hanswer : ¬ T.IsAnswer l := fun hq => T.distinct (hsender.symm.trans hq.1)
  have hkind : ∀ m, T.codec.decode l.bytes = .ok m → m.kind = .data ∨ m.kind = .echoRequest := by
    rcases h.letters l (List.mem_of_getElem? hl) with hregular | hregular
    · exact hregular.2.2
    · exact absurd (hsender.symm.trans hregular.1) T.distinct
  have hrest := regular_eraseIdx h.letters position
  obtain ⟨x, y, hlink, hsame, hy, hsame', hpulse⟩ := h.sessions
  cases hdecode : T.codec.decode l.bytes with
  | error r =>
    have hprobe : ¬ T.IsProbe l := fun ⟨_, _, _, hecho⟩ => by cases hdecode.symm.trans hecho
    have hevent : (Event.datagram l.bytes l.sender).IsHarmless T.codec T.server := ⟨r, hdecode⟩
    exact (h.lose hl hprobe hanswer).server_harmless hevent conditions
  | ok m =>
    rw [hsender] at hsent ⊢
    have hdecode' := hdecode
    rw [← h.serverCodec] at hdecode'
    cases m with
    | echoRequest echo =>
      obtain ⟨hgoes, hactions⟩ := Server.step_echoRequest hy hdecode' k.now conditions
      -- As the probe leaves the wire, its answer joins it.
      have hnotice :=
        hsent (.echoAck echo, T.client) (by rw [hactions]; exact List.mem_singleton.mpr rfl)
      rw [Server.step_emissions, h.serverCodec] at hnotice ⊢
      obtain ⟨l', hl', hsender', hrecipient', hdecode'⟩ :=
        exists_mem_of_sent T.limit (m := .echoAck echo) trivial T.server hnotice
      refine h.of_goesOn hlink hsame hsame' hgoes (regular_append hrest fun l'' hl'' => ?_)
        (hpulse.server_heard (fun _ => .inr ?_) fun hq => ?_)
      · refine Line.regular_of_server (fun m g hm => ?_) hl''
        rw [hactions] at hm
        cases List.mem_singleton.mp hm
        exact .inr rfl
      · exact ⟨l', List.mem_append_right _ hl', hsender', hrecipient', echo, hdecode'⟩
      · exact exists_mem_append _ ((exists_mem_eraseIdx hl hq).resolve_left hanswer)
    | data packet =>
      obtain ⟨hgoes, hsends⟩ := Server.step_data_of_find? hy hdecode' k.now conditions
      have hprobe : ¬ T.IsProbe l := fun ⟨_, _, _, hecho⟩ => by cases hdecode.symm.trans hecho
      rw [Server.step_emissions, h.serverCodec]
      refine h.of_goesOn hlink hsame hsame' hgoes (regular_append hrest fun l' hl' => ?_)
        (hpulse.server_heard (fun hp => .inl ?_) fun hq => ?_)
      · exact Line.regular_of_server (fun m g hm => .inl (hsends m g hm)) hl'
      · exact exists_mem_append _ ((exists_mem_eraseIdx hl hp).resolve_left hprobe)
      · exact exists_mem_append _ ((exists_mem_eraseIdx hl hq).resolve_left hanswer)
    | _ => rcases hkind _ hdecode with hm | hm <;> cases hm

theorem client_hears (h : T.Alive k s c wire) {position : Nat} {l : Letter}
    (hl : wire[position]? = some l) (hsender : l.sender = T.server)
    (hrecipient : l.recipient = T.client) (conditions : Conditions) :
    T.Alive k s (Client.engine.step conditions k.now (.datagram l.bytes l.sender) c).1
      (wire.eraseIdx position ++
        (Client.engine.step conditions k.now (.datagram l.bytes l.sender) c).2.filterMap
          (letter? T.client)) := by
  have hprobe : ¬ T.IsProbe l := fun hp => T.distinct (hp.1.symm.trans hsender)
  have hkind : ∀ m, T.codec.decode l.bytes = .ok m → m.kind = .data ∨ m.kind = .echoAck := by
    rcases h.letters l (List.mem_of_getElem? hl) with hregular | hregular
    · exact absurd (hregular.1.symm.trans hsender) T.distinct
    · exact hregular.2 hrecipient
  have hrest := regular_eraseIdx h.letters position
  cases hdecode : T.codec.decode l.bytes with
  | error r =>
    have hanswer : ¬ T.IsAnswer l := fun ⟨_, _, _, hecho⟩ => by cases hdecode.symm.trans hecho
    have hevent : (Event.datagram l.bytes l.sender).IsHarmless T.codec T.server := ⟨r, hdecode⟩
    exact (h.lose hl hprobe hanswer).client_harmless hevent nofun conditions
  | ok m =>
    obtain ⟨x, y, hlink, hsame, hy, hsame', hpulse⟩ := h.sessions
    have hdecode' := hdecode
    rw [← h.clientCodec] at hdecode'
    obtain ⟨hstays, hnone⟩ := Client.step_renewed hlink hdecode' (hkind m hdecode) k.now conditions
    rw [hsender, ← h.server]
    refine h.of_stays hsame hy hsame' hstays (regular_append hrest fun l' hl' => ?_)
      (hpulse.client_heard fun hp => ?_)
    · rw [Client.step_emissions, h.clientCodec] at hl'
      exact Line.regular_of_client (fun m g hm => absurd hm (hnone m g)) hl'
    · exact exists_mem_append _ ((exists_mem_eraseIdx hl hp).resolve_left hprobe)

theorem happen (h : T.Alive k s c wire) {happening : Happening}
    (ht : T.Allows T.slack k (pair s T.server T.client c wire) (.happen happening)) :
    ∃ s' c' wire', (pair s T.server T.client c wire).after happening =
      pair s' T.server T.client c' wire' ∧
      T.Alive (k.after (.happen happening)) s' c' wire' := by
  obtain ⟨htimely, hharmless, hsent⟩ := ht
  have hnow := h.advance rfl htimely
  obtain ⟨station, now, event, conditions⟩ := happening
  cases station with
  | server =>
    exact ⟨_, _, _, pair_after_server now event conditions,
      hnow.server_harmless hharmless conditions⟩
  | client i =>
    cases i with
    | zero =>
      by_cases htick : ∃ calendar, event = .tick calendar
      · obtain ⟨calendar, rfl⟩ := htick
        exact ⟨_, _, _, pair_after_client now _ conditions,
          hnow.client_tick calendar conditions hsent⟩
      · have hclock : k.after (.happen ⟨.client 0, now, event, conditions⟩) =
            { k with now := now } := by
          cases event with
          | tick calendar => exact absurd ⟨calendar, rfl⟩ htick
          | packet bytes => rfl
          | datagram bytes sender => rfl
          | outcome outcome => rfl
          | shutdown => rfl
        rw [hclock]
        have hother (calendar : UInt64) : event ≠ .tick calendar := fun heq => htick ⟨calendar, heq⟩
        exact ⟨_, _, _, pair_after_client now event conditions,
          hnow.client_harmless hharmless hother conditions⟩
    | succ i => exact ⟨s, c, wire, rfl, hnow⟩

theorem deliver (h : T.Alive k s c wire) {position : Nat} {now : Time}
    {conditions : Station → Conditions}
    (ht : T.Allows T.slack k (pair s T.server T.client c wire) (.deliver position now conditions)) :
    ∃ s' c' wire', (pair s T.server T.client c wire).turn (.deliver position now conditions) =
        pair s' T.server T.client c' wire' ∧ T.Alive { k with now := now } s' c' wire' := by
  obtain ⟨htimely, hpeer, hsent⟩ := ht
  have hnow := h.advance rfl htimely
  cases hl : wire[position]? with
  | none =>
    have hbeyond : wire.eraseIdx position = wire :=
      List.eraseIdx_of_length_le (List.getElem?_eq_none_iff.mp hl)
    have hnobody : (pair s T.server T.client c wire).happening? (.deliver position now conditions) =
        none := by
      rw [happening?, pair, hl]
      rfl
    rw [turn_of_no_happening hnobody, handle]
    refine ⟨s, c, wire, ?_, hnow⟩
    rw [Exchange.lose, pair, hbeyond]
  | some l =>
    by_cases hserver : l.recipient = T.server
    · have hhappens :
          (pair s T.server T.client c wire).happening? (.deliver position now conditions) =
          some ⟨.server, now, .datagram l.bytes l.sender, conditions .server⟩ := by
        have hat := stationAt?_server (pair s T.server T.client c wire)
        rw [happening?, pair, hl, Option.bind_some, hserver]
        exact congrArg (Option.map _) hat
      rw [turn_of_happening hhappens]
      exact ⟨_, _, _, pair_after_server now _ (conditions .server),
        hnow.server_hears hl (hpeer l hl hserver) (conditions .server) (hsent _ hhappens)⟩
    · by_cases hclient : l.recipient = T.client
      · have hhappens :
            (pair s T.server T.client c wire).happening? (.deliver position now conditions) =
            some ⟨.client 0, now, .datagram l.bytes l.sender, conditions (.client 0)⟩ := by
          have hat : (pair s T.server T.client c wire).stationAt? T.client = some (.client 0) :=
            pair_stationAt?_client T.distinct
          rw [happening?, pair, hl, Option.bind_some, hclient]
          exact congrArg (Option.map _) hat
        have hsender : l.sender = T.server := by
          rcases h.letters l (List.mem_of_getElem? hl) with hregular | hregular
          · exact absurd hregular.2.1 hserver
          · exact hregular.1
        rw [turn_of_happening hhappens]
        exact ⟨_, _, _, pair_after_client now _ (conditions (.client 0)),
          hnow.client_hears hl hsender hclient (conditions (.client 0))⟩
      · have hnobody :
            (pair s T.server T.client c wire).happening? (.deliver position now conditions) =
            none := by
          have hat : (pair s T.server T.client c wire).stationAt? l.recipient = none :=
            pair_stationAt?_nobody hserver hclient
          rw [happening?, pair, hl, Option.bind_some]
          exact congrArg (Option.map _) hat
        rw [turn_of_no_happening hnobody]
        exact ⟨s, c, _, rfl, hnow.lose hl (fun hp => hserver hp.2.1) fun hq => hclient hq.2.1⟩

theorem takeJobs (h : T.Alive k s c wire) (index : Nat) :
    ∃ s' c' wire', ((pair s T.server T.client c wire).takeJobs index).2 =
      pair s' T.server T.client c' wire' ∧
      T.Alive k s' c' wire' := by
  cases index with
  | zero =>
    exact ⟨s, { c with jobs := [] }, wire, rfl,
      { h with
        clientCodec := h.clientCodec
        keepalive := h.keepalive
        reconnectTimeout := h.reconnectTimeout
        server := h.server
        sessions := h.sessions }⟩
  | succ i => exact ⟨s, c, wire, rfl, h⟩

/-- What one turn of an orderly run preserves. -/
theorem turn (h : T.Alive k s c wire) {t : Turn}
    (ht : T.Allows T.slack k (pair s T.server T.client c wire) t) :
    ∃ s' c' wire', (pair s T.server T.client c wire).turn t = pair s' T.server T.client c' wire' ∧
      T.Alive (k.after t) s' c' wire' := by
  cases t with
  | happen happening => exact h.happen ht
  | deliver position now conditions => exact h.deliver ht
  | takeJobs index => exact h.takeJobs index
  | lose position => exact ht.elim
  | copy position => exact ht.elim

theorem run (h : T.Alive k s c wire) {ts : List Turn}
    (hts : T.Orderly T.slack k (pair s T.server T.client c wire) ts) :
    ∃ k' s' c' wire', ((pair s T.server T.client c wire).run ts).1 =
      pair s' T.server T.client c' wire' ∧
      T.Alive k' s' c' wire' := by
  induction ts generalizing k s c wire with
  | nil => exact ⟨k, s, c, wire, rfl, h⟩
  | cons t rest ih =>
    obtain ⟨ht, hrest⟩ := hts
    obtain ⟨s', c', wire', hturn, halive⟩ := h.turn ht
    rw [hturn] at hrest
    obtain ⟨k'', s'', c'', wire'', hrun, halive'⟩ := ih halive hrest
    refine ⟨k'', s'', c'', wire'', ?_, halive'⟩
    rw [← hrun, ← hturn]
    rfl

end Alive

end Tunnel

end PacketTunnel
