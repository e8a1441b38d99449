import PacketTunnel.Proofs.Client.Awaiting
import PacketTunnel.Proofs.Configuration
import PacketTunnel.Proofs.Exchange.Handshake
import PacketTunnel.Proofs.Exchange.Keepalive
import PacketTunnel.Proofs.Server.Login

/-!
# A tunnel that has logged in stays up

After a login that has succeeded both ends were heard since the tick at which the client logged in,
and the client has not probed yet. From there an orderly run keeps both sessions, as long as a
keepalive interval and the slack fit into the two times after which an end gives up.
-/
namespace PacketTunnel

namespace Exchange

variable {s : Server} {f e : Endpoint} {c : Client}

/-- A letter of the server that a client with an open login may get. -/
def IsReply (codec : Codec) (f e : Endpoint) (welcomed : Prop) (l : Letter) : Prop :=
  l.sender = f ∧ l.recipient = e ∧
    ∀ m, codec.decode l.bytes = .ok m →
      m = .disconnect ∨ welcomed ∧ (m.kind = .clientLogin ∨ m.kind = .routeAdvertise)

/-- The server answers a login with replies; if they welcome the client, it has just been heard. -/
theorem isReply_of_login (hs : s.sessions.Indexed) {bytes : Bytes} {v : VirtualAddresses}
    (hd : s.codec.decode bytes = .ok (.clientLogin v)) (k : Conditions) (now : Time) {l : Letter}
    (hl : l ∈ (Server.engine.step k now (.datagram bytes e) s).2.filterMap (letter? f)) :
    IsReply s.codec f e
      (∃ y, (Server.engine.step k now (.datagram bytes e) s).1.sessions.find? e = some y ∧
        y.lastReceived = now) l := by
  by_cases hnone : s.NoAddress v e
  · obtain ⟨-, hemissions⟩ := Server.step_login_refused hd hnone k now
    rw [hemissions] at hl
    obtain ⟨hsender, m, iv, hsend, hbytes⟩ := exists_send_of_mem hl
    cases List.mem_singleton.mp hsend
    refine ⟨hsender, rfl, fun m' hm' => .inl ?_⟩
    have hkind := Codec.kind_of_decode_encode hbytes hm'
    cases m' <;> cases hkind
    rfl
  · obtain ⟨⟨y, hy, -, hheard⟩, hemissions⟩ := Server.step_login_accepted hs hd hnone k now
    rw [hemissions] at hl
    obtain ⟨hsender, m, iv, hsend, hbytes⟩ := exists_send_of_mem hl
    obtain ⟨m', hm', hsame⟩ := List.mem_map.mp hsend
    cases hsame
    refine ⟨hsender, rfl, fun m' hm'' => .inr ⟨⟨y, hy, hheard⟩, ?_⟩⟩
    rw [Codec.kind_of_decode_encode hbytes hm'']
    exact Server.kind_of_mem_welcome hm'

theorem drain_replies (hef : e ≠ f) {c₀ : Client} (hserver : c₀.server = f) {t₀ t₁ : Time}
    {welcomed : Prop} (h : c₀.Awaiting t₀ t₁ welcomed c) {letters : List Letter}
    (hletters : ∀ l ∈ letters, IsReply c₀.codec f e welcomed l)
    {ds : List (Time × (Station → Conditions))} (hds : ∀ d ∈ ds, t₀ ≤ d.1 ∧ d.1 ≤ t₁) :
    ∃ c' letters', (pair s f e c letters).drain ds = pair s f e c' letters' ∧
      c₀.Awaiting t₀ t₁ welcomed c' := by
  induction ds generalizing c letters with
  | nil => exact ⟨c, letters, rfl, h⟩
  | cons d rest ih =>
    cases letters with
    | nil => exact ⟨c, [], drain_of_empty rfl _, h⟩
    | cons l later =>
      obtain ⟨sender, recipient, bytes⟩ := l
      obtain ⟨rfl, rfl, hkind⟩ := hletters _ List.mem_cons_self
      obtain ⟨hfrom, hto⟩ := hds d List.mem_cons_self
      have hserver' : c.server = sender := h.server.trans hserver
      rw [← h.codec] at hkind
      obtain ⟨c', hstep, hawaiting⟩ := Client.awaiting_step h hkind hfrom hto (d.2 (.client 0))
      rw [hserver'] at hstep
      rw [drain_cons, pair_turn_to_client hef, pair_after_client, hstep, List.filterMap_nil,
        List.append_nil]
      exact ih hawaiting (fun l hl => hletters l (List.mem_cons_of_mem _ hl))
        fun d hd => hds d (List.mem_cons_of_mem _ hd)

theorem login_letters (hlimit : c.codec.maxPayload ≤ 65535) (h : c.link.Pending) (now : Time)
    (calendar : UInt64) (k : Conditions) :
    (Client.engine.step k now (.tick calendar) c).2.filterMap (letter? e) = [] ∨
      ∃ bytes, (Client.engine.step k now (.tick calendar) c).2.filterMap (letter? e) =
          [⟨e, c.server, bytes⟩] ∧
        c.codec.decode bytes = .ok (.clientLogin c.options.requested) := by
  rw [Client.step_emissions]
  rcases (Client.pending_react_tick h now calendar).2 with hactions | hactions
  · rw [hactions]
    exact .inl rfl
  · rw [hactions]
    cases hencode : c.codec.encode (k.vector 0) (.clientLogin c.options.requested) with
    | error r =>
      refine .inl ?_
      simp [Action.performAll, Action.perform?, hencode]
    | ok bytes =>
      rw [Action.performAll_send hencode]
      split
      · have hback :=
          Codec.decode_encode (m := .clientLogin c.options.requested) hlimit trivial hencode
        exact .inr ⟨bytes, rfl, hback⟩
      · exact .inl rfl

end Exchange

open Exchange

namespace Line

variable {L : Line} {k : Clock} {s s₀ : Server} {c c₀ : Client} {x y : Session}

/-- A server and a client of it that is not established, in any states that they can be in. -/
structure Ready (L : Line) (s : Server) (c : Client) : Prop where
  distinct : L.client ≠ L.server
  reachable : s.Reachable
  reachableClient : c.Reachable
  serverCodec : s.codec = L.codec
  clientCodec : c.codec = L.codec
  server : c.server = L.server
  closed : ∀ x t assigned, c.link ≠ .established x t assigned

structure Up (L : Line) (k : Clock) (s : Server) (c : Client) (x y : Session) : Prop where
  ticked : k.lastTick ≤ k.now
  reachable : s.Reachable
  serverCodec : s.codec = L.codec
  clientCodec : c.codec = L.codec
  server : c.server = L.server
  session : s.sessions.find? L.client = some y
  serverHeard : k.lastTick ≤ y.lastReceived
  clientHeard : k.lastTick ≤ x.lastReceived
  unprobed : x.lastKeepalive = none

theorem Ready.up (h : L.Ready s₀ c₀) {calendar : UInt64} {conditions : Conditions}
    {ds : List (Time × (Station → Conditions))} (hds : ∀ d ∈ ds, k.lastTick ≤ d.1 ∧ d.1 ≤ k.now)
    (hlogin : ((pair s₀ L.server L.client c₀ []).turn
      (.happen ⟨.client 0, k.lastTick, .tick calendar, conditions⟩)).drain ds =
        pair s L.server L.client c [])
    {t : Time} {assigned : Option VirtualAddresses} (hup : c.link = .established x t assigned) :
    ∃ y, L.Up k s c x y := by
  have hpending := h.reachableClient.unprobed.pending h.closed
  obtain ⟨hpending', hawaiting⟩ := Client.pending_tick hpending k.lastTick calendar conditions
  have hlimit : c₀.codec.maxPayload ≤ 65535 := by
    rw [h.clientCodec, ← h.serverCodec]
    exact h.reachable.maxPayload_le
  have hturn : (pair s₀ L.server L.client c₀ []).turn
      (.happen ⟨.client 0, k.lastTick, .tick calendar, conditions⟩) =
        pair s₀ L.server L.client (Client.engine.step conditions k.lastTick (.tick calendar) c₀).1
          ((Client.engine.step conditions k.lastTick (.tick calendar) c₀).2.filterMap
            (letter? L.client)) :=
    pair_after_client k.lastTick (.tick calendar) conditions
  rw [hturn] at hlogin
  -- Unless the login got onto the wire, the client would not be established now.
  rcases login_letters (e := L.client) hlimit hpending k.lastTick calendar conditions with
    hletters | ⟨bytes, hletters, hdecode⟩
  · rw [hletters, drain_of_empty rfl] at hlogin
    obtain ⟨-, rfl, -⟩ := pair_inj hlogin
    exact absurd hup (Link.ne_established_of_pending hpending')
  · rw [hletters, h.server] at hlogin
    cases ds with
    | nil =>
      obtain ⟨-, -, hwire⟩ := pair_inj hlogin
      cases hwire
    | cons d rest =>
      obtain ⟨hfrom, hto⟩ := hds d List.mem_cons_self
      have hcodec : c₀.codec = s₀.codec := h.clientCodec.trans h.serverCodec.symm
      have hreplies := fun l =>
        isReply_of_login (f := L.server) (e := L.client) (l := l) h.reachable.sound.toIndexed
          (hcodec ▸ hdecode) (d.2 .server) d.1
      rw [← hcodec] at hreplies
      rw [drain_cons, pair_turn_to_server, pair_after_server, List.nil_append] at hlogin
      obtain ⟨c', letters, hdrain, hawaited⟩ := drain_replies h.distinct h.server
        (hawaiting k.lastTick k.now _) hreplies fun d' hd' => hds d' (List.mem_cons_of_mem d hd')
      rw [hdrain] at hlogin
      obtain ⟨rfl, rfl, -⟩ := pair_inj hlogin
      obtain ⟨⟨y, hy, hheard⟩, hclient, -⟩ := hawaited.heard x t assigned hup
      have hsetup := Server.sameSetup_step s₀ (d.2 .server) d.1 (.datagram bytes L.client)
      exact ⟨y,
        { ticked := Nat.le_trans hfrom hto
          reachable := h.reachable.step (d.2 .server) d.1 (.datagram bytes L.client)
          serverCodec := hsetup.codec.trans h.serverCodec
          clientCodec := hawaited.codec.trans h.clientCodec
          server := hawaited.server.trans h.server
          session := hy
          serverHeard := hheard ▸ hfrom
          clientHeard := hclient
          unprobed := hawaited.unprobed x (by rw [hup]; rfl) }⟩

/-- A login of a ready client, from the clock's last tick until now: it has succeeded, and nothing
is under way. -/
def LoggedIn (L : Line) (k : Clock) (s : Server) (c : Client) : Prop :=
  (∃ x t assigned, c.link = .established x t assigned) ∧
    ∃ s₀ c₀ calendar conditions ds, L.Ready s₀ c₀ ∧ (∀ d ∈ ds, k.lastTick ≤ d.1 ∧ d.1 ≤ k.now) ∧
      ((pair s₀ L.server L.client c₀ []).turn
        (.happen ⟨.client 0, k.lastTick, .tick calendar, conditions⟩)).drain ds =
          pair s L.server L.client c []

def StaysUp (L : Line) (slack : Duration) (k : Clock) (s : Server) (c : Client) : Prop :=
  ∃ x t assigned y, c.link = .established x t assigned ∧ s.sessions.find? L.client = some y ∧
    ∀ ts, L.Orderly slack k (pair s L.server L.client c []) ts →
      ∃ s' c' wire x' y', ((pair s L.server L.client c []).run ts).1 =
        pair s' L.server L.client c' wire ∧
        c'.link = .established x' t assigned ∧ x.Same x' ∧
        s'.sessions.find? L.client = some y' ∧ y.Same y'

theorem Up.staysUp (h : L.Up k s c x y) (hdistinct : L.client ≠ L.server) {t : Time}
    {assigned : Option VirtualAddresses} (hlink : c.link = .established x t assigned)
    {slack : Duration} (hclose : k.now ≤ k.lastTick + slack)
    (hreconnects : c.options.keepalive + slack ≤ c.options.reconnectTimeout)
    (hexpires : c.options.keepalive + slack ≤ s.options.sessionExpiry) : L.StaysUp slack k s c := by
  have hlimit : L.codec.maxPayload ≤ 65535 := by
    rw [← h.serverCodec]
    exact h.reachable.maxPayload_le
  let T : Tunnel :=
    { L with
      interval := c.options.keepalive
      slack := slack
      reconnectTimeout := c.options.reconnectTimeout
      sessionExpiry := s.options.sessionExpiry
      lastLogin := t
      assigned := assigned
      clientSession := x
      serverSession := y
      distinct := hdistinct
      limit := hlimit
      reconnects := hreconnects
      expires := hexpires }
  have hpulse : Pulse T.interval T.slack k x.lastReceived y.lastReceived x.lastKeepalive
      (∃ l ∈ [], T.IsProbe l) (∃ l ∈ [], T.IsAnswer l) := by
    rw [h.unprobed]
    exact .start h.ticked hclose h.clientHeard h.serverHeard
  have halive : T.Alive k s c [] :=
    { serverCodec := h.serverCodec
      sessionExpiry := rfl
      sound := h.reachable.sound
      clientCodec := h.clientCodec
      keepalive := rfl
      reconnectTimeout := rfl
      server := h.server
      letters := fun l hl => by cases hl
      sessions := ⟨x, y, hlink, .refl x, h.session, .refl y, hpulse⟩ }
  refine ⟨x, t, assigned, y, hlink, h.session, fun ts hts => ?_⟩
  obtain ⟨k', s', c', wire, hrun, hend⟩ := halive.run hts
  obtain ⟨x', y', hlink', hsame, hy', hsame', -⟩ := hend.sessions
  exact ⟨s', c', wire, x', y', hrun, hlink', hsame, hy', hsame'⟩

/-- A tunnel that has just logged in keeps both sessions in every orderly run, when the client's
keepalive interval and the slack fit into both timeouts; for a slack of a second they do in all
accepted configurations with the same interval. -/
theorem tunnel_stays_up :
    (∀ (L : Line) (k : Clock) (s : Server) (c : Client) (slack : Duration), L.LoggedIn k s c →
      k.now ≤ k.lastTick + slack →
      c.options.keepalive + slack ≤ c.options.reconnectTimeout →
      c.options.keepalive + slack ≤ s.options.sessionExpiry → L.StaysUp slack k s c) ∧
    ∀ (ours theirs : Configuration) (interface interface' : String) (options : ClientOptions),
      ours.Accepted → theirs.Accepted → ours.keepalive = theirs.keepalive →
      ours.clientOptions interface = .ok options →
      options.keepalive + 1000 ≤ options.reconnectTimeout ∧
        options.keepalive + 1000 ≤ (theirs.serverOptions interface').sessionExpiry := by
  constructor
  · intro L k s c slack hlogged hclose hreconnects hexpires
    obtain ⟨⟨x, t, assigned, hlink⟩, s₀, c₀, calendar, conditions, ds, hready, hds, hlogin⟩ :=
      hlogged
    obtain ⟨y, hup⟩ := hready.up hds hlogin hlink
    exact hup.staysUp hready.distinct hlink hclose hreconnects hexpires
  · intro ours theirs interface interface' options hours htheirs hsame hoptions
    have hclient := hours.keepalive_le_reconnectTimeout hoptions
    have hserver := htheirs.keepalive_le_sessionExpiry hsame hoptions interface'
    exact ⟨hclient, hserver⟩

def toHub : Line := ⟨Server.caller 1, Client.newcomer.server, Client.newcomer.codec⟩

def greeted : Exchange :=
  ((pair hub toHub.server toHub.client .newcomer []).turn
    (.happen ⟨.client 0, 5, .tick 0, Conditions.fair⟩)).drain
      (List.replicate 4 (5, fun _ => Conditions.fair))

def greetedClient : Client := (greeted.clients.head?.map Prod.snd).getD .newcomer

/-- A packet from the newcomer's device, a probe, both on their way to the hub, the answer, and a
tick of the hub as late as it may come. -/
def afternoon : List Turn :=
  [.happen ⟨.client 0, 900, .packet [0x60], Conditions.fair⟩,
    .happen ⟨.client 0, 900, .tick 0, Conditions.fair⟩, .deliver 1 900 fun _ => Conditions.fair,
    .deliver 0 900 fun _ => Conditions.fair, .deliver 0 900 fun _ => Conditions.fair,
    .happen ⟨.server, 1900, .tick 0, Conditions.fair⟩]

theorem loggedIn_greeted : toHub.LoggedIn ⟨5, 5⟩ greeted.server greetedClient := by
  constructor
  · have hname : greetedClient.link.name = "established" := by decide +kernel
    cases hlink : greetedClient.link with
    | established x t assigned => exact ⟨x, t, assigned, rfl⟩
    | disconnected =>
      rw [hlink] at hname
      exact absurd hname (by decide)
    | loginSent x t =>
      rw [hlink] at hname
      exact absurd hname (by rw [Link.name]; decide)
  · have hready : toHub.Ready hub .newcomer :=
      { distinct := by decide
        reachable := reachable_hub
        reachableClient := .start _ _ _ _
        serverCodec := rfl
        clientCodec := rfl
        server := rfl
        closed := fun x t assigned hlink => by cases hlink }
    have htimes : ∀ d ∈ List.replicate 4 ((5 : Time), fun _ : Station => Conditions.fair),
        5 ≤ d.1 ∧ d.1 ≤ 5 := by
      intro d hd
      rw [(List.mem_replicate.mp hd).2]
      exact ⟨Nat.le_refl 5, Nat.le_refl 5⟩
    exact ⟨hub, .newcomer, 0, Conditions.fair, _, hready, htimes,
      eq_pair (by decide +kernel) (by decide +kernel) (by decide +kernel) .newcomer⟩

theorem tunnel_stays_up_greeted :
    toHub.LoggedIn ⟨5, 5⟩ greeted.server greetedClient ∧
      toHub.Orderly 1000 ⟨5, 5⟩ (pair greeted.server toHub.server toHub.client greetedClient [])
        afternoon ∧
      toHub.StaysUp 1000 ⟨5, 5⟩ greeted.server greetedClient ∧
      ∃ options,
        (Configuration.plain (.client (.v4 0xc6336464 4789) "198.51.100.100:4789")).clientOptions
        "vt0" = .ok options ∧
        options.keepalive + 1000 ≤ options.reconnectTimeout ∧
        options.keepalive + 1000 ≤
          ((Configuration.plain (.server (.v4 0xc6336464 4789))).serverOptions
            "vt0").sessionExpiry := by
  refine ⟨loggedIn_greeted, by decide +kernel, ?_, ?_⟩
  · exact tunnel_stays_up.1 toHub ⟨5, 5⟩ greeted.server greetedClient 1000 loggedIn_greeted
      (by decide) (by decide +kernel) (by decide +kernel)
  · exact ⟨_, rfl, tunnel_stays_up.2 _ _ "vt0" "vt0" _ Configuration.accepted_plain_client
      Configuration.accepted_plain_server rfl rfl⟩

end Line

end PacketTunnel
