import PacketTunnel.Proofs.Client.Awaiting
import PacketTunnel.Proofs.Client.Provenance
import PacketTunnel.Proofs.Exchange.Handshake
import PacketTunnel.Proofs.Exchange.Keepalive
import PacketTunnel.Proofs.Server.Liveness

/-!
# A client that was forgotten

A server may be without a session that its client still believes in: the session expired, another
peer took its addresses, or the server was started anew. The client's next probe then is answered by
a farewell, at which the client gives up its link and the server's sessions stay as they are. The
tick after that is a login. Whatever the server advertises, sound or not, the client is established
with its addresses by the confirmation that comes first.
-/
namespace PacketTunnel

theorem Server.step_echoRequest_unknown {s : Server} {e : Endpoint}
    (hnone : s.sessions.find? e = none) {bytes : Bytes} {echo : Echo}
    (hd : s.codec.decode bytes = .ok (.echoRequest echo)) (k : Conditions) (now : Time) :
    (∃ counters, (engine.step k now (.datagram bytes e) s).1 = { s with counters := counters }) ∧
      (engine.step k now (.datagram bytes e) s).2 =
        Action.performAll s.codec k [.send .disconnect e] := by
  have hcontains : s.heard.sessions.contains e = false := by
    rw [SessionTable.contains_eq_isSome]
    exact congrArg Option.isSome hnone
  have hreact : s.react now (.datagram bytes e) =
      (s.heard.count fun n => { n with droppedUnknown := n.droppedUnknown + 1 },
        [.send .disconnect e]) := by
    rw [react, receive_of_decode hd, accept, if_neg (by simp [hcontains])]
  refine ⟨?_, by rw [step_emissions, hreact]⟩
  change ∃ counters, (Action.performAll s.codec k (s.react now (.datagram bytes e)).2).foldl credit
    (s.react now (.datagram bytes e)).1 = { s with counters := counters }
  rw [hreact]
  rcases Action.performAll_send_cases s.codec k .disconnect e with h | ⟨sent, -, -, h⟩
  · rw [h]
    exact ⟨_, rfl⟩
  · rw [h]
    have hsame := SessionTable.modify_of_find?_eq_none hnone fun x => x.recordSent sent.length
    refine ⟨{ s.counters with
      datagramsIn := s.counters.datagramsIn + 1
      droppedUnknown := s.counters.droppedUnknown + 1
      datagramsOut := s.counters.datagramsOut + 1 }, ?_⟩
    change { s with
      sessions := s.sessions.modify e fun x => x.recordSent sent.length
      counters := _ } = _
    rw [hsame]
    rfl

theorem Client.exists_step_probe {c : Client} {x : Session} {t now : Time}
    {assigned : Option VirtualAddresses} (hlink : c.link = .established x t assigned)
    (hidle : x.idle now ≤ c.options.reconnectTimeout)
    (hdue : x.keepaliveDue now c.options.keepalive = true) (calendar : UInt64) (k : Conditions) :
    ∃ counters link echo,
      (engine.step k now (.tick calendar) c).1 = { c with counters := counters, link := link } ∧
      (engine.step k now (.tick calendar) c).2 =
        Action.performAll c.codec k [.send (.echoRequest echo) c.server] := by
  have hreact : c.react now (.tick calendar) =
      ({ c with link := .established (x.nextEcho now calendar).1 t assigned },
        [.send (.echoRequest (x.nextEcho now calendar).2) c.server]) := by
    rw [react, tick]
    simp only [hlink, if_neg (Nat.not_lt.mpr hidle), if_pos hdue]
  obtain ⟨counters, f, hstep⟩ := exists_step c k now (.tick calendar)
  rw [hreact] at hstep
  exact ⟨counters, _, _, hstep, by rw [step_emissions, hreact]⟩

namespace Exchange

variable {s : Server} {e f : Endpoint} {c : Client}

/-- What holds after enough deliveries holds once nothing is left to deliver. -/
theorem of_drained {P : Exchange → Prop} {x : Exchange} {enough : Nat} {k : Station → Conditions}
    (hk : ∀ station, (k station).Sending)
    (h : ∀ ds : List (Time × (Station → Conditions)), (∀ d ∈ ds, ∀ station, (d.2 station).Sending) →
      enough ≤ ds.length → P (x.drain ds))
    {ds : List (Time × (Station → Conditions))} (hds : ∀ d ∈ ds, ∀ station, (d.2 station).Sending)
    (hempty : (x.drain ds).wire = []) : P (x.drain ds) := by
  have hmore := h (ds ++ List.replicate enough (0, k)) ?_ ?_
  · rw [drain_append, drain_of_empty hempty] at hmore
    exact hmore
  · intro d hd
    rcases List.mem_append.mp hd with hd | hd
    · exact hds d hd
    · rw [(List.mem_replicate.mp hd).2]
      exact hk
  · rw [List.length_append, List.length_replicate]
    omega

/-- The client has given up its link and has asked for no look-up, and the server has the sessions
that it had. -/
def LetGo (s : Server) (e : Endpoint) (c : Client) (x : Exchange) : Prop :=
  ∃ c', x.clients = [(e, c')] ∧ c'.link = .disconnected ∧ c'.assigned? = none ∧ c'.jobs = c.jobs ∧
    x.server.sessions = s.sessions

theorem drain_probe (hs : s.Reachable) (hroom : 64 ≤ s.codec.maxPayload)
    (hcodec : c.codec = s.codec) (hef : e ≠ c.server) (hnone : s.sessions.find? e = none)
    {bytes : Bytes} {echo : Echo} (hd : s.codec.decode bytes = .ok (.echoRequest echo))
    {ds : List (Time × (Station → Conditions))} (hk : ∀ d ∈ ds, ∀ station, (d.2 station).Sending)
    (hds : 2 ≤ ds.length) :
    ∃ counters counters', Server.Reachable { s with counters := counters } ∧
      (pair s c.server e c [⟨e, c.server, bytes⟩]).drain ds =
        pair { s with counters := counters } c.server e
          { c with counters := counters', link := .disconnected } [] := by
  cases ds with
  | nil => exact absurd hds (by simp)
  | cons d rest =>
    obtain ⟨⟨counters, hstep⟩, hemissions⟩ :=
      Server.step_echoRequest_unknown hnone hd (d.2 .server) d.1
    have hcarry := carry_farewell hs hroom (hk d List.mem_cons_self .server) c.server e
    have hreached := hs.step (d.2 .server) d.1 (.datagram bytes e)
    rw [← hcodec] at hcarry hemissions
    obtain ⟨counters', hdrain⟩ :=
      drain_farewell (s := { s with counters := counters }) hef rfl hcarry
        (Nat.le_of_succ_le_succ hds)
    refine ⟨counters, counters', hstep ▸ hreached, ?_⟩
    rw [drain_cons, pair_turn_to_server, pair_after_server, List.nil_append, hstep, hemissions,
      hdrain]

/-- A letter of the server that can do nothing but teach its client routes. -/
def IsAdvert (codec : Codec) (f e : Endpoint) (l : Letter) : Prop :=
  l.sender = f ∧ l.recipient = e ∧ ∀ m, codec.decode l.bytes = .ok m → m.kind = .routeAdvertise

theorem drain_adverts (hef : e ≠ f) (hserver : c.server = f) {x : Session} {t : Time}
    {assigned : Option VirtualAddresses} (hlink : c.link = .established x t assigned)
    {letters : List Letter} (hletters : ∀ l ∈ letters, IsAdvert c.codec f e l)
    {ds : List (Time × (Station → Conditions))} (hds : letters.length ≤ ds.length) :
    ∃ c' x', (pair s f e c letters).drain ds = pair s f e c' [] ∧
      c'.link = .established x' t assigned := by
  induction letters generalizing c x ds with
  | nil => exact ⟨c, x, drain_of_empty rfl ds, hlink⟩
  | cons l later ih =>
    cases ds with
    | nil => exact absurd hds (by simp)
    | cons d rest =>
      subst hserver
      obtain ⟨sender, recipient, bytes⟩ := l
      obtain ⟨rfl, rfl, hkind⟩ := hletters _ List.mem_cons_self
      obtain ⟨c₁, x₁, hstep, hcodec, hserver₁, hlink₁⟩ : ∃ c₁ x₁,
          Client.engine.step (d.2 (.client 0)) d.1 (.datagram bytes c.server) c = (c₁, []) ∧
            c₁.codec = c.codec ∧ c₁.server = c.server ∧ c₁.link = .established x₁ t assigned := by
        cases hd : c.codec.decode bytes with
        | error r =>
          obtain ⟨counters, hreact⟩ := Client.react_rejected d.1 c.server (.inr ⟨r, hd⟩)
          exact ⟨_, x, Client.step_of_silent hreact _, rfl, rfl, hlink⟩
        | ok m =>
          have hm := hkind m hd
          cases m with
          | routeAdvertise routes =>
            obtain ⟨counters, jobs, hstep⟩ :=
              Client.step_routeAdvertise (c := c) (by rw [hlink]; rfl)
                (by rw [hlink]; rfl) d.1 hd (d.2 (.client 0))
            have hassigned : c.assigned? = assigned := by rw [Client.assigned?, hlink]; rfl
            rw [hassigned] at hstep
            exact ⟨_, _, hstep, rfl, rfl, rfl⟩
          | _ => cases hm
      rw [drain_cons, pair_turn_to_client hef, pair_after_client, hstep, List.filterMap_nil,
        List.append_nil]
      rw [← hcodec] at hletters
      exact ih hserver₁ hlink₁ (fun l hl => hletters l (List.mem_cons_of_mem _ hl))
        (Nat.le_of_succ_le_succ hds)

theorem exists_letters_welcome (hlimit : s.codec.maxPayload ≤ 65535)
    (hroom : 64 ≤ s.codec.maxPayload) {k : Conditions} (hk : k.Sending)
    (sender recipient : Endpoint) (assigned : VirtualAddresses) :
    ∃ bytes later,
      (Action.performAll s.codec k ((s.welcome assigned).map (.send · recipient))).filterMap
        (letter? sender) = ⟨sender, recipient, bytes⟩ :: later ∧
      s.codec.decode bytes = .ok (.clientLogin assigned) ∧ later.length ≤ s.routes.routes.length ∧
      ∀ l ∈ later, IsAdvert s.codec sender recipient l := by
  obtain ⟨parts, hwelcome, -, hparts, -⟩ := exists_welcome (s := s) hroom assigned
  have hshort := Message.length_encodeBody_clientLogin assigned
  obtain ⟨bytes, hbytes⟩ :=
    Codec.exists_encode_of_short hroom (k.vector 0) (m := .clientLogin assigned) (by omega)
  have hback := Codec.decode_encode (m := .clientLogin assigned) hlimit trivial hbytes
  have hfirst : (Action.send (.clientLogin assigned) recipient).perform? s.codec k 0 =
      some (.datagram (.clientLogin assigned) bytes recipient) := by
    simp only [Action.perform?, hbytes, hk 0, if_true]
  refine ⟨bytes, (Action.performAll s.codec k.later ((parts.map Message.routeAdvertise).map
    (.send · recipient))).filterMap (letter? sender), ?_, hback, ?_, fun l hl => ?_⟩
  · rw [hwelcome, List.map_cons, Action.performAll_cons, hfirst]
    rfl
  · refine Nat.le_trans (List.length_filterMap_le _ _)
      (Nat.le_trans (Action.length_performAll_le _ _ _) ?_)
    rw [List.length_map, List.length_map]
    exact hparts
  · obtain ⟨hsender, m, iv, hsend, hencode⟩ := exists_send_of_mem hl
    obtain ⟨m', hm', hsame⟩ := List.mem_map.mp hsend
    obtain ⟨part, -, rfl⟩ := List.mem_map.mp hm'
    cases hsame
    exact ⟨hsender, rfl, fun m hm => Codec.kind_of_decode_encode hencode hm⟩

/-- The client is established with the addresses of its session on the server if the server has any
address for it, and otherwise neither has anything of the other. -/
def TakenBack (s : Server) (e : Endpoint) (c : Client) (x : Exchange) : Prop :=
  ∃ c', x.clients = [(e, c')] ∧
    (¬ s.NoAddress c.options.requested e → ∃ y session lastLogin,
      x.server.sessions.find? e = some y ∧
      c'.link = .established session lastLogin (some y.addresses)) ∧
    (s.NoAddress c.options.requested e → x.server.sessions.find? e = none ∧ c'.link = .disconnected)

theorem takenBack_of_drain (hs : s.Reachable) (hroom : 64 ≤ s.codec.maxPayload) {c₁ : Client}
    (hef : e ≠ c₁.server) (hcodec : c₁.codec = s.codec) {x : Session} {t : Time}
    (hlink : c₁.link = .loginSent x t) {bytes : Bytes}
    (hd : s.codec.decode bytes = .ok (.clientLogin c.options.requested))
    {ds : List (Time × (Station → Conditions))} (hk : ∀ d ∈ ds, ∀ station, (d.2 station).Sending)
    (hds : 2 + s.routes.routes.length ≤ ds.length) :
    ((pair s c₁.server e c₁ [⟨e, c₁.server, bytes⟩]).drain ds).wire = [] ∧
      TakenBack s e c ((pair s c₁.server e c₁ [⟨e, c₁.server, bytes⟩]).drain ds) := by
  cases ds with
  | nil => exact absurd hds (by simp)
  | cons d ds =>
    rw [List.length_cons] at hds
    have hsending := hk d List.mem_cons_self .server
    rw [drain_cons, pair_turn_to_server, pair_after_server, List.nil_append]
    by_cases hnone : s.NoAddress c.options.requested e
    · obtain ⟨hgone, hemissions⟩ := Server.step_login_refused hd hnone (d.2 .server) d.1
      have hcarry := carry_farewell hs hroom hsending c₁.server e
      rw [hemissions]
      rw [← hcodec] at hcarry ⊢
      obtain ⟨counters, hdrain⟩ := drain_farewell hef rfl hcarry (by omega : 1 ≤ ds.length)
      rw [hdrain]
      exact ⟨rfl, _, rfl, fun hsome => absurd hnone hsome, fun _ => ⟨hgone, rfl⟩⟩
    · obtain ⟨⟨y, hy, haddresses, -⟩, hemissions⟩ :=
        Server.step_login_accepted hs.sound.toIndexed hd hnone (d.2 .server) d.1
      obtain ⟨confirmation, later, hletters, hconfirmed, hlength, hadverts⟩ :=
        exists_letters_welcome hs.maxPayload_le hroom hsending c₁.server e
          (s.assign c.options.requested e)
      rw [hemissions, hletters]
      rw [← hcodec] at hconfirmed hadverts
      cases ds with
      | nil =>
        rw [List.length_nil] at hds
        omega
      | cons d' rest =>
        rw [List.length_cons] at hds
        have hrest : later.length ≤ rest.length := by omega
        obtain ⟨counters, hstep⟩ :=
          Client.step_clientLogin (c := c₁) (by rw [hlink]; rfl) (by rw [hlink]; rfl)
            d'.1 hconfirmed (d'.2 (.client 0))
        rw [drain_cons, pair_turn_to_client hef, pair_after_client, hstep, List.filterMap_nil,
          List.append_nil]
        let c₂ : Client :=
          { c₁ with
            counters := counters
            link := .established (x.touch d'.1 confirmation.length) t
              (some (s.assign c.options.requested e)) }
        obtain ⟨c', x', hdrain, hlink'⟩ := drain_adverts (c := c₂) hef rfl rfl hadverts hrest
        rw [hdrain]
        refine ⟨rfl, c', rfl, fun _ => ⟨y, x', t, hy, ?_⟩, fun hsome => absurd hsome hnone⟩
        rw [haddresses]
        exact hlink'

theorem login_settled (hs : s.Reachable) (hroom : 64 ≤ s.codec.maxPayload)
    (hcodec : c.codec = s.codec) (hlink : c.link = .disconnected) (hef : e ≠ c.server) (now : Time)
    (calendar : UInt64) {k : Conditions} (hk : k.Sending)
    {ds : List (Time × (Station → Conditions))} (hds : ∀ d ∈ ds, ∀ station, (d.2 station).Sending) :
    let x := (pair s c.server e c []).turn (.happen ⟨.client 0, now, .tick calendar, k⟩)
    (2 + s.routes.routes.length ≤ ds.length → (x.drain ds).wire = []) ∧
      ((x.drain ds).wire = [] → TakenBack s e c (x.drain ds)) := by
  obtain ⟨c₁, x, bytes, hlogin, hd, hcodec₁, hserver₁, -, hlink₁⟩ :=
    exists_after_login (s := s) (e := e) hlink
      (by rw [hcodec]; exact hs.maxPayload_le) (by rw [hcodec]; exact hroom) now calendar hk
  rw [hcodec] at hd hcodec₁
  rw [← hserver₁] at hef hlogin
  have hlong (ds : List (Time × (Station → Conditions))) (hds : ∀ d ∈ ds, ∀ station,
      (d.2 station).Sending) (henough : 2 + s.routes.routes.length ≤ ds.length) :=
    takenBack_of_drain hs hroom hef hcodec₁ hlink₁ hd hds henough
  dsimp only
  rw [hserver₁.symm, hlogin]
  exact ⟨fun henough => (hlong ds hds henough).1, fun hempty =>
    of_drained (fun _ => hk) (fun ds hds henough => (hlong ds hds henough).2) hds hempty⟩

/-- An established client of a server that has no session for it, at a tick at which its probe is
due, gives up its link once everything is delivered; the server keeps its sessions. Once everything
is delivered that follows from the client's next tick, whenever it comes, the client is back with
the addresses of its session, or the server has no address for it. -/
theorem forgotten_client_recovers {s : Server} (hs : s.Reachable) {p : Protection} {mtu : UInt64}
    (hcodec : s.codec = .ofMtu p mtu) (hmtu : mtu.toNat + 64 < 2 ^ 64) {e : Endpoint}
    (hnone : s.sessions.find? e = none) {c : Client} (hc : c.codec = s.codec) (he : e ≠ c.server)
    {x : Session} {t : Time} {assigned : Option VirtualAddresses}
    (hlink : c.link = .established x t assigned) {now : Time}
    (hidle : x.idle now ≤ c.options.reconnectTimeout)
    (hdue : x.keepaliveDue now c.options.keepalive = true) (calendar : UInt64) {k : Conditions}
    (hk : k.Sending) {ds : List (Time × (Station → Conditions))}
    (hds : ∀ d ∈ ds, ∀ station, (d.2 station).Sending) :
    let probed := (pair s c.server e c []).turn (.happen ⟨.client 0, now, .tick calendar, k⟩)
    (2 ≤ ds.length → (probed.drain ds).wire = []) ∧
      ((probed.drain ds).wire = [] → LetGo s e c (probed.drain ds) ∧
        ∀ (now' : Time) (calendar' : UInt64) (k' : Conditions)
          (ds' : List (Time × (Station → Conditions))),
          k'.Sending → (∀ d ∈ ds', ∀ station, (d.2 station).Sending) →
          let back := (probed.drain ds).turn (.happen ⟨.client 0, now', .tick calendar', k'⟩)
          (2 + s.routes.routes.length ≤ ds'.length → (back.drain ds').wire = []) ∧
            ((back.drain ds').wire = [] → TakenBack s e c (back.drain ds'))) := by
  have hroom : 64 ≤ s.codec.maxPayload := by
    rw [hcodec]
    exact Codec.room_of_ofMtu p hmtu
  obtain ⟨counters, link, echo, hstep, hemissions⟩ :=
    Client.exists_step_probe hlink hidle hdue calendar k
  have hshort : (Message.echoRequest echo).encodeBody.length < 48 := by
    rw [Message.encodeBody, Message.encodeEcho, List.length_append, Bytes.length_ofNat,
      Bytes.length_ofNat]
    decide
  obtain ⟨bytes, hbytes⟩ :=
    Codec.exists_encode_of_short (c := c.codec) (by rw [hc]; exact hroom) (k.vector 0) hshort
  have hd := Codec.decode_encode (c := c.codec) (m := .echoRequest echo)
    (by rw [hc]; exact hs.maxPayload_le) trivial hbytes
  rw [Action.performAll_send hbytes, if_pos (hk 0)] at hemissions
  let c₁ : Client := { c with counters := counters, link := link }
  have hprobed : (pair s c.server e c []).turn (.happen ⟨.client 0, now, .tick calendar, k⟩) =
      pair s c₁.server e c₁ [⟨e, c₁.server, bytes⟩] := by
    change (pair s c.server e c []).after ⟨.client 0, now, .tick calendar, k⟩ = _
    rw [pair_after_client, hstep, hemissions]
    rfl
  have hlong (ds : List (Time × (Station → Conditions))) (hds : ∀ d ∈ ds, ∀ station,
      (d.2 station).Sending) (henough : 2 ≤ ds.length) :=
    drain_probe (c := c₁) hs hroom hc he hnone (hc ▸ hd) hds henough
  dsimp only
  rw [hprobed]
  refine ⟨fun henough => ?_, fun hempty => ?_⟩
  · obtain ⟨n, n', -, hdrain⟩ := hlong ds hds henough
    rw [hdrain]
    rfl
  · obtain ⟨n, n', hreached, hdrain⟩ :=
      of_drained (P := fun y => ∃ n n', Server.Reachable { s with counters := n } ∧
        y = pair { s with counters := n } c₁.server e
          { c₁ with counters := n', link := .disconnected } [])
        (fun _ => hk) hlong hds hempty
    rw [hdrain]
    refine ⟨⟨_, rfl, rfl, rfl, rfl, rfl⟩, fun now' calendar' k' ds' hk' hds' => ?_⟩
    obtain ⟨hend, hback⟩ := login_settled (s := { s with counters := n })
      (c := { c₁ with counters := n', link := .disconnected }) hreached hroom hc rfl he now'
      calendar' hk' hds'
    have hsame : Server.NoAddress { s with counters := n } c.options.requested e ↔
        s.NoAddress c.options.requested e :=
      Server.assign_isEmpty_iff.symm.trans (Server.assign_isEmpty_iff (s := s))
    refine ⟨hend, fun hempty' => ?_⟩
    obtain ⟨c', hclients, hgiven, hrefused⟩ := hback hempty'
    exact ⟨c', hclients, fun h => hgiven fun h' => h (hsame.mp h'), fun h => hrefused (hsame.mpr h)⟩

/-- The newcomer, welcomed by a hub that is started anew afterwards. -/
def bereft : Client := (Client.engine.serve .newcomer Client.welcomed).1

def bereftSession : Session :=
  ⟨Client.newcomer.server, .empty, 0, 1, none, 1, none, [], ⟨1, 27⟩, ⟨1, 23⟩⟩

/-- What the hub and the newcomer have come to once the answers to its probe are delivered. -/
def probedAnew : Exchange :=
  ((pair hub bereft.server (Server.caller 1) bereft []).turn
    (.happen ⟨.client 0, 20000, .tick 0, Conditions.fair⟩)).drain
      (List.replicate 2 (20000, fun _ => Conditions.fair))

theorem forgotten_client_recovers_hub :
    hub.Reachable ∧ hub.sessions.find? (Server.caller 1) = none ∧
      bereft.link = .established bereftSession 0 (some ⟨some 0x0a070002, none⟩) ∧
      LetGo hub (Server.caller 1) bereft probedAnew ∧
      TakenBack hub (Server.caller 1) bereft
        ((probedAnew.turn (.happen ⟨.client 0, 20500, .tick 0, Conditions.fair⟩)).drain
          (List.replicate 4 (20500, fun _ => Conditions.fair))) := by
  have hlink : bereft.link = .established bereftSession 0 (some ⟨some 0x0a070002, none⟩) := by
    decide +kernel
  have hfair : Conditions.fair.Sending := fun _ => rfl
  have hsending (n : Nat) (now : Time) :
      ∀ d ∈ List.replicate n (now, fun _ : Station => Conditions.fair), ∀ station,
        (d.2 station).Sending := by
    intro d hd station
    rw [(List.mem_replicate.mp hd).2]
    exact hfair
  have hidle : bereftSession.idle 20000 ≤ bereft.options.reconnectTimeout := by decide +kernel
  have hdue : bereftSession.keepaliveDue 20000 bereft.options.keepalive = true := by decide +kernel
  have hrecovers :=
    forgotten_client_recovers reachable_hub (p := .clear) rfl (by decide) (e := Server.caller 1)
      rfl (c := bereft) (by decide +kernel) (by decide +kernel) hlink hidle hdue 0 hfair
      (hsending 2 20000)
  obtain ⟨hletGo, hnext⟩ := hrecovers.2 (hrecovers.1 (by decide))
  have hback :=
    hnext 20500 0 Conditions.fair (List.replicate 4 (20500, fun _ => Conditions.fair)) hfair
      (hsending 4 20500)
  exact ⟨reachable_hub, rfl, hlink, hletGo, hback.2 (hback.1 (by decide))⟩

/-- A codec in clear text whose limit has started over and come to eight bytes, enough for a login
and for its confirmation and too little for a probe. -/
def slimCodec : Codec := .ofMtu .clear 0xffffffffffffffc8

def slimServer : Server :=
  (Server.engine.run (.start slimCodec .empty Server.poolOptions 0) Server.forgotten).1

def slimClient : Client :=
  (Client.engine.serve { Client.newcomer with codec := slimCodec } Client.welcomed).1

/-- With such a limit the probe is not sent: the client does not learn that it was forgotten. -/
theorem slim_probe_unsent :
    slimServer.Reachable ∧ slimClient.Reachable ∧ slimServer.codec = slimCodec ∧
      slimClient.codec = slimCodec ∧
      slimServer.sessions.find? (Server.caller 1) = none ∧
      slimClient.link = .established bereftSession 0 (some ⟨some 0x0a070002, none⟩) ∧
      bereftSession.idle 40000 ≤ slimClient.options.reconnectTimeout ∧
      bereftSession.keepaliveDue 40000 slimClient.options.keepalive = true ∧
      let probed := (pair slimServer slimClient.server (Server.caller 1) slimClient []).turn
        (.happen ⟨.client 0, 40000, .tick 0, Conditions.fair⟩)
      probed.wire = [] ∧ ¬ LetGo slimServer (Server.caller 1) slimClient probed := by
  have hreachable : slimClient.Reachable :=
    ((Client.Reachable.start slimCodec .empty Client.newcomer.options 0).step Conditions.fair 0
      (.tick 0)).step Conditions.fair 1 (.datagram Client.confirmation Client.newcomer.server)
  refine ⟨⟨.clear, _, _, _, 0, Server.forgotten, rfl⟩, hreachable, by decide +kernel,
    by decide +kernel, by decide +kernel, by decide +kernel, by decide +kernel, by decide +kernel,
    by decide +kernel, ?_⟩
  rintro ⟨c', hclients, hlink, -⟩
  obtain rfl := (Prod.mk.inj (List.cons.inj hclients).1).2
  revert hlink
  decide +kernel

end Exchange

end PacketTunnel
