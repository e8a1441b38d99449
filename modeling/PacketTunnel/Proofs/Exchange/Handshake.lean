import PacketTunnel.Proofs.Client.Hearing
import PacketTunnel.Proofs.Datagram.Advertising
import PacketTunnel.Proofs.Datagram.Canonical
import PacketTunnel.Proofs.Exchange.Pair
import PacketTunnel.Proofs.Server.Login

/-!
# Logging in

A client that has no link logs in at its next tick. When everything that is then sent arrives in
order, both ends agree: either the server has no address for the client, and neither knows of the
other, or the client is established with exactly the addresses of its session on the server and has
learnt, through however many advertisements, the routes that do not lead back to it. What is sent
must fit into a datagram; it does unless the sum of the MTU and the room beyond it starts over from
zero.
-/
namespace PacketTunnel

namespace Exchange

/-- Letters from one endpoint to another that decode to the given messages, in order. -/
inductive Carry (codec : Codec) (sender recipient : Endpoint) : List Letter → List Message → Prop
  | nil : Carry codec sender recipient [] []
  | cons {bytes : Bytes} {m : Message} {letters : List Letter} {ms : List Message}
      (hd : codec.decode bytes = .ok m) (hrest : Carry codec sender recipient letters ms) :
      Carry codec sender recipient (⟨sender, recipient, bytes⟩ :: letters) (m :: ms)

theorem Carry.length_eq {codec : Codec} {sender recipient : Endpoint} {letters : List Letter}
    {ms : List Message} (h : Carry codec sender recipient letters ms) :
    letters.length = ms.length := by
  induction h with
  | nil => rfl
  | cons hd hrest ih => rw [List.length_cons, List.length_cons, ih]

theorem carry_performAll {codec : Codec} (hlimit : codec.maxPayload ≤ 65535) {k : Conditions}
    (hk : k.Sending) (sender recipient : Endpoint) (ms : List Message)
    (hms : ∀ m ∈ ms, m.Sound ∧ ∀ iv, ∃ d, codec.encode iv m = .ok d) :
    Carry codec sender recipient
      ((Action.performAll codec k (ms.map (.send · recipient))).filterMap (letter? sender)) ms := by
  unfold Action.performAll
  generalize 0 = position
  induction ms generalizing position with
  | nil => exact .nil
  | cons m rest ih =>
    obtain ⟨hsound, hfits⟩ := hms m List.mem_cons_self
    obtain ⟨bytes, hbytes⟩ := hfits (k.vector position)
    have hperform : (Action.send m recipient).perform? codec k position =
        some (.datagram m bytes recipient) := by
      simp only [Action.perform?, hbytes, hk position, if_true]
    have hrest := ih (fun m' hm' => hms m' (List.mem_cons_of_mem m hm')) (position + 1)
    rw [List.map_cons, List.zipIdx_cons, List.filterMap_cons]
    simp only [hperform, List.filterMap_cons, letter?]
    exact .cons (Codec.decode_encode hlimit hsound hbytes) hrest

variable {s : Server} {f e : Endpoint} {c : Client} {letters : List Letter}

theorem drain_advertisements (hef : e ≠ f) (hserver : c.server = f) {x : Session} {t : Time}
    {assigned : Option VirtualAddresses} (hlink : c.link = .established x t assigned)
    {parts : List (List Route)} (h : Carry c.codec f e letters (parts.map .routeAdvertise))
    {ds : List (Time × (Station → Conditions))} (hds : letters.length ≤ ds.length) :
    ∃ c' x', (pair s f e c letters).drain ds = pair s f e c' [] ∧
      c'.link = .established x' t assigned ∧ c'.routes = c.routes.insertAll parts.flatten := by
  induction parts generalizing c x letters ds with
  | nil =>
    cases h
    exact ⟨c, x, drain_of_empty rfl ds, hlink, rfl⟩
  | cons part rest ih =>
    cases h with
    | @cons bytes m later ms hd hrest =>
      cases ds with
      | nil =>
        rw [List.length_cons] at hds
        exact absurd hds (Nat.not_succ_le_zero _)
      | cons d ds =>
        subst hserver
        have hassigned : c.assigned? = assigned := by rw [Client.assigned?, hlink]; rfl
        obtain ⟨counters, jobs, hstep⟩ :=
          Client.step_routeAdvertise (c := c) (by rw [hlink]; rfl) (by rw [hlink]; rfl) d.1 hd
            (d.2 (.client 0))
        rw [hassigned] at hstep
        let c₁ : Client :=
          { c with
            counters := counters
            jobs := jobs
            link := .established (x.touch d.1 bytes.length) t assigned
            routes := c.routes.insertAll part }
        obtain ⟨c', x', hdrain, hlink', hroutes⟩ :=
          ih (c := c₁) rfl rfl hrest (Nat.le_of_succ_le_succ hds)
        rw [drain_cons, pair_turn_to_client hef, pair_after_client, hstep, List.filterMap_nil,
          List.append_nil]
        refine ⟨c', x', hdrain, hlink', hroutes.trans ?_⟩
        simp only [List.flatten_cons, RouteTable.insertAll, List.foldl_append, c₁]

/-- A client and a server agree on how a login of the client has ended: the server refuses it and
neither has anything of the other, or the client is established with the addresses of its session
and has learnt the server's routes that do not lead back to it. -/
def Agreed (s : Server) (e : Endpoint) (c : Client) (x : Exchange) : Prop :=
  ∃ c', x.clients = [(e, c')] ∧
    (s.NoAddress c.options.requested e ∧ x.server.sessions.find? e = none ∧
        c'.link = .disconnected ∧ c'.assigned? = none ∧ c'.routes = c.routes ∨
      ¬ s.NoAddress c.options.requested e ∧ ∃ y session lastLogin,
        x.server.sessions.find? e = some y ∧
        c'.link = .established session lastLogin (some y.addresses) ∧
        c'.routes = if s.options.advertise then c.routes.insertAll (s.usableBy y.addresses)
          else c.routes)

theorem exists_after_login (hc : c.link = .disconnected) (hlimit : c.codec.maxPayload ≤ 65535)
    (hroom : 64 ≤ c.codec.maxPayload) (now : Time) (calendar : UInt64) {k : Conditions}
    (hk : k.Sending) :
    ∃ c₁ x bytes, (pair s c.server e c []).turn (.happen ⟨.client 0, now, .tick calendar, k⟩) =
        pair s c.server e c₁ [⟨e, c.server, bytes⟩] ∧
      c.codec.decode bytes = .ok (.clientLogin c.options.requested) ∧
      c₁.codec = c.codec ∧ c₁.server = c.server ∧ c₁.routes = c.routes ∧
      c₁.link = .loginSent x now := by
  obtain ⟨⟨counters, g, hclient⟩, hemissions⟩ := Client.exists_step_login hc k now calendar
  have hshort := Message.length_encodeBody_clientLogin c.options.requested
  obtain ⟨bytes, hbytes⟩ := Codec.exists_encode_of_short hroom (k.vector 0)
    (m := .clientLogin c.options.requested) (by omega)
  rw [Action.performAll_send hbytes, if_pos (hk 0)] at hemissions
  have hback := Codec.decode_encode (m := .clientLogin c.options.requested) hlimit trivial hbytes
  refine ⟨(Client.engine.step k now (.tick calendar) c).1, (Session.start c.server now).recount g,
    bytes, ?_, hback, ?_⟩
  · change (pair s c.server e c []).after ⟨.client 0, now, .tick calendar, k⟩ = _
    rw [pair_after_client, hemissions]
    rfl
  · rw [hclient]
    exact ⟨rfl, rfl, rfl, rfl⟩

theorem drain_farewell (hef : e ≠ f) (hserver : c.server = f)
    (h : Carry c.codec f e letters [.disconnect]) {ds : List (Time × (Station → Conditions))}
    (hds : 1 ≤ ds.length) :
    ∃ counters, (pair s f e c letters).drain ds =
      pair s f e { c with counters := counters, link := .disconnected } [] := by
  subst hserver
  cases h with
  | @cons bytes m later ms hd hrest =>
    cases hrest
    cases ds with
    | nil => exact absurd hds (Nat.not_succ_le_zero _)
    | cons d ds =>
      obtain ⟨counters, hstep⟩ := Client.step_disconnect (c := c) d.1 hd (d.2 (.client 0))
      rw [drain_cons, pair_turn_to_client hef, pair_after_client, hstep, drain_of_empty rfl]
      exact ⟨counters, rfl⟩

theorem drain_welcome (hef : e ≠ f) (hserver : c.server = f) {x : Session} {t : Time}
    (hlink : c.link = .loginSent x t) {assigned : VirtualAddresses} {parts : List (List Route)}
    (h : Carry c.codec f e letters (.clientLogin assigned :: parts.map .routeAdvertise))
    {ds : List (Time × (Station → Conditions))} (hds : letters.length ≤ ds.length) :
    ∃ c' x', (pair s f e c letters).drain ds = pair s f e c' [] ∧
      c'.link = .established x' t (some assigned) ∧
      c'.routes = c.routes.insertAll parts.flatten := by
  subst hserver
  cases h with
  | @cons bytes m later ms hd hrest =>
    cases ds with
    | nil => exact absurd hds (Nat.not_succ_le_zero _)
    | cons d ds =>
      obtain ⟨counters, hstep⟩ :=
        Client.step_clientLogin (c := c) (by rw [hlink]; rfl) (by rw [hlink]; rfl)
          d.1 hd (d.2 (.client 0))
      let c₁ : Client :=
        { c with
          counters := counters
          link := .established (x.touch d.1 bytes.length) t (some assigned) }
      rw [drain_cons, pair_turn_to_client hef, pair_after_client, hstep, List.filterMap_nil,
        List.append_nil]
      exact drain_advertisements (c := c₁) hef rfl rfl hrest (Nat.le_of_succ_le_succ hds)

/-- The messages of a welcome: the addresses, and the usable routes in parts, all of which can be
sent. -/
theorem exists_welcome {s : Server} (hroom : 64 ≤ s.codec.maxPayload)
    (assigned : VirtualAddresses) :
    ∃ parts : List (List Route), s.welcome assigned = .clientLogin assigned ::
      parts.map .routeAdvertise ∧
      parts.flatten = (if s.options.advertise then s.usableBy assigned else []) ∧
      parts.length ≤ s.routes.routes.length ∧
      ∀ part ∈ parts, ∀ iv, ∃ d, s.codec.encode iv (.routeAdvertise part) = .ok d := by
  cases hadvertise : s.options.advertise with
  | false =>
    refine ⟨[], ?_, rfl, Nat.zero_le _, fun part hpart => by cases hpart⟩
    rw [Server.welcome, hadvertise]
    rfl
  | true =>
    obtain ⟨parts, hparts, hflatten, hlength, -, hfits⟩ :=
      Codec.exists_advertisements hroom (s.usableBy assigned)
    refine ⟨parts, ?_, hflatten, Nat.le_trans hlength (List.length_filter_le _ _), hfits⟩
    rw [Server.welcome, hadvertise, if_pos rfl, hparts]

theorem carry_farewell {s : Server} (hs : s.Reachable) (hroom : 64 ≤ s.codec.maxPayload)
    {k : Conditions} (hk : k.Sending) (sender recipient : Endpoint) :
    Carry s.codec sender recipient
      ((Action.performAll s.codec k [.send .disconnect recipient]).filterMap (letter? sender))
        [.disconnect] := by
  apply carry_performAll hs.maxPayload_le hk sender recipient [.disconnect]
  intro m hm
  rw [List.mem_singleton.mp hm]
  exact ⟨trivial, fun iv => Codec.exists_encode_of_short hroom iv (by decide)⟩

theorem carry_welcome {s : Server} (hs : s.Reachable) (hroutes : ∀ r ∈ s.routes.routes, r.Made)
    (hroom : 64 ≤ s.codec.maxPayload) {k : Conditions} (hk : k.Sending)
    (sender recipient : Endpoint) (assigned : VirtualAddresses) :
    ∃ parts : List (List Route),
      Carry s.codec sender recipient
        ((Action.performAll s.codec k ((s.welcome assigned).map (.send · recipient))).filterMap
          (letter? sender))
        (.clientLogin assigned :: parts.map .routeAdvertise) ∧
      parts.flatten = (if s.options.advertise then s.usableBy assigned else []) ∧
      parts.length ≤ s.routes.routes.length := by
  obtain ⟨parts, hwelcome, hflatten, hlength, hfits⟩ := exists_welcome hroom assigned
  refine ⟨parts, ?_, hflatten, hlength⟩
  rw [hwelcome]
  apply carry_performAll hs.maxPayload_le hk
  intro m hm
  rcases List.mem_cons.mp hm with rfl | hm
  · have hshort := Message.length_encodeBody_clientLogin assigned
    exact ⟨trivial, fun iv => Codec.exists_encode_of_short hroom iv (by omega)⟩
  · obtain ⟨part, hpart, rfl⟩ := List.mem_map.mp hm
    refine ⟨fun r hr => hroutes r ?_, hfits part hpart⟩
    have hmem : r ∈ parts.flatten := List.mem_flatten.mpr ⟨part, hpart, hr⟩
    rw [hflatten] at hmem
    split at hmem
    · exact (List.mem_filter.mp hmem).1
    · cases hmem

theorem agreed_of_drain {s : Server} (hs : s.Reachable) (hroutes : ∀ r ∈ s.routes.routes, r.Made)
    (hroom : 64 ≤ s.codec.maxPayload) {c c₁ : Client} (hef : e ≠ c₁.server)
    (hcodec : c₁.codec = s.codec) (hkept : c₁.routes = c.routes) {x : Session} {t : Time}
    (hlink : c₁.link = .loginSent x t) {bytes : Bytes}
    (hd : s.codec.decode bytes = .ok (.clientLogin c.options.requested))
    {ds : List (Time × (Station → Conditions))} (hk : ∀ d ∈ ds, (d.2 .server).Sending)
    (hds : 2 + s.routes.routes.length ≤ ds.length) :
    ((pair s c₁.server e c₁ [⟨e, c₁.server, bytes⟩]).drain ds).wire = [] ∧
      Agreed s e c ((pair s c₁.server e c₁ [⟨e, c₁.server, bytes⟩]).drain ds) := by
  cases ds with
  | nil => exact absurd hds (by rw [List.length_nil]; omega)
  | cons d ds =>
    rw [List.length_cons] at hds
    have hsending := hk d List.mem_cons_self
    rw [drain_cons, pair_turn_to_server, pair_after_server, List.nil_append]
    by_cases hnone : s.NoAddress c.options.requested e
    · obtain ⟨hgone, hemissions⟩ := Server.step_login_refused hd hnone (d.2 .server) d.1
      have hcarry := carry_farewell hs hroom hsending c₁.server e
      have hlength : 1 ≤ ds.length := by omega
      rw [hemissions]
      rw [← hcodec] at hcarry ⊢
      obtain ⟨counters, hdrain⟩ := drain_farewell hef rfl hcarry hlength
      rw [hdrain]
      exact ⟨rfl, _, rfl, .inl ⟨hnone, hgone, rfl, rfl, hkept⟩⟩
    · obtain ⟨⟨y, hy, haddresses, -⟩, hemissions⟩ :=
        Server.step_login_accepted hs.sound.toIndexed hd hnone (d.2 .server) d.1
      obtain ⟨parts, hcarry, hflatten, hparts⟩ :=
        carry_welcome hs hroutes hroom hsending c₁.server e (s.assign c.options.requested e)
      have hcount : (parts.map Message.routeAdvertise).length + 1 ≤ ds.length := by
        rw [List.length_map]
        omega
      rw [hemissions]
      rw [← hcodec] at hcarry ⊢
      obtain ⟨c', x', hdrain, hlink', hroutes'⟩ :=
        drain_welcome hef rfl hlink hcarry (Nat.le_trans (Nat.le_of_eq hcarry.length_eq) hcount)
      rw [hdrain]
      refine ⟨rfl, c', rfl, .inr ⟨hnone, y, x', t, hy, by rw [haddresses]; exact hlink', ?_⟩⟩
      rw [hroutes', hkept, hflatten, haddresses]
      split
      · rfl
      · rfl

/-- A tick of a client without a link, and the delivery of all that follows from it in order, end in
agreement, at the latest after two deliveries and one for each route of the server. -/
theorem login_agreement {s : Server} (hs : s.Reachable) (hroutes : ∀ r ∈ s.routes.routes, r.Made)
    {p : Protection} {mtu : UInt64} (hcodec : s.codec = .ofMtu p mtu)
    (hmtu : mtu.toNat + 64 < 2 ^ 64) {c : Client} (hc : c.codec = s.codec)
    (hlink : c.link = .disconnected) {e : Endpoint} (he : e ≠ c.server) (now : Time)
    (calendar : UInt64) {k : Conditions} (hk : k.Sending)
    {ds : List (Time × (Station → Conditions))} (hds : ∀ d ∈ ds, ∀ station, (d.2 station).Sending) :
    let x := (pair s c.server e c []).turn (.happen ⟨.client 0, now, .tick calendar, k⟩)
    (2 + s.routes.routes.length ≤ ds.length → (x.drain ds).wire = []) ∧
      ((x.drain ds).wire = [] → Agreed s e c (x.drain ds)) := by
  have hroom : 64 ≤ s.codec.maxPayload := by
    have hlimit := Codec.ofMtu_maxPayload p hmtu
    rw [hcodec]
    omega
  obtain ⟨c₁, x, bytes, hlogin, hd, hcodec₁, hserver₁, hroutes₁, hlink₁⟩ :=
    exists_after_login (s := s) (e := e)
      hlink (by rw [hc]; exact hs.maxPayload_le) (by rw [hc]; exact hroom) now calendar hk
  rw [hc] at hd hcodec₁
  rw [← hserver₁] at he hlogin
  have hlong (ds : List (Time × (Station → Conditions))) (hds : ∀ d ∈ ds, (d.2 .server).Sending)
      (henough : 2 + s.routes.routes.length ≤ ds.length) :=
    agreed_of_drain hs hroutes hroom he hcodec₁ hroutes₁ hlink₁ hd hds henough
  dsimp only
  rw [hserver₁.symm, hlogin]
  refine ⟨fun henough => (hlong ds (fun d hd => hds d hd .server) henough).1, fun hempty => ?_⟩
  let more : List (Time × (Station → Conditions)) :=
    List.replicate (2 + s.routes.routes.length) (0, fun _ => k)
  have hagreed := (hlong (ds ++ more) ?_ ?_).2
  · rw [drain_append, drain_of_empty hempty] at hagreed
    exact hagreed
  · intro d hd
    rcases List.mem_append.mp hd with hd | hd
    · exact hds d hd .server
    · rw [(List.mem_replicate.mp hd).2]
      exact hk
  · rw [List.length_append, List.length_replicate]
    omega

/-- A server with a route through 10.7.0.2, the first address of its pool, and one through ::7. -/
def hub : Server := .start Server.clearCodec (.ofList Codec.twoRoutes) Server.poolOptions 0

theorem reachable_hub : hub.Reachable := ⟨.clear, 1416, _, _, 0, [], rfl⟩

def knocking : Exchange :=
  (pair hub Client.newcomer.server (Server.caller 1) .newcomer []).turn
    (.happen ⟨.client 0, 5, .tick 0, Conditions.fair⟩)

theorem login_agreement_hub :
    hub.Reachable ∧ (∀ r ∈ hub.routes.routes, r.Made) ∧ Client.newcomer.link = .disconnected ∧
      Agreed hub (Server.caller 1) .newcomer
        (knocking.drain (List.replicate 4 (6, fun _ => Conditions.fair))) := by
  have hmade : ∀ r ∈ hub.routes.routes, r.Made := by
    intro r hr
    have hmem : r ∈ Codec.twoRoutes := hr
    simp only [Codec.twoRoutes, List.mem_cons, List.not_mem_nil, or_false] at hmem
    rcases hmem with rfl | rfl
    · exact Route.made_iff.mpr (by decide +kernel)
    · exact Route.made_iff.mpr (by decide +kernel)
  have hfair : Conditions.fair.Sending := fun _ => rfl
  have h :=
    login_agreement reachable_hub hmade (p := .clear) rfl (by decide) (c := .newcomer) rfl rfl
      (e := Server.caller 1) (by decide) 5 0 hfair
      fun d (hd : d ∈ List.replicate 4 (6, fun _ => Conditions.fair)) station => by
        rw [(List.mem_replicate.mp hd).2]
        exact hfair
  exact ⟨reachable_hub, hmade, rfl, h.2 (h.1 (by decide))⟩

/-- A server and a client whose limit on payloads has started over from zero. -/
def cramped : Exchange :=
  pair (.start Codec.cutCodec .empty Server.poolOptions 0) Client.newcomer.server (Server.caller 1)
    { Client.newcomer with codec := Codec.cutCodec } []

/-- With such a limit no login fits into a datagram: nothing is sent, the client waits, and the
server, which has addresses to give, does not know of it. -/
theorem cramped_login_unsent :
    cramped.server.Reachable ∧
      (cramped.turn (.happen ⟨.client 0, 5, .tick 0, Conditions.fair⟩)).wire = [] ∧
      ¬ Agreed cramped.server (Server.caller 1) { Client.newcomer with codec := Codec.cutCodec }
        (cramped.turn (.happen ⟨.client 0, 5, .tick 0, Conditions.fair⟩)) := by
  refine ⟨⟨.clear, _, _, _, 0, [], rfl⟩, rfl, ?_⟩
  rintro ⟨c', hclients, ⟨-, -, hlink, -⟩ | ⟨-, y, session, t, -, hlink, -⟩⟩
  · obtain rfl := (Prod.mk.inj (List.cons.inj hclients).1).2
    cases hlink
  · obtain rfl := (Prod.mk.inj (List.cons.inj hclients).1).2
    cases hlink

end Exchange

end PacketTunnel
