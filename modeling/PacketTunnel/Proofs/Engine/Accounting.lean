import PacketTunnel.Proofs.Client.Packets
import PacketTunnel.Proofs.Client.Provenance
import PacketTunnel.Proofs.Engine.Journal
import PacketTunnel.Proofs.Server.Hearing

/-!
# Traffic accounts

Servers and clients count every datagram that arrives once, by what becomes of it, and everything
that they send and write. Their sessions count what came from the peer and what went to it since
they began. A client's session goes along when a look-up moves the server, and its counts then are
of both endpoints.
-/
namespace PacketTunnel

open Engine (Call Continues Record sizesFrom_of_decode sizesFrom_eq_nil)

theorem Session.counts_acknowledge (x : Session) (echo : Echo) :
    (x.acknowledge echo).created = x.created ∧ (x.acknowledge echo).received = x.received ∧
      (x.acknowledge echo).sent = x.sent := by
  rw [acknowledge]
  split <;> exact ⟨rfl, rfl, rfl⟩

namespace Server

/-- How a server judges an event. -/
def verdict? (s : Server) : Event → Option Verdict
  | .datagram bytes _ => some (.ofDecoding (s.codec.decode bytes))
  | _ => none

def sessionWith? (s : Server) (e : Endpoint) : Option Session := s.sessions.find? e

variable {s : Server} {now : Time} {e : Endpoint}

theorem counters_forward (s : Server) (e : Endpoint) (packet : Bytes) :
    ∃ relayed, (s.forward e packet).1.counters = { s.counters with relayed := relayed } := by
  unfold forward
  dsimp only
  split
  · exact ⟨_, rfl⟩
  · exact ⟨_, rfl⟩

theorem counters_accept (s : Server) (now : Time) (e : Endpoint) (size : Nat) (m : Message) :
    ∃ unknown relayed,
      (s.accept now e size m).1.counters =
      { s.counters with droppedUnknown := unknown, relayed := relayed } := by
  cases m with
  | clientLogin requested =>
    rw [accept, login]
    dsimp only
    split
    · exact ⟨_, _, rfl⟩
    · exact ⟨_, _, rfl⟩
  | data packet =>
    rw [accept, acceptData]
    split
    · exact ⟨_, _, rfl⟩
    · rename_i table htable
      obtain ⟨relayed, hforward⟩ :=
        counters_forward ({ s with sessions := table }.modifySession e fun x => x.touch now size) e
          packet
      exact ⟨_, relayed, hforward⟩
  | echoRequest echo =>
    rw [accept]
    split
    · exact ⟨_, _, rfl⟩
    · exact ⟨_, _, rfl⟩
  | echoAck echo => exact ⟨_, _, rfl⟩
  | routeAdvertise routes => exact ⟨_, _, rfl⟩
  | disconnect => exact ⟨_, _, rfl⟩

/-- A reaction counts the verdict, and otherwise at most what goes from peer to peer or nowhere. -/
theorem counters_react (s : Server) (now : Time) (event : Event) :
    ∃ unknown unroutable relayed, (s.react now event).1.counters =
      { (s.verdict? event).elim s.counters s.counters.judge with
        droppedUnknown := unknown, droppedUnroutable := unroutable, relayed := relayed } := by
  cases event with
  | packet bytes =>
    rw [react, dispatch]
    split
    · exact ⟨_, _, _, rfl⟩
    · exact ⟨_, _, _, rfl⟩
  | datagram bytes sender =>
    cases hd : s.codec.decode bytes with
    | ok m =>
      obtain ⟨unknown, relayed, haccept⟩ := counters_accept s.heard now sender bytes.length m
      rw [react, receive_of_decode hd, haccept, verdict?, hd]
      exact ⟨_, _, _, rfl⟩
    | error r =>
      rw [react, receive, verdict?, hd]
      cases r with
      | malformed fault => exact ⟨_, _, _, rfl⟩
      | unauthentic => exact ⟨_, _, _, rfl⟩
  | outcome outcome => exact ⟨_, _, _, rfl⟩
  | tick calendar => exact ⟨_, _, _, rfl⟩
  | shutdown => exact ⟨_, _, _, rfl⟩

theorem engine_metered : engine.Metered counters [.decoded, .malformed, .unauthentic] verdict? where
  judged s event := by
    cases event with
    | datagram bytes sender =>
      rw [verdict?]
      cases s.codec.decode bytes with
      | ok m => rfl
      | error r => cases r <;> rfl
    | _ => rfl
  read s now event v hv := by
    obtain ⟨unknown, unroutable, relayed, h⟩ := counters_react s now event
    rw [← Counters.read_judge, engine, h]
    simp only [List.mem_cons, List.not_mem_nil, or_false] at hv
    rcases hv with rfl | rfl | rfl <;> rfl
  out s now event := by
    obtain ⟨unknown, unroutable, relayed, h⟩ := counters_react s now event
    rw [engine, h]
    exact (s.counters.credited_judge (s.verdict? event)).1
  writes s now event := by
    obtain ⟨unknown, unroutable, relayed, h⟩ := counters_react s now event
    rw [engine, h]
    exact (s.counters.credited_judge (s.verdict? event)).2
  credit s emission := by cases emission <;> rfl
  takeJobs s := rfl

/-- What a reaction leaves in a session: its count of received datagrams has grown by what was heard
from its peer, and that of sent ones is as it was. -/
theorem counts_react (hs : Sound s.options.own s.sessions) {event : Event} {x : Session}
    (hx : (s.react now event).1.sessions.find? e = some x) :
    x.created = (s.sessions.find? e).elim now Session.created ∧
      x.received =
        (engine.sizesFrom s e event).foldl Tally.add
        ((s.sessions.find? e).elim .zero Session.received) ∧
      x.sent = (s.sessions.find? e).elim .zero Session.sent := by
  cases hheard : s.hearing? e now event with
  | none =>
    have hnothing : engine.sizesFrom s e event = [] := sizesFrom_eq_nil fun bytes m hevent hd => by
      cases hheard.symm.trans (hearing?_eq_some_iff (h := ⟨now, m⟩).mpr ⟨bytes, hevent, hd, rfl⟩)
    rw [hnothing]
    rcases find?_react_of_unheard hs hheard with h | h
    · rw [← h, hx]
      exact ⟨rfl, rfl, rfl⟩
    · rw [h] at hx
      cases hx
  | some h =>
    obtain ⟨time, message⟩ := h
    obtain ⟨bytes, rfl, hd, -⟩ := hearing?_eq_some_iff.mp hheard
    have hsequel := sequel_receive hs.toIndexed now e hd
    rw [hx] at hsequel
    rw [sizesFrom_of_decode (E := engine) hd]
    cases hsequel with
    | renewed hx₀ hm hrenews =>
      rw [hx₀]
      rcases hrenews with rfl | ⟨echo, rfl⟩
      · exact ⟨rfl, rfl, rfl⟩
      · exact Session.counts_acknowledge _ echo
    | admitted hx₀ hm =>
      rw [hx₀]
      exact ⟨rfl, rfl, rfl⟩
    | loggedIn hm => cases s.sessions.find? e <;> exact ⟨rfl, rfl, rfl⟩

theorem foldl_tally (e : Endpoint) (emissions : List Emission) (sent : Tally) :
    emissions.foldl (Emission.tally e) sent =
      (emissions.flatMap (Emission.sizesTo e)).foldl Tally.add sent := by
  induction emissions generalizing sent with
  | nil => rfl
  | cons emission rest ih =>
    rw [List.foldl_cons, ih, List.flatMap_cons, List.foldl_append]
    congr 1
    cases emission with
    | packet bytes => rfl
    | datagram m bytes recipient =>
      rw [Emission.tally, Emission.sizesTo]
      split <;> rfl

theorem continues_step (hs : Sound s.options.own s.sessions) (m : Engine.Moment) {x : Session}
    (hx : (engine.record s m).after.sessionWith? e = some x) :
    Continues engine (s.sessionWith? e) e (engine.record s m) x := by
  have hstep : (engine.record s m).after.sessionWith? e = _ :=
    find?_step s m.conditions m.now m.event e
  rw [hstep] at hx
  obtain ⟨x₀, hx₀, rfl⟩ := Option.map_eq_some_iff.mp hx
  obtain ⟨hcreated, hreceived, hsent⟩ := counts_react hs hx₀
  refine ⟨hcreated, hreceived, ?_⟩
  rw [foldl_tally, hsent]
  rfl

theorem balanced_serve (codec : Codec) (routes : RouteTable) (options : ServerOptions)
    (origin : Time) (calls : List Call) :
    Engine.Balanced engine sessionWith? (fun _ => True)
      (engine.serve (start codec routes options origin) calls).1
      (engine.journal (start codec routes options origin) [] calls) := by
  refine (Engine.journal_preserves (P := fun s past => Sound s.options.own s.sessions ∧
    Engine.Balanced engine sessionWith? (fun _ => True) s past) ?_ (fun _ _ h => h) ?_ calls).2
  · rintro s past m ⟨hs, hbalanced⟩
    exact ⟨sound_step hs m.conditions m.now m.event, hbalanced.step m
      fun e x _ hx => continues_step hs m hx⟩
  · exact ⟨Sound.empty, .nil fun _ => rfl⟩

end Server

namespace Client

def verdict? (c : Client) : Event → Option Verdict
  | .datagram bytes sender =>
    some (if sender = c.server then .ofDecoding (c.codec.decode bytes) else .foreign)
  | _ => none

def sessionWith? (c : Client) (e : Endpoint) : Option Session :=
  c.session?.filter fun x => x.endpoint = e

variable {c : Client} {now : Time} {e : Endpoint}

theorem counters_accept (c : Client) (m : Message) : (c.accept m).1.counters = c.counters := by
  cases m with
  | routeAdvertise routes => rw [accept, foldl_learnRoute]
  | _ => rfl

theorem counters_acceptOnLink (c : Client) (now : Time) (size : Nat) (m : Message) :
    (c.acceptOnLink now size m).1.counters = c.counters := by
  rw [acceptOnLink]
  split
  · rfl
  · exact counters_accept _ m

theorem counters_react (c : Client) (now : Time) (event : Event) :
    ∃ unroutable, (c.react now event).1.counters =
      { (c.verdict? event).elim c.counters c.counters.judge with
        droppedUnroutable := unroutable } := by
  cases event with
  | packet bytes =>
    rw [react, dispatch]
    split
    · exact ⟨_, rfl⟩
    · exact ⟨_, rfl⟩
  | datagram bytes sender =>
    rw [react, receive, verdict?]
    by_cases hsender : sender = c.server
    · rw [if_neg (not_not_intro hsender), if_pos hsender]
      cases hd : c.codec.decode bytes with
      | ok m =>
        dsimp only
        rw [counters_acceptOnLink]
        exact ⟨_, rfl⟩
      | error r =>
        cases r with
        | malformed fault => exact ⟨_, rfl⟩
        | unauthentic => exact ⟨_, rfl⟩
    · rw [if_pos hsender, if_neg hsender]
      exact ⟨_, rfl⟩
  | outcome outcome =>
    cases outcome with
    | resolved endpoint =>
      rw [react, acceptOutcome]
      split
      · exact ⟨_, rfl⟩
      · exact ⟨_, rfl⟩
    | routeInstalled r => exact ⟨_, rfl⟩
    | failed reason => exact ⟨_, rfl⟩
  | tick calendar =>
    have hticks := ticks c now calendar
    generalize c.react now (.tick calendar) = reaction at hticks
    cases hticks with
    | loggedIn hlink => exact ⟨_, rfl⟩
    | askedAgain hlink hidle hdue => exact ⟨_, rfl⟩
    | probed hlink hidle hdue => exact ⟨_, rfl⟩
    | timedOut hx hidle => exact ⟨_, rfl⟩
    | waited hearly => exact ⟨_, rfl⟩
  | shutdown =>
    rw [react, shutdown]
    split
    · exact ⟨_, rfl⟩
    · exact ⟨_, rfl⟩

theorem engine_metered :
    engine.Metered counters [.decoded, .malformed, .unauthentic, .foreign] verdict? where
  judged c event := by
    cases event with
    | datagram bytes sender =>
      rw [verdict?]
      split
      · cases c.codec.decode bytes with
        | ok m => rfl
        | error r => cases r <;> rfl
      · rfl
    | _ => rfl
  read c now event v hv := by
    obtain ⟨unroutable, h⟩ := counters_react c now event
    rw [← Counters.read_judge, engine, h]
    cases v <;> rfl
  out c now event := by
    obtain ⟨unroutable, h⟩ := counters_react c now event
    rw [engine, h]
    exact (c.counters.credited_judge (c.verdict? event)).1
  writes c now event := by
    obtain ⟨unroutable, h⟩ := counters_react c now event
    rw [engine, h]
    exact (c.counters.credited_judge (c.verdict? event)).2
  credit c emission := by cases emission <;> rfl
  takeJobs c := rfl

theorem counts_react (c : Client) (now : Time) (event : Event) {x : Session}
    (hx : (c.react now event).1.session? = some x) :
    x.created = c.session?.elim now Session.created ∧
      x.received = (engine.sizesFrom c c.server event).foldl Tally.add
        (c.session?.elim .zero Session.received) ∧
      x.sent = c.session?.elim .zero Session.sent := by
  by_cases hheard : ∃ m, c.heard? event = some m ∧ m ≠ .disconnect ∧ c.link ≠ .disconnected
  · obtain ⟨m, hm, hopen, hlink⟩ := hheard
    obtain ⟨bytes, rfl, hd⟩ := heard?_eq_some_iff.mp hm
    obtain ⟨x₀, t, hx₀, ht⟩ := Link.exists_session hlink
    obtain ⟨x', assigned, routes, installs, hx', haccept⟩ :=
      exists_accept c (x₀.touch now bytes.length) t hopen
    rw [react_of_decode hx₀ ht now hd hopen, haccept] at hx
    rw [sizesFrom_of_decode (E := engine) hd, session?, hx₀]
    cases hx
    rcases hx' with rfl | ⟨echo, rfl⟩
    · exact ⟨rfl, rfl, rfl⟩
    · exact Session.counts_acknowledge _ echo
  · have hchange := change c now event
    generalize (c.react now event).1 = c' at hx hchange
    cases hchange with
    | quiet counters hquiet =>
      have hx₀ : c.session? = some x := hx
      have hunheard : c.heard? event = none := by
        refine hquiet.unheard.resolve_left fun hlink => ?_
        rw [session?, hlink] at hx₀
        cases hx₀
      have hnothing : engine.sizesFrom c c.server event = [] :=
        sizesFrom_eq_nil fun bytes m hevent hd => by
          cases hunheard.symm.trans (heard?_eq_some_iff.mpr ⟨bytes, hevent, hd⟩)
      rw [hnothing, hx₀]
      exact ⟨rfl, rfl, rfl⟩
    | loggedIn calendar hlink =>
      rw [session?, hlink]
      cases hx
      exact ⟨rfl, rfl, rfl⟩
    | askedAgain calendar hlink hidle hdue =>
      rw [session?, hlink]
      cases hx
      exact ⟨rfl, rfl, rfl⟩
    | probed calendar hlink hidle hdue =>
      rw [session?, hlink]
      cases hx
      exact ⟨rfl, rfl, rfl⟩
    | timedOut calendar hx₀ hidle => cases hx
    | heard hm hopen hx₀ ht size hx' counters assigned routes installs =>
      refine absurd ⟨_, hm, hopen, fun hlink => ?_⟩ hheard
      rw [hlink] at hx₀
      cases hx₀
    | left counters hlink hevent => cases hx
    | moved hne =>
      rw [session?, Link.session?_modifySession] at hx
      obtain ⟨x₀, hx₀, rfl⟩ := Option.map_eq_some_iff.mp hx
      rw [session?, hx₀]
      exact ⟨rfl, rfl, rfl⟩

theorem session?_credits (c : Client) {emissions : List Emission}
    (h : ∀ m bytes f, .datagram m bytes f ∈ emissions → f = e) :
    (emissions.foldl credit c).session? = c.session?.map fun x =>
      { x with sent := (emissions.flatMap (Emission.sizesTo e)).foldl Tally.add x.sent } := by
  induction emissions generalizing c with
  | nil => simp
  | cons emission rest ih =>
    rw [List.foldl_cons, ih (c.credit emission) fun m bytes f hf =>
      h m bytes f (List.mem_cons_of_mem _ hf)]
    simp only [List.flatMap_cons, List.foldl_append]
    cases emission with
    | packet bytes => rfl
    | datagram m bytes f =>
      obtain rfl := h m bytes f List.mem_cons_self
      rw [credit, count, modifySession, session?, Link.session?_modifySession, Option.map_map,
        Emission.sizesTo, if_pos rfl]
      rfl

theorem sends_to_server (c : Client) (k : Conditions) (now : Time) (event : Event) {m : Message}
    {bytes : Bytes} {f : Endpoint} (h : .datagram m bytes f ∈ (engine.step k now event c).2) :
    f = c.server := by
  have hsend : .send m f ∈ (c.react now event).2 := (Action.send_of_mem_performAll h).1
  have hconduct := conduct c now event
  generalize (c.react now event).2 = actions at hsend hconduct
  cases hconduct with
  | notices hnotices =>
    obtain ⟨m', hsame, -⟩ := hnotices _ hsend
    exact (Action.send.inj hsame).2
  | sends packet => exact (Action.send.inj (List.mem_singleton.mp hsend)).2
  | writes hd => cases List.mem_singleton.mp hsend

/-- The session of a client that goes by the notes is with its server. -/
theorem Tracks.sessionWith?_server {contact : Option Contact} (h : c.Tracks contact) :
    c.sessionWith? c.server = c.session? := by
  rw [sessionWith?]
  cases hx : c.session? with
  | none => rfl
  | some x =>
    obtain ⟨k, -, htells⟩ := h.exists_tells hx
    exact Option.filter_eq_some_iff.mpr ⟨rfl, decide_eq_true htells.endpoint⟩

theorem continues_step {contact : Option Contact} (h : c.Tracks contact) (m : Engine.Moment)
    {x : Session} (hsteady : (engine.record c m).after.server = c.server)
    (hx : (engine.record c m).after.sessionWith? e = some x) :
    Continues engine (c.sessionWith? e) e (engine.record c m) x := by
  obtain ⟨hafter, hendpoint⟩ := Option.filter_eq_some_iff.mp hx
  have hnext : (engine.record c m).after.Tracks (c.contactAfter contact (.moment m)) :=
    h.answer (.moment m)
  obtain ⟨k, -, htells⟩ := hnext.exists_tells hafter
  -- The session is with the server before and after, so that all that the client sends goes to its
  -- endpoint.
  have he : e = c.server := (of_decide_eq_true hendpoint).symm.trans (htells.endpoint.trans hsteady)
  subst he
  have hcredits : (engine.record c m).after.session? = _ :=
    session?_credits (c.react m.now m.event).1 fun _ _ _ hf =>
      sends_to_server c m.conditions m.now m.event hf
  rw [hcredits] at hafter
  obtain ⟨x₀, hx₀, rfl⟩ := Option.map_eq_some_iff.mp hafter
  obtain ⟨hcreated, hreceived, hsent⟩ := counts_react c m.now m.event hx₀
  rw [h.sessionWith?_server]
  refine ⟨hcreated, hreceived, ?_⟩
  rw [← hsent]
  rfl

theorem balanced_serve (codec : Codec) (routes : RouteTable) (options : ClientOptions)
    (origin : Time) (calls : List Call) :
    Engine.Balanced engine sessionWith? (fun r => r.after.server = r.before.server)
      (engine.serve (start codec routes options origin) calls).1
      (engine.journal (start codec routes options origin) [] calls) := by
  refine (Engine.journal_preserves (P := fun c past => (∃ contact, c.Tracks contact) ∧
    Engine.Balanced engine sessionWith? (fun r => r.after.server = r.before.server) c past) ?_ ?_ ?_
      calls).2
  · rintro c past m ⟨⟨contact, h⟩, hbalanced⟩
    exact ⟨⟨_, h.answer (.moment m)⟩, hbalanced.step m fun e x hsteady hx =>
      continues_step h m hsteady hx⟩
  · rintro c past ⟨⟨contact, h⟩, hbalanced⟩
    exact ⟨⟨_, h.answer .takeJobs⟩, hbalanced.live, hbalanced.gone⟩
  · exact ⟨⟨none, .closed rfl⟩, .nil fun _ => rfl⟩

end Client

/-- After any calls of a server or of a client, the counters show how many datagrams have arrived,
how many were sent and how many packets were written, and every session what came from its peer and
what went to it since it began; a client's session does so unless its server has moved since. -/
theorem traffic_accounted :
    (∀ (codec : Codec) (routes : RouteTable) (options : ServerOptions) (origin : Time)
        (calls : List Call),
        let s := (Server.engine.serve (.start codec routes options origin) calls).1
        let past := Server.engine.journal (.start codec routes options origin) [] calls
        Engine.Shows s.counters [.decoded, .malformed, .unauthentic] Server.verdict? past ∧
          ∀ e x, s.sessions.find? e = some x →
            Engine.Accounts Server.engine e (Engine.since Server.sessionWith? e past) x) ∧
      (∀ (codec : Codec) (routes : RouteTable) (options : ClientOptions) (origin : Time)
          (calls : List Call),
          let c := (Client.engine.serve (.start codec routes options origin) calls).1
          let past := Client.engine.journal (.start codec routes options origin) [] calls
          Engine.Shows c.counters [.decoded, .malformed, .unauthentic, .foreign] Client.verdict?
            past ∧
            ∀ x, c.session? = some x →
              (∀ r ∈ Engine.since Client.sessionWith? c.server past,
                r.after.server = r.before.server) →
              Engine.Accounts Client.engine c.server
                (Engine.since Client.sessionWith? c.server past) x) := by
  constructor
  · intro codec routes options origin calls s past
    refine ⟨Server.engine_metered.shows (Server.engine_metered.agrees_serve .zero calls),
      fun e x hx => ?_⟩
    exact ((Server.balanced_serve codec routes options origin calls).live e x hx
      fun _ _ => trivial).accounts
  · intro codec routes options origin calls c past
    refine ⟨Client.engine_metered.shows (Client.engine_metered.agrees_serve .zero calls),
      fun x hx hsteady => ?_⟩
    have htracks : c.Tracks _ := Client.Tracks.from (.closed rfl) calls
    have hx' : c.sessionWith? c.server = some x := htracks.sessionWith?_server.trans hx
    exact ((Client.balanced_serve codec routes options origin calls).live c.server x hx'
      hsteady).accounts

/-- A peer logs in at a server, a few bytes come from elsewhere, and the peer probes the server. -/
def visit : List Call :=
  [.moment (Server.hears 0 (Server.caller 1) (.clientLogin .empty)),
    .moment ⟨1, .datagram [1, 2, 3] (Server.caller 9), Conditions.fair⟩,
    .moment (Server.hears 2 (Server.caller 1) (.echoRequest ⟨1, 0⟩))]

def visited : Server :=
  (Server.engine.serve (.start Server.clearCodec .empty Server.poolOptions 0) visit).1

theorem traffic_accounted_visit :
    visited.counters.datagramsIn.toNat + visited.counters.droppedFormat.toNat +
        visited.counters.droppedAuth.toNat = 3 ∧
      visited.counters.datagramsOut.toNat = 2 ∧
      (∃ x, visited.sessions.find? (Server.caller 1) = some x ∧ x.received.packets.toNat = 2 ∧
        x.received.bytes.toNat = 57 ∧ x.sent.packets.toNat = 2 ∧ x.sent.bytes.toNat = 61) ∧
      ∃ y, (Client.engine.serve .newcomer Client.welcomed).1.session? = some y ∧
        y.received.packets.toNat = 1 ∧ y.sent.packets.toNat = 1 := by
  obtain ⟨hshows, hsessions⟩ :=
    traffic_accounted.1 Server.clearCodec .empty Server.poolOptions 0 visit
  obtain ⟨-, hclient⟩ :=
    traffic_accounted.2 Client.newcomer.codec .empty Client.newcomer.options 0 Client.welcomed
  have hsession : (visited.sessions.find? (Server.caller 1)).isSome = true := by decide +kernel
  have hlink : (Client.engine.serve .newcomer Client.welcomed).1.session?.isSome = true := by
    decide +kernel
  obtain ⟨x, hx⟩ := Option.isSome_iff_exists.mp hsession
  obtain ⟨y, hy⟩ := Option.isSome_iff_exists.mp hlink
  have haccounts := hsessions _ x hx
  have haccounts' := hclient y hy (by decide +kernel)
  refine ⟨?_, ?_, ⟨x, hx, ?_, ?_, ?_, ?_⟩, y, hy, ?_, ?_⟩
  · have harrived := hshows.arrived (by decide +kernel)
    simp only [List.map_cons, List.map_nil, List.sum_cons, List.sum_nil, Verdict.read, Nat.add_zero,
      ← Nat.add_assoc] at harrived
    exact harrived.trans (by decide +kernel)
  · exact (hshows.sent (by decide +kernel)).trans (by decide +kernel)
  · exact (haccounts.received.packets (by decide +kernel)).trans (by decide +kernel)
  · exact (haccounts.received.bytes (by decide +kernel)).trans (by decide +kernel)
  · exact (haccounts.sent.packets (by decide +kernel)).trans (by decide +kernel)
  · exact (haccounts.sent.bytes (by decide +kernel)).trans (by decide +kernel)
  · exact (haccounts'.received.packets (by decide +kernel)).trans (by decide +kernel)
  · exact (haccounts'.sent.packets (by decide +kernel)).trans (by decide +kernel)

end PacketTunnel
