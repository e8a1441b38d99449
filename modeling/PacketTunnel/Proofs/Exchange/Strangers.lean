import PacketTunnel.Proofs.Client.Step
import PacketTunnel.Proofs.Datagram.RoundTrip
import PacketTunnel.Proofs.Exchange.Run
import PacketTunnel.Proofs.Server.Forwarding

/-!
# Clients of another tunnel

A codec refuses every datagram of another fingerprint before it looks at anything behind the header.
A server therefore only counts what clients of other tunnels send to it: it has no session, and so
it sends nothing and writes nothing. The clients hear nothing, however the wire loses, copies and
reorders their logins, and stay as they were.
-/
namespace PacketTunnel

/-- A datagram of another fingerprint is refused, whatever else it holds. -/
theorem Codec.decode_encode_of_stranger {c c' : Codec} (h : c.fingerprint ≠ c'.fingerprint)
    {iv : Block} {m : Message} {bytes : Bytes} (hbytes : c.encode iv m = .ok bytes) :
    c'.decode bytes = .error .unauthentic := by
  obtain ⟨-, rfl⟩ := Codec.encode_eq_ok_iff.mp hbytes
  have hagrees :
      ((c.header m (c.protection.encrypt iv m.encodeBody)).fingerprint.agrees c'.fingerprint) =
      false := by
    rw [Bool.eq_false_iff]
    exact fun hsame => h (Fingerprint.agrees_iff.mp hsame)
  simp only [Codec.decode, Header.decode_append, hagrees, Bool.not_false, if_true]

namespace Server

/-- A server without sessions that has refused the given number of datagrams as unauthentic, and no
other. -/
structure Unmoved (codec : Codec) (refused : Nat) (s : Server) : Prop where
  codec : s.codec = codec
  sessions : s.sessions = .empty
  datagramsIn : s.counters.datagramsIn = 0
  droppedFormat : s.counters.droppedFormat = 0
  droppedAuth : s.counters.droppedAuth = UInt64.ofNat refused

theorem unmoved_start (codec : Codec) (routes : RouteTable) (options : ServerOptions) (now : Time) :
    Unmoved codec 0 (start codec routes options now) :=
  ⟨rfl, rfl, rfl, rfl, rfl⟩

namespace Unmoved

variable {codec : Codec} {refused : Nat} {s : Server}

theorem react (h : Unmoved codec refused s) (now : Time) {event : Event} (hlocal : event.IsLocal) :
    Unmoved codec refused (s.react now event).1 ∧ (s.react now event).2 = [] := by
  obtain ⟨hcodec, hsessions, hin, hformat, hauth⟩ := h
  cases event with
  | packet bytes =>
    have hnone : (Packet.destination? bytes).bind s.target? = none := by
      rw [Option.bind_eq_none_iff]
      intro destination _
      have hnobody : (s.routes.gateway? destination).bind SessionTable.empty.endpointFor? =
          none := by
        cases s.routes.gateway? destination <;> rfl
      rw [target?, hsessions, hnobody]
      rfl
    rw [Server.react, dispatch, hnone]
    exact ⟨⟨hcodec, hsessions, hin, hformat, hauth⟩, rfl⟩
  | tick calendar =>
    have hempty : s.sessions.expire now s.options.sessionExpiry = .empty := by
      rw [hsessions]
      rfl
    exact ⟨⟨hcodec, hempty, hin, hformat, hauth⟩, rfl⟩
  | datagram bytes sender => exact hlocal.elim
  | outcome outcome => exact hlocal.elim
  | shutdown => exact hlocal.elim

theorem receive (h : Unmoved codec refused s) (now : Time) {bytes : Bytes} (sender : Endpoint)
    (hbytes : codec.decode bytes = .error .unauthentic) :
    Unmoved codec (refused + 1) (s.react now (.datagram bytes sender)).1 ∧
      (s.react now (.datagram bytes sender)).2 = [] := by
  obtain ⟨hcodec, hsessions, hin, hformat, hauth⟩ := h
  have hnext : s.counters.droppedAuth + 1 = UInt64.ofNat (refused + 1) := by
    rw [hauth, UInt64.ofNat_add]
    rfl
  rw [Server.react, Server.receive, hcodec, hbytes]
  exact ⟨⟨hcodec, hsessions, hin, hformat, hnext⟩, rfl⟩

end Unmoved

end Server

namespace Exchange

/-- The exchange has just started. Its clients are set up for its server, but with fingerprints of
other tunnels. -/
structure Estranged (x : Exchange) : Prop where
  server : ∃ codec routes options now, x.server = Server.start codec routes options now
  clients : ∀ e c, (e, c) ∈ x.clients → ∃ codec routes options now,
    c = Client.start codec routes options now ∧ options.server = x.serverEndpoint ∧
      codec.fingerprint ≠ x.server.codec.fingerprint
  wire : x.wire = []

/-- The exchange is as another one was at first, but for the given number of datagrams that the
server refused, clients that wait for an answer, and their letters on the wire. -/
structure Apart (x₀ : Exchange) (refused : Nat) (x : Exchange) : Prop where
  endpoint : x.serverEndpoint = x₀.serverEndpoint
  server : x.server.Unmoved x₀.server.codec refused
  clients : ∀ (i : Nat) (e : Endpoint) (c : Client), x.clients[i]? = some (e, c) →
    ∃ c₀, x₀.clients[i]? = some (e, c₀) ∧ Client.Unanswered c₀ c
  wire : ∀ letter ∈ x.wire, letter.recipient = x₀.serverEndpoint ∧
    x₀.server.codec.decode letter.bytes = .error .unauthentic

namespace Apart

variable {x₀ x : Exchange} {refused : Nat}

theorem start (h : x₀.Estranged) : Apart x₀ 0 x₀ where
  endpoint := rfl
  server := by
    obtain ⟨codec, routes, options, now, hserver⟩ := h.server
    rw [hserver]
    exact Server.unmoved_start codec routes options now
  clients i e c hc := by
    obtain ⟨codec, routes, options, now, rfl, -, -⟩ := h.clients e c (List.mem_of_getElem? hc)
    exact ⟨_, hc, Client.unanswered_start codec routes options now⟩
  wire letter hletter := by
    rw [h.wire] at hletter
    cases hletter

theorem set_client {wire : List Letter} {i : Nat} {e : Endpoint} {c₀ c : Client}
    (h : Apart x₀ refused x) (hc₀ : x₀.clients[i]? = some (e, c₀)) (hc : Client.Unanswered c₀ c)
    (hwire : ∀ letter ∈ wire, letter.recipient = x₀.serverEndpoint ∧
      x₀.server.codec.decode letter.bytes = .error .unauthentic) :
    Apart x₀ refused { x with clients := x.clients.set i (e, c), wire := wire } where
  endpoint := h.endpoint
  server := h.server
  clients j e' c' hj := by
    rw [List.getElem?_set] at hj
    split at hj
    · rename_i hij
      subst hij
      split at hj
      · cases hj
        exact ⟨c₀, hc₀, hc⟩
      · cases hj
    · exact h.clients j e' c' hj
  wire := hwire

theorem handle (h : Apart x₀ refused x) (t : Turn) : Apart x₀ refused (x.handle t) := by
  cases t with
  | happen _ => exact h
  | deliver position _ _ =>
    exact ⟨h.endpoint, h.server, h.clients, fun letter hl => h.wire letter (mem_wire_of_lose hl)⟩
  | lose position =>
    exact ⟨h.endpoint, h.server, h.clients, fun letter hl => h.wire letter (mem_wire_of_lose hl)⟩
  | copy position =>
    exact ⟨h.endpoint, h.server, h.clients, fun letter hl => h.wire letter (mem_wire_of_copy hl)⟩
  | takeJobs index =>
    rw [Exchange.handle, Exchange.takeJobs]
    split
    · exact h
    · rename_i e c hc
      obtain ⟨c₀, hc₀, hunanswered⟩ := h.clients index e c hc
      exact h.set_client hc₀ hunanswered.takeJobs h.wire

theorem after (h : Apart x₀ refused x) (hx₀ : x₀.Estranged) {a : Happening}
    (hlocal : a.moment.event.IsLocal) :
    Apart x₀ refused (x.after a) ∧ (∀ packet, .packet packet ∉ x.emissions a) ∧
      (a.station = .server → x.emissions a = []) := by
  obtain ⟨station, now, event, conditions⟩ := a
  cases station with
  | server =>
    obtain ⟨hserver, hsilent⟩ := h.server.react now hlocal
    have hstep := Engine.step_of_silent (E := Server.engine) (Prod.ext rfl hsilent) conditions
    simp only [Exchange.after, happen, emissions, hstep, post, List.filterMap_nil, List.append_nil]
    exact ⟨⟨h.endpoint, hserver, h.clients, h.wire⟩, fun _ => List.not_mem_nil, fun _ => trivial⟩
  | client i =>
    cases hc : x.clients[i]? with
    | none =>
      simp only [Exchange.after, happen, emissions, hc]
      exact ⟨h, fun _ => List.not_mem_nil, fun _ => trivial⟩
    | some pair =>
      obtain ⟨e, c⟩ := pair
      obtain ⟨c₀, hc₀, hunanswered⟩ := h.clients i e c hc
      obtain ⟨hstep, hemissions⟩ := hunanswered.step conditions now hlocal
      obtain ⟨codec, routes, options, start, hfresh, hserver, hfingerprint⟩ :=
        hx₀.clients e c₀ (List.mem_of_getElem? hc₀)
      simp only [Exchange.after, happen, emissions, hc, post]
      refine ⟨h.set_client hc₀ hstep ?_, ?_, fun hstation => by cases hstation⟩
      · intro letter hletter
        rcases List.mem_append.mp hletter with hletter | hletter
        · exact h.wire letter hletter
        · obtain ⟨emission, hemission, hsent⟩ := List.mem_filterMap.mp hletter
          obtain ⟨m, bytes, iv, rfl, hbytes⟩ := hemissions emission hemission
          cases hsent
          rw [hunanswered.codec, hfresh] at hbytes
          exact ⟨by rw [hunanswered.server, hfresh]; exact hserver,
            Codec.decode_encode_of_stranger hfingerprint hbytes⟩
      · intro packet hpacket
        obtain ⟨m, bytes, iv, hdatagram, -⟩ := hemissions _ hpacket
        cases hdatagram

theorem after_letter (h : Apart x₀ refused x) (now : Time) {bytes : Bytes} (sender : Endpoint)
    (conditions : Conditions) (hbytes : x₀.server.codec.decode bytes = .error .unauthentic) :
    Apart x₀ (refused + 1) (x.after ⟨.server, now, .datagram bytes sender, conditions⟩) ∧
      x.emissions ⟨.server, now, .datagram bytes sender, conditions⟩ = [] := by
  obtain ⟨hserver, hsilent⟩ := h.server.receive now sender hbytes
  have hstep := Engine.step_of_silent (E := Server.engine) (Prod.ext rfl hsilent) conditions
  simp only [Exchange.after, happen, emissions, hstep, post, List.filterMap_nil, List.append_nil,
    and_true]
  exact ⟨h.endpoint, hserver, h.clients, h.wire⟩

end Apart

end Exchange

/-- The turn is a tick, a packet from a device, or something that the wire does. -/
def Turn.IsOrdinary : Turn → Prop
  | .happen h => h.moment.event.IsLocal
  | _ => True

def Occurrence.isArrival (o : Occurrence) : Bool :=
  match o.station, o.event with
  | .server, .datagram .. => true
  | _, _ => false

theorem Occurrence.isArrival_of_isLocal {o : Occurrence} (h : o.event.IsLocal) :
    o.isArrival = false := by
  obtain ⟨station, event, emissions⟩ := o
  cases event with
  | datagram bytes sender => exact h.elim
  | packet bytes => cases station <;> rfl
  | tick calendar => cases station <;> rfl
  | outcome outcome => exact h.elim
  | shutdown => exact h.elim

/-- Nothing was written to a device, and the server sent nothing. -/
structure Occurrence.IsMute (o : Occurrence) : Prop where
  writes : ∀ packet, .packet packet ∉ o.emissions
  server : o.station = .server → o.emissions = []

namespace Exchange

/-- One turn of strangers: what the log records of it is mute, and the server refuses what it gets.
-/
theorem Apart.turn {x₀ x : Exchange} {refused : Nat} (h : Apart x₀ refused x) (hx₀ : x₀.Estranged)
    {t : Turn} (ht : t.IsOrdinary) :
    Apart x₀ (refused + (x.occurrence? t).toList.countP Occurrence.isArrival) (x.turn t) ∧
      ∀ o ∈ x.occurrence? t, o.IsMute := by
  cases hh : x.happening? t with
  | none =>
    rw [turn_of_no_happening hh, occurrence?, hh]
    exact ⟨h.handle t, fun o ho => by cases ho⟩
  | some a =>
    rw [turn_of_happening hh, occurrence?, hh, Option.map_some]
    have hhandled := h.handle t
    cases t with
    | happen a' =>
      cases hh
      obtain ⟨hafter, hwrites, hserver⟩ := hhandled.after hx₀ ht
      have hlocal :
          Occurrence.isArrival ⟨a.station, a.moment.event, (x.handle (.happen a)).emissions a⟩ =
          false := Occurrence.isArrival_of_isLocal ht
      refine ⟨?_, fun o ho => ?_⟩
      · simpa [hlocal] using hafter
      · cases ho
        exact ⟨hwrites, hserver⟩
    | deliver position now c =>
      obtain ⟨letter, hletter, hstation⟩ := Option.bind_eq_some_iff.mp hh
      obtain ⟨hrecipient, hbytes⟩ := h.wire letter (List.mem_of_getElem? hletter)
      rw [hrecipient, ← h.endpoint, stationAt?_server] at hstation
      cases hstation
      obtain ⟨hafter, hsilent⟩ := hhandled.after_letter now letter.sender (c .server) hbytes
      refine ⟨hafter, fun o ho => ?_⟩
      cases ho
      rw [hsilent]
      exact ⟨fun _ => List.not_mem_nil, fun _ => rfl⟩
    | lose position => cases hh
    | copy position => cases hh
    | takeJobs index => cases hh

theorem Apart.run {x₀ x : Exchange} {refused : Nat} (h : Apart x₀ refused x) (hx₀ : x₀.Estranged)
    {ts : List Turn} (hts : ∀ t ∈ ts, t.IsOrdinary) :
    Apart x₀ (refused + (x.run ts).2.countP Occurrence.isArrival) (x.run ts).1 ∧
      ∀ o ∈ (x.run ts).2, o.IsMute := by
  induction ts generalizing x refused with
  | nil => exact ⟨h, fun o ho => by cases ho⟩
  | cons t rest ih =>
    obtain ⟨hturn, hmute⟩ := h.turn hx₀ (hts t List.mem_cons_self)
    obtain ⟨hlater, hmutes⟩ := ih hturn fun t' ht' => hts t' (List.mem_cons_of_mem t ht')
    rw [Exchange.run, List.countP_append, ← Nat.add_assoc]
    refine ⟨hlater, fun o ho => ?_⟩
    rcases List.mem_append.mp ho with ho | ho
    · exact hmute o (Option.mem_toList.mp ho)
    · exact hmutes o ho

/-- Whatever the clocks, the devices and the wire do, a server and clients of other tunnels remain
strangers. The server has no session, sends nothing and writes nothing, and refuses every datagram
it gets as unauthentic and no datagram for another reason. No client is established, has addresses,
wants a route installed, learns a route or writes to its device. -/
theorem strangers_stay_apart {x : Exchange} (hx : x.Estranged) {ts : List Turn}
    (hts : ∀ t ∈ ts, t.IsOrdinary) :
    (∀ e, (x.run ts).1.server.sessions.find? e = none) ∧
    (∀ o ∈ (x.run ts).2, o.IsMute) ∧
    (∀ (i : Nat) (e : Endpoint) (c : Client), (x.run ts).1.clients[i]? = some (e, c) →
      (∀ session lastLogin assigned, c.link ≠ .established session lastLogin assigned) ∧
      c.assigned? = none ∧ (∀ r, .installRoute r ∉ c.jobs) ∧
      ∃ c₀, x.clients[i]? = some (e, c₀) ∧ c.routes = c₀.routes) ∧
    (x.run ts).1.server.counters.datagramsIn = 0 ∧
    (x.run ts).1.server.counters.droppedFormat = 0 ∧
    (x.run ts).1.server.counters.droppedAuth =
      UInt64.ofNat ((x.run ts).2.countP Occurrence.isArrival) := by
  obtain ⟨hapart, hmute⟩ := (Apart.start hx).run hx hts
  rw [Nat.zero_add] at hapart
  obtain ⟨-, ⟨-, hsessions, hin, hformat, hauth⟩, hclients, -⟩ := hapart
  refine ⟨fun e => by rw [hsessions]; rfl, hmute, fun i e c hc => ?_, hin, hformat, hauth⟩
  obtain ⟨c₀, hc₀, hunanswered⟩ := hclients i e c hc
  refine ⟨fun session lastLogin assigned hlink => ?_, ?_, hunanswered.jobs, c₀, hc₀,
    hunanswered.routes⟩
  · rcases hunanswered.link with hnone | ⟨x, t, hopen⟩
    · rw [hnone] at hlink
      cases hlink
    · rw [hopen] at hlink
      cases hlink
  · rcases hunanswered.link with hnone | ⟨x, t, hopen⟩
    · rw [Client.assigned?, hnone]
      rfl
    · rw [Client.assigned?, hopen]
      rfl

def mismatched : Exchange where
  server := .start (.ofMtu (.ofPassphrase (some "secret")) 1416) .empty Server.poolOptions 0
  serverEndpoint := Client.newcomer.server
  clients := [(Server.caller 1, .newcomer), (Server.caller 2, .newcomer)]
  wire := []

/-- Both clients log in, one login is copied and the other overtakes it, a packet comes from a
device, and the server's clock strikes in between. -/
def rough : List Turn :=
  [.happen ⟨.client 0, 0, .tick 0, Conditions.fair⟩,
    .happen ⟨.client 1, 1, .tick 0, Conditions.fair⟩, .copy 0,
    .deliver 1 2 fun _ => Conditions.fair,
    .happen ⟨.client 0, 3, .packet Server.across, Conditions.fair⟩,
    .happen ⟨.server, 4, .tick 0, Conditions.fair⟩, .deliver 1 5 fun _ => Conditions.fair,
    .deliver 1 6 fun _ => Conditions.fair, .lose 0]

theorem strangers_stay_apart_mismatched :
    mismatched.Estranged ∧ (∀ t ∈ rough, t.IsOrdinary) ∧
      (mismatched.run rough).1.server.sessions.find? (Server.caller 2) = none ∧
      (mismatched.run rough).1.server.counters.droppedAuth = 3 := by
  have hkeys : (Protection.ofPassphrase (some "secret")).fingerprint ≠
      Protection.clear.fingerprint := by
    decide +kernel
  have hstrange : mismatched.Estranged := by
    refine ⟨⟨_, _, _, _, rfl⟩, fun e c hc => ?_, rfl⟩
    have hplain : c = .newcomer := by
      simp only [mismatched, List.mem_cons, List.not_mem_nil, or_false, Prod.mk.injEq] at hc
      rcases hc with hc | hc
      · exact hc.2
      · exact hc.2
    exact ⟨_, _, _, _, hplain, rfl, hkeys.symm⟩
  have hrough : ∀ t ∈ rough, t.IsOrdinary := by
    simp only [rough, List.mem_cons, List.not_mem_nil, or_false]
    rintro t (rfl | rfl | rfl | rfl | rfl | rfl | rfl | rfl | rfl) <;> trivial
  have hcount : (mismatched.run rough).2.countP Occurrence.isArrival = 3 := by decide +kernel
  obtain ⟨hsessions, -, -, -, -, hauth⟩ := strangers_stay_apart hstrange hrough
  rw [hcount] at hauth
  exact ⟨hstrange, hrough, hsessions (Server.caller 2), hauth⟩

end Exchange

end PacketTunnel
