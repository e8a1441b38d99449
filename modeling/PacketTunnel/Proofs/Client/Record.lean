import PacketTunnel.Client.Record
import PacketTunnel.Proofs.Client.Hearing
import PacketTunnel.Proofs.Engine.Calls

/-!
# A client's fields and its link

A link says in one value what a client keeps in four fields. The record of a client spells its link
out, and does on every event what the client does; so from a start the four fields are at all times
those of a link, although each is written on its own.
-/
namespace PacketTunnel

open Engine (Call)

namespace Link

theorem session?_modifySession (link : Link) (f : Session → Session) :
    (link.modifySession f).session? = link.session?.map f := by
  cases link <;> rfl

@[simp] theorem phase_modifySession (link : Link) (f : Session → Session) :
    (link.modifySession f).phase = link.phase := by
  cases link <;> rfl

@[simp] theorem lastLogin?_modifySession (link : Link) (f : Session → Session) :
    (link.modifySession f).lastLogin? = link.lastLogin? := by
  cases link <;> rfl

@[simp] theorem assigned?_modifySession (link : Link) (f : Session → Session) :
    (link.modifySession f).assigned? = link.assigned? := by
  cases link <;> rfl

end Link

namespace Client

@[simp] theorem toRecord_codec (c : Client) : c.toRecord.codec = c.codec := rfl

@[simp] theorem toRecord_server (c : Client) : c.toRecord.options.server = c.server := rfl

@[simp] theorem toRecord_phase (c : Client) : c.toRecord.phase = c.link.phase := rfl

@[simp] theorem toRecord_session (c : Client) : c.toRecord.session = c.session? := rfl

theorem toRecord_count (c : Client) (f : Counters → Counters) :
    (c.count f).toRecord = c.toRecord.count f := rfl

theorem toRecord_modifySession (c : Client) (f : Session → Session) :
    (c.modifySession f).toRecord = c.toRecord.modifySession f := by
  simp [toRecord, modifySession, ClientRecord.modifySession, Link.session?_modifySession]

theorem toRecord_learnRoute (c : Client) (r : Route) :
    (c.learnRoute r).toRecord = c.toRecord.learnRoute r := by
  cases hknown : c.routes.contains r <;>
    simp [learnRoute, ClientRecord.learnRoute, toRecord, hknown]

theorem toRecord_learnRoutes (routes : List Route) (c : Client) :
    (routes.foldl learnRoute c).toRecord = routes.foldl ClientRecord.learnRoute c.toRecord := by
  induction routes generalizing c with
  | nil => rfl
  | cons r rest ih => rw [List.foldl_cons, ih, toRecord_learnRoute, List.foldl_cons]

variable {c : Client} {x : Session} {t : Time}

theorem toRecord_confirm {assigned : Option VirtualAddresses}
    (hlink : c.link = .established x t assigned) (addresses : VirtualAddresses) :
    c.toRecord.confirm addresses =
      ({ c with link := .established x t (some addresses) } : Client).toRecord := by
  cases c
  cases hlink
  rw [ClientRecord.confirm]
  split
  · rename_i hsame
    obtain rfl : assigned = some addresses := hsame
    rfl
  · rfl

theorem toRecord_accept {assigned : Option VirtualAddresses}
    (hlink : c.link = .established x t assigned) {m : Message} (hopen : m ≠ .disconnect) :
    c.toRecord.accept m = (c.accept m).map toRecord id := by
  cases m with
  | data packet => rfl
  | echoRequest echo => rfl
  | echoAck echo => exact Prod.ext (toRecord_modifySession c _).symm rfl
  | clientLogin addresses =>
    rw [ClientRecord.accept, toRecord_confirm hlink, accept, hlink]
    rfl
  | routeAdvertise routes => exact Prod.ext (toRecord_learnRoutes routes c).symm rfl
  | disconnect => exact absurd rfl hopen

/-- Any message but a farewell is accepted on an established link. -/
theorem toRecord_hear (hx : c.session? = some x) (ht : c.link.lastLogin? = some t) (now : Time)
    (size : Nat) {m : Message} (hopen : m ≠ .disconnect) :
    c.toRecord.hear now size m =
      ({ c with link := .established (x.touch now size) t c.assigned? } : Client).toRecord.accept
        m := by
  rw [ClientRecord.hear, toRecord_session, hx]
  simp only [if_neg hopen]
  cases hlink : c.link with
  | disconnected =>
    rw [session?, hlink] at hx
    cases hx
  | loginSent y u =>
    cases c
    cases hlink
    cases ht
    rfl
  | established y u assigned =>
    cases c
    cases hlink
    cases ht
    rfl

theorem toRecord_acceptOnLink (c : Client) (now : Time) (size : Nat) (m : Message) :
    c.toRecord.hear now size m = (c.acceptOnLink now size m).map toRecord id := by
  by_cases hlink : c.link = .disconnected
  · simp [ClientRecord.hear, acceptOnLink, session?, hlink, Link.session?]
  · obtain ⟨x, t, hx, ht⟩ := Link.exists_session hlink
    by_cases hopen : m = .disconnect
    · subst hopen
      rw [ClientRecord.hear, toRecord_session, session?, hx, acceptOnLink]
      cases hlink' : c.link with
      | disconnected => exact absurd hlink' hlink
      | loginSent y u => rfl
      | established y u assigned => rfl
    · rw [toRecord_hear hx ht now size hopen, acceptOnLink_of_session hx ht now size hopen,
        toRecord_accept rfl hopen]

theorem toRecord_receive (c : Client) (now : Time) (datagram : Bytes) (sender : Endpoint) :
    c.toRecord.receive now datagram sender = (c.receive now datagram sender).map toRecord id := by
  rw [receive, ClientRecord.receive, toRecord_server, toRecord_codec]
  split
  · rfl
  · cases c.codec.decode datagram with
    | ok m => simp only [← toRecord_count, toRecord_acceptOnLink]
    | error r => cases r <;> rfl

theorem toRecord_login_of_closed (hlink : c.link = .disconnected) (now : Time) :
    c.toRecord.login now = (c.login (.start c.server now) now).map toRecord id := by
  cases c
  cases hlink
  rfl

/-- A login goes on with the session that there is. -/
theorem toRecord_login_of_asked (hlink : c.link = .loginSent x t) (now : Time) :
    c.toRecord.login now = (c.login x now).map toRecord id := by
  cases c
  cases hlink
  rfl

theorem toRecord_tick (c : Client) (now : Time) (calendar : UInt64) :
    c.toRecord.tick now calendar = (c.tick now calendar).map toRecord id := by
  rw [tick, ClientRecord.tick, toRecord_session, session?, toRecord_phase]
  cases hlink : c.link with
  | disconnected => exact toRecord_login_of_closed hlink now
  | loginSent x t =>
    have hlast : c.toRecord.lastLogin = some t := congrArg Link.lastLogin? hlink
    simp only [Link.session?, Link.phase, Option.map_some, Option.any_some, Option.all_some, hlast,
      decide_eq_true_eq]
    by_cases hidle : c.toRecord.options.reconnectTimeout < x.idle now
    · rw [if_pos hidle, if_pos (show c.options.reconnectTimeout < x.idle now from hidle)]
      rfl
    · rw [if_neg hidle, if_neg (show ¬c.options.reconnectTimeout < x.idle now from hidle)]
      by_cases hdue : c.toRecord.options.keepalive ≤ now.since t
      · rw [if_pos hdue, if_pos (show c.options.keepalive ≤ now.since t from hdue),
          toRecord_login_of_asked hlink]
      · rw [if_neg hdue, if_neg (show ¬c.options.keepalive ≤ now.since t from hdue)]
        rfl
  | established x t assigned =>
    simp only [Link.session?, Link.phase, Option.map_some, Option.all_some, decide_eq_true_eq]
    by_cases hidle : c.toRecord.options.reconnectTimeout < x.idle now
    · rw [if_pos hidle, if_pos (show c.options.reconnectTimeout < x.idle now from hidle)]
      rfl
    · rw [if_neg hidle, if_neg (show ¬c.options.reconnectTimeout < x.idle now from hidle)]
      by_cases hdue : x.keepaliveDue now c.toRecord.options.keepalive = true
      · rw [if_pos hdue, if_pos (show x.keepaliveDue now c.options.keepalive = true from hdue)]
        cases c
        cases hlink
        rfl
      · rw [if_neg hdue, if_neg (show ¬x.keepaliveDue now c.options.keepalive = true from hdue)]
        rfl

theorem toRecord_dispatch (c : Client) (packet : Bytes) :
    c.toRecord.dispatch packet = (c.dispatch packet).map toRecord id := by
  rw [dispatch, ClientRecord.dispatch, toRecord_session]
  cases c.session? <;> rfl

theorem toRecord_acceptOutcome (c : Client) (outcome : HostOutcome) :
    c.toRecord.acceptOutcome outcome = (c.acceptOutcome outcome).toRecord := by
  cases outcome with
  | routeInstalled r => rfl
  | failed reason => rfl
  | resolved endpoint =>
    rw [acceptOutcome, ClientRecord.acceptOutcome, toRecord_server]
    by_cases hsame : endpoint = c.server
    · rw [if_pos hsame, if_pos hsame]
    · rw [if_neg hsame, if_neg hsame, toRecord_modifySession]
      rfl

theorem toRecord_shutdown (c : Client) :
    c.toRecord.shutdown = c.shutdown.map toRecord id := by
  rw [shutdown, ClientRecord.shutdown, toRecord_session]
  cases c.session? <;> rfl

theorem toRecord_react (c : Client) (now : Time) (event : Event) :
    c.toRecord.react now event = (c.react now event).map toRecord id := by
  cases event with
  | packet bytes => exact toRecord_dispatch c bytes
  | datagram bytes sender => exact toRecord_receive c now bytes sender
  | outcome outcome => exact Prod.ext (toRecord_acceptOutcome c outcome) rfl
  | tick calendar => exact toRecord_tick c now calendar
  | shutdown => exact toRecord_shutdown c

theorem toRecord_credit (c : Client) (emission : Emission) :
    c.toRecord.credit emission = (c.credit emission).toRecord := by
  cases emission with
  | datagram message bytes recipient =>
    rw [credit, toRecord_modifySession]
    rfl
  | packet bytes => rfl

theorem toRecord_snapshot (c : Client) (now : Time) : c.toRecord.snapshot now = c.snapshot now := by
  have hname : c.link.phase.name = c.link.name := by cases c.link <;> rfl
  rw [ClientRecord.snapshot, snapshot, toRecord_phase, hname]
  rfl

/-- The record of a client answers every call as the client does. -/
theorem represents : engine.Represents ClientRecord.engine toRecord where
  codec _ := rfl
  react := toRecord_react
  credit := toRecord_credit
  takeJobs _ := rfl
  snapshot := toRecord_snapshot

theorem serve_start (codec : Codec) (routes : RouteTable) (options : ClientOptions)
    (origin : Time) (calls : List Call) :
    ClientRecord.engine.serve (.start codec routes options origin) calls =
      (engine.serve (start codec routes options origin) calls).map toRecord id :=
  represents.serve calls (start codec routes options origin)

end Client

end PacketTunnel
