import PacketTunnel.Proofs.Client.Change
import PacketTunnel.Proofs.Client.Record

/-!
# A client's contact with its server

Through all calls of a client we note when it opened a session and when it heard a message since,
from nothing but whether it has a session and what arrives from its server. Whatever a session
remembers of these times agrees with the notes, through repeated logins, probes, junk and moves of
the server; so the parts of a client's state go together after any calls.
-/
namespace PacketTunnel

open Engine (Call)

/-- When a session was opened, and the times at which messages were heard since, the last one first.
-/
structure Contact where
  opened : Time
  heard : List Time
deriving DecidableEq, Repr

def Contact.last (k : Contact) : Time := k.heard.headD k.opened

/-- The session of a contact: it is with the server, it began when it was opened, it remembers when
it last heard a message and how many there were, and as long as there was none it is as it was at
its start. -/
structure Session.Tells (x : Session) (server : Endpoint) (k : Contact) : Prop where
  endpoint : x.endpoint = server
  created : x.created = k.opened
  lastReceived : x.lastReceived = k.last
  received : x.received.packets = UInt64.ofNat k.heard.length
  fresh : k.heard = [] → x.received = .zero ∧ x.lastKeepalive = none

namespace Client

variable {c c' : Client} {contact : Option Contact} {now : Time} {event : Event}

/-- The contact after an event that leads from one state to another: none without a session, and
else the one that was there, with the message that was heard, or one that is opened now. -/
def contactThrough (c c' : Client) (now : Time) (event : Event) (contact : Option Contact) :
    Option Contact :=
  c'.session?.map fun _ =>
    match contact with
    | none => ⟨now, []⟩
    | some k => if (c.heard? event).isSome then ⟨k.opened, now :: k.heard⟩ else k

def contactAfter (c : Client) (contact : Option Contact) : Call → Option Contact
  | .moment m => contactThrough c (engine.answer c (.moment m)).1 m.now m.event contact
  | .takeJobs => contact

def contactFrom (c : Client) (contact : Option Contact) : List Call → Option Contact
  | [] => contact
  | k :: rest => contactFrom (engine.answer c k).1 (c.contactAfter contact k) rest

theorem contactThrough_of_closed (h : c'.session? = none) :
    contactThrough c c' now event contact = none := by
  simp only [contactThrough, h, Option.map_none]

theorem contactThrough_of_unheard {x : Session} (hx : c'.session? = some x) (k : Contact)
    (hevent : c.heard? event = none) : contactThrough c c' now event (some k) = some k := by
  simp only [contactThrough, hx, hevent, Option.map_some]
  rfl

theorem contactThrough_of_heard {x : Session} (hx : c'.session? = some x) (k : Contact)
    {m : Message} (hevent : c.heard? event = some m) :
    contactThrough c c' now event (some k) = some ⟨k.opened, now :: k.heard⟩ := by
  simp only [contactThrough, hx, hevent, Option.map_some]
  rfl

/-- A link and the notes of the contact agree. -/
inductive Tracks (c : Client) : Option Contact → Prop
  | closed (hlink : c.link = .disconnected) : Tracks c none
  | asked {x : Session} {t : Time} {k : Contact} (hlink : c.link = .loginSent x t)
      (hx : x.Tells c.server k) (hheard : k.heard = []) : Tracks c (some k)
  | answered {x : Session} {t : Time} {assigned : Option VirtualAddresses} {k : Contact}
      (hlink : c.link = .established x t assigned) (hx : x.Tells c.server k)
      (hheard : k.heard ≠ []) :
      Tracks c (some k)

theorem Tracks.exists_tells (h : Tracks c contact) {x : Session} (hx : c.link.session? = some x) :
    ∃ k, contact = some k ∧ x.Tells c.server k := by
  cases h with
  | closed hlink =>
    rw [hlink] at hx
    cases hx
  | asked hlink htells hheard =>
    rw [hlink] at hx
    cases hx
    exact ⟨_, rfl, htells⟩
  | answered hlink htells hheard =>
    rw [hlink] at hx
    cases hx
    exact ⟨_, rfl, htells⟩

theorem Tracks.modifySession (h : Tracks c contact) {f : Session → Session}
    (hlink : c'.link = c.link.modifySession f)
    (hf : ∀ x k, x.Tells c.server k → (f x).Tells c'.server k) : Tracks c' contact := by
  cases h with
  | closed hclosed => exact .closed (by rw [hlink, hclosed]; rfl)
  | asked hasked hx hheard => exact .asked (by rw [hlink, hasked]; rfl) (hf _ _ hx) hheard
  | answered hanswered hx hheard =>
    exact .answered (by rw [hlink, hanswered]; rfl) (hf _ _ hx) hheard

theorem tells_recount {x : Session} {server : Endpoint} {k : Contact} (hx : x.Tells server k)
    (f : Tally → Tally) :
    (x.recount f).Tells server k :=
  ⟨hx.endpoint, hx.created, hx.lastReceived, hx.received, hx.fresh⟩

theorem Tracks.unheard (h : Tracks c' contact)
    (hevent : c'.link = .disconnected ∨ c.heard? event = none) :
    Tracks c' (contactThrough c c' now event contact) := by
  cases h with
  | closed hlink =>
    rw [contactThrough_of_closed (congrArg Link.session? hlink)]
    exact .closed hlink
  | asked hlink hx hheard =>
    rw [contactThrough_of_unheard (congrArg Link.session? hlink)
      _ (hevent.resolve_left (by rw [hlink]; nofun))]
    exact .asked hlink hx hheard
  | answered hlink hx hheard =>
    rw [contactThrough_of_unheard (congrArg Link.session? hlink)
      _ (hevent.resolve_left (by rw [hlink]; nofun))]
    exact .answered hlink hx hheard

theorem tells_probed {x : Session} {server : Endpoint} {k : Contact} (hx : x.Tells server k)
    (hheard : k.heard ≠ []) (now : Time) (calendar : UInt64) :
    (x.nextEcho now calendar).1.Tells server k :=
  ⟨hx.endpoint, hx.created, hx.lastReceived, hx.received, fun hnone => absurd hnone hheard⟩

theorem tells_renewed {x x' : Session} {server : Endpoint} {k : Contact} {size : Nat}
    (hx : x.Tells server k) (h : x.Renews now size x') :
    x'.Tells server ⟨k.opened, now :: k.heard⟩ := by
  have htouch : (x.touch now size).Tells server ⟨k.opened, now :: k.heard⟩ := by
    refine ⟨hx.endpoint, hx.created, rfl, ?_, nofun⟩
    rw [List.length_cons, UInt64.ofNat_add, ← hx.received]
    rfl
  rcases h with rfl | ⟨echo, rfl⟩
  · exact htouch
  · rw [Session.acknowledge]
    split
    · exact ⟨htouch.endpoint, htouch.created, htouch.lastReceived, htouch.received, nofun⟩
    · exact htouch

theorem Tracks.change (h : Tracks c contact) (hc : Change c now event c') :
    Tracks c' (contactThrough c c' now event contact) := by
  cases hc with
  | quiet counters hquiet =>
    have hsame : Tracks { c with counters := counters } contact :=
      h.modifySession (Link.recount_id c.link).symm fun x k hx => tells_recount hx id
    exact hsame.unheard hquiet.unheard
  | loggedIn calendar hlink =>
    cases h with
    | closed hclosed => exact .asked rfl ⟨rfl, rfl, rfl, rfl, fun _ => ⟨rfl, rfl⟩⟩ rfl
    | asked hasked hx hheard => cases hlink.symm.trans hasked
    | answered hanswered hx hheard => cases hlink.symm.trans hanswered
  | askedAgain calendar hlink hidle hdue =>
    cases h with
    | closed hclosed => cases hlink.symm.trans hclosed
    | answered hanswered hx hheard => cases hlink.symm.trans hanswered
    | asked hasked hx hheard =>
      cases hlink.symm.trans hasked
      exact Tracks.unheard (.asked rfl hx hheard) (.inr rfl)
  | probed calendar hlink hidle hdue =>
    cases h with
    | closed hclosed => cases hlink.symm.trans hclosed
    | asked hasked hx hheard => cases hlink.symm.trans hasked
    | answered hanswered hx hheard =>
      cases hlink.symm.trans hanswered
      exact Tracks.unheard (.answered rfl (tells_probed hx hheard now calendar) hheard) (.inr rfl)
  | timedOut calendar hx hidle => exact .closed rfl
  | left counters hlink hevent => exact .closed rfl
  | heard hm hopen hx ht size hx' counters assigned routes installs =>
    obtain ⟨k, rfl, htells⟩ := h.exists_tells hx
    rw [contactThrough_of_heard rfl _ hm]
    exact .answered rfl (tells_renewed htells hx') nofun
  | moved hne =>
    refine Tracks.unheard (h.modifySession rfl fun x k hx => ?_) (.inr rfl)
    exact ⟨rfl, hx.created, hx.lastReceived, hx.received, hx.fresh⟩

theorem Tracks.answer (h : Tracks c contact) (k : Call) :
    Tracks (engine.answer c k).1 (c.contactAfter contact k) := by
  cases k with
  | takeJobs =>
    exact h.modifySession (Link.recount_id c.link).symm fun x k hx => tells_recount hx id
  | moment m =>
    have hreact := h.change (Client.change c m.now m.event)
    obtain ⟨counters, f, hstep⟩ := exists_step c m.conditions m.now m.event
    have hthrough :
        contactThrough c (engine.step m.conditions m.now m.event c).1 m.now m.event contact =
        contactThrough c (c.react m.now m.event).1 m.now m.event contact := by
      simp only [contactThrough, hstep, Client.session?, Link.recount, Link.session?_modifySession,
        Option.map_map, Function.comp_def]
    rw [contactAfter, Engine.answer, hthrough]
    exact hreact.modifySession (congrArg link hstep) fun x k hx => by
      rw [hstep]; exact tells_recount hx f

theorem Tracks.from (h : Tracks c contact) (calls : List Call) :
    Tracks (engine.serve c calls).1 (c.contactFrom contact calls) := by
  induction calls generalizing c contact with
  | nil => exact h
  | cons k rest ih => exact ih (h.answer k)

end Client

namespace ClientRecord

def heard? (r : ClientRecord) : Event → Option Message
  | .datagram bytes sender =>
    if sender = r.options.server then (r.codec.decode bytes).toOption else none
  | _ => none

def contactThrough (r r' : ClientRecord) (now : Time) (event : Event)
    (contact : Option Contact) : Option Contact :=
  r'.session.map fun _ =>
    match contact with
    | none => ⟨now, []⟩
    | some k => if (r.heard? event).isSome then ⟨k.opened, now :: k.heard⟩ else k

def contactAfter (r : ClientRecord) (contact : Option Contact) : Call → Option Contact
  | .moment m => contactThrough r (engine.answer r (.moment m)).1 m.now m.event contact
  | .takeJobs => contact

def contactFrom (r : ClientRecord) (contact : Option Contact) : List Call → Option Contact
  | [] => contact
  | k :: rest => contactFrom (engine.answer r k).1 (r.contactAfter contact k) rest

/-- How the fields of a client and the contact with its server go together. -/
structure Coupled (r : ClientRecord) (contact : Option Contact) : Prop where
  session : r.session.isSome ↔ r.phase ≠ .disconnected
  login : r.lastLogin.isSome ↔ r.phase ≠ .disconnected
  known : contact.isSome ↔ r.phase ≠ .disconnected
  endpoint : ∀ x, r.session = some x → x.endpoint = r.options.server
  assigned : r.assigned.isSome → r.phase = .established
  asked : ∀ x, r.session = some x → r.phase = .loginSent →
    x.received = .zero ∧ x.lastReceived = x.created ∧ x.lastKeepalive = none ∧
      ∃ k, contact = some k ∧ k.heard = []
  answered : ∀ x, r.session = some x → r.phase = .established →
    ∃ k, contact = some k ∧ k.heard ≠ [] ∧ x.received.packets = UInt64.ofNat k.heard.length

end ClientRecord

namespace Client

theorem contactAfter_toRecord (c : Client) (contact : Option Contact) (k : Call) :
    c.toRecord.contactAfter contact k = c.contactAfter contact k := by
  cases k with
  | takeJobs => rfl
  | moment m =>
    rw [ClientRecord.contactAfter, represents.answer]
    rfl

/-- The fields of a client give the same notes as its link. -/
theorem contactFrom_toRecord (calls : List Call) (c : Client) (contact : Option Contact) :
    c.toRecord.contactFrom contact calls = c.contactFrom contact calls := by
  induction calls generalizing c contact with
  | nil => rfl
  | cons k rest ih =>
    rw [ClientRecord.contactFrom, represents.answer, contactAfter_toRecord]
    exact ih _ _

theorem Tracks.coupled (h : Tracks c contact) : c.toRecord.Coupled contact where
  session := by
    cases hlink : c.link <;> simp [Client.session?, Link.session?, Link.phase, hlink]
  login := by
    cases hlink : c.link <;> simp [toRecord, Link.lastLogin?, Link.phase, hlink]
  known := by
    cases h with
    | closed hlink => simp [hlink, Link.phase]
    | asked hlink hx hheard => simp [hlink, Link.phase]
    | answered hlink hx hheard => simp [hlink, Link.phase]
  endpoint x hx := by
    obtain ⟨k, -, htells⟩ := h.exists_tells hx
    exact htells.endpoint
  assigned hassigned := by
    cases hlink : c.link <;> simp_all [toRecord, Link.assigned?, Link.phase]
  asked x hx hphase := by
    rw [toRecord_phase] at hphase
    cases h with
    | closed hlink => rw [hlink] at hphase; cases hphase
    | answered hlink htells hheard => rw [hlink] at hphase; cases hphase
    | asked hlink htells hheard =>
      rw [toRecord_session, Client.session?, hlink] at hx
      cases hx
      obtain ⟨hreceived, hprobe⟩ := htells.fresh hheard
      refine ⟨hreceived, ?_, hprobe, _, rfl, hheard⟩
      rw [htells.lastReceived, htells.created, Contact.last, hheard]
      rfl
  answered x hx hphase := by
    rw [toRecord_phase] at hphase
    cases h with
    | closed hlink => rw [hlink] at hphase; cases hphase
    | asked hlink htells hheard => rw [hlink] at hphase; cases hphase
    | answered hlink htells hheard =>
      rw [toRecord_session, Client.session?, hlink] at hx
      cases hx
      exact ⟨_, rfl, hheard, htells.received⟩

end Client

/-- After any calls, whatever comes and whenever, the fields of a client go together. -/
theorem ClientRecord.parts_coupled (codec : Codec) (routes : RouteTable) (options : ClientOptions)
    (origin : Time) (calls : List Call) :
    (engine.serve (start codec routes options origin) calls).1.Coupled
      ((start codec routes options origin).contactFrom none calls) := by
  have hstart : (Client.start codec routes options origin).Tracks none := .closed rfl
  have hcontact : (start codec routes options origin).contactFrom none calls =
      (Client.start codec routes options origin).contactFrom none calls :=
    Client.contactFrom_toRecord calls (.start codec routes options origin) none
  rw [Client.serve_start, hcontact]
  exact (hstart.from calls).coupled

end PacketTunnel
