import PacketTunnel.Proofs.Client.Attending
import PacketTunnel.Proofs.Client.Phases
import PacketTunnel.Proofs.Client.Provenance
import PacketTunnel.Proofs.Datagram.Advertising
import PacketTunnel.Proofs.Engine.Journal

/-!
# The pace of a client

A client sends logins and probes at its ticks alone, one of them at most. What paces them are two
times and a number: when it last logged in, when it last probed, and which identifier comes next.
They live and end with the session, and nothing but a login or a probe changes them. So within a
session the logins are at least the keepalive interval apart, and so are the probes, whose
identifiers count up from one. A codec so cramped that it cannot encode a probe lets the client
believe that it has probed.
-/
namespace PacketTunnel

open Engine (Call Moment Record)

namespace Codec

theorem length_encodeEcho (echo : Echo) : (Message.encodeEcho echo).length = 12 := by
  rw [Message.encodeEcho, List.length_append, Bytes.length_ofNat, Bytes.length_ofNat]

def EncodesProbes (codec : Codec) : Prop :=
  ∀ iv echo, ∃ d, codec.encode iv (.echoRequest echo) = .ok d

/-- All probes have the same length, so that either all are encoded or none is. -/
theorem encodesProbes_of_encode {codec : Codec} {iv : Block} {echo : Echo} {d : Bytes}
    (h : codec.encode iv (.echoRequest echo) = .ok d) : codec.EncodesProbes := by
  intro iv' echo'
  have hlength : (Message.echoRequest echo').encodeBody.length =
      (Message.echoRequest echo).encodeBody.length := by
    rw [Message.encodeBody, Message.encodeBody, length_encodeEcho, length_encodeEcho]
  rw [exists_encode_iff, codec.protection.length_encrypt_congr_length iv' iv hlength]
  exact exists_encode_iff.mp ⟨d, h⟩

theorem encodesProbes_ofMtu (p : Protection) {mtu : UInt64} (hmtu : mtu.toNat + 64 < 2 ^ 64) :
    (ofMtu p mtu).EncodesProbes := by
  intro iv echo
  have hshort : (Message.echoRequest echo).encodeBody.length < 48 := by
    rw [Message.encodeBody, length_encodeEcho]
    decide
  exact exists_encode_of_short (room_of_ofMtu p hmtu) iv hshort

end Codec

theorem Time.add_le_of_since {earlier last now : Time} {interval : Duration}
    (hlast : earlier ≤ last) (hpast : earlier ≤ now) (hdue : interval ≤ now.since last) :
    earlier + interval ≤ now := by
  unfold since at hdue
  unfold Time Duration at *
  omega

/-- Items with their times, the latest first, that are at least an interval apart. -/
def Spaced {α : Type} (interval : Duration) (items : List (Time × α)) : Prop :=
  items.Pairwise fun later earlier => earlier.1 + interval ≤ later.1

/-- What paces a client while it has a session. -/
structure Pace where
  lastLogin : Time
  lastProbe : Option Time
  nextId : UInt32

namespace Link

def pace? : Link → Option Pace
  | .disconnected => none
  | .loginSent x t => some ⟨t, x.lastKeepalive, x.nextEchoId⟩
  | .established x t _ => some ⟨t, x.lastKeepalive, x.nextEchoId⟩

theorem pace?_of_session? {link : Link} {x : Session} {t : Time} (hx : link.session? = some x)
    (ht : link.lastLogin? = some t) : link.pace? = some ⟨t, x.lastKeepalive, x.nextEchoId⟩ := by
  cases link with
  | disconnected => cases hx
  | loginSent y u =>
    cases hx
    cases ht
    rfl
  | established y u assigned =>
    cases hx
    cases ht
    rfl

theorem pace?_modifySession (link : Link) {f : Session → Session}
    (hf : ∀ x, (f x).lastKeepalive = x.lastKeepalive ∧ (f x).nextEchoId = x.nextEchoId) :
    (link.modifySession f).pace? = link.pace? := by
  cases link with
  | disconnected => rfl
  | loginSent x t => rw [modifySession, pace?, (hf x).1, (hf x).2, pace?]
  | established x t assigned => rw [modifySession, pace?, (hf x).1, (hf x).2, pace?]

theorem isSome_pace? (link : Link) : link.pace?.isSome = link.session?.isSome := by
  cases link <;> rfl

end Link

/-- The messages that a client sends of its own accord to open a session or to keep it. -/
def Message.isPaced : Message → Bool
  | .clientLogin _ => true
  | .echoRequest _ => true
  | _ => false

namespace Emission

def login? : Emission → Option VirtualAddresses
  | .datagram (.clientLogin requested) _ _ => some requested
  | _ => none

def probe? : Emission → Option Echo
  | .datagram (.echoRequest echo) _ _ => some echo
  | _ => none

end Emission

namespace Client

variable {c : Client} {now : Time} {event : Event}

def Unpaced (actions : List Action) : Prop := ∀ m e, .send m e ∈ actions → m.isPaced = false

theorem unpaced_nil : Unpaced [] := fun _ _ h => by cases h

theorem unpaced_send {m : Message} (hm : m.isPaced = false) (e : Endpoint) :
    Unpaced [.send m e] := by
  intro m' e' h
  cases List.mem_singleton.mp h
  exact hm

/-- What an event does to the pace: it leaves or ends it, or a tick opens a session with a login,
asks again or probes. -/
inductive Beats (c : Client) (now : Time) : Event → Option Pace → Option Pace × List Action → Prop
  | stays {event : Event} {pace? : Option Pace} {actions : List Action} (h : Unpaced actions) :
      Beats c now event pace? (pace?, actions)
  | ends {event : Event} {pace? : Option Pace} {actions : List Action} (h : Unpaced actions) :
      Beats c now event pace? (none, actions)
  | opens (calendar : UInt64) :
      Beats c now (.tick calendar) none
        (some ⟨now, none, 1⟩, [.send (.clientLogin c.options.requested) c.server])
  | asks (calendar : UInt64) (pace : Pace) (hdue : c.options.keepalive ≤ now.since pace.lastLogin) :
      Beats c now (.tick calendar) (some pace)
        (some { pace with lastLogin := now }, [.send (.clientLogin c.options.requested) c.server])
  | probes (calendar : UInt64) (pace : Pace)
      (hdue : ∀ last, pace.lastProbe = some last → c.options.keepalive ≤ now.since last) :
      Beats c now (.tick calendar) (some pace)
        (some { pace with lastProbe := some now, nextId := pace.nextId + 1 },
          [.send (.echoRequest ⟨pace.nextId, calendar⟩) c.server])

theorem pace?_accept (c : Client) (m : Message) (hopen : m ≠ .disconnect) :
    (c.accept m).1.link.pace? = c.link.pace? ∧ Unpaced (c.accept m).2 := by
  cases m with
  | data packet =>
    refine ⟨rfl, fun m e hm => ?_⟩
    cases List.mem_singleton.mp hm
  | echoRequest echo => exact ⟨rfl, unpaced_send rfl _⟩
  | echoAck echo =>
    refine ⟨Link.pace?_modifySession c.link fun x => ?_, unpaced_nil⟩
    rw [Session.acknowledge]
    split <;> exact ⟨rfl, rfl⟩
  | clientLogin addresses =>
    refine ⟨?_, unpaced_nil⟩
    rw [accept]
    cases c.link <;> rfl
  | routeAdvertise routes =>
    rw [accept, foldl_learnRoute]
    exact ⟨rfl, unpaced_nil⟩
  | disconnect => exact absurd rfl hopen

theorem beats_datagram (c : Client) (now : Time) (bytes : Bytes) (sender : Endpoint) :
    Beats c now (.datagram bytes sender) c.link.pace?
      ((c.react now (.datagram bytes sender)).1.link.pace?,
        (c.react now (.datagram bytes sender)).2) := by
  have hreceives := receives c now bytes sender
  generalize c.react now (.datagram bytes sender) = reaction at hreceives
  cases hreceives with
  | ignored counters h => exact .stays unpaced_nil
  | farewell counters hlink hm => exact .ends unpaced_nil
  | @accepted m x t hm hopen hx ht =>
    obtain ⟨hpace, hactions⟩ := pace?_accept (c.joined (x.touch now bytes.length) t) m hopen
    rw [hpace, Link.pace?_of_session? hx ht]
    exact .stays hactions

theorem beats_tick (c : Client) (now : Time) (calendar : UInt64) :
    Beats c now (.tick calendar) c.link.pace?
      ((c.react now (.tick calendar)).1.link.pace?, (c.react now (.tick calendar)).2) := by
  have hticks := ticks c now calendar
  generalize c.react now (.tick calendar) = reaction at hticks
  cases hticks with
  | loggedIn hlink =>
    rw [hlink]
    exact .opens calendar
  | @askedAgain x t hlink hidle hdue =>
    rw [hlink]
    exact .asks calendar ⟨t, x.lastKeepalive, x.nextEchoId⟩ hdue
  | @probed x t assigned hlink hidle hdue =>
    have hdue' : ∀ last, x.lastKeepalive = some last → c.options.keepalive ≤ now.since last := by
      intro last hlast
      rw [Session.keepaliveDue, hlast] at hdue
      exact of_decide_eq_true hdue
    rw [hlink]
    exact .probes calendar ⟨t, x.lastKeepalive, x.nextEchoId⟩ hdue'
  | timedOut hx hidle => exact .ends unpaced_nil
  | waited h => exact .stays unpaced_nil

theorem beats (c : Client) (now : Time) (event : Event) :
    Beats c now event c.link.pace? ((c.react now event).1.link.pace?, (c.react now event).2) := by
  cases event with
  | datagram bytes sender => exact beats_datagram c now bytes sender
  | tick calendar => exact beats_tick c now calendar
  | packet bytes =>
    rw [react, dispatch]
    split
    · exact .stays (unpaced_send rfl _)
    · exact .stays unpaced_nil
  | outcome outcome =>
    cases outcome with
    | resolved endpoint =>
      rw [react, acceptOutcome]
      split
      · exact .stays unpaced_nil
      · have hpace : (c.link.modifySession fun x => { x with endpoint := endpoint }).pace? =
            c.link.pace? :=
          Link.pace?_modifySession c.link fun _ => ⟨rfl, rfl⟩
        change Beats c now _ c.link.pace?
          ((c.link.modifySession fun x => { x with endpoint := endpoint }).pace?, [])
        rw [hpace]
        exact .stays unpaced_nil
    | routeInstalled r => exact .stays unpaced_nil
    | failed reason => exact .stays unpaced_nil
  | shutdown =>
    rw [react, shutdown]
    split
    · exact .ends (unpaced_send rfl _)
    · exact .stays unpaced_nil

/-- The logins of a session, the latest first, by the time of the last one. -/
structure LoginsUpTo (interval : Duration) (logins : List (Time × VirtualAddresses)) (last : Time) :
    Prop where
  spaced : Spaced interval logins
  le_last : ∀ q ∈ logins, q.1 ≤ last

structure ProbesUpTo (codec : Codec) (interval : Duration) (probes : List (Time × Echo))
    (last : Option Time) (nextId : UInt32) : Prop where
  spaced : Spaced interval probes
  ids : probes.reverse.map (fun q => q.2.id) = (List.range probes.length).map
    fun i => UInt32.ofNat (i + 1)
  probed : codec.EncodesProbes → last = probes.head?.map Prod.fst ∧
    nextId = UInt32.ofNat (probes.length + 1)
  unprobed : ¬ codec.EncodesProbes → probes = []

variable {codec : Codec} {interval : Duration} {logins : List (Time × VirtualAddresses)}
  {probes : List (Time × Echo)} {last : Time} {lastProbe : Option Time} {nextId : UInt32}

theorem LoginsUpTo.cons (h : LoginsUpTo interval logins last) (hpast : ∀ q ∈ logins, q.1 ≤ now)
    (hdue : interval ≤ now.since last) (requested : VirtualAddresses) :
    LoginsUpTo interval ((now, requested) :: logins) now := by
  have hspaced : Spaced interval ((now, requested) :: logins) :=
    List.pairwise_cons.mpr ⟨fun q hq => Time.add_le_of_since (h.le_last q hq) (hpast q hq) hdue,
      h.spaced⟩
  refine ⟨hspaced, fun q hq => ?_⟩
  rcases List.mem_cons.mp hq with rfl | hq
  · exact Nat.le_refl _
  · exact hpast q hq

theorem ProbesUpTo.le_last (h : ProbesUpTo codec interval probes lastProbe nextId)
    (hcodec : codec.EncodesProbes) {q : Time × Echo} (hq : q ∈ probes) :
    ∃ last, lastProbe = some last ∧ q.1 ≤ last := by
  obtain ⟨hlast, -⟩ := h.probed hcodec
  cases probes with
  | nil => cases hq
  | cons latest rest =>
    refine ⟨latest.1, hlast, ?_⟩
    rcases List.mem_cons.mp hq with rfl | hq
    · exact Nat.le_refl _
    · exact Nat.le_trans (Nat.le_add_right _ _) ((List.pairwise_cons.mp h.spaced).1 q hq)

theorem ProbesUpTo.cons (h : ProbesUpTo codec interval probes lastProbe nextId)
    (hcodec : codec.EncodesProbes) (hpast : ∀ q ∈ probes, q.1 ≤ now)
    (hdue : ∀ last, lastProbe = some last → interval ≤ now.since last) (timestamp : UInt64) :
    ProbesUpTo codec interval ((now, ⟨nextId, timestamp⟩) :: probes) (some now) (nextId + 1) := by
  obtain ⟨-, hid⟩ := h.probed hcodec
  refine ⟨List.pairwise_cons.mpr ⟨fun q hq => ?_, h.spaced⟩, ?_, fun _ => ⟨rfl, ?_⟩,
    fun hnot => absurd hcodec hnot⟩
  · obtain ⟨last, hlast, hle⟩ := h.le_last hcodec hq
    exact Time.add_le_of_since hle (hpast q hq) (hdue last hlast)
  · rw [List.reverse_cons, List.map_append, h.ids, List.length_cons, List.range_succ,
      List.map_append, hid]
    rfl
  · rw [hid, List.length_cons, UInt32.ofNat_add (probes.length + 1) 1]
    rfl

theorem filterMap_of_unpaced {actions : List Action} (h : Unpaced actions) (codec : Codec)
    (k : Conditions) :
    (Action.performAll codec k actions).filterMap Emission.login? = [] ∧
      (Action.performAll codec k actions).filterMap Emission.probe? = [] := by
  have hnone : ∀ emission ∈ Action.performAll codec k actions, emission.login? = none ∧
      emission.probe? = none := by
    intro emission hemission
    cases emission with
    | packet bytes => exact ⟨rfl, rfl⟩
    | datagram m bytes e =>
      have hm := h m e (Action.send_of_mem_performAll hemission).1
      cases m <;> first | exact ⟨rfl, rfl⟩ | cases hm
  exact ⟨List.filterMap_eq_nil_iff.mpr fun emission hemission => (hnone emission hemission).1,
    List.filterMap_eq_nil_iff.mpr fun emission hemission => (hnone emission hemission).2⟩

theorem filterMap_login (codec : Codec) (k : Conditions) (requested : VirtualAddresses)
    (e : Endpoint) :
    ((Action.performAll codec k [.send (.clientLogin requested) e]).filterMap Emission.login? = [] ∨
        (Action.performAll codec k [.send (.clientLogin requested) e]).filterMap Emission.login? =
          [requested]) ∧
      (Action.performAll codec k [.send (.clientLogin requested) e]).filterMap Emission.probe? =
        [] := by
  rcases Action.performAll_send_cases codec k (.clientLogin requested) e with
    hnone | ⟨bytes, -, -, hsent⟩
  · rw [hnone]
    exact ⟨.inl rfl, rfl⟩
  · rw [hsent]
    exact ⟨.inr rfl, rfl⟩

theorem performAll_probe (hcodec : codec.EncodesProbes) {k : Conditions} (hsend : k.sends 0 = true)
    (echo : Echo) (e : Endpoint) :
    ∃ bytes, Action.performAll codec k [.send (.echoRequest echo) e] =
      [.datagram (.echoRequest echo) bytes e] := by
  obtain ⟨bytes, hbytes⟩ := hcodec (k.vector 0) echo
  exact ⟨bytes, (Action.performAll_send hbytes).trans (if_pos hsend)⟩

theorem performAll_probe_of_not (hcodec : ¬ codec.EncodesProbes) (k : Conditions) (echo : Echo)
    (e : Endpoint) :
    Action.performAll codec k [.send (.echoRequest echo) e] = [] := by
  rcases Action.performAll_send_cases codec k (.echoRequest echo) e with
    hnone | ⟨bytes, iv, hbytes, -⟩
  · exact hnone
  · exact absurd (Codec.encodesProbes_of_encode hbytes) hcodec

/-- Logins and probes agree with the pace, and there are none without one. -/
structure Agree (codec : Codec) (interval : Duration) (logins : List (Time × VirtualAddresses))
    (probes : List (Time × Echo)) (pace? : Option Pace) : Prop where
  gone : pace? = none → logins = [] ∧ probes = []
  loggedIn : ∀ pace, pace? = some pace → LoginsUpTo interval logins pace.lastLogin
  probed : ∀ pace, pace? = some pace → ProbesUpTo codec interval probes pace.lastProbe pace.nextId

theorem Agree.spaced_logins {pace? : Option Pace} (h : Agree codec interval logins probes pace?) :
    Spaced interval logins := by
  cases pace? with
  | none =>
    rw [(h.gone rfl).1]
    exact .nil
  | some pace => exact (h.loggedIn pace rfl).spaced

theorem Agree.spaced_probes {pace? : Option Pace} (h : Agree codec interval logins probes pace?) :
    Spaced interval probes ∧
      probes.reverse.map (fun q => q.2.id) = (List.range probes.length).map
        fun i => UInt32.ofNat (i + 1) := by
  cases pace? with
  | none =>
    rw [(h.gone rfl).2]
    exact ⟨.nil, rfl⟩
  | some pace => exact ⟨(h.probed pace rfl).spaced, (h.probed pace rfl).ids⟩

/-- What a beat sends goes on with what was sent before, if it leaves a session. -/
theorem Beats.agree {pace? : Option Pace} {pace : Pace} {actions : List Action}
    (h : Beats c now event pace? (some pace, actions))
    (hbefore : Agree c.codec c.options.keepalive logins probes pace?)
    (hlogins : ∀ q ∈ logins, q.1 ≤ now) (hprobes : ∀ q ∈ probes, q.1 ≤ now) {k : Conditions}
    (hsend : k.sends 0 = true) :
    LoginsUpTo c.options.keepalive
        (((Action.performAll c.codec k actions).filterMap Emission.login?).map (now, ·) ++ logins)
          pace.lastLogin ∧
      ProbesUpTo c.codec c.options.keepalive
        (((Action.performAll c.codec k actions).filterMap Emission.probe?).map (now, ·) ++ probes)
          pace.lastProbe
        pace.nextId := by
  cases h with
  | stays hactions =>
    obtain ⟨hlogin, hprobe⟩ := filterMap_of_unpaced hactions c.codec k
    rw [hlogin, hprobe]
    exact ⟨hbefore.loggedIn pace rfl, hbefore.probed pace rfl⟩
  | opens calendar =>
    obtain ⟨hnone, hnone'⟩ := hbefore.gone rfl
    obtain ⟨hlogin, hprobe⟩ := filterMap_login c.codec k c.options.requested c.server
    rw [hprobe, hnone, hnone']
    refine ⟨?_, .nil, rfl, fun _ => ⟨rfl, rfl⟩, fun _ => rfl⟩
    rcases hlogin with hlogin | hlogin
    · rw [hlogin]
      exact ⟨.nil, nofun⟩
    · rw [hlogin]
      exact ⟨List.pairwise_singleton _ _,
        fun q hq => Nat.le_of_eq (congrArg Prod.fst (List.mem_singleton.mp hq))⟩
  | asks calendar before hdue =>
    obtain ⟨hlogin, hprobe⟩ := filterMap_login c.codec k c.options.requested c.server
    rw [hprobe]
    refine ⟨?_, hbefore.probed before rfl⟩
    rcases hlogin with hlogin | hlogin
    · rw [hlogin]
      exact ⟨(hbefore.loggedIn before rfl).spaced, hlogins⟩
    · rw [hlogin]
      exact (hbefore.loggedIn before rfl).cons hlogins hdue _
  | probes calendar before hdue =>
    have hprobed := hbefore.probed before rfl
    -- A probe that cannot be encoded moves the session's times all the same.
    by_cases hcodec : c.codec.EncodesProbes
    · obtain ⟨bytes, hsent⟩ := performAll_probe hcodec hsend ⟨before.nextId, calendar⟩ c.server
      rw [hsent]
      exact ⟨hbefore.loggedIn before rfl, hprobed.cons hcodec hprobes hdue calendar⟩
    · rw [performAll_probe_of_not hcodec]
      exact ⟨hbefore.loggedIn before rfl, hprobed.spaced, hprobed.ids,
        fun hencodes => absurd hencodes hcodec, hprobed.unprobed⟩

/-- The records since a client's session began, the latest first: those after each of which there
was one. -/
def recent (past : List (Record Client)) : List (Record Client) :=
  past.takeWhile fun r => r.after.session?.isSome

/-- What was emitted of some kind in the records, with its times. -/
def stamped {α : Type} (select : Emission → Option α) (past : List (Record Client)) :
    List (Time × α) :=
  past.flatMap fun r => (r.emissions.filterMap select).map fun a => (r.moment.now, a)

theorem stamped_le {α : Type} {select : Emission → Option α} {past : List (Record Client)}
    {q : Time × α} (hq : q ∈ stamped select (recent past))
    (hpast : ∀ r ∈ past, r.moment.now ≤ now) :
    q.1 ≤ now := by
  obtain ⟨r, hr, hq⟩ := List.mem_flatMap.mp hq
  obtain ⟨a, -, rfl⟩ := List.mem_map.mp hq
  exact hpast r (List.takeWhile_subset _ hr)

/-- What the current session has sent agrees with the pace of the link. -/
def OnPace (c : Client) (past : List (Record Client)) : Prop :=
  Agree c.codec c.options.keepalive (stamped Emission.login? (recent past))
    (stamped Emission.probe? (recent past)) c.link.pace?

theorem record_emissions (c : Client) (m : Moment) :
    (engine.record c m).emissions =
      Action.performAll c.codec m.conditions (c.react m.now m.event).2 := rfl

theorem setup_record (c : Client) (m : Moment) :
    (engine.record c m).after.codec = c.codec ∧ (engine.record c m).after.options = c.options ∧
      (engine.record c m).after.link.pace? = (c.react m.now m.event).1.link.pace? ∧
      (engine.record c m).after.link.phase = (c.react m.now m.event).1.link.phase := by
  obtain ⟨counters, f, hstep⟩ := exists_step c m.conditions m.now m.event
  have hchange := change c m.now m.event
  have hafter : (engine.record c m).after = (engine.step m.conditions m.now m.event c).1 := rfl
  rw [hafter, hstep]
  exact ⟨hchange.codec, hchange.options, Link.pace?_modifySession _ fun _ => ⟨rfl, rfl⟩,
    Link.phase_modifySession _ _⟩

theorem OnPace.step {past : List (Record Client)} (h : OnPace c past) (m : Moment)
    (hpast : ∀ r ∈ past, r.moment.now ≤ m.now) (hsend : m.conditions.sends 0 = true) :
    OnPace (engine.record c m).after (engine.record c m :: past) := by
  obtain ⟨hcodec, hoptions, hpace, -⟩ := setup_record c m
  have hsome : (engine.record c m).after.session?.isSome =
      (c.react m.now m.event).1.link.pace?.isSome := by
    rw [← hpace, Link.isSome_pace?]
    rfl
  have hbeats := beats c m.now m.event
  rw [OnPace, hcodec, hoptions, hpace, recent, List.takeWhile_cons, hsome]
  generalize (c.react m.now m.event).1.link.pace? = pace? at hbeats
  cases pace? with
  | none => exact ⟨fun _ => ⟨rfl, rfl⟩, nofun, nofun⟩
  | some pace =>
    have hagree :=
      hbeats.agree h (fun q hq => stamped_le hq hpast) (fun q hq => stamped_le hq hpast) hsend
    rw [← record_emissions] at hagree
    refine ⟨nofun, fun pace' hpace' => ?_, fun pace' hpace' => ?_⟩
    · cases hpace'
      exact hagree.1
    · cases hpace'
      exact hagree.2

structure Regular (moments : List Moment) : Prop where
  ordered : moments.Pairwise fun m m' => m.now ≤ m'.now
  sends : ∀ m ∈ moments, ∀ n, m.conditions.sends n = true

theorem onPace_serve (codec : Codec) (routes : RouteTable) (options : ClientOptions) (origin : Time)
    {calls : List Call} (hcalls : Regular (calls.filterMap Call.moment?)) :
    (engine.serve (start codec routes options origin) calls).1.codec = codec ∧
      (engine.serve (start codec routes options origin) calls).1.options = options ∧
      OnPace (engine.serve (start codec routes options origin) calls).1
        (engine.journal (start codec routes options origin) [] calls) := by
  have hstart : OnPace (start codec routes options origin) [] := ⟨fun _ => ⟨rfl, rfl⟩, nofun, nofun⟩
  have hrun := Engine.journal_preserves (E := engine)
    (P := fun c past => c.codec = codec ∧ c.options = options ∧
      (Regular (past.map Record.moment).reverse → OnPace c past))
    ?_ ?_ ⟨rfl, rfl, fun _ => hstart⟩ calls
  · obtain ⟨hcodec, hoptions, honPace⟩ := hrun
    refine ⟨hcodec, hoptions, honPace ?_⟩
    rw [Engine.map_moment_journal, List.map_nil, List.append_nil, List.reverse_reverse]
    exact hcalls
  · rintro c past m ⟨hcodec, hoptions, ih⟩
    obtain ⟨hcodec', hoptions', -⟩ := setup_record c m
    refine ⟨hcodec'.trans hcodec, hoptions'.trans hoptions, fun hregular => ?_⟩
    rw [List.map_cons, List.reverse_cons] at hregular
    obtain ⟨hordered, -, hlater⟩ := List.pairwise_append.mp hregular.ordered
    have hpast : ∀ r ∈ past, r.moment.now ≤ m.now := fun r hr =>
      hlater r.moment (List.mem_reverse.mpr (List.mem_map_of_mem hr)) m (List.mem_singleton.mpr rfl)
    have hsends : ∀ m' ∈ (past.map Record.moment).reverse, ∀ n, m'.conditions.sends n = true :=
      fun m' hm' => hregular.sends m' (List.mem_append_left _ hm')
    exact (ih ⟨hordered, hsends⟩).step m hpast
      (hregular.sends m (List.mem_append_right _ (List.mem_singleton.mpr rfl)) 0)
  · exact fun c past h => h

/-- What a client sends at a tick, from a state to the next: nothing, or a login, which leaves the
link without an answer, or a probe on an established link. -/
inductive Strikes (c c' : Client) : List Emission → Prop
  | silent : Strikes c c' []
  | login (hphase : c.link.phase ≠ .established) (hphase' : c'.link.phase = .loginSent)
      (bytes : Bytes) : Strikes c c' [.datagram (.clientLogin c.options.requested) bytes c.server]
  | probe (hphase : c.link.phase = .established) (hphase' : c'.link.phase = .established)
      (echo : Echo) (bytes : Bytes) : Strikes c c' [.datagram (.echoRequest echo) bytes c.server]

theorem strikes (c : Client) {m : Moment} {calendar : UInt64} (hm : m.event = .tick calendar) :
    Strikes c (engine.record c m).after (engine.record c m).emissions := by
  obtain ⟨-, -, -, hphase⟩ := setup_record c m
  have hemissions := record_emissions c m
  have hticks := ticks c m.now calendar
  rw [hm] at hphase hemissions
  rw [hemissions]
  generalize c.react m.now (.tick calendar) = reaction at hticks hphase
  have hlogin (x : Session) (hc : c.link.phase ≠ .established)
      (hc' : (engine.record c m).after.link.phase = (c.login x m.now).1.link.phase) :
      Strikes c (engine.record c m).after
      (Action.performAll c.codec m.conditions (c.login x m.now).2) := by
    rcases Action.performAll_send_cases c.codec m.conditions (.clientLogin c.options.requested)
      c.server with
      hnone | ⟨bytes, -, -, hsent⟩
    · rw [login, hnone]
      exact .silent
    · rw [login, hsent]
      exact .login hc hc' bytes
  cases hticks with
  | loggedIn hlink => exact hlogin _ (by rw [hlink]; nofun) hphase
  | askedAgain hlink hidle hdue => exact hlogin _ (by rw [hlink]; nofun) hphase
  | @probed x t assigned hlink hidle hdue =>
    rcases Action.performAll_send_cases c.codec m.conditions
      (.echoRequest (x.nextEcho m.now calendar).2) c.server with
      hnone | ⟨bytes, -, -, hsent⟩
    · rw [hnone]
      exact .silent
    · rw [hsent]
      exact .probe (by rw [hlink]; rfl) hphase _ bytes
  | timedOut hx hidle => exact .silent
  | waited h => exact .silent

theorem silent_of_not_tick (c : Client) {m : Moment} (hm : ∀ calendar, m.event ≠ .tick calendar) :
    (engine.record c m).emissions.filterMap Emission.login? = [] ∧
      (engine.record c m).emissions.filterMap Emission.probe? = [] := by
  have hbeats := beats c m.now m.event
  have hunpaced : Unpaced (c.react m.now m.event).2 := by
    generalize m.event = event at hbeats hm ⊢
    generalize (c.react m.now event).2 = actions at hbeats ⊢
    generalize c.link.pace? = before, (c.react m.now event).1.link.pace? = after at hbeats
    cases hbeats with
    | stays h => exact h
    | ends h => exact h
    | opens calendar => exact absurd rfl (hm calendar)
    | asks calendar before hdue => exact absurd rfl (hm calendar)
    | probes calendar before hdue => exact absurd rfl (hm calendar)
  exact filterMap_of_unpaced hunpaced c.codec m.conditions

/-- A tick that leaves the link established and sends nothing comes before the interval since the
last probe is over, if the codec can encode the probes. -/
theorem OnPace.lt_add_of_silent {past : List (Record Client)} (h : OnPace c past)
    (hcodec : c.codec.EncodesProbes) {m : Moment} {calendar : UInt64}
    (hm : m.event = .tick calendar) (hsend : m.conditions.sends 0 = true)
    (hphase : c.link.phase = .established)
    (hphase' : (engine.record c m).after.link.phase = .established)
    (hsilent : (engine.record c m).emissions = []) :
    ∃ q, (stamped Emission.probe? (recent past)).head? = some q ∧
      m.now < q.1 + c.options.keepalive := by
  have hemissions := record_emissions c m
  obtain ⟨-, -, -, hstep⟩ := setup_record c m
  rw [hstep] at hphase'
  have hticks := ticks c m.now calendar
  rw [hm] at hphase' hemissions
  rw [hsilent] at hemissions
  generalize c.react m.now (.tick calendar) = reaction at hticks hphase' hemissions
  cases hticks with
  | loggedIn hlink =>
    rw [hlink] at hphase
    cases hphase
  | askedAgain hlink hidle hdue =>
    rw [hlink] at hphase
    cases hphase
  | @probed x t assigned hlink hidle hdue =>
    obtain ⟨bytes, hsent⟩ := performAll_probe hcodec hsend (x.nextEcho m.now calendar).2 c.server
    cases hemissions.trans hsent
  | timedOut hx hidle => cases hphase'
  | waited hearly =>
    cases hlink : c.link with
    | disconnected =>
      rw [hlink] at hphase
      cases hphase
    | loginSent x t =>
      rw [hlink] at hphase
      cases hphase
    | established x t assigned =>
      rw [TooEarly, hlink] at hearly
      have hpace : c.link.pace? = some ⟨t, x.lastKeepalive, x.nextEchoId⟩ := by
        rw [hlink]
        rfl
      obtain ⟨hlast, -⟩ := (h.probed _ hpace).probed hcodec
      obtain ⟨last, hsome, hlt⟩ := exists_of_not_keepaliveDue hearly.2
      obtain ⟨q, hq, rfl⟩ := Option.map_eq_some_iff.mp (hlast.symm.trans hsome)
      exact ⟨q, hq, hlt⟩

/-- After any calls in order with a socket that works, the logins of the current session are at
least the keepalive interval apart, and so are its probes, whose identifiers count up from one;
logins and probes are sent at ticks alone, one at a time, logins before the link is established and
probes then; and if the codec can encode the probes, a tick that sends none and leaves the link
established comes less than the interval after the last one. -/
theorem pacing (p : Protection) (mtu : UInt64) (routes : RouteTable) (options : ClientOptions)
    (origin : Time) {calls : List Call} (hcalls : Regular (calls.filterMap Call.moment?)) :
    let c₀ := start (.ofMtu p mtu) routes options origin
    let c := (engine.serve c₀ calls).1
    let session := recent (engine.journal c₀ [] calls)
    let probes := stamped Emission.probe? session
    Spaced options.keepalive (stamped Emission.login? session) ∧ Spaced options.keepalive probes ∧
      probes.reverse.map (fun q => q.2.id) =
        (List.range probes.length).map (fun i => UInt32.ofNat (i + 1)) ∧
      (∀ m, (∀ calendar, m.event ≠ .tick calendar) →
        (engine.record c m).emissions.filterMap Emission.login? = [] ∧
          (engine.record c m).emissions.filterMap Emission.probe? = []) ∧
      (∀ m calendar, m.event = .tick calendar →
        Strikes c (engine.record c m).after (engine.record c m).emissions) ∧
      (mtu.toNat + 64 < 2 ^ 64 → (Codec.ofMtu p mtu).EncodesProbes) ∧
      ((Codec.ofMtu p mtu).EncodesProbes → ∀ m calendar, m.event = .tick calendar →
        m.conditions.sends 0 = true → c.link.phase = .established →
        (engine.record c m).after.link.phase = .established → (engine.record c m).emissions = [] →
        ∃ q, probes.head? = some q ∧ m.now < q.1 + options.keepalive) := by
  intro c₀ c session probes
  obtain ⟨hcodec, hoptions, honPace⟩ := onPace_serve (.ofMtu p mtu) routes options origin hcalls
  have hlast := honPace.lt_add_of_silent
  rw [OnPace, hcodec, hoptions] at honPace
  rw [hcodec, hoptions] at hlast
  refine ⟨honPace.spaced_logins, honPace.spaced_probes.1, honPace.spaced_probes.2,
    fun m hm => silent_of_not_tick c hm, fun m calendar hm => strikes c hm,
    Codec.encodesProbes_ofMtu p, fun hencodes m calendar hm => ?_⟩
  exact fun hsend hphase hphase' hsilent => hlast hencodes hm hsend hphase hphase' hsilent

def inquiring : List Call :=
  welcomed ++ [.moment ⟨2, .tick 0, Conditions.fair⟩, .moment ⟨13002, .tick 0, Conditions.fair⟩]

theorem regular_of_fair {moments : List Moment}
    (hordered : moments.Pairwise fun m m' => m.now ≤ m'.now)
    (hfair : moments.map Moment.conditions = List.replicate moments.length Conditions.fair) :
    Regular moments := by
  refine ⟨hordered, fun m hm n => ?_⟩
  have hmem : m.conditions ∈ List.replicate moments.length Conditions.fair := by
    rw [← hfair]
    exact List.mem_map_of_mem hm
  rw [List.eq_of_mem_replicate hmem]
  rfl

theorem pacing_inquiring :
    Regular (inquiring.filterMap Call.moment?) ∧
      stamped Emission.probe? (recent (engine.journal newcomer [] inquiring)) =
        [(13002, ⟨2, 0⟩), (2, ⟨1, 0⟩)] ∧
      Spaced newcomer.options.keepalive
        (stamped Emission.probe? (recent (engine.journal newcomer [] inquiring))) ∧
      (engine.record (engine.serve newcomer inquiring).1
        ⟨26001, .tick 0, Conditions.fair⟩).emissions = [] ∧
      ∃ q, (stamped Emission.probe? (recent (engine.journal newcomer [] inquiring))).head? =
        some q ∧
        26001 < q.1 + newcomer.options.keepalive := by
  have hregular : Regular (inquiring.filterMap Call.moment?) :=
    regular_of_fair (by decide +kernel) rfl
  have hsilent :
      (engine.record (engine.serve newcomer inquiring).1
        ⟨26001, .tick 0, Conditions.fair⟩).emissions = [] := by
    decide +kernel
  obtain ⟨-, hspaced, -, -, -, hencodes, hlast⟩ :=
    pacing .clear 1416 .empty newcomer.options 0 hregular
  have hq :=
    hlast (hencodes (by decide)) ⟨26001, .tick 0, Conditions.fair⟩ 0 rfl rfl (by decide +kernel)
      (by decide +kernel) hsilent
  exact ⟨hregular, by decide +kernel, hspaced, hsilent, hq⟩

/-- A client whose MTU is so great that its payloads have eight bytes at most, too few for a probe.
-/
def cramped : Client :=
  .start (.ofMtu .clear 0xffffffffffffffc8) .empty newcomer.options 0

/-- The cramped client is established and sends nothing at the tick at which a probe is due. -/
theorem cramped_never_probes :
    Regular (welcomed.filterMap Call.moment?) ∧
      (engine.serve cramped welcomed).1.link.phase = .established ∧
      (engine.record (engine.serve cramped welcomed).1
        ⟨2, .tick 0, Conditions.fair⟩).after.link.phase = .established ∧
      (engine.record (engine.serve cramped welcomed).1 ⟨2, .tick 0, Conditions.fair⟩).emissions =
        [] ∧
      stamped Emission.probe? (engine.journal cramped [] welcomed) = [] := by
  refine ⟨regular_of_fair (by decide +kernel) rfl, ?_, ?_, ?_, ?_⟩
  all_goals decide +kernel

end Client

end PacketTunnel
