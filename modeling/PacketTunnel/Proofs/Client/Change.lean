import PacketTunnel.Proofs.Client.Hearing

/-!
# All that a reaction can do to a client

A client changes in one of eight ways: it only counts, logs in, asks again, probes, gives up after a
silence, hears a message, leaves, or moves to another endpoint of its server. Each way has its
guard, so that what is known of a client after a reaction tells what happened; everything later
about runs of clients is derived from this list and not from the code of the events.
-/
namespace PacketTunnel.Client

variable {c : Client} {x : Session} {t : Time}

/-- The message that a client hears on an event: a sound one that comes from its server. -/
def heard? (c : Client) : Event → Option Message
  | .datagram bytes sender => if sender = c.server then (c.codec.decode bytes).toOption else none
  | _ => none

theorem heard?_eq_some_iff {event : Event} {m : Message} :
    c.heard? event = some m ↔ ∃ bytes, event = .datagram bytes c.server ∧
      c.codec.decode bytes = .ok m := by
  constructor
  · intro h
    cases event with
    | datagram bytes sender =>
      rw [heard?] at h
      split at h
      · rename_i hsender
        subst hsender
        cases hd : c.codec.decode bytes with
        | error r =>
          rw [hd] at h
          cases h
        | ok m' =>
          rw [hd] at h
          cases h
          exact ⟨bytes, rfl, hd⟩
      · cases h
    | packet bytes => cases h
    | outcome outcome => cases h
    | tick calendar => cases h
    | shutdown => cases h
  · rintro ⟨bytes, rfl, hd⟩
    rw [heard?, if_pos rfl, hd]
    rfl

/-- Neither the silence nor the time since the last login or probe is long enough for a tick to do
anything. -/
def TooEarly (c : Client) (now : Time) : Prop :=
  match c.link with
  | .disconnected => False
  | .loginSent x t => x.idle now ≤ c.options.reconnectTimeout ∧ now.since t < c.options.keepalive
  | .established x _ _ =>
    x.idle now ≤ c.options.reconnectTimeout ∧ x.keepaliveDue now c.options.keepalive = false

structure Quiet (c : Client) (now : Time) (event : Event) : Prop where
  unheard : c.link = .disconnected ∨ c.heard? event = none
  early : ∀ calendar, event = .tick calendar → c.TooEarly now
  stays : event = .shutdown → c.link = .disconnected
  unmoved : ∀ endpoint, event = .outcome (.resolved endpoint) → endpoint = c.server

/-- All that a reaction can make of a client. -/
inductive Change (c : Client) (now : Time) : Event → Client → Prop
  | quiet {event : Event} (counters : Counters) (h : c.Quiet now event) :
      Change c now event { c with counters := counters }
  | loggedIn (calendar : UInt64) (hlink : c.link = .disconnected) :
      Change c now (.tick calendar) { c with link := .loginSent (.start c.server now) now }
  | askedAgain (calendar : UInt64) {x : Session} {t : Time} (hlink : c.link = .loginSent x t)
      (hidle : x.idle now ≤ c.options.reconnectTimeout) (hdue : c.options.keepalive ≤ now.since t) :
      Change c now (.tick calendar) { c with link := .loginSent x now }
  | probed (calendar : UInt64) {x : Session} {t : Time} {assigned : Option VirtualAddresses}
      (hlink : c.link = .established x t assigned) (hidle : x.idle now ≤ c.options.reconnectTimeout)
      (hdue : x.keepaliveDue now c.options.keepalive = true) :
      Change c now (.tick calendar)
      { c with link := .established (x.nextEcho now calendar).1 t assigned }
  | timedOut (calendar : UInt64) {x : Session} (hx : c.link.session? = some x)
      (hidle : c.options.reconnectTimeout < x.idle now) : Change c now (.tick calendar) c.timeOut
  | heard {event : Event} {m : Message} {x x' : Session} {t : Time} (hm : c.heard? event = some m)
      (hopen : m ≠ .disconnect) (hx : c.link.session? = some x) (ht : c.link.lastLogin? = some t)
      (size : Nat)
      (hx' : x.Renews now size x') (counters : Counters) (assigned : Option VirtualAddresses)
      (routes : RouteTable) (installs : List Route) :
      Change c now event
        { c with
          counters := counters
          link := .established x' t assigned
          routes := routes
          jobs := c.jobs ++ installs.map .installRoute }
  | left {event : Event} (counters : Counters) (hlink : c.link ≠ .disconnected)
      (hevent : c.heard? event = some .disconnect ∨ event = .shutdown) :
      Change c now event { c with counters := counters, link := .disconnected }
  | moved {endpoint : Endpoint} (hne : endpoint ≠ c.server) :
      Change c now (.outcome (.resolved endpoint))
        { c with
          server := endpoint
          link := c.link.modifySession fun x => { x with endpoint := endpoint } }

/-- What a client makes of a datagram: it is counted and otherwise ignored, or it brings the
server's farewell, or a message that is accepted on the link. -/
inductive Receives (c : Client) (now : Time) (bytes : Bytes) (sender : Endpoint) :
    Client × List Action → Prop
  | ignored (counters : Counters)
      (h : c.link = .disconnected ∨ c.heard? (.datagram bytes sender) = none) :
      Receives c now bytes sender ({ c with counters := counters }, [])
  | farewell (counters : Counters) (hlink : c.link ≠ .disconnected)
      (hm : c.heard? (.datagram bytes sender) = some .disconnect) :
      Receives c now bytes sender ({ c with counters := counters, link := .disconnected }, [])
  | accepted {m : Message} {x : Session} {t : Time}
      (hm : c.heard? (.datagram bytes sender) = some m)
      (hopen : m ≠ .disconnect) (hx : c.link.session? = some x) (ht : c.link.lastLogin? = some t) :
      Receives c now bytes sender ((c.joined (x.touch now bytes.length) t).accept m)

theorem receives (c : Client) (now : Time) (bytes : Bytes) (sender : Endpoint) :
    Receives c now bytes sender (c.react now (.datagram bytes sender)) := by
  by_cases hrejected : sender ≠ c.server ∨ ∃ r, c.codec.decode bytes = .error r
  · obtain ⟨counters, hreact⟩ := react_rejected now sender hrejected
    have hunheard : c.heard? (.datagram bytes sender) = none := by
      rw [Option.eq_none_iff_forall_ne_some]
      intro m hm
      obtain ⟨bytes', hevent, hd⟩ := heard?_eq_some_iff.mp hm
      cases hevent
      rcases hrejected with hne | ⟨r, hr⟩
      · exact hne rfl
      · cases hr.symm.trans hd
    rw [hreact]
    exact .ignored counters (.inr hunheard)
  · obtain ⟨hsender, hsound⟩ := not_or.mp hrejected
    obtain rfl : sender = c.server := Decidable.not_not.mp hsender
    cases hd : c.codec.decode bytes with
    | error r => exact absurd ⟨r, hd⟩ hsound
    | ok m =>
      have hm : c.heard? (.datagram bytes c.server) = some m :=
        heard?_eq_some_iff.mpr ⟨bytes, rfl, hd⟩
      by_cases hclosed : c.link = .disconnected
      · obtain ⟨counters, hreact⟩ := react_of_closed hclosed now hd
        rw [hreact]
        exact .ignored counters (.inl hclosed)
      · by_cases hfarewell : m = .disconnect
        · subst hfarewell
          obtain ⟨counters, hreact⟩ := react_farewell now hd
          rw [hreact]
          exact .farewell counters hclosed hm
        · obtain ⟨x, t, hx, ht⟩ := Link.exists_session hclosed
          rw [react_of_decode hx ht now hd hfarewell]
          exact .accepted hm hfarewell hx ht

inductive Ticks (c : Client) (now : Time) (calendar : UInt64) : Client × List Action → Prop
  | loggedIn (hlink : c.link = .disconnected) : Ticks c now calendar
      (c.login (.start c.server now) now)
  | askedAgain {x : Session} {t : Time} (hlink : c.link = .loginSent x t)
      (hidle : x.idle now ≤ c.options.reconnectTimeout) (hdue : c.options.keepalive ≤ now.since t) :
      Ticks c now calendar (c.login x now)
  | probed {x : Session} {t : Time} {assigned : Option VirtualAddresses}
      (hlink : c.link = .established x t assigned) (hidle : x.idle now ≤ c.options.reconnectTimeout)
      (hdue : x.keepaliveDue now c.options.keepalive = true) :
      Ticks c now calendar ({ c with link := .established (x.nextEcho now calendar).1 t assigned },
        [.send (.echoRequest (x.nextEcho now calendar).2) c.server])
  | timedOut {x : Session} (hx : c.link.session? = some x)
      (hidle : c.options.reconnectTimeout < x.idle now) : Ticks c now calendar (c.timeOut, [])
  | waited (h : c.TooEarly now) : Ticks c now calendar (c, [])

theorem ticks (c : Client) (now : Time) (calendar : UInt64) :
    Ticks c now calendar (c.react now (.tick calendar)) := by
  rw [react, tick]
  cases hlink : c.link with
  | disconnected => exact .loggedIn hlink
  | loginSent x t =>
    dsimp only
    split
    · rename_i hidle
      exact .timedOut (congrArg Link.session? hlink) hidle
    · rename_i hidle
      split
      · rename_i hdue
        exact .askedAgain hlink (Nat.not_lt.mp hidle) hdue
      · rename_i hdue
        apply Ticks.waited
        rw [TooEarly, hlink]
        exact ⟨Nat.not_lt.mp hidle, Nat.not_le.mp hdue⟩
  | established x t assigned =>
    dsimp only
    split
    · rename_i hidle
      exact .timedOut (congrArg Link.session? hlink) hidle
    · rename_i hidle
      split
      · rename_i hdue
        exact .probed hlink (Nat.not_lt.mp hidle) hdue
      · rename_i hdue
        apply Ticks.waited
        rw [TooEarly, hlink]
        exact ⟨Nat.not_lt.mp hidle, Bool.eq_false_iff.mpr hdue⟩

theorem exists_accept (c : Client) (x : Session) (t : Time) {m : Message}
    (hopen : m ≠ .disconnect) :
    ∃ x' assigned routes, ∃ installs : List Route, (x' = x ∨ ∃ echo, x' = x.acknowledge echo) ∧
      ((c.joined x t).accept m).1 =
        { c with
          counters := (c.joined x t).counters
          link := .established x' t assigned
          routes := routes
          jobs := c.jobs ++ installs.map .installRoute } := by
  cases m with
  | data packet => exact ⟨x, c.assigned?, c.routes, [], .inl rfl, by simp [accept, joined, count]⟩
  | echoRequest echo =>
    exact ⟨x, c.assigned?, c.routes, [], .inl rfl, by simp [accept, joined, count]⟩
  | echoAck echo =>
    refine ⟨x.acknowledge echo, c.assigned?, c.routes, [], .inr ⟨echo, rfl⟩, ?_⟩
    simp [accept, joined, count, modifySession, Link.modifySession]
  | clientLogin addresses =>
    exact ⟨x, some addresses, c.routes, [], .inl rfl, by simp [accept, joined, count, Link.confirm]⟩
  | routeAdvertise routes =>
    exact ⟨x, c.assigned?, c.routes.insertAll routes, c.routes.missing routes, .inl rfl, by
      rw [accept, foldl_learnRoute]; rfl⟩
  | disconnect => exact absurd rfl hopen

theorem change_datagram (now : Time) (bytes : Bytes) (sender : Endpoint) :
    Change c now (.datagram bytes sender) (c.react now (.datagram bytes sender)).1 := by
  have hreceives := receives c now bytes sender
  generalize c.react now (.datagram bytes sender) = reaction at hreceives
  cases hreceives with
  | ignored counters h => exact .quiet counters ⟨h, by simp, by simp, by simp⟩
  | farewell counters hlink hm => exact .left counters hlink (.inl hm)
  | @accepted m x t hm hopen hx ht =>
    obtain ⟨x', assigned, routes, installs, hx', haccept⟩ :=
      exists_accept c (x.touch now bytes.length) t hopen
    rw [haccept]
    exact .heard hm hopen hx ht bytes.length hx' _ assigned routes installs

theorem change_tick (now : Time) (calendar : UInt64) :
    Change c now (.tick calendar) (c.react now (.tick calendar)).1 := by
  have hticks := ticks c now calendar
  generalize c.react now (.tick calendar) = reaction at hticks
  cases hticks with
  | loggedIn hlink => exact .loggedIn calendar hlink
  | askedAgain hlink hidle hdue => exact .askedAgain calendar hlink hidle hdue
  | probed hlink hidle hdue => exact .probed calendar hlink hidle hdue
  | timedOut hx hidle => exact .timedOut calendar hx hidle
  | waited h => exact .quiet c.counters ⟨.inr rfl, fun _ _ => h, by simp, by simp⟩

theorem change (c : Client) (now : Time) (event : Event) :
    Change c now event (c.react now event).1 := by
  cases event with
  | packet bytes =>
    have hquiet (counters : Counters) :
        Change c now (.packet bytes) { c with counters := counters } :=
      .quiet counters ⟨.inr rfl, by simp, by simp, by simp⟩
    rw [react, dispatch]
    split
    · exact hquiet c.counters
    · exact hquiet _
  | datagram bytes sender => exact change_datagram now bytes sender
  | outcome outcome =>
    cases outcome with
    | resolved endpoint =>
      rw [react, acceptOutcome]
      by_cases hsame : endpoint = c.server
      · rw [if_pos hsame]
        refine .quiet c.counters ⟨.inr rfl, by simp, by simp, fun endpoint' hevent => ?_⟩
        cases hevent
        exact hsame
      · rw [if_neg hsame]
        exact .moved hsame
    | routeInstalled r => exact .quiet c.counters ⟨.inr rfl, by simp, by simp, by simp⟩
    | failed reason => exact .quiet c.counters ⟨.inr rfl, by simp, by simp, by simp⟩
  | tick calendar => exact change_tick now calendar
  | shutdown =>
    rw [react, shutdown]
    cases hlink : c.link with
    | disconnected =>
      rw [session?, hlink]
      exact .quiet c.counters ⟨.inl hlink, by simp, fun _ => hlink, by simp⟩
    | loginSent x t =>
      rw [session?, hlink]
      exact .left c.counters (by simp [hlink]) (.inr rfl)
    | established x t assigned =>
      rw [session?, hlink]
      exact .left c.counters (by simp [hlink]) (.inr rfl)

theorem Change.codec {now : Time} {event : Event} {c' : Client} (h : Change c now event c') :
    c'.codec = c.codec := by
  cases h <;> rfl

theorem Change.options {now : Time} {event : Event} {c' : Client} (h : Change c now event c') :
    c'.options = c.options := by
  cases h <;> rfl

theorem Change.server {now : Time} {event : Event} {c' : Client} (h : Change c now event c') :
    c'.server = c.server ∨ event = .outcome (.resolved c'.server) := by
  cases h with
  | moved hne => exact .inr rfl
  | quiet counters hquiet => exact .inl rfl
  | loggedIn calendar hlink => exact .inl rfl
  | askedAgain calendar hlink hidle hdue => exact .inl rfl
  | probed calendar hlink hidle hdue => exact .inl rfl
  | timedOut calendar hx hidle => exact .inl rfl
  | heard hm hopen hx ht size hx' counters assigned routes installs => exact .inl rfl
  | left counters hlink hevent => exact .inl rfl

end PacketTunnel.Client
