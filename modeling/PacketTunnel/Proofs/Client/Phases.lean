import PacketTunnel.Proofs.Client.Contact

/-!
# The phases of a client's link

A tick opens a session, the first message that is heard and is no farewell establishes the link, and
a farewell, a shutdown or a tick that comes too long after the last message closes it; nothing else
moves a link from one phase to another. A client asks for its server's name to be looked up when it
gives up after a silence, and then once.
-/
namespace PacketTunnel

open Engine (Call Moment Output)

def HostJob.isLookUp : HostJob → Bool
  | .resolve .. => true
  | .installRoute _ => false

/-- A link goes from one phase to another on an event with the message that is heard then, if any,
and whether the event is a tick that comes too late. -/
structure Phase.Moves (p p' : Phase) (event : Event) (heard : Option Message) (overdue : Bool) :
    Prop where
  opens : p = .disconnected → (p' = .loginSent ↔ ∃ calendar, event = .tick calendar)
  answers : p = .loginSent → (p' = .established ↔ ∃ m, heard = some m ∧ m ≠ .disconnect)
  closes : p ≠ .disconnected →
    (p' = .disconnected ↔ heard = some .disconnect ∨ event = .shutdown ∨ overdue = true)
  stays : p' = p ∨ p = .disconnected ∧ p' = .loginSent ∨ p = .loginSent ∧ p' = .established ∨
    p ≠ .disconnected ∧ p' = .disconnected

namespace Phase.Moves

variable {p : Phase} {event : Event} {heard : Option Message} {overdue : Bool}

theorem stay (htick : p = .disconnected → ∀ calendar, event ≠ .tick calendar)
    (hheard : p ≠ .disconnected → heard = none ∧ event ≠ .shutdown ∧ overdue = false) :
    Moves p p event heard overdue where
  opens hp := by
    subst hp
    exact ⟨nofun, fun ⟨calendar, hevent⟩ => absurd hevent (htick rfl calendar)⟩
  answers hp := by
    subst hp
    obtain ⟨rfl, -⟩ := hheard nofun
    exact ⟨nofun, nofun⟩
  closes hp := by
    obtain ⟨rfl, hevent, rfl⟩ := hheard hp
    exact ⟨fun h => absurd h hp, fun h => by simp_all⟩
  stays := .inl rfl

theorem opened (calendar : UInt64) :
    Moves .disconnected .loginSent (.tick calendar) none overdue where
  opens _ := ⟨fun _ => ⟨calendar, rfl⟩, fun _ => rfl⟩
  answers := nofun
  closes hp := absurd rfl hp
  stays := .inr (.inl ⟨rfl, rfl⟩)

theorem answered (hp : p ≠ .disconnected) {m : Message} (hm : m ≠ .disconnect)
    (hevent : event ≠ .shutdown) :
    Moves p .established event (some m) false where
  opens h := absurd h hp
  answers _ := ⟨fun _ => ⟨m, rfl, hm⟩, fun _ => rfl⟩
  closes _ := by
    refine ⟨nofun, fun h => ?_⟩
    rcases h with h | h | h
    · exact absurd (Option.some.inj h) hm
    · exact absurd h hevent
    · cases h
  stays := by
    cases p with
    | disconnected => exact absurd rfl hp
    | loginSent => exact .inr (.inr (.inl ⟨rfl, rfl⟩))
    | established => exact .inl rfl

theorem closed (hp : p ≠ .disconnected)
    (h : heard = some .disconnect ∨ event = .shutdown ∨ overdue = true)
    (hother : ∀ m, heard = some m → m = .disconnect) :
    Moves p .disconnected event heard overdue where
  opens hp' := absurd hp' hp
  answers _ := ⟨nofun, fun ⟨m, hm, hopen⟩ => absurd (hother m hm) hopen⟩
  closes _ := ⟨fun _ => h, fun _ => rfl⟩
  stays := .inr (.inr (.inr ⟨hp, rfl⟩))

end Phase.Moves

namespace Link

theorem phase_eq_disconnected_iff {link : Link} :
    link.phase = .disconnected ↔ link = .disconnected := by
  cases link <;> simp [phase]

theorem phase_ne_disconnected {link : Link} {x : Session} (hx : link.session? = some x) :
    link.phase ≠ .disconnected := by
  rintro hp
  rw [phase_eq_disconnected_iff.mp hp] at hx
  cases hx

end Link

namespace Client

variable {c c' : Client} {contact : Option Contact} {now : Time} {event : Event}

/-- A tick comes when the last message is too long ago. -/
def isOverdue (c : Client) (contact : Option Contact) (now : Time) : Event → Bool
  | .tick _ => contact.any fun k => c.options.reconnectTimeout < now.since k.last
  | _ => false

def lookUps (c : Client) (contact : Option Contact) (now : Time) (event : Event) : List HostJob :=
  if c.isOverdue contact now event = true then [.resolve c.options.serverHost c.server] else []

def lookUpsFrom (c : Client) (contact : Option Contact) : List Call → List HostJob
  | [] => []
  | .moment m :: rest =>
    c.lookUps contact m.now m.event ++
      lookUpsFrom (engine.answer c (.moment m)).1 (c.contactAfter contact (.moment m)) rest
  | .takeJobs :: rest => lookUpsFrom (engine.answer c .takeJobs).1 contact rest

theorem Tracks.isOverdue_tick (h : Tracks c contact) {x : Session} (hx : c.link.session? = some x)
    (calendar : UInt64) :
    c.isOverdue contact now (.tick calendar) = true ↔ c.options.reconnectTimeout < x.idle now := by
  obtain ⟨k, rfl, htells⟩ := h.exists_tells hx
  simp [isOverdue, Session.idle, htells.lastReceived]

theorem Tracks.isOverdue_of_idle_le (h : Tracks c contact) {x : Session}
    (hx : c.link.session? = some x) (hidle : x.idle now ≤ c.options.reconnectTimeout)
    (calendar : UInt64) :
    c.isOverdue contact now (.tick calendar) = false := by
  rw [Bool.eq_false_iff, ne_eq, h.isOverdue_tick hx calendar]
  exact Nat.not_lt.mpr hidle

theorem Tracks.isOverdue_of_closed (h : Tracks c contact) (hlink : c.link = .disconnected)
    (event : Event) :
    c.isOverdue contact now event = false := by
  cases h with
  | closed _ => cases event <;> rfl
  | asked hasked hx hheard => cases hlink.symm.trans hasked
  | answered hanswered hx hheard => cases hlink.symm.trans hanswered

theorem TooEarly.idle_le (h : c.TooEarly now) {x : Session} (hx : c.link.session? = some x) :
    x.idle now ≤ c.options.reconnectTimeout := by
  rw [TooEarly] at h
  cases hlink : c.link with
  | disconnected =>
    rw [hlink] at hx
    cases hx
  | loginSent y t =>
    rw [hlink] at h hx
    cases hx
    exact h.1
  | established y t assigned =>
    rw [hlink] at h hx
    cases hx
    exact h.1

/-- An event that is at most counted is no tick that comes too late. -/
theorem Tracks.isOverdue_of_quiet (h : Tracks c contact) (hquiet : c.Quiet now event) :
    c.isOverdue contact now event = false := by
  by_cases hlink : c.link = .disconnected
  · exact h.isOverdue_of_closed hlink event
  · obtain ⟨x, t, hx, -⟩ := Link.exists_session hlink
    cases event with
    | tick calendar =>
      exact h.isOverdue_of_idle_le hx ((hquiet.early calendar rfl).idle_le hx) calendar
    | packet bytes => rfl
    | datagram bytes sender => rfl
    | outcome outcome => rfl
    | shutdown => rfl

theorem Tracks.moves (h : Tracks c contact) (hc : Change c now event c') :
    Phase.Moves c.link.phase c'.link.phase event (c.heard? event)
      (c.isOverdue contact now event) := by
  cases hc with
  | quiet counters hquiet =>
    refine .stay (fun hp calendar hevent => ?_) fun hp => ?_
    · have hearly := hquiet.early calendar hevent
      rw [TooEarly, Link.phase_eq_disconnected_iff.mp hp] at hearly
      exact hearly
    · have hlink : c.link ≠ .disconnected :=
        fun hlink => hp (Link.phase_eq_disconnected_iff.mpr hlink)
      exact ⟨hquiet.unheard.resolve_left hlink, fun hevent => hlink (hquiet.stays hevent),
        h.isOverdue_of_quiet hquiet⟩
  | loggedIn calendar hlink =>
    rw [hlink]
    exact .opened calendar
  | askedAgain calendar hlink hidle hdue =>
    have hoverdue := h.isOverdue_of_idle_le (congrArg Link.session? hlink) hidle calendar
    rw [hlink]
    exact .stay (by simp [Link.phase]) fun _ => ⟨rfl, by simp, hoverdue⟩
  | probed calendar hlink hidle hdue =>
    have hoverdue := h.isOverdue_of_idle_le (congrArg Link.session? hlink) hidle calendar
    rw [hlink]
    exact .stay (by simp [Link.phase]) fun _ => ⟨rfl, by simp, hoverdue⟩
  | timedOut calendar hx hidle =>
    have hoverdue := (h.isOverdue_tick hx calendar).mpr hidle
    exact .closed (Link.phase_ne_disconnected hx) (.inr (.inr hoverdue)) (by simp [heard?])
  | heard hm hopen hx ht size hx' counters assigned routes installs =>
    obtain ⟨bytes, rfl, -⟩ := heard?_eq_some_iff.mp hm
    rw [hm]
    exact .answered (Link.phase_ne_disconnected hx) hopen (by simp)
  | left counters hlink hevent =>
    have hopen : c.link.phase ≠ .disconnected :=
      fun hp => hlink (Link.phase_eq_disconnected_iff.mp hp)
    rcases hevent with hm | rfl
    · refine .closed hopen (.inl hm) fun m hm' => ?_
      exact Option.some.inj (hm'.symm.trans hm)
    · exact .closed hopen (.inr (.inl rfl)) (by simp [heard?])
  | moved hne =>
    rw [Link.phase_modifySession]
    exact .stay (by simp) fun _ => ⟨rfl, by simp, rfl⟩

theorem Tracks.jobs (h : Tracks c contact) (hc : Change c now event c') :
    ∃ installs : List Route, c'.jobs = c.jobs ++ c.lookUps contact now event ++
      installs.map .installRoute := by
  have hnone (hoverdue : c.isOverdue contact now event = false) (installs : List Route) :
      c.jobs ++ installs.map .installRoute = c.jobs ++ c.lookUps contact now event ++
      installs.map .installRoute := by
    rw [lookUps, hoverdue, if_neg Bool.false_ne_true, List.append_nil]
  have hsame (hoverdue : c.isOverdue contact now event = false) :
      ∃ installs : List Route, c.jobs = c.jobs ++ c.lookUps contact now event ++
      installs.map .installRoute :=
    ⟨[], by rw [← hnone hoverdue, List.map_nil, List.append_nil]⟩
  cases hc with
  | quiet counters hquiet => exact hsame (h.isOverdue_of_quiet hquiet)
  | loggedIn calendar hlink => exact hsame (h.isOverdue_of_closed hlink _)
  | askedAgain calendar hlink hidle hdue =>
    exact hsame (h.isOverdue_of_idle_le (congrArg Link.session? hlink) hidle calendar)
  | probed calendar hlink hidle hdue =>
    exact hsame (h.isOverdue_of_idle_le (congrArg Link.session? hlink) hidle calendar)
  | timedOut calendar hx hidle =>
    refine ⟨[], ?_⟩
    rw [lookUps, if_pos ((h.isOverdue_tick hx calendar).mpr hidle), List.map_nil, List.append_nil]
    rfl
  | heard hm hopen hx ht size hx' counters assigned routes installs =>
    obtain ⟨bytes, rfl, -⟩ := heard?_eq_some_iff.mp hm
    exact ⟨installs, hnone rfl installs⟩
  | left counters hlink hevent =>
    rcases hevent with hm | rfl
    · obtain ⟨bytes, rfl, -⟩ := heard?_eq_some_iff.mp hm
      exact hsame rfl
    · exact hsame rfl
  | moved hne => exact hsame rfl

theorem Tracks.moment (h : Tracks c contact) (m : Moment) :
    Phase.Moves c.link.phase (engine.answer c (.moment m)).1.link.phase m.event (c.heard? m.event)
        (c.isOverdue contact m.now m.event) ∧
      ∃ installs : List Route, (engine.answer c (.moment m)).1.jobs =
        c.jobs ++ c.lookUps contact m.now m.event ++ installs.map .installRoute := by
  have hmoves := h.moves (Client.change c m.now m.event)
  have hjobs := h.jobs (Client.change c m.now m.event)
  obtain ⟨counters, f, hstep⟩ := exists_step c m.conditions m.now m.event
  rw [Engine.answer, hstep, Link.recount, Link.phase_modifySession]
  exact ⟨hmoves, hjobs⟩

theorem filter_isLookUp_installs (installs : List Route) :
    (installs.map HostJob.installRoute).filter HostJob.isLookUp = [] := by
  rw [List.filter_eq_nil_iff]
  intro job hjob
  obtain ⟨r, -, rfl⟩ := List.mem_map.mp hjob
  exact Bool.false_ne_true

theorem filter_isLookUp_lookUps (c : Client) (contact : Option Contact) (now : Time)
    (event : Event) :
    (c.lookUps contact now event).filter HostJob.isLookUp = c.lookUps contact now event := by
  rw [lookUps]
  split <;> rfl

theorem Tracks.lookUpsFrom (h : Tracks c contact) (calls : List Call) :
    ((engine.serve c calls).2.filterMap Output.job? ++ (engine.serve c calls).1.jobs).filter
      HostJob.isLookUp = c.jobs.filter HostJob.isLookUp ++ c.lookUpsFrom contact calls := by
  induction calls generalizing c contact with
  | nil => simp [Engine.serve, Client.lookUpsFrom]
  | cons k rest ih =>
    have hrest := ih (h.answer k)
    rw [Engine.serve, List.filterMap_append, List.append_assoc, List.filter_append, hrest]
    cases k with
    | takeJobs =>
      have htaken : (engine.answer c .takeJobs).2.filterMap Output.job? = c.jobs :=
        Output.filterMap_job?_map_job c.jobs
      rw [htaken]
      rfl
    | moment m =>
      obtain ⟨-, installs, hjobs⟩ := h.moment m
      have hnone : (engine.answer c (.moment m)).2.filterMap Output.job? = [] :=
        Output.filterMap_job?_map_emission _
      rw [hnone, hjobs, List.filter_append, List.filter_append, filter_isLookUp_installs,
        filter_isLookUp_lookUps, Client.lookUpsFrom]
      simp

/-- After any calls, whatever comes and whenever: there is a contact unless the link is
disconnected; a further moment moves the link for the reasons given and no other, and adds the
look-up that is due, if the last message is too long ago, and else nothing but installations; and of
all look-ups, whether they have been taken or not, there is one for each tick that came too late. -/
theorem transitions (codec : Codec) (routes : RouteTable) (options : ClientOptions) (origin : Time)
    (calls : List Call) :
    let c₀ := start codec routes options origin
    let c := (engine.serve c₀ calls).1
    let contact := c₀.contactFrom none calls
    (contact.isSome ↔ c.link.phase ≠ .disconnected) ∧
    (∀ m : Moment,
      Phase.Moves c.link.phase (engine.answer c (.moment m)).1.link.phase m.event (c.heard? m.event)
        (c.isOverdue contact m.now m.event) ∧
      ∃ installs : List Route, (engine.answer c (.moment m)).1.jobs =
        c.jobs ++ c.lookUps contact m.now m.event ++ installs.map .installRoute) ∧
    (engine.answer c .takeJobs).1 = { c with jobs := [] } ∧
    ((engine.serve c₀ calls).2.filterMap Output.job? ++ c.jobs).filter HostJob.isLookUp =
      c₀.lookUpsFrom none calls := by
  intro c₀ c contact
  have hstart : Tracks c₀ none := .closed rfl
  have htracks : Tracks c contact := hstart.from calls
  exact ⟨htracks.coupled.known, htracks.moment, rfl, hstart.lookUpsFrom calls⟩

end Client

end PacketTunnel
