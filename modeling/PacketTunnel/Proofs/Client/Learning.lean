import PacketTunnel.Proofs.Client.Provenance
import PacketTunnel.Proofs.Configuration

/-!
# The routes that a client learns

A client takes over the routes that its server advertises while there is a session. Its table never
forgets one, so that through all reconnections each route is queued for installation once, when it
is first accepted, unless the table had it from the start. The queue grows at its end and is handed
out from its front, whatever else stands in it. Default routes are no exception: the host is told to
install the one that a server advertises, although none is installed when the tunnel starts.
-/
namespace PacketTunnel

open Engine (Call Moment Output)

def Message.advertised : Message → List Route
  | .routeAdvertise routes => routes
  | _ => []

def HostJob.route? : HostJob → Option Route
  | .installRoute r => some r
  | .resolve .. => none

theorem HostJob.filterMap_route?_installs (rs : List Route) :
    (rs.map installRoute).filterMap route? = rs := by
  rw [List.filterMap_map]
  exact List.filterMap_some

theorem HostJob.mem_filterMap_route? {jobs : List HostJob} {r : Route} :
    r ∈ jobs.filterMap route? ↔ .installRoute r ∈ jobs := by
  rw [List.mem_filterMap]
  constructor
  · rintro ⟨job, hjob, hr⟩
    cases job with
    | installRoute q =>
      cases hr
      exact hjob
    | resolve host current => cases hr
  · exact fun hr => ⟨_, hr, rfl⟩

namespace Client

variable {c c' : Client} {rs : List Route}

/-- The routes that a client accepts on an event: those of an advertisement that it hears while it
has a session. -/
def accepts (c : Client) (event : Event) : List Route :=
  if c.session?.isSome then (c.heard? event).elim [] Message.advertised else []

def acceptedFrom (c : Client) : List Call → List Route
  | [] => []
  | .moment m :: rest => c.accepts m.event ++ acceptedFrom (engine.answer c (.moment m)).1 rest
  | .takeJobs :: rest => acceptedFrom (engine.answer c .takeJobs).1 rest

/-- The jobs that stand in the queue after a moment, behind those that stood there before. -/
def queues (c : Client) (m : Moment) : List HostJob :=
  (engine.answer c (.moment m)).1.jobs.drop c.jobs.length

def queuedFrom (c : Client) : List Call → List HostJob
  | [] => []
  | .moment m :: rest => c.queues m ++ queuedFrom (engine.answer c (.moment m)).1 rest
  | .takeJobs :: rest => queuedFrom (engine.answer c .takeJobs).1 rest

/-- A client has learnt some routes, and the missing ones are queued behind the given jobs. -/
structure Learns (c : Client) (jobs : List HostJob) (rs : List Route) (c' : Client) : Prop where
  routes : c'.routes = c.routes.insertAll rs
  jobs : c'.jobs = c.jobs ++ jobs ++ (c.routes.missing rs).map .installRoute

theorem learns_nothing {jobs : List HostJob} (hroutes : c'.routes = c.routes)
    (hjobs : c'.jobs = c.jobs ++ jobs) :
    Learns c jobs [] c' :=
  ⟨hroutes, hjobs.trans (List.append_nil _).symm⟩

theorem accepts_of_closed (h : c.link = .disconnected) (event : Event) : c.accepts event = [] := by
  rw [accepts, session?, h]
  rfl

theorem accepts_of_unheard {event : Event} (h : c.heard? event = none) : c.accepts event = [] := by
  rw [accepts, h]
  exact ite_self _

theorem accepts_of_heard {event : Event} {m : Message} {x : Session} (hx : c.link.session? = some x)
    (hm : c.heard? event = some m) : c.accepts event = m.advertised := by
  rw [accepts, session?, hx, hm]
  rfl

theorem learns_accept (c : Client) (m : Message) : Learns c [] m.advertised (c.accept m).1 := by
  cases m with
  | routeAdvertise routes =>
    rw [accept, foldl_learnRoute]
    exact ⟨rfl, congrArg (· ++ _) (List.append_nil _).symm⟩
  | data packet => exact learns_nothing rfl (List.append_nil _).symm
  | echoRequest echo => exact learns_nothing rfl (List.append_nil _).symm
  | echoAck echo => exact learns_nothing rfl (List.append_nil _).symm
  | clientLogin addresses => exact learns_nothing rfl (List.append_nil _).symm
  | disconnect => exact learns_nothing rfl (List.append_nil _).symm

theorem learns_datagram (c : Client) (now : Time) (bytes : Bytes) (sender : Endpoint) :
    Learns c [] (c.accepts (.datagram bytes sender)) (c.react now (.datagram bytes sender)).1 := by
  have hreceives := receives c now bytes sender
  generalize c.react now (.datagram bytes sender) = reaction at hreceives
  cases hreceives with
  | ignored counters h =>
    have hnone : c.accepts (.datagram bytes sender) = [] :=
      h.elim (accepts_of_closed · _) accepts_of_unheard
    rw [hnone]
    exact learns_nothing rfl (List.append_nil _).symm
  | farewell counters hlink hm =>
    obtain ⟨x, -, hx, -⟩ := Link.exists_session hlink
    rw [accepts_of_heard hx hm]
    exact learns_nothing rfl (List.append_nil _).symm
  | @accepted m x t hm hopen hx ht =>
    rw [accepts_of_heard hx hm]
    obtain ⟨hroutes, hjobs⟩ := learns_accept (c.joined (x.touch now bytes.length) t) m
    exact ⟨hroutes, hjobs⟩

/-- A reaction queues nothing but installations, or at a tick a look-up. -/
theorem learns_react (c : Client) (now : Time) (event : Event) :
    ∃ lookUps, lookUps.filterMap HostJob.route? = [] ∧
      Learns c lookUps (c.accepts event) (c.react now event).1 := by
  have hnothing (hunheard : c.heard? event = none)
      (hroutes : (c.react now event).1.routes = c.routes)
      (hjobs : (c.react now event).1.jobs = c.jobs) :
      ∃ lookUps, lookUps.filterMap HostJob.route? = [] ∧
        Learns c lookUps (c.accepts event) (c.react now event).1 := by
    refine ⟨[], rfl, ?_⟩
    rw [accepts_of_unheard hunheard]
    exact learns_nothing hroutes (hjobs.trans (List.append_nil _).symm)
  cases event with
  | datagram bytes sender => exact ⟨[], rfl, learns_datagram c now bytes sender⟩
  | tick calendar =>
    have hticks := ticks c now calendar
    rw [accepts_of_unheard rfl]
    generalize c.react now (.tick calendar) = reaction at hticks
    cases hticks with
    | loggedIn hlink => exact ⟨[], rfl, learns_nothing rfl (List.append_nil _).symm⟩
    | askedAgain hlink hidle hdue => exact ⟨[], rfl, learns_nothing rfl (List.append_nil _).symm⟩
    | probed hlink hidle hdue => exact ⟨[], rfl, learns_nothing rfl (List.append_nil _).symm⟩
    | timedOut hx hidle =>
      exact ⟨[.resolve c.options.serverHost c.server], rfl, learns_nothing rfl rfl⟩
    | waited h => exact ⟨[], rfl, learns_nothing rfl (List.append_nil _).symm⟩
  | packet bytes =>
    apply hnothing rfl
    · rw [react, dispatch]
      split <;> rfl
    · rw [react, dispatch]
      split <;> rfl
  | outcome outcome =>
    cases outcome with
    | resolved endpoint =>
      apply hnothing rfl
      · rw [react, acceptOutcome]
        split <;> rfl
      · rw [react, acceptOutcome]
        split <;> rfl
    | routeInstalled r => exact hnothing rfl rfl rfl
    | failed reason => exact hnothing rfl rfl rfl
  | shutdown =>
    apply hnothing rfl
    · rw [react, shutdown]
      split <;> rfl
    · rw [react, shutdown]
      split <;> rfl

theorem Learns.answer {jobs : List HostJob} {m : Moment}
    (h : Learns c jobs rs (c.react m.now m.event).1) :
    Learns c jobs rs (engine.answer c (.moment m)).1 := by
  obtain ⟨counters, f, hstep⟩ := exists_step c m.conditions m.now m.event
  rw [Engine.answer, hstep]
  exact ⟨h.routes, h.jobs⟩

theorem moment_learns (c : Client) (m : Moment) :
    (engine.answer c (.moment m)).1.jobs = c.jobs ++ c.queues m ∧
      (c.queues m).filterMap HostJob.route? = c.routes.missing (c.accepts m.event) ∧
      (engine.answer c (.moment m)).1.routes = c.routes.insertAll (c.accepts m.event) := by
  obtain ⟨lookUps, hnone, hreact⟩ := learns_react c m.now m.event
  obtain ⟨hroutes, hjobs⟩ := hreact.answer
  have hqueues :
      c.queues m = lookUps ++ (c.routes.missing (c.accepts m.event)).map .installRoute := by
    rw [queues, hjobs, List.append_assoc]
    exact List.drop_left
  refine ⟨?_, ?_, hroutes⟩
  · rw [hqueues, hjobs, List.append_assoc]
  · rw [hqueues, List.filterMap_append, hnone, List.nil_append, HostJob.filterMap_route?_installs]

theorem serve_learns (c : Client) (calls : List Call) :
    (engine.serve c calls).2.filterMap Output.job? ++ (engine.serve c calls).1.jobs = c.jobs ++
      c.queuedFrom calls ∧
      (c.queuedFrom calls).filterMap HostJob.route? = c.routes.missing (c.acceptedFrom calls) ∧
      (engine.serve c calls).1.routes = c.routes.insertAll (c.acceptedFrom calls) := by
  induction calls generalizing c with
  | nil => exact ⟨(List.append_nil _).symm, rfl, rfl⟩
  | cons k rest ih =>
    obtain ⟨hhanded, hqueued, hroutes⟩ := ih (engine.answer c k).1
    cases k with
    | takeJobs =>
      have htaken : (engine.answer c .takeJobs).2.filterMap Output.job? = c.jobs :=
        Output.filterMap_job?_map_job c.jobs
      refine ⟨?_, hqueued, hroutes⟩
      rw [Engine.serve, List.filterMap_append, List.append_assoc, hhanded, htaken]
      rfl
    | moment m =>
      obtain ⟨hjobs, hnew, htable⟩ := moment_learns c m
      have hnone : (engine.answer c (.moment m)).2.filterMap Output.job? = [] :=
        Output.filterMap_job?_map_emission _
      refine ⟨?_, ?_, ?_⟩
      · rw [Engine.serve, List.filterMap_append, hnone, List.nil_append, hhanded, hjobs,
          List.append_assoc]
        rfl
      · rw [queuedFrom, List.filterMap_append, hnew, hqueued, htable, acceptedFrom,
          RouteTable.missing_append]
      · rw [Engine.serve, hroutes, htable, acceptedFrom, RouteTable.insertAll_append]

theorem session?_of_datagram (h : c.link.session? = none) {m : Moment} {bytes : Bytes}
    {sender : Endpoint} (hevent : m.event = .datagram bytes sender) :
    (engine.answer c (.moment m)).1.session? = none := by
  obtain ⟨counters, f, hstep⟩ := exists_step c m.conditions m.now m.event
  rw [Engine.answer, hstep, hevent, Client.session?, Link.recount, Link.session?_modifySession,
    Option.map_eq_none_iff]
  have hreceives := receives c m.now bytes sender
  generalize c.react m.now (.datagram bytes sender) = reaction at hreceives
  cases hreceives with
  | ignored counters hignored => exact h
  | farewell counters hlink hm => rfl
  | accepted hm hopen hx ht => cases h.symm.trans hx

/-- An advertisement that comes a second time in a row has no effect on table and queue. -/
theorem moment_repeated (hnodup : c.routes.routes.Nodup) {m m' : Moment}
    (hm : c.heard? m.event = some (.routeAdvertise rs))
    (hm' : (engine.answer c (.moment m)).1.heard? m'.event = some (.routeAdvertise rs)) :
    (engine.answer (engine.answer c (.moment m)).1 (.moment m')).1.routes =
      (engine.answer c (.moment m)).1.routes ∧
      (engine.answer c (.moment m)).1.queues m' = [] := by
  obtain ⟨bytes, hevent, -⟩ := heard?_eq_some_iff.mp hm
  obtain ⟨bytes', hevent', -⟩ := heard?_eq_some_iff.mp hm'
  obtain ⟨-, -, htable⟩ := moment_learns c m
  have haccepts : (engine.answer c (.moment m)).1.accepts m'.event = c.accepts m.event ∨
      (engine.answer c (.moment m)).1.accepts m'.event = [] := by
    rw [accepts, accepts, hm, hm']
    cases hsession : c.session? with
    | none =>
      -- Without a session nothing is accepted the first time, and then there is still none.
      rw [session?_of_datagram hsession hevent]
      exact .inr rfl
    | some x => exact ite_eq_or_eq ..
  have hrepeated :
      (engine.answer c (.moment m)).1.routes.insertAll
      ((engine.answer c (.moment m)).1.accepts m'.event) = (engine.answer c (.moment m)).1.routes ∧
      (engine.answer c (.moment m)).1.routes.missing
        ((engine.answer c (.moment m)).1.accepts m'.event) = [] := by
    rcases haccepts with hsame | hnone
    · rw [hsame, htable, RouteTable.insertAll_insertAll hnodup]
      exact ⟨rfl, RouteTable.missing_eq_nil fun r hr => RouteTable.mem_insertAll.mpr (.inr hr)⟩
    · rw [hnone]
      exact ⟨rfl, RouteTable.missing_eq_nil (List.forall_mem_nil _)⟩
  have hsecond := learns_datagram (engine.answer c (.moment m)).1 m'.now bytes'
    (engine.answer c (.moment m)).1.server
  rw [← hevent'] at hsecond
  obtain ⟨hroutes, hjobs⟩ := hsecond.answer
  refine ⟨hroutes.trans hrepeated.1, ?_⟩
  rw [queues, hjobs, hrepeated.2, List.map_nil, List.append_nil, List.append_nil, List.drop_length]

/-- After any calls, the jobs that a client has handed out and those that it still has are all that
it queued, in order; the installations among them are those of the accepted routes that were not in
its table at the start, each at its first acceptance; and its table holds what it held at the start
and what was accepted. -/
theorem installs_exact (codec : Codec) (routes : RouteTable) (options : ClientOptions)
    (origin : Time) (calls : List Call) :
    let c₀ := start codec routes options origin
    let c := (engine.serve c₀ calls).1
    (∀ m, (engine.answer c (.moment m)).1.jobs = c.jobs ++ c.queues m) ∧
      engine.answer c .takeJobs = ({ c with jobs := [] }, c.jobs.map .job) ∧
      (engine.serve c₀ calls).2.filterMap Output.job? ++ c.jobs = c₀.queuedFrom calls ∧
      (c₀.queuedFrom calls).filterMap HostJob.route? = routes.missing (c₀.acceptedFrom calls) ∧
      (∀ r, r ∈ c.routes.routes ↔ r ∈ routes.routes ∨ r ∈ c₀.acceptedFrom calls) ∧
      (routes.routes.Nodup → c.routes.routes.Nodup ∧ ∀ m m' advertised,
        c.heard? m.event = some (.routeAdvertise advertised) →
        (engine.answer c (.moment m)).1.heard? m'.event = some (.routeAdvertise advertised) →
        (engine.answer (engine.answer c (.moment m)).1 (.moment m')).1.routes =
            (engine.answer c (.moment m)).1.routes ∧
          (engine.answer c (.moment m)).1.queues m' = []) := by
  intro c₀ c
  obtain ⟨hhanded, hqueued, hroutes⟩ := serve_learns c₀ calls
  refine ⟨fun m => (moment_learns c m).1, rfl, hhanded, hqueued, fun r => ?_, fun hnodup => ?_⟩
  · rw [hroutes]
    exact RouteTable.mem_insertAll
  · have hnodup' : c.routes.routes.Nodup := by
      rw [hroutes]
      exact RouteTable.nodup_insertAll hnodup _
    exact ⟨hnodup', fun m m' advertised hm hm' => moment_repeated hnodup' hm hm'⟩

def viaFirst : Route := ⟨.v4 ⟨0x0a090000, ⟨16, by decide⟩⟩, .v4 0x0a070001⟩

def viaNinth : Route := ⟨.v4 ⟨0x0a080000, ⟨16, by decide⟩⟩, .v4 0x0a070009⟩

def repetitive : List Route := [viaFirst, viaNinth, viaFirst]

/-- The moment at which an advertisement in clear text arrives. -/
def hearing (routes : List Route) : Moment :=
  ⟨2, .datagram ((newcomer.codec.encode default (.routeAdvertise routes)).toOption.getD [])
    newcomer.server, Conditions.fair⟩

theorem installs_exact_repetitive :
    newcomer.acceptedFrom (welcomed ++ [.moment (hearing repetitive), .takeJobs]) = repetitive ∧
      (engine.serve newcomer (welcomed ++ [.moment (hearing repetitive), .takeJobs])).2.filterMap
        Output.job? = newcomer.queuedFrom (welcomed ++ [.moment (hearing repetitive), .takeJobs]) ∧
      (newcomer.queuedFrom (welcomed ++ [.moment (hearing repetitive), .takeJobs])).filterMap
        HostJob.route? = [viaFirst, viaNinth] ∧
      (engine.answer (engine.serve newcomer welcomed).1 (.moment (hearing repetitive))).1.queues
        (hearing repetitive) = [] := by
  have haccepted : newcomer.acceptedFrom (welcomed ++ [.moment (hearing repetitive), .takeJobs]) =
      repetitive := by
    decide +kernel
  have hjobs :
      (engine.serve newcomer (welcomed ++ [.moment (hearing repetitive), .takeJobs])).1.jobs =
      [] := by
    decide +kernel
  obtain ⟨-, -, hhanded, hqueued, -, -⟩ :=
    installs_exact newcomer.codec .empty newcomer.options 0
      (welcomed ++ [.moment (hearing repetitive), .takeJobs])
  obtain ⟨-, -, -, -, -, hnodup⟩ := installs_exact newcomer.codec .empty newcomer.options 0 welcomed
  obtain ⟨-, hrepeated⟩ := hnodup List.nodup_nil
  obtain ⟨-, hqueues⟩ :=
    hrepeated (hearing repetitive) (hearing repetitive) repetitive (by decide +kernel)
      (by decide +kernel)
  refine ⟨haccepted, ?_, hqueued.trans ?_, hqueues⟩
  · rw [← List.append_nil (List.filterMap _ _)]
    exact (congrArg (_ ++ ·) hjobs.symm).trans hhanded
  · exact (congrArg RouteTable.empty.missing haccepted).trans (by decide +kernel)

/-- No default route is installed when a tunnel starts. While it runs, one is queued for
installation exactly if the client accepts a default route that it did not have at the start. -/
theorem default_route_queued_iff (codec : Codec) (routes : RouteTable) (options : ClientOptions)
    (origin : Time) (calls : List Call) :
    let c₀ := start codec routes options origin
    (∀ config : Configuration, ∀ r ∈ config.startRoutes, r.length ≠ 0) ∧
      ((∃ r, .installRoute r ∈ c₀.queuedFrom calls ∧ r.length = 0) ↔
        ∃ r ∈ c₀.acceptedFrom calls, r ∉ routes.routes ∧ r.length = 0) := by
  intro c₀
  constructor
  · intro config r hr
    obtain ⟨-, hinstalls⟩ := List.mem_filter.mp hr
    rw [Configuration.installsAtStart, Bool.and_eq_true] at hinstalls
    exact bne_iff_ne.mp hinstalls.2
  · obtain ⟨-, hqueued, -⟩ := serve_learns c₀ calls
    have hmem (r : Route) : .installRoute r ∈ c₀.queuedFrom calls ↔ r ∈ c₀.acceptedFrom calls ∧
        r ∉ routes.routes := by
      rw [← HostJob.mem_filterMap_route?, hqueued]
      exact RouteTable.mem_missing
    simp only [hmem, and_assoc]

def everything : Route := ⟨.v4 ⟨0, ⟨0, by decide⟩⟩, .v4 0x0a070002⟩

/-- The configuration of an end whose tunnel is a point-to-point pair of 10.7.0.1 with 10.7.0.2. -/
def paired : Configuration :=
  { Configuration.plain (.server (.v4 0xc6336464 4789)) with
    ipv4 := some (.pair 0x0a070001 0x0a070002) }

theorem default_route_queued_iff_paired :
    everything ∈ paired.routeTable.routes ∧ everything ∉ paired.startRoutes ∧
      ∃ r, .installRoute r ∈
          newcomer.queuedFrom (welcomed ++ [.moment (hearing paired.routeTable.routes)]) ∧
        r.length = 0 := by
  obtain ⟨hstart, hqueued⟩ := default_route_queued_iff newcomer.codec .empty newcomer.options 0
    (welcomed ++ [.moment (hearing paired.routeTable.routes)])
  refine ⟨by decide +kernel, fun hmem => hstart paired everything hmem rfl,
    hqueued.mpr ⟨everything, ?_, ?_⟩⟩
  · decide +kernel
  · exact ⟨List.not_mem_nil, rfl⟩

/-- The client of a server that advertises a default route is to install it. -/
theorem everything_queued :
    .installRoute everything ∈ newcomer.queuedFrom (welcomed ++ [.moment (hearing [everything])]) ∧
      everything.length = 0 := by
  decide +kernel

end Client

end PacketTunnel
