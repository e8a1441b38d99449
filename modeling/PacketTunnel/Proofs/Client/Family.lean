import PacketTunnel.Host.Socket
import PacketTunnel.Host.Worker
import PacketTunnel.Proofs.Client.Packets
import PacketTunnel.Proofs.Client.Provenance

/-!
# A client and its worker

A client does not look up names itself. It queues the look-up, with the endpoint that the server has
at the time; the worker takes it over and does it at some time, and the client is told of the
outcome at a later one, when the server may already be elsewhere. Meanwhile any number of other jobs
and outcomes may be on their way. Since every look-up keeps the address family of the endpoint that
it was asked for with, the server never leaves the family in which it was configured, and the socket
that was bound for it reaches it wherever it goes.
-/
namespace PacketTunnel

open Engine (Moment)

/-- A look-up that is confined to the family of a known endpoint finds an endpoint of that family.
-/
theorem NameService.isV4_of_resolve {service : NameService} {name : String} {known found : Endpoint}
    (h : service.resolve name (some known) = .ok found) : found.isV4 = known.isV4 := by
  rw [resolve] at h
  cases hcandidates : service.candidates name with
  | error fault =>
    rw [hcandidates] at h
    cases h
  | ok endpoints =>
    simp only [hcandidates, bind, Except.bind] at h
    split at h
    · rename_i hfound
      cases h
      have hfamily := List.find?_some hfound
      exact (beq_iff_eq.mp hfamily).symm
    · cases h

/-- A job that does not lead out of an address family: it installs a route, or it looks up a name
for an endpoint of the family. -/
def HostJob.InFamily (isV4 : Bool) : HostJob → Prop
  | .installRoute _ => True
  | .resolve _ current => current.isV4 = isV4

def HostOutcome.InFamily (isV4 : Bool) : HostOutcome → Prop
  | .resolved endpoint => endpoint.isV4 = isV4
  | .routeInstalled _ => True
  | .failed _ => True

variable {isV4 : Bool}

/-- Whatever the name service answers, and whatever becomes of routes, a worker keeps to the family
of its jobs. -/
theorem Worker.inFamily_perform (w : Worker) {job : HostJob} (h : job.InFamily isV4) :
    (w.perform job).InFamily isV4 := by
  cases job with
  | installRoute r =>
    rw [perform]
    split <;> trivial
  | resolve host current =>
    rw [perform]
    split
    · rename_i found hfound
      exact (NameService.isV4_of_resolve hfound).trans h
    · trivial

namespace Client

/-- The server of a client is of an address family, and so is every endpoint that it has queued a
look-up for. -/
structure InFamily (isV4 : Bool) (c : Client) : Prop where
  server : c.server.isV4 = isV4
  jobs : ∀ job ∈ c.jobs, job.InFamily isV4

variable {c : Client}

theorem inFamily_start (codec : Codec) (routes : RouteTable) (options : ClientOptions)
    (origin : Time) :
    (start codec routes options origin).InFamily options.server.isV4 where
  server := rfl
  jobs := List.forall_mem_nil _

theorem InFamily.change {now : Time} {event : Event} {c' : Client} (h : c.InFamily isV4)
    (hc : Change c now event c')
    (hevent : ∀ outcome, event = .outcome outcome → outcome.InFamily isV4) : c'.InFamily isV4 := by
  cases hc with
  | quiet counters hquiet => exact ⟨h.server, h.jobs⟩
  | loggedIn calendar hlink => exact ⟨h.server, h.jobs⟩
  | askedAgain calendar hlink hidle hdue => exact ⟨h.server, h.jobs⟩
  | probed calendar hlink hidle hdue => exact ⟨h.server, h.jobs⟩
  | timedOut calendar hx hidle =>
    refine ⟨h.server, List.forall_mem_append.mpr ⟨h.jobs, ?_⟩⟩
    exact List.forall_mem_singleton.mpr h.server
  | heard hm hopen hx ht size hx' counters assigned routes installs =>
    refine ⟨h.server, List.forall_mem_append.mpr ⟨h.jobs, ?_⟩⟩
    exact List.forall_mem_map.mpr fun _ _ => trivial
  | left counters hlink hleft => exact ⟨h.server, h.jobs⟩
  | moved hne => exact ⟨hevent _ rfl, h.jobs⟩

theorem InFamily.step (h : c.InFamily isV4) (k : Conditions) (now : Time) {event : Event}
    (hevent : ∀ outcome, event = .outcome outcome → outcome.InFamily isV4) :
    (engine.step k now event c).1.InFamily isV4 := by
  obtain ⟨counters, f, hstep⟩ := exists_step c k now event
  obtain ⟨hserver, hjobs⟩ := h.change (Client.change c now event) hevent
  rw [hstep]
  exact ⟨hserver, hjobs⟩

/-- A client sends to its server and to nobody else. -/
theorem recipient_of_step {k : Conditions} {now : Time} {event : Event} {message : Message}
    {bytes : Bytes} {recipient : Endpoint}
    (h : .datagram message bytes recipient ∈ (engine.step k now event c).2) :
    recipient = c.server := by
  have hsend : .send message recipient ∈ (c.react now event).2 :=
    (Action.send_of_mem_performAll h).1
  have hconduct := conduct c now event
  generalize (c.react now event).2 = actions at hconduct hsend
  cases hconduct with
  | notices hnotices =>
    obtain ⟨_, hnotice, -⟩ := hnotices _ hsend
    cases hnotice
    rfl
  | sends packet =>
    cases List.mem_singleton.mp hsend
    rfl
  | writes hd => cases List.mem_singleton.mp hsend

end Client

/-- A client, the jobs that the worker has taken over and not done yet, and the outcomes of which
the client has not been told yet. -/
structure Assisted where
  client : Client
  jobs : List HostJob
  outcomes : List HostOutcome

namespace Assisted

def start (c : Client) : Assisted := ⟨c, [], []⟩

/-- What may happen next, and what the client emits then. Jobs are done, and outcomes told, at any
time and in any order; what the worker has at hand, routes and names alike, may be different for
every job. -/
inductive Advances : Assisted → List Emission → Assisted → Prop
  | lives {c : Client} {jobs : List HostJob} {outcomes : List HostOutcome} (m : Moment)
      (hm : ∀ outcome, m.event ≠ .outcome outcome) :
      Advances ⟨c, jobs, outcomes⟩ (Client.engine.step m.conditions m.now m.event c).2
        ⟨(Client.engine.step m.conditions m.now m.event c).1, jobs, outcomes⟩
  | submits {c : Client} {jobs : List HostJob} {outcomes : List HostOutcome} :
      Advances ⟨c, jobs, outcomes⟩ []
        ⟨(Client.engine.takeJobs c).2, jobs ++ (Client.engine.takeJobs c).1, outcomes⟩
  | works {c : Client} {jobs : List HostJob} {outcomes : List HostOutcome} (w : Worker)
      (job : HostJob) (hjob : job ∈ jobs) :
      Advances ⟨c, jobs, outcomes⟩ [] ⟨c, jobs.erase job, outcomes ++ [w.perform job]⟩
  | reports {c : Client} {jobs : List HostJob} {outcomes : List HostOutcome} (now : Time)
      (k : Conditions) (outcome : HostOutcome) (houtcome : outcome ∈ outcomes) :
      Advances ⟨c, jobs, outcomes⟩ (Client.engine.step k now (.outcome outcome) c).2
        ⟨(Client.engine.step k now (.outcome outcome) c).1, jobs, outcomes.erase outcome⟩

inductive Runs (a : Assisted) : List Emission → Assisted → Prop
  | start : Runs a [] a
  | next {emissions later : List Emission} {a' a'' : Assisted} (h : Runs a emissions a')
      (hnext : Advances a' later a'') : Runs a (emissions ++ later) a''

/-- Nothing that is queued, submitted or on its way back leads out of an address family. -/
structure InFamily (isV4 : Bool) (a : Assisted) : Prop where
  client : a.client.InFamily isV4
  jobs : ∀ job ∈ a.jobs, job.InFamily isV4
  outcomes : ∀ outcome ∈ a.outcomes, outcome.InFamily isV4

variable {a a' : Assisted} {emissions : List Emission}

theorem InFamily.advances (h : a.InFamily isV4) (hnext : Advances a emissions a') :
    a'.InFamily isV4 := by
  cases hnext with
  | lives m hm =>
    have hclient := h.client.step m.conditions m.now fun outcome hevent =>
      absurd hevent (hm outcome)
    exact ⟨hclient, h.jobs, h.outcomes⟩
  | submits =>
    have hjobs := List.forall_mem_append.mpr ⟨h.jobs, h.client.jobs⟩
    exact ⟨⟨h.client.server, List.forall_mem_nil _⟩, hjobs, h.outcomes⟩
  | works w job hjob =>
    have hdone := List.forall_mem_singleton.mpr (w.inFamily_perform (h.jobs job hjob))
    refine ⟨h.client, fun other hother => h.jobs other (List.mem_of_mem_erase hother), ?_⟩
    exact List.forall_mem_append.mpr ⟨h.outcomes, hdone⟩
  | reports now k outcome houtcome =>
    have htold (told : HostOutcome) (hevent : Event.outcome outcome = .outcome told) :
        told.InFamily isV4 := by
      cases hevent
      exact h.outcomes outcome houtcome
    have hclient := h.client.step k now htold
    exact ⟨hclient, h.jobs, fun other hother => h.outcomes other (List.mem_of_mem_erase hother)⟩

theorem InFamily.recipient (h : a.InFamily isV4) (hnext : Advances a emissions a')
    {message : Message} {bytes : Bytes} {recipient : Endpoint}
    (hsent : .datagram message bytes recipient ∈ emissions) : recipient.isV4 = isV4 := by
  cases hnext with
  | lives m hm =>
    rw [Client.recipient_of_step hsent]
    exact h.client.server
  | submits => cases hsent
  | works w job hjob => cases hsent
  | reports now k outcome houtcome =>
    rw [Client.recipient_of_step hsent]
    exact h.client.server

/-- Through any run of a client with its worker the server stays in the address family in which it
was configured, so that the socket bound for it can reach it, and has been able to reach the
recipient of every datagram. -/
theorem server_family_kept {codec : Codec} {routes : RouteTable} {options : ClientOptions}
    {origin : Time} (h : Runs (start (Client.start codec routes options origin)) emissions a) :
    a.client.server.isV4 = options.server.isV4 ∧
      options.server.socketFor.canReach a.client.server = true ∧
      ∀ message bytes recipient, .datagram message bytes recipient ∈ emissions →
        options.server.socketFor.canReach recipient = true := by
  have hkept : a.InFamily options.server.isV4 ∧ ∀ message bytes recipient,
      .datagram message bytes recipient ∈ emissions → recipient.isV4 = options.server.isV4 := by
    induction h with
    | start =>
      exact ⟨⟨Client.inFamily_start codec routes options origin, List.forall_mem_nil _,
        List.forall_mem_nil _⟩, nofun⟩
    | next _ hnext ih =>
      obtain ⟨hfamily, hearlier⟩ := ih
      refine ⟨hfamily.advances hnext, fun message bytes recipient hsent => ?_⟩
      rcases List.mem_append.mp hsent with hsent | hsent
      · exact hearlier message bytes recipient hsent
      · exact hfamily.recipient hnext hsent
  obtain ⟨hfamily, hsent⟩ := hkept
  refine ⟨hfamily.client.server, Endpoint.canReach_socketFor.mpr hfamily.client.server, ?_⟩
  intro message bytes recipient hmem
  exact Endpoint.canReach_socketFor.mpr (hsent message bytes recipient hmem)

/-- A client in clear text whose server, at 198.51.100.100, does not answer. -/
def forsaken : Client :=
  .start (.ofMtu .clear 1416) .empty ⟨.v4 0xc6336464 4789, "vpn.example:4789", .empty, 13000, 60000,
    "vt0"⟩ 0

def modern : Worker := ⟨fun _ => .ok (), fun _ => .ok [⟨.v6 7, 0⟩, ⟨.v4 0xc6336465, 0⟩]⟩

theorem server_family_kept_forsaken :
    ∃ emissions a, Runs (start forsaken) emissions a ∧ a.client.server = .v4 0xc6336465 4789 ∧
      forsaken.options.server.socketFor.canReach a.client.server = true := by
  have hlogin : Runs (start forsaken) _ _ :=
    .next .start (.lives ⟨0, .tick 0, Conditions.fair⟩ nofun)
  have hqueued := (hlogin.next (.lives ⟨60001, .tick 0, Conditions.fair⟩ nofun)).next .submits
  have hdone :=
    hqueued.next (.works modern (.resolve "vpn.example:4789" forsaken.server) (by decide +kernel))
  have htold :=
    hdone.next
      (.reports 60002 Conditions.fair (.resolved (.v4 0xc6336465 4789)) (by decide +kernel))
  obtain ⟨-, hreach, -⟩ := server_family_kept htold
  exact ⟨_, _, htold, by decide +kernel, hreach⟩

end Assisted

end PacketTunnel
