import PacketTunnel.Proofs.Client.Contact

/-!
# Where the messages of a session come from

A client hears nobody but its server, wherever the server is at the time. So an established link
rests on a message from the server, but not always from where the server is now: a look-up may move
it at any moment, an open session goes along, and the link stays established although nothing has
come from the new place yet.
-/
namespace PacketTunnel

open Engine (Call)

/-- Where the messages came from that were heard in a session, the last one first, and whether the
server has moved since. -/
structure Provenance where
  senders : List Endpoint
  moved : Bool
deriving DecidableEq, Repr

namespace Client

variable {c c' : Client} {contact : Option Contact} {provenance : Option Provenance} {now : Time}
  {event : Event}

def extend (c : Client) (event : Event) (p : Provenance) : Provenance :=
  match event with
  | .datagram _ sender => if (c.heard? event).isSome then ⟨sender :: p.senders, false⟩ else p
  | .outcome (.resolved endpoint) => { p with moved := p.moved || endpoint ≠ c.server }
  | _ => p

/-- The provenance after an event that leads from one state to another: none without a session, and
nothing yet in one that is opened now. -/
def provenanceThrough (c c' : Client) (event : Event) (provenance : Option Provenance) :
    Option Provenance :=
  c'.session?.map fun _ =>
    match provenance with
    | none => ⟨[], false⟩
    | some p => c.extend event p

def provenanceAfter (c : Client) (provenance : Option Provenance) : Call → Option Provenance
  | .moment m => provenanceThrough c (engine.answer c (.moment m)).1 m.event provenance
  | .takeJobs => provenance

def provenanceFrom (c : Client) (provenance : Option Provenance) : List Call → Option Provenance
  | [] => provenance
  | k :: rest => provenanceFrom (engine.answer c k).1 (c.provenanceAfter provenance k) rest

/-- The notes on senders agree with those on times, and with where the server is. -/
structure Accords (c : Client) (contact : Option Contact) (provenance : Option Provenance) :
    Prop where
  length : provenance.map (·.senders.length) = contact.map (·.heard.length)
  latest : ∀ p, provenance = some p → p.moved = false → ∀ e, p.senders.head? = some e → e = c.server

/-- An event adds the server to the senders when it brings a message; else it leaves them, and when
the server is not noted as moved, then it has not moved. -/
theorem extend_cases (c : Client) (event : Event) (p : Provenance) :
    (∃ m, c.heard? event = some m ∧ c.extend event p = ⟨c.server :: p.senders, false⟩) ∨
      c.heard? event = none ∧ (c.extend event p).senders = p.senders ∧
        ((c.extend event p).moved = false →
        p.moved = false ∧ ∀ endpoint, event = .outcome (.resolved endpoint) →
        endpoint = c.server) := by
  cases event with
  | datagram bytes sender =>
    cases hm : c.heard? (.datagram bytes sender) with
    | none =>
      refine .inr ⟨rfl, ?_⟩
      rw [extend, hm]
      exact ⟨rfl, fun h => ⟨h, nofun⟩⟩
    | some m =>
      obtain ⟨_, hevent, -⟩ := heard?_eq_some_iff.mp hm
      cases hevent
      refine .inl ⟨m, rfl, ?_⟩
      rw [extend, hm]
      rfl
  | outcome outcome =>
    cases outcome with
    | resolved endpoint =>
      refine .inr ⟨rfl, rfl, fun h => ?_⟩
      obtain ⟨hmoved, hsame⟩ := Bool.or_eq_false_iff.mp h
      refine ⟨hmoved, fun endpoint' hevent => ?_⟩
      cases hevent
      simpa using hsame
    | routeInstalled r => exact .inr ⟨rfl, rfl, fun h => ⟨h, nofun⟩⟩
    | failed reason => exact .inr ⟨rfl, rfl, fun h => ⟨h, nofun⟩⟩
  | packet bytes => exact .inr ⟨rfl, rfl, fun h => ⟨h, nofun⟩⟩
  | tick calendar => exact .inr ⟨rfl, rfl, fun h => ⟨h, nofun⟩⟩
  | shutdown => exact .inr ⟨rfl, rfl, fun h => ⟨h, nofun⟩⟩

theorem length_extend {p : Provenance} {k : Contact} (h : p.senders.length = k.heard.length) :
    (c.extend event p).senders.length =
      (if (c.heard? event).isSome then (⟨k.opened, now :: k.heard⟩ : Contact)
        else k).heard.length := by
  rcases extend_cases c event p with ⟨m, hm, hextend⟩ | ⟨hm, hsenders, -⟩
  · rw [hm, hextend, Option.isSome_some, if_pos rfl, List.length_cons, List.length_cons, h]
  · rw [hm, hsenders, Option.isSome_none, if_neg Bool.false_ne_true, h]

theorem latest_extend {p : Provenance}
    (hserver : c'.server = c.server ∨ event = .outcome (.resolved c'.server))
    (hp : p.moved = false → ∀ e, p.senders.head? = some e → e = c.server)
    (hmoved : (c.extend event p).moved = false) {e : Endpoint}
    (he : (c.extend event p).senders.head? = some e) :
    e = c'.server := by
  rcases extend_cases c event p with ⟨m, hm, hextend⟩ | ⟨-, hsenders, hunmoved⟩
  · obtain ⟨bytes, rfl, -⟩ := heard?_eq_some_iff.mp hm
    rw [hextend] at he
    rw [hserver.resolve_right (by simp)]
    exact (Option.some.inj he).symm
  · obtain ⟨hbefore, hsame⟩ := hunmoved hmoved
    have hstays : c'.server = c.server := hserver.elim id (hsame c'.server)
    rw [hsenders] at he
    rw [hstays]
    exact hp hbefore e he

theorem Accords.through (h : Accords c contact provenance)
    (hserver : c'.server = c.server ∨ event = .outcome (.resolved c'.server)) :
    Accords c' (contactThrough c c' now event contact)
      (provenanceThrough c c' event provenance) := by
  cases hx : c'.session? with
  | none =>
    have hnone : provenanceThrough c c' event provenance = none := by
      simp only [provenanceThrough, hx, Option.map_none]
    rw [contactThrough_of_closed hx, hnone]
    exact ⟨rfl, nofun⟩
  | some x =>
    simp only [contactThrough, provenanceThrough, hx, Option.map_some]
    cases provenance with
    | none =>
      cases contact with
      | none =>
        refine ⟨rfl, fun p hp hmoved e he => ?_⟩
        cases hp
        cases he
      | some k => cases h.length
    | some p =>
      cases contact with
      | none => cases h.length
      | some k =>
        refine ⟨congrArg some (length_extend (Option.some.inj h.length)),
          fun q hq hmoved e he => ?_⟩
        cases hq
        exact latest_extend hserver (h.latest p rfl) hmoved he

theorem Accords.answer (h : Accords c contact provenance) (k : Call) :
    Accords (engine.answer c k).1 (c.contactAfter contact k) (c.provenanceAfter provenance k) := by
  cases k with
  | takeJobs => exact ⟨h.length, h.latest⟩
  | moment m =>
    refine h.through ?_
    obtain ⟨counters, f, hstep⟩ := exists_step c m.conditions m.now m.event
    rw [Engine.answer, hstep]
    exact (Client.change c m.now m.event).server

theorem Accords.from (h : Accords c contact provenance) (calls : List Call) :
    Accords (engine.serve c calls).1 (c.contactFrom contact calls)
      (c.provenanceFrom provenance calls) := by
  induction calls generalizing c contact provenance with
  | nil => exact h
  | cons k rest ih => exact ih (h.answer k)

/-- After any calls an established link rests on messages from the server, each from where it was at
the time; unless it has moved since the last one, this came from where the server is. -/
theorem established_by_server (codec : Codec) (routes : RouteTable) (options : ClientOptions)
    (origin : Time) (calls : List Call) :
    let c₀ := start codec routes options origin
    let c := (engine.serve c₀ calls).1
    c.link.phase = .established → ∃ p, c₀.provenanceFrom none calls = some p ∧ p.senders ≠ [] ∧
      (p.moved = false → p.senders.head? = some c.server) := by
  intro c₀ c hphase
  have htracks : Tracks c (c₀.contactFrom none calls) := Tracks.from (.closed rfl) calls
  have haccords : Accords c (c₀.contactFrom none calls) (c₀.provenanceFrom none calls) :=
    Accords.from ⟨rfl, fun p hp => by cases hp⟩ calls
  obtain ⟨x, hx⟩ := Option.isSome_iff_exists.mp (htracks.coupled.session.mpr (by simp [hphase]))
  obtain ⟨k, hk, hheard, -⟩ := htracks.coupled.answered x hx hphase
  have hlength := haccords.length
  rw [hk, Option.map_some] at hlength
  obtain ⟨p, hp, hsame⟩ := Option.map_eq_some_iff.mp hlength
  have hsenders : p.senders ≠ [] := by
    rw [← List.length_pos_iff, hsame, List.length_pos_iff]
    exact hheard
  refine ⟨p, hp, hsenders, fun hmoved => ?_⟩
  have hhead := List.head?_eq_some_head hsenders
  rw [hhead, haccords.latest p hp hmoved _ hhead]

def confirmation : Bytes :=
  (newcomer.codec.encode default (.clientLogin ⟨some 0x0a070002, none⟩)).toOption.getD []

def welcomed : List Call :=
  [.moment ⟨0, .tick 0, Conditions.fair⟩,
    .moment ⟨1, .datagram confirmation newcomer.server, Conditions.fair⟩]

theorem established_by_server_welcomed :
    (engine.serve newcomer welcomed).1.link.phase = .established ∧
      ∃ p, newcomer.provenanceFrom none welcomed = some p ∧ p.moved = false ∧
        p.senders.head? = some (engine.serve newcomer welcomed).1.server := by
  have hphase : (engine.serve newcomer welcomed).1.link.phase = .established := by decide +kernel
  have hp : newcomer.provenanceFrom none welcomed = some ⟨[newcomer.server], false⟩ := by
    decide +kernel
  obtain ⟨p, hsome, -, hlatest⟩ := established_by_server _ _ _ _ welcomed hphase
  cases hp.symm.trans hsome
  exact ⟨hphase, _, hp, rfl, hlatest rfl⟩

/-- After its welcome a look-up tells the client that the server has moved. -/
def redirected : List Call :=
  welcomed ++ [.moment ⟨2, .outcome (.resolved (.v4 0xc6336465 4789)), Conditions.fair⟩]

/-- The link is established, and nothing has ever come from where the server is. -/
theorem redirected_unheard :
    (engine.serve newcomer redirected).1.link.phase = .established ∧
      ∀ m, .moment m ∈ redirected → ∀ bytes,
        m.event ≠ .datagram bytes (engine.serve newcomer redirected).1.server := by
  have hphase : (engine.serve newcomer redirected).1.link.phase = .established := by decide +kernel
  have hserver : (engine.serve newcomer redirected).1.server = .v4 0xc6336465 4789 := by
    decide +kernel
  refine ⟨hphase, fun m hm bytes hevent => ?_⟩
  rw [hserver] at hevent
  simp only [redirected, welcomed, List.mem_append, List.mem_cons, List.not_mem_nil, or_false,
    Call.moment.injEq] at hm
  rcases hm with (rfl | rfl) | rfl
  · cases hevent
  · obtain ⟨-, hsender⟩ := Event.datagram.inj hevent
    exact absurd hsender (by decide)
  · cases hevent

end Client

end PacketTunnel
