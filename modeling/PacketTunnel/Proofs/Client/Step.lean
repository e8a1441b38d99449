import PacketTunnel.Client.Engine
import PacketTunnel.Proofs.Engine.Run

/-!
# What one step of a client does

Crediting what was emitted touches nothing but counters and the session's count of sent datagrams. A
client that has no answer yet learns nothing from its device and its clock: it stays without a link,
or with an open login, and sends nothing but datagrams of its own codec to its server.
-/
namespace PacketTunnel

namespace Link

theorem modifySession_modifySession (link : Link) (f g : Session → Session) :
    (link.modifySession f).modifySession g = link.modifySession fun x => g (f x) := by
  cases link <;> rfl

/-- A link whose session has another count of sent datagrams. -/
def recount (f : Tally → Tally) (link : Link) : Link := link.modifySession (Session.recount f)

theorem recount_id (link : Link) : link.recount id = link := by
  cases link <;> rfl

end Link

namespace Client

theorem exists_credits (c : Client) (emissions : List Emission) :
    ∃ counters f, emissions.foldl credit c =
      { c with counters := counters, link := c.link.recount f } := by
  induction emissions generalizing c with
  | nil => exact ⟨c.counters, id, by rw [Link.recount_id, List.foldl_nil]⟩
  | cons emission rest ih =>
    obtain ⟨counters, f, h⟩ := ih (c.credit emission)
    rw [List.foldl_cons, h]
    cases emission with
    | datagram message bytes recipient =>
      refine ⟨counters, fun sent => f (sent.add bytes.length), ?_⟩
      simp only [credit, count, modifySession, Link.recount, Link.modifySession_modifySession]
      rfl
    | packet bytes => exact ⟨counters, f, rfl⟩

/-- A step is the reaction but for what crediting changes. -/
theorem exists_step (c : Client) (conditions : Conditions) (now : Time) (event : Event) :
    ∃ counters f, (engine.step conditions now event c).1 =
      { (c.react now event).1 with
        counters := counters, link := (c.react now event).1.link.recount f } :=
  exists_credits _ _

theorem step_emissions (c : Client) (conditions : Conditions) (now : Time) (event : Event) :
    (engine.step conditions now event c).2 =
      Action.performAll c.codec conditions (c.react now event).2 := rfl

theorem exists_step_login {c : Client} (hlink : c.link = .disconnected) (conditions : Conditions)
    (now : Time) (calendar : UInt64) :
    (∃ counters f, (engine.step conditions now (.tick calendar) c).1 =
      { c with
        counters := counters
        link := .loginSent ((Session.start c.server now).recount f) now }) ∧
    (engine.step conditions now (.tick calendar) c).2 =
      Action.performAll c.codec conditions [.send (.clientLogin c.options.requested) c.server] := by
  have hreact : c.react now (.tick calendar) =
      ({ c with link := .loginSent (.start c.server now) now },
        [.send (.clientLogin c.options.requested) c.server]) := by
    rw [react, tick]
    simp only [hlink]
    rfl
  obtain ⟨counters, f, hstep⟩ := exists_step c conditions now (.tick calendar)
  rw [hreact] at hstep
  refine ⟨⟨counters, f, hstep⟩, ?_⟩
  rw [step_emissions, hreact]

/-- A client as it once was, but for its counters, an open login and the look-ups that it asked for.
-/
structure Unanswered (c₀ c : Client) : Prop where
  codec : c.codec = c₀.codec
  server : c.server = c₀.server
  routes : c.routes = c₀.routes
  link : c.link = .disconnected ∨ ∃ session lastLogin, c.link = .loginSent session lastLogin
  jobs : ∀ r, .installRoute r ∉ c.jobs

theorem unanswered_start (codec : Codec) (routes : RouteTable) (options : ClientOptions)
    (now : Time) :
    Unanswered (start codec routes options now) (start codec routes options now) where
  codec := rfl
  server := rfl
  routes := rfl
  link := .inl rfl
  jobs _ := List.not_mem_nil

namespace Unanswered

variable {c₀ c : Client}

theorem login (h : Unanswered c₀ c) (session : Session) (now : Time) :
    Unanswered c₀ (c.login session now).1 where
  codec := h.codec
  server := h.server
  routes := h.routes
  link := .inr ⟨session, now, rfl⟩
  jobs := h.jobs

theorem timeOut (h : Unanswered c₀ c) : Unanswered c₀ c.timeOut where
  codec := h.codec
  server := h.server
  routes := h.routes
  link := .inl rfl
  jobs r hr := by
    rcases List.mem_append.mp hr with hr | hr
    · exact h.jobs r hr
    · cases List.mem_singleton.mp hr

theorem takeJobs (h : Unanswered c₀ c) : Unanswered c₀ (engine.takeJobs c).2 where
  codec := h.codec
  server := h.server
  routes := h.routes
  link := h.link
  jobs _ := List.not_mem_nil

theorem react (h : Unanswered c₀ c) (now : Time) {event : Event} (hlocal : event.IsLocal) :
    Unanswered c₀ (c.react now event).1 ∧
      ∀ action ∈ (c.react now event).2, ∃ m, action = .send m c.server := by
  cases event with
  | packet bytes =>
    rw [Client.react, dispatch]
    split
    · exact ⟨h, fun action ha => ⟨_, List.mem_singleton.mp ha⟩⟩
    · exact ⟨⟨h.codec, h.server, h.routes, h.link, h.jobs⟩, fun action ha => by cases ha⟩
  | tick calendar =>
    rw [Client.react, tick]
    rcases h.link with hlink | ⟨session, lastLogin, hlink⟩
    · simp only [hlink]
      exact ⟨h.login _ now, fun action ha => ⟨_, List.mem_singleton.mp ha⟩⟩
    · simp only [hlink]
      split
      · exact ⟨h.timeOut, fun action ha => by cases ha⟩
      · split
        · exact ⟨h.login _ now, fun action ha => ⟨_, List.mem_singleton.mp ha⟩⟩
        · exact ⟨h, fun action ha => by cases ha⟩
  | datagram bytes sender => exact hlocal.elim
  | outcome outcome => exact hlocal.elim
  | shutdown => exact hlocal.elim

theorem step (h : Unanswered c₀ c) (conditions : Conditions) (now : Time) {event : Event}
    (hlocal : event.IsLocal) :
    Unanswered c₀ (engine.step conditions now event c).1 ∧
      ∀ emission ∈ (engine.step conditions now event c).2,
        ∃ m bytes iv, emission = .datagram m bytes c.server ∧ c.codec.encode iv m = .ok bytes := by
  obtain ⟨hreact, hactions⟩ := h.react now hlocal
  constructor
  · obtain ⟨counters, f, hstep⟩ := exists_step c conditions now event
    rw [hstep]
    refine ⟨hreact.codec, hreact.server, hreact.routes, ?_, hreact.jobs⟩
    rcases hreact.link with hlink | ⟨session, lastLogin, hlink⟩
    · exact .inl (congrArg (Link.recount f) hlink)
    · exact .inr ⟨_, lastLogin, congrArg (Link.recount f) hlink⟩
  · intro emission hemission
    rw [step_emissions] at hemission
    cases emission with
    | datagram m bytes recipient =>
      obtain ⟨hsend, iv, hbytes⟩ := Action.send_of_mem_performAll hemission
      obtain ⟨_, hm⟩ := hactions _ hsend
      cases hm
      exact ⟨m, bytes, iv, rfl, hbytes⟩
    | packet packet =>
      obtain ⟨_, hm⟩ := hactions _ (Action.deliver_of_mem_performAll hemission)
      cases hm

end Unanswered

/-- A client in clear text that has only just started; its server is at 198.51.100.100. -/
def newcomer : Client :=
  .start (.ofMtu .clear 1416) .empty ⟨.v4 0xc6336464 4789, "vpn.example", .empty, 13000, 60000,
    "vt0"⟩ 0

end Client

end PacketTunnel
