import PacketTunnel.Proofs.Client.Change

/-!
# A client that waits for the answer to a login

A client probes its server only once it is established, so an open login has never been probed: this
holds in every state that a client can be in. From the tick at which it asks for addresses until the
server's letters have arrived, a client learns of the server from these letters alone.
-/
namespace PacketTunnel

/-- Nothing was probed before the server answered. -/
def Link.Unprobed : Link → Prop
  | .loginSent x _ => x.lastKeepalive = none
  | _ => True

theorem Link.unprobed_modifySession {link : Link} (h : link.Unprobed) {f : Session → Session}
    (hf : ∀ x, (f x).lastKeepalive = x.lastKeepalive) : (link.modifySession f).Unprobed := by
  cases link with
  | disconnected => trivial
  | loginSent x t => exact (hf x).trans h
  | established x t assigned => trivial

/-- The server has not answered, and was not probed. -/
def Link.Pending : Link → Prop
  | .disconnected => True
  | .loginSent x _ => x.lastKeepalive = none
  | .established .. => False

theorem Link.unprobed_of_pending {link : Link} (h : link.Pending) {x : Session}
    (hx : link.session? = some x) :
    x.lastKeepalive = none := by
  cases link with
  | disconnected => cases hx
  | loginSent y t =>
    cases hx
    exact h
  | established y t assigned => exact h.elim

theorem Link.ne_established_of_pending {link : Link} (h : link.Pending) {x : Session} {t : Time}
    {assigned : Option VirtualAddresses} : link ≠ .established x t assigned := by
  rintro rfl
  exact h

theorem Link.Unprobed.pending {link : Link} (h : link.Unprobed)
    (hopen : ∀ x t assigned, link ≠ .established x t assigned) : link.Pending := by
  cases link with
  | disconnected => trivial
  | loginSent x t => exact h
  | established x t assigned => exact absurd rfl (hopen x t assigned)

namespace Client

/-- A state of a client: from its start, through steps and the taking of jobs. -/
inductive Reachable : Client → Prop
  | start (codec : Codec) (routes : RouteTable) (options : ClientOptions) (now : Time) :
      Reachable (start codec routes options now)
  | step {c : Client} (h : Reachable c) (k : Conditions) (now : Time) (event : Event) :
      Reachable (engine.step k now event c).1
  | takeJobs {c : Client} (h : Reachable c) : Reachable (engine.takeJobs c).2

variable {c : Client} {x : Session} {t : Time}

theorem Change.unprobed {now : Time} {event : Event} {c' : Client} (hc : Change c now event c')
    (h : c.link.Unprobed) :
    c'.link.Unprobed := by
  cases hc with
  | quiet counters hquiet => exact h
  | loggedIn calendar hlink => exact rfl
  | askedAgain calendar hlink hidle hdue =>
    rw [hlink] at h
    exact h
  | probed calendar hlink hidle hdue => trivial
  | timedOut calendar hx hidle => trivial
  | heard hm hopen hx ht size hx' counters assigned routes installs => trivial
  | left counters hlink hevent => trivial
  | moved hne => exact Link.unprobed_modifySession h fun _ => rfl

theorem Reachable.unprobed (h : c.Reachable) : c.link.Unprobed := by
  induction h with
  | start codec routes options now => trivial
  | @step c h k now event ih =>
    obtain ⟨counters, f, hstep⟩ := exists_step c k now event
    rw [hstep]
    exact Link.unprobed_modifySession ((change c now event).unprobed ih) fun _ => rfl
  | takeJobs h ih => exact ih

/-- A client that logged in, and hears from the server between two times. What makes it established
is a welcome. -/
structure Awaiting (c₀ : Client) (t₀ t₁ : Time) (welcomed : Prop) (c : Client) : Prop where
  codec : c.codec = c₀.codec
  options : c.options = c₀.options
  server : c.server = c₀.server
  unprobed : ∀ x, c.link.session? = some x → x.lastKeepalive = none
  heard : ∀ x t assigned, c.link = .established x t assigned →
    welcomed ∧ t₀ ≤ x.lastReceived ∧ x.lastReceived ≤ t₁

theorem pending_react_tick (h : c.link.Pending) (now : Time) (calendar : UInt64) :
    (∃ link jobs, (c.react now (.tick calendar)).1 = { c with link := link, jobs := jobs } ∧
      link.Pending) ∧
      ((c.react now (.tick calendar)).2 = [] ∨
        (c.react now (.tick calendar)).2 =
          [.send (.clientLogin c.options.requested) c.server]) := by
  have hticks := ticks c now calendar
  generalize c.react now (.tick calendar) = reaction at hticks
  cases hticks with
  | loggedIn hlink => exact ⟨⟨.loginSent (.start c.server now) now, c.jobs, rfl, rfl⟩, .inr rfl⟩
  | @askedAgain x t hlink hidle hdue =>
    rw [hlink] at h
    exact ⟨⟨.loginSent x now, c.jobs, rfl, h⟩, .inr rfl⟩
  | probed hlink hidle hdue => exact absurd hlink (Link.ne_established_of_pending h)
  | timedOut hx hidle => exact ⟨⟨.disconnected, _, rfl, trivial⟩, .inl rfl⟩
  | waited hearly => exact ⟨⟨c.link, c.jobs, rfl, h⟩, .inl rfl⟩

theorem pending_tick (h : c.link.Pending) (now : Time) (calendar : UInt64) (k : Conditions) :
    (engine.step k now (.tick calendar) c).1.link.Pending ∧
      ∀ t₀ t₁ welcomed, Awaiting c t₀ t₁ welcomed (engine.step k now (.tick calendar) c).1 := by
  obtain ⟨⟨link, jobs, hreact, hpending⟩, -⟩ := pending_react_tick h now calendar
  obtain ⟨counters, f, hstep⟩ := exists_step c k now (.tick calendar)
  rw [hstep, hreact]
  have hpending' : (link.recount f).Pending := by
    cases link with
    | disconnected => trivial
    | loginSent x t => exact hpending
    | established x t assigned => exact hpending
  refine ⟨hpending',
    fun t₀ t₁ welcomed => ⟨rfl, rfl, rfl, fun x hx => ?_, fun x t assigned hlink => ?_⟩⟩
  · exact Link.unprobed_of_pending hpending' hx
  · exact absurd hlink (Link.ne_established_of_pending hpending')

/-- A welcomed client that is established by what it has heard. -/
theorem Awaiting.established {c₀ c' : Client} {t₀ t₁ : Time} {welcomed : Prop}
    (h : Awaiting c₀ t₀ t₁ welcomed c) (hnone : x.lastKeepalive = none) (hwelcomed : welcomed)
    (hfrom : t₀ ≤ x.lastReceived) (hto : x.lastReceived ≤ t₁) {assigned : Option VirtualAddresses}
    (hcodec : c'.codec = c.codec) (hoptions : c'.options = c.options)
    (hserver : c'.server = c.server) (hlink : c'.link = .established x t assigned) :
    Awaiting c₀ t₀ t₁ welcomed c' := by
  refine ⟨hcodec.trans h.codec, hoptions.trans h.options, hserver.trans h.server, ?_, ?_⟩
  · intro y hy
    rw [hlink] at hy
    cases hy
    exact hnone
  · intro y u a hy
    rw [hlink] at hy
    cases hy
    exact ⟨hwelcomed, hfrom, hto⟩

/-- What the server answers to a login has no answer. -/
theorem awaiting_step {c₀ : Client} {t₀ t₁ : Time} {welcomed : Prop}
    (h : Awaiting c₀ t₀ t₁ welcomed c) {bytes : Bytes}
    (hkind : ∀ m, c.codec.decode bytes = .ok m → m = .disconnect ∨ welcomed ∧
      (m.kind = .clientLogin ∨ m.kind = .routeAdvertise)) {now : Time} (hfrom : t₀ ≤ now)
    (hto : now ≤ t₁) (k : Conditions) :
    ∃ c', engine.step k now (.datagram bytes c.server) c = (c', []) ∧
      Awaiting c₀ t₀ t₁ welcomed c' := by
  cases hd : c.codec.decode bytes with
  | error r =>
    obtain ⟨counters, hreact⟩ := react_rejected now c.server (.inr ⟨r, hd⟩)
    exact ⟨_, step_of_silent hreact k, h.codec, h.options, h.server, h.unprobed, h.heard⟩
  | ok m =>
    by_cases hclosed : c.link = .disconnected
    · obtain ⟨counters, hreact⟩ := react_of_closed hclosed now hd
      exact ⟨_, step_of_silent hreact k, h.codec, h.options, h.server, h.unprobed, h.heard⟩
    · obtain ⟨x, t, hx, ht⟩ := Link.exists_session hclosed
      have hnone : (x.touch now bytes.length).lastKeepalive = none := h.unprobed x hx
      rcases hkind m hd with rfl | ⟨hwelcomed, hm⟩
      · obtain ⟨counters, hstep⟩ := step_disconnect now hd k
        refine ⟨_, hstep, h.codec, h.options, h.server, ?_, ?_⟩
        · intro y hy
          cases hy
        · intro y u a hy
          cases hy
      · cases m with
        | clientLogin addresses =>
          obtain ⟨counters, hstep⟩ := step_clientLogin hx ht now hd k
          exact ⟨_, hstep, h.established hnone hwelcomed hfrom hto rfl rfl rfl rfl⟩
        | routeAdvertise routes =>
          obtain ⟨counters, jobs, hstep⟩ := step_routeAdvertise hx ht now hd k
          exact ⟨_, hstep, h.established hnone hwelcomed hfrom hto rfl rfl rfl rfl⟩
        | _ => rcases hm with hm | hm <;> cases hm

end Client

end PacketTunnel
