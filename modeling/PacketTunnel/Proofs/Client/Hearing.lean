import PacketTunnel.Proofs.Client.Step
import PacketTunnel.Proofs.Route.Insertion

/-!
# What a client takes from its server

A sound message from the server that is no farewell establishes an open link and is then accepted: a
confirmation gives the client its addresses, an advertisement its routes. A farewell ends the link.
None of these has an answer. What does not decode, or comes from elsewhere, changes counters alone.
-/
namespace PacketTunnel

namespace Link

theorem exists_session {link : Link} (h : link ≠ .disconnected) :
    ∃ x t, link.session? = some x ∧ link.lastLogin? = some t := by
  cases link with
  | disconnected => exact absurd rfl h
  | loginSent x t => exact ⟨x, t, rfl, rfl⟩
  | established x t assigned => exact ⟨x, t, rfl, rfl⟩

theorem answered_modifySession {link : Link} {x : Session} {t : Time} (hx : link.session? = some x)
    (ht : link.lastLogin? = some t) (f : Session → Session) :
    (link.modifySession f).answered = .established (f x) t link.assigned? := by
  cases link with
  | disconnected => cases hx
  | loginSent y u =>
    cases hx
    cases ht
    rfl
  | established y u assigned =>
    cases hx
    cases ht
    rfl

end Link

namespace Client

/-- The client, once it has accepted a datagram, on an established link. -/
def joined (c : Client) (x : Session) (t : Time) : Client :=
  { c.count fun n => { n with datagramsIn := n.datagramsIn + 1 } with
    link := .established x t c.assigned? }

theorem joined_link (c : Client) (x : Session) (t : Time) :
    (c.joined x t).link = .established x t c.assigned? := rfl

variable {c : Client} {x : Session} {t : Time} {bytes : Bytes}

theorem acceptOnLink_of_session (hx : c.link.session? = some x) (ht : c.link.lastLogin? = some t)
    (now : Time) (size : Nat) {m : Message} (hm : m ≠ .disconnect) :
    c.acceptOnLink now size m =
      ({ c with link := .established (x.touch now size) t c.assigned? } : Client).accept m := by
  have hanswered := Link.answered_modifySession hx ht fun session => session.touch now size
  rw [acceptOnLink]
  simp only [if_neg hm]
  split
  · rename_i hclosed
    rw [hclosed] at hx
    cases hx
  · rw [hanswered]
    rfl

theorem react_of_decode (hx : c.link.session? = some x) (ht : c.link.lastLogin? = some t)
    (now : Time) {m : Message} (hd : c.codec.decode bytes = .ok m) (hm : m ≠ .disconnect) :
    c.react now (.datagram bytes c.server) = (c.joined (x.touch now bytes.length) t).accept m := by
  rw [react, receive, if_neg (fun hne => hne rfl), hd]
  exact acceptOnLink_of_session (c := c.count fun n => { n with datagramsIn := n.datagramsIn + 1 })
    hx ht now bytes.length hm

/-- Without a link, a message is counted and has no other effect. -/
theorem react_of_closed (hlink : c.link = .disconnected) (now : Time) {m : Message}
    (hd : c.codec.decode bytes = .ok m) :
    ∃ counters, c.react now (.datagram bytes c.server) = ({ c with counters := counters }, []) := by
  rw [react, receive, if_neg (fun hne => hne rfl), hd]
  simp only [acceptOnLink, count, hlink]
  exact ⟨_, rfl⟩

theorem react_farewell (now : Time) (hd : c.codec.decode bytes = .ok .disconnect) :
    ∃ counters, c.react now (.datagram bytes c.server) =
      ({ c with counters := counters, link := .disconnected }, []) := by
  cases hlink : c.link with
  | disconnected =>
    obtain ⟨counters, hreact⟩ := react_of_closed hlink now hd
    rw [← hlink]
    exact ⟨counters, hreact⟩
  | loginSent x t =>
    rw [react, receive, if_neg (fun hne => hne rfl), hd]
    simp only [acceptOnLink, count, hlink]
    exact ⟨_, rfl⟩
  | established x t assigned =>
    rw [react, receive, if_neg (fun hne => hne rfl), hd]
    simp only [acceptOnLink, count, hlink]
    exact ⟨_, rfl⟩

theorem react_rejected (now : Time) (sender : Endpoint)
    (h : sender ≠ c.server ∨ ∃ r, c.codec.decode bytes = .error r) :
    ∃ counters, c.react now (.datagram bytes sender) = ({ c with counters := counters }, []) := by
  rw [react, receive]
  split
  · exact ⟨_, rfl⟩
  · rename_i hserver
    obtain ⟨r, hr⟩ := h.resolve_left hserver
    rw [hr]
    cases r with
    | malformed fault => exact ⟨_, rfl⟩
    | unauthentic => exact ⟨_, rfl⟩

theorem foldl_learnRoute (c : Client) (routes : List Route) :
    routes.foldl learnRoute c =
      { c with
        routes := c.routes.insertAll routes
        jobs := c.jobs ++ (c.routes.missing routes).map .installRoute } := by
  induction routes generalizing c with
  | nil => simp [RouteTable.insertAll, RouteTable.missing, List.removeAll]
  | cons r rest ih =>
    have hmissing := RouteTable.missing_append c.routes [r] rest
    rw [RouteTable.missing_singleton, List.singleton_append] at hmissing
    rw [List.foldl_cons, ih, hmissing]
    cases hknown : c.routes.contains r with
    | true => simp [learnRoute, hknown, RouteTable.insertAll]
    | false => simp [learnRoute, hknown, RouteTable.insertAll]

theorem step_of_silent {c' : Client} {now : Time} {event : Event} (h : c.react now event = (c', []))
    (k : Conditions) : engine.step k now event c = (c', []) :=
  Engine.step_of_silent (E := engine) h k

theorem step_clientLogin (hx : c.link.session? = some x) (ht : c.link.lastLogin? = some t)
    (now : Time) {addresses : VirtualAddresses}
    (hd : c.codec.decode bytes = .ok (.clientLogin addresses)) (k : Conditions) :
    ∃ counters, engine.step k now (.datagram bytes c.server) c =
      ({ c with
          counters := counters
          link := .established (x.touch now bytes.length) t (some addresses) }, []) := by
  have hreact := react_of_decode hx ht now hd nofun
  exact ⟨_, step_of_silent hreact k⟩

theorem step_routeAdvertise (hx : c.link.session? = some x) (ht : c.link.lastLogin? = some t)
    (now : Time) {routes : List Route} (hd : c.codec.decode bytes = .ok (.routeAdvertise routes))
    (k : Conditions) :
    ∃ counters jobs, engine.step k now (.datagram bytes c.server) c =
      ({ c with
          counters := counters
          jobs := jobs
          link := .established (x.touch now bytes.length) t c.assigned?
          routes := c.routes.insertAll routes }, []) := by
  have hreact := react_of_decode hx ht now hd nofun
  rw [accept, foldl_learnRoute] at hreact
  exact ⟨_, _, step_of_silent hreact k⟩

theorem step_disconnect (now : Time) (hd : c.codec.decode bytes = .ok .disconnect)
    (k : Conditions) :
    ∃ counters, engine.step k now (.datagram bytes c.server) c =
      ({ c with counters := counters, link := .disconnected }, []) := by
  obtain ⟨counters, hreact⟩ := react_farewell now hd
  exact ⟨counters, step_of_silent hreact k⟩

end Client

end PacketTunnel
