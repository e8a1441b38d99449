import PacketTunnel.Proofs.Client.Change

/-!
# What a client does with packets

A client sends a packet from its device to its server, and writes a packet from its server to its
device. Whatever else it does, it sends its server nothing but notices, messages that carry no
packet.
-/
namespace PacketTunnel.Client

/-- All that a client may want done on an event. -/
inductive Conduct (c : Client) : Event → List Action → Prop
  | notices {event : Event} {actions : List Action}
      (h : ∀ action ∈ actions, ∃ m, action = .send m c.server ∧ m.kind ≠ .data) :
      Conduct c event actions
  | sends (packet : Bytes) : Conduct c (.packet packet) [.send (.data packet) c.server]
  | writes {bytes packet : Bytes} (hd : c.codec.decode bytes = .ok (.data packet)) :
      Conduct c (.datagram bytes c.server) [.deliver packet]

variable {c : Client}

theorem Conduct.silent (event : Event) : Conduct c event [] := .notices fun _ h => by cases h

theorem Conduct.notice (event : Event) {m : Message} (hm : m.kind ≠ .data) :
    Conduct c event [.send m c.server] :=
  .notices fun _ h => ⟨m, List.mem_singleton.mp h, hm⟩

theorem conduct_datagram (now : Time) (bytes : Bytes) (sender : Endpoint) :
    Conduct c (.datagram bytes sender) (c.react now (.datagram bytes sender)).2 := by
  have hreceives := receives c now bytes sender
  generalize c.react now (.datagram bytes sender) = reaction at hreceives
  cases hreceives with
  | ignored counters h => exact .silent _
  | farewell counters hlink hm => exact .silent _
  | @accepted m x t hm hopen hx ht =>
    cases m with
    | data packet =>
      obtain ⟨_, hevent, hd⟩ := heard?_eq_some_iff.mp hm
      cases hevent
      exact .writes hd
    | echoRequest echo => exact .notice _ (by simp [Message.kind])
    | echoAck echo => exact .silent _
    | clientLogin addresses => exact .silent _
    | routeAdvertise routes => exact .silent _
    | disconnect => exact absurd rfl hopen

theorem conduct_tick (now : Time) (calendar : UInt64) :
    Conduct c (.tick calendar) (c.react now (.tick calendar)).2 := by
  have hticks := ticks c now calendar
  generalize c.react now (.tick calendar) = reaction at hticks
  cases hticks with
  | loggedIn hlink => exact .notice _ (by simp [Message.kind])
  | askedAgain hlink hidle hdue => exact .notice _ (by simp [Message.kind])
  | probed hlink hidle hdue => exact .notice _ (by simp [Message.kind])
  | timedOut hx hidle => exact .silent _
  | waited h => exact .silent _

theorem conduct (c : Client) (now : Time) (event : Event) :
    Conduct c event (c.react now event).2 := by
  cases event with
  | packet bytes =>
    rw [react, dispatch]
    split
    · exact .sends bytes
    · exact .silent _
  | datagram bytes sender => exact conduct_datagram now bytes sender
  | outcome outcome => exact .silent _
  | tick calendar => exact conduct_tick now calendar
  | shutdown =>
    rw [react, shutdown]
    split
    · exact .notice _ (by simp [Message.kind])
    · exact .silent _

end PacketTunnel.Client
