import PacketTunnel.Proofs.Engine.Calls
import PacketTunnel.Proofs.Server.Ownership
import PacketTunnel.Proofs.Client.Hearing

/-!
# Junk

Datagrams that do not decode, and for a client all those from elsewhere than its server, are counted
as dropped and have no other effect. No engine reads the counts of what it dropped, so that what
happens later does not depend on them either: a run with junk in it goes as it would without.
-/
namespace PacketTunnel

open Engine (Call Output Padded Ignores)

namespace Server

/-- Nothing but a count of what did not decode. -/
def IsJunk (s : Server) : Event → Prop
  | .datagram bytes _ => ∃ r, s.codec.decode bytes = .error r
  | _ => False

/-- A server that has not counted what did not decode. -/
def withoutDrops (s : Server) : Server :=
  s.count fun n => { n with droppedFormat := 0, droppedAuth := 0 }

variable (s : Server)

theorem forward_withoutDrops (e : Endpoint) (packet : Bytes) :
    (s.withoutDrops.forward e packet).1.withoutDrops = (s.forward e packet).1.withoutDrops ∧
      (s.withoutDrops.forward e packet).2 = (s.forward e packet).2 := by
  have htarget : s.withoutDrops.target? = s.target? := rfl
  have hrelay : s.withoutDrops.options.relay = s.options.relay := rfl
  rw [forward, forward, htarget, hrelay]
  split <;> exact ⟨rfl, rfl⟩

theorem accept_withoutDrops (now : Time) (e : Endpoint) (size : Nat) (m : Message) :
    (s.withoutDrops.accept now e size m).1.withoutDrops = (s.accept now e size m).1.withoutDrops ∧
      (s.withoutDrops.accept now e size m).2 = (s.accept now e size m).2 := by
  cases m with
  | clientLogin requested =>
    have hassign : s.withoutDrops.assign requested e = s.assign requested e := rfl
    rw [accept, accept, login, login, hassign]
    dsimp only
    split <;> exact ⟨rfl, rfl⟩
  | data packet =>
    have hsessions : s.withoutDrops.sessions = s.sessions := rfl
    have himplicit : s.withoutDrops.implicitLogin? now e packet = s.implicitLogin? now e packet :=
      rfl
    rw [accept, accept, acceptData, acceptData, hsessions, himplicit]
    split
    · exact ⟨rfl, rfl⟩
    · rename_i table htable
      exact forward_withoutDrops ({ s with sessions := table }.modifySession e
        fun x => x.touch now size) e packet
  | echoRequest echo =>
    have hsessions : s.withoutDrops.sessions = s.sessions := rfl
    rw [accept, accept, hsessions]
    split <;> exact ⟨rfl, rfl⟩
  | echoAck echo => exact ⟨rfl, rfl⟩
  | routeAdvertise routes => exact ⟨rfl, rfl⟩
  | disconnect => exact ⟨rfl, rfl⟩

theorem react_withoutDrops (now : Time) (event : Event) :
    (s.withoutDrops.react now event).1.withoutDrops = (s.react now event).1.withoutDrops ∧
      (s.withoutDrops.react now event).2 = (s.react now event).2 := by
  cases event with
  | packet bytes =>
    have htarget : s.withoutDrops.target? = s.target? := rfl
    rw [react, react, dispatch, dispatch, htarget]
    split <;> exact ⟨rfl, rfl⟩
  | datagram bytes sender =>
    have hcodec : s.withoutDrops.codec = s.codec := rfl
    rw [react, react, receive, receive, hcodec]
    split
    · exact ⟨rfl, rfl⟩
    · exact ⟨rfl, rfl⟩
    · exact accept_withoutDrops s.heard now sender bytes.length _
  | outcome outcome => exact ⟨rfl, rfl⟩
  | tick calendar => exact ⟨rfl, rfl⟩
  | shutdown => exact ⟨rfl, rfl⟩

theorem react_junk {s : Server} (now : Time) {event : Event} (h : s.IsJunk event) :
    (s.react now event).1.withoutDrops = s.withoutDrops ∧ (s.react now event).2 = [] := by
  cases event with
  | datagram bytes sender =>
    obtain ⟨r, hr⟩ := h
    rw [react, receive, hr]
    cases r <;> exact ⟨rfl, rfl⟩
  | packet bytes => exact h.elim
  | outcome outcome => exact h.elim
  | tick calendar => exact h.elim
  | shutdown => exact h.elim

theorem engine_ignores : engine.Ignores withoutDrops IsJunk where
  codec _ := rfl
  react s now event := react_withoutDrops s now event
  credit s emission := by cases emission <;> rfl
  takeJobs _ := ⟨rfl, rfl⟩
  junk _ now _ h := react_junk now h

end Server

namespace Client

def IsJunk (c : Client) : Event → Prop
  | .datagram bytes sender => sender ≠ c.server ∨ ∃ r, c.codec.decode bytes = .error r
  | _ => False

def withoutDrops (c : Client) : Client :=
  c.count fun n => { n with droppedFormat := 0, droppedAuth := 0, droppedUnknown := 0 }

variable (c : Client)

theorem accept_withoutDrops (m : Message) :
    (c.withoutDrops.accept m).1.withoutDrops = (c.accept m).1.withoutDrops ∧
      (c.withoutDrops.accept m).2 = (c.accept m).2 := by
  cases m with
  | routeAdvertise routes =>
    rw [accept, accept, foldl_learnRoute, foldl_learnRoute]
    exact ⟨rfl, rfl⟩
  | data packet => exact ⟨rfl, rfl⟩
  | echoRequest echo => exact ⟨rfl, rfl⟩
  | echoAck echo => exact ⟨rfl, rfl⟩
  | clientLogin addresses => exact ⟨rfl, rfl⟩
  | disconnect => exact ⟨rfl, rfl⟩

theorem acceptOnLink_withoutDrops (now : Time) (size : Nat) (m : Message) :
    (c.withoutDrops.acceptOnLink now size m).1.withoutDrops =
      (c.acceptOnLink now size m).1.withoutDrops ∧
      (c.withoutDrops.acceptOnLink now size m).2 = (c.acceptOnLink now size m).2 := by
  have hlink : c.withoutDrops.link = c.link := rfl
  rw [acceptOnLink, acceptOnLink, hlink]
  split
  · exact ⟨rfl, rfl⟩
  · exact accept_withoutDrops { c with link := _ } m

theorem tick_withoutDrops (now : Time) (calendar : UInt64) :
    (c.withoutDrops.tick now calendar).1.withoutDrops = (c.tick now calendar).1.withoutDrops ∧
      (c.withoutDrops.tick now calendar).2 = (c.tick now calendar).2 := by
  have hlink : c.withoutDrops.link = c.link := rfl
  have hoptions : c.withoutDrops.options = c.options := rfl
  rw [tick, tick, hlink, hoptions]
  cases c.link with
  | disconnected => exact ⟨rfl, rfl⟩
  | loginSent x t =>
    dsimp only
    split
    · exact ⟨rfl, rfl⟩
    · split <;> exact ⟨rfl, rfl⟩
  | established x t assigned =>
    dsimp only
    split
    · exact ⟨rfl, rfl⟩
    · split <;> exact ⟨rfl, rfl⟩

theorem react_withoutDrops (now : Time) (event : Event) :
    (c.withoutDrops.react now event).1.withoutDrops = (c.react now event).1.withoutDrops ∧
      (c.withoutDrops.react now event).2 = (c.react now event).2 := by
  have hsession : c.withoutDrops.session? = c.session? := rfl
  have hserver : c.withoutDrops.server = c.server := rfl
  have hcodec : c.withoutDrops.codec = c.codec := rfl
  cases event with
  | packet bytes =>
    rw [react, react, dispatch, dispatch, hsession]
    split <;> exact ⟨rfl, rfl⟩
  | datagram bytes sender =>
    rw [react, react, receive, receive, hserver, hcodec]
    split
    · exact ⟨rfl, rfl⟩
    · split
      · exact ⟨rfl, rfl⟩
      · exact ⟨rfl, rfl⟩
      · rename_i m hd
        exact acceptOnLink_withoutDrops
          (c.count fun n => { n with datagramsIn := n.datagramsIn + 1 }) now bytes.length m
  | outcome outcome =>
    cases outcome with
    | resolved endpoint =>
      rw [react, react, acceptOutcome, acceptOutcome, hserver]
      split <;> exact ⟨rfl, rfl⟩
    | routeInstalled r => exact ⟨rfl, rfl⟩
    | failed reason => exact ⟨rfl, rfl⟩
  | tick calendar => exact tick_withoutDrops c now calendar
  | shutdown =>
    rw [react, react, shutdown, shutdown, hsession]
    split <;> exact ⟨rfl, rfl⟩

theorem react_junk {c : Client} (now : Time) {event : Event} (h : c.IsJunk event) :
    (c.react now event).1.withoutDrops = c.withoutDrops ∧ (c.react now event).2 = [] := by
  cases event with
  | datagram bytes sender =>
    rw [react, receive]
    split
    · exact ⟨rfl, rfl⟩
    · rename_i hserver
      obtain ⟨r, hr⟩ := h.resolve_left hserver
      rw [hr]
      cases r <;> exact ⟨rfl, rfl⟩
  | packet bytes => exact h.elim
  | outcome outcome => exact h.elim
  | tick calendar => exact h.elim
  | shutdown => exact h.elim

theorem engine_ignores : engine.Ignores withoutDrops IsJunk where
  codec _ := rfl
  react c now event := react_withoutDrops c now event
  credit c emission := by cases emission <;> rfl
  takeJobs _ := ⟨rfl, rfl⟩
  junk _ now _ h := react_junk now h

end Client

/-- Junk put in anywhere, at any time and in any amount, makes no difference to a server or to a
client but for what they count as dropped: they end in the same state, and have emitted the same and
given out the same jobs. -/
theorem junk_ignored :
    (∀ (s : Server) (calls padded : List Call), Padded Server.engine Server.IsJunk s calls padded →
      (Server.engine.serve s padded).1.withoutDrops = (Server.engine.serve s calls).1.withoutDrops ∧
      (Server.engine.serve s padded).2 = (Server.engine.serve s calls).2) ∧
    (∀ (c : Client) (calls padded : List Call), Padded Client.engine Client.IsJunk c calls padded →
      (Client.engine.serve c padded).1.withoutDrops = (Client.engine.serve c calls).1.withoutDrops ∧
      (Client.engine.serve c padded).2 = (Client.engine.serve c calls).2) :=
  ⟨fun _ _ _ h => h.serve Server.engine_ignores rfl,
    fun _ _ _ h => h.serve Client.engine_ignores rfl⟩

def scrap (now : Time) : Call :=
  .moment ⟨now, .datagram [1, 2, 3] (Server.caller 9), Conditions.fair⟩

def arrival : List Call :=
  [.moment (Server.hears 1 (Server.caller 1) (.clientLogin .empty)), .takeJobs]

def departure : List Call :=
  [.moment ⟨0, .tick 0, Conditions.fair⟩, .moment ⟨9, .shutdown, Conditions.fair⟩]

/-- The same calls with scrap in between; the client also hears a farewell that is not its server's.
-/
theorem junk_ignored_scrap :
    ∃ arrival' departure' : List Call,
      Padded Server.engine Server.IsJunk (.start Server.clearCodec .empty Server.poolOptions 0)
      arrival arrival' ∧
      Padded Client.engine Client.IsJunk .newcomer departure departure' ∧
      arrival'.length = 4 ∧ departure'.length = 4 ∧
      (Server.engine.serve (.start Server.clearCodec .empty Server.poolOptions 0)
        arrival').2.length = 1 ∧
      (Client.engine.serve .newcomer departure').2.length = 2 := by
  have harrival :
      Padded Server.engine Server.IsJunk (.start Server.clearCodec .empty Server.poolOptions 0)
      arrival
      (scrap 0 :: .moment (Server.hears 1 (Server.caller 1) (.clientLogin .empty)) :: scrap 2 ::
        [.takeJobs]) :=
    .insert _ ⟨_, rfl⟩ (.keep _ (.insert _ ⟨_, rfl⟩ (.keep _ (.nil _))))
  have hdeparture : Padded Client.engine Client.IsJunk .newcomer departure
      [.moment ⟨0, .tick 0, Conditions.fair⟩,
        .moment (Server.hears 1 (Server.caller 1) .disconnect), scrap 2,
        .moment ⟨9, .shutdown, Conditions.fair⟩] :=
    .keep
      _ (.insert _ (.inl (by decide +kernel))
        (.insert _ (.inl (by decide +kernel)) (.keep _ (.nil _))))
  refine ⟨_, _, harrival, hdeparture, rfl, rfl, ?_, ?_⟩
  · rw [(junk_ignored.1 _ _ _ harrival).2]
    decide +kernel
  · rw [(junk_ignored.2 _ _ _ hdeparture).2]
    decide +kernel

end PacketTunnel
