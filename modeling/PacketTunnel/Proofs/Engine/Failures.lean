import PacketTunnel.Proofs.Engine.Calls
import PacketTunnel.Proofs.Client.Hearing
import PacketTunnel.Proofs.Server.Step
import PacketTunnel.Proofs.Session.WithoutSent

/-!
# Failures of the socket and of the device

A datagram that cannot be sent and a packet that cannot be written are not counted, and have no
other effect. No engine reads what it is credited for, so that two runs of the same calls, one of
them without failures, go through the same states but for these counts, and the one with failures
emits what the other does except for its own failures.
-/
namespace PacketTunnel

open Engine (Call Output)

/-- The same surroundings with a socket and a device that work. -/
def Conditions.unfailing (c : Conditions) : Conditions := ⟨c.vector, fun _ => true, fun _ => true⟩

def Conditions.allows (c : Conditions) (position : Nat) : Emission → Bool
  | .datagram .. => c.sends position
  | .packet _ => c.writes position

namespace Action

theorem perform?_eq_filter (codec : Codec) (c : Conditions) (position : Nat) (action : Action) :
    action.perform? codec c position = (action.perform? codec c.unfailing position).filter
      (c.allows position) := by
  cases action with
  | send m e =>
    simp only [perform?, Conditions.unfailing, if_true]
    cases codec.encode (c.vector position) m with
    | error fault => rfl
    | ok bytes => rw [Option.filter_some, Conditions.allows]
  | deliver packet =>
    simp only [perform?, Conditions.unfailing, if_true]
    rw [Option.filter_some, Conditions.allows]

/-- What would be done without failures, each with whether it is done. -/
def attempts (codec : Codec) (c : Conditions) (actions : List Action) : List (Emission × Bool) :=
  actions.zipIdx.filterMap fun p =>
    (p.1.perform? codec c.unfailing p.2).map fun emission => (emission, c.allows p.2 emission)

theorem map_fst_attempts (codec : Codec) (c : Conditions) (actions : List Action) :
    (attempts codec c actions).map Prod.fst = performAll codec c.unfailing actions := by
  rw [attempts, List.map_filterMap, performAll]
  congr 1
  funext p
  rw [Option.map_map]
  exact Option.map_id'

theorem filter_attempts (codec : Codec) (c : Conditions) (actions : List Action) :
    ((attempts codec c actions).filter Prod.snd).map Prod.fst = performAll codec c actions := by
  rw [attempts, List.filter_filterMap, List.map_filterMap, performAll]
  congr 1
  funext p
  dsimp only
  rw [perform?_eq_filter codec c]
  cases p.1.perform? codec c.unfailing p.2 with
  | none => rfl
  | some emission =>
    cases hallows : c.allows p.2 emission <;> simp [Option.filter, hallows]

end Action

namespace Engine

variable {σ : Type}

def Call.unfailing : Call → Call
  | .moment m => .moment { m with conditions := m.conditions.unfailing }
  | .takeJobs => .takeJobs

/-- What comes out of a call without failures, each with whether it does in spite of them. Jobs do
not fail. -/
def attempt (E : Engine σ) (s : σ) : Call → List (Output × Bool)
  | .moment m =>
    (Action.attempts (E.codec s) m.conditions (E.react s m.now m.event).2).map
      (Prod.map .emission id)
  | .takeJobs => (E.takeJobs s).1.map fun j => (.job j, true)

def attempts (E : Engine σ) (s : σ) : List Call → List (Output × Bool)
  | [] => []
  | k :: rest => E.attempt s k ++ E.attempts (E.answer s k.unfailing).1 rest

/-- A cover hides all that an engine is credited with and nothing that the engine reads. -/
structure HidesCredit (E : Engine σ) (cover : σ → σ) : Prop where
  codec : ∀ s, E.codec (cover s) = E.codec s
  react : ∀ s now event,
    E.react (cover s) now event = (cover (E.react s now event).1, (E.react s now event).2)
  credit : ∀ s emission, cover (E.credit s emission) = cover s
  takeJobs : ∀ s, E.takeJobs (cover s) = ((E.takeJobs s).1, cover (E.takeJobs s).2)

variable {E : Engine σ} {cover : σ → σ} {s s' : σ}

theorem map_fst_attempt (s : σ) (k : Call) :
    (E.attempt s k).map Prod.fst = (E.answer s k.unfailing).2 := by
  cases k with
  | takeJobs =>
    rw [attempt, List.map_map]
    rfl
  | moment m =>
    have hemissions := Action.map_fst_attempts (E.codec s) m.conditions (E.react s m.now m.event).2
    change _ =
      (Action.performAll (E.codec s) m.conditions.unfailing (E.react s m.now m.event).2).map
      Output.emission
    rw [attempt, ← hemissions, List.map_map, List.map_map]
    rfl

theorem filter_attempt (s : σ) (k : Call) :
    ((E.attempt s k).filter Prod.snd).map Prod.fst = (E.answer s k).2 := by
  cases k with
  | takeJobs =>
    rw [attempt, List.filter_map, List.filter_eq_self.mpr (by simp), List.map_map]
    rfl
  | moment m =>
    have hemissions := Action.filter_attempts (E.codec s) m.conditions (E.react s m.now m.event).2
    change _ = (Action.performAll (E.codec s) m.conditions (E.react s m.now m.event).2).map
      Output.emission
    rw [attempt, ← hemissions, List.filter_map, List.map_map, List.map_map]
    rfl

theorem map_fst_attempts (s : σ) (calls : List Call) :
    (E.attempts s calls).map Prod.fst = (E.serve s (calls.map Call.unfailing)).2 := by
  induction calls generalizing s with
  | nil => rfl
  | cons k rest ih => rw [attempts, List.map_append, map_fst_attempt, ih, List.map_cons, serve]

namespace HidesCredit

variable (h : E.HidesCredit cover)
include h

theorem credits (s : σ) (emissions : List Emission) :
    cover (emissions.foldl E.credit s) = cover s := by
  induction emissions generalizing s with
  | nil => rfl
  | cons emission rest ih => rw [List.foldl_cons, ih, h.credit]

/-- What is left uncovered by a call depends on what was left uncovered before, and not on failures.
-/
theorem cover_answer (hs : cover s = cover s') (k : Call) :
    cover (E.answer s k).1 = cover (E.answer s' k.unfailing).1 := by
  cases k with
  | takeJobs =>
    have hjobs := congrArg Prod.snd (h.takeJobs s)
    have hjobs' := congrArg Prod.snd (h.takeJobs s')
    rw [hs] at hjobs
    exact hjobs.symm.trans hjobs'
  | moment m =>
    have hreact := congrArg Prod.fst (h.react s m.now m.event)
    have hreact' := congrArg Prod.fst (h.react s' m.now m.event)
    rw [hs] at hreact
    calc cover (E.step m.conditions m.now m.event s).1
        = cover (E.react s m.now m.event).1 := h.credits _ _
      _ = cover (E.react s' m.now m.event).1 := hreact.symm.trans hreact'
      _ = cover (E.step m.conditions.unfailing m.now m.event s').1 := (h.credits _ _).symm

theorem attempt_congr (hs : cover s = cover s') (k : Call) : E.attempt s k = E.attempt s' k := by
  cases k with
  | takeJobs =>
    have hjobs := congrArg Prod.fst (h.takeJobs s)
    have hjobs' := congrArg Prod.fst (h.takeJobs s')
    rw [hs] at hjobs
    rw [attempt, attempt, hjobs.symm.trans hjobs']
  | moment m =>
    have hactions := congrArg Prod.snd (h.react s m.now m.event)
    have hactions' := congrArg Prod.snd (h.react s' m.now m.event)
    rw [hs] at hactions
    have hcodec : E.codec s = E.codec s' := by rw [← h.codec s, hs, h.codec]
    rw [attempt, attempt, hactions.symm.trans hactions', hcodec]

theorem serve (hs : cover s = cover s') (calls : List Call) :
    cover (E.serve s calls).1 = cover (E.serve s' (calls.map Call.unfailing)).1 ∧
      (E.serve s calls).2 = ((E.attempts s' calls).filter Prod.snd).map Prod.fst := by
  -- Under the cover the two runs never part, so that each call wants the same in both.
  induction calls generalizing s s' with
  | nil => exact ⟨hs, rfl⟩
  | cons k rest ih =>
    obtain ⟨hend, hlater⟩ := ih (h.cover_answer hs k)
    refine ⟨hend, ?_⟩
    rw [Engine.serve, attempts, List.filter_append, List.map_append, ← h.attempt_congr hs,
      filter_attempt, hlater]

end HidesCredit

theorem jobs_unfailing (s : σ) (k : Call) :
    (E.answer s k).2.filterMap Output.job? = (E.answer s k.unfailing).2.filterMap Output.job? := by
  cases k with
  | takeJobs => rfl
  | moment m =>
    rw [answer, Call.unfailing, answer, Output.filterMap_job?_map_emission,
      Output.filterMap_job?_map_emission]

theorem jobs_attempts (s : σ) (calls : List Call) :
    (((E.attempts s calls).filter Prod.snd).map Prod.fst).filterMap Output.job? =
      ((E.attempts s calls).map Prod.fst).filterMap Output.job? := by
  induction calls generalizing s with
  | nil => rfl
  | cons k rest ih =>
    rw [attempts, List.filter_append, List.map_append, List.filterMap_append, filter_attempt, ih,
      List.map_append, List.filterMap_append, map_fst_attempt, jobs_unfailing]

/-- A run and the run of the same calls without failures. The states at the end differ under the
cover at most, the same jobs are given out, and what is emitted is, in order, what the second run
emits and does not fail in the first. -/
structure Unharmed (E : Engine σ) (cover : σ → σ) (s : σ) (calls : List Call) : Prop where
  state : cover (E.serve s calls).1 = cover (E.serve s (calls.map Call.unfailing)).1
  jobs : (E.serve s calls).2.filterMap Output.job? =
    (E.serve s (calls.map Call.unfailing)).2.filterMap Output.job?
  attempted : (E.serve s (calls.map Call.unfailing)).2 = (E.attempts s calls).map Prod.fst
  succeeded : (E.serve s calls).2 = ((E.attempts s calls).filter Prod.snd).map Prod.fst

theorem HidesCredit.unharmed (h : E.HidesCredit cover) (s : σ) (calls : List Call) :
    E.Unharmed cover s calls := by
  obtain ⟨hstate, hsucceeded⟩ := h.serve (rfl : cover s = cover s) calls
  have hattempted := (map_fst_attempts (E := E) s calls).symm
  refine ⟨hstate, ?_, hattempted, hsucceeded⟩
  rw [hsucceeded, hattempted]
  exact jobs_attempts s calls

end Engine

namespace Server

def withoutSent (s : Server) : Server :=
  { s.count fun n => { n with datagramsOut := 0, deviceWrites := 0 } with
    sessions := s.sessions.withoutSent }

variable (s : Server)

theorem assign_withoutSent (requested : VirtualAddresses) (e : Endpoint) :
    s.withoutSent.assign requested e = s.assign requested e := by
  have hheld : (s.withoutSent.sessions.find? e).bind (fun x => x.addresses.ipv4) =
      (s.sessions.find? e).bind fun x => x.addresses.ipv4 := by
    rw [withoutSent, SessionTable.find?_withoutSent]
    cases s.sessions.find? e <;> rfl
  rw [assign, assignIPv4, hheld]
  rfl

theorem login_withoutSent (now : Time) (e : Endpoint) (requested : VirtualAddresses) (size : Nat) :
    s.withoutSent.login now e requested size =
      ((s.login now e requested size).1.withoutSent, (s.login now e requested size).2) := by
  have hsessions : s.withoutSent.sessions = s.sessions.withoutSent := rfl
  rw [login, login, assign_withoutSent, hsessions]
  dsimp only
  split
  · rw [SessionTable.remove_withoutSent]
    rfl
  · have htouch (t : SessionTable) := t.modify_withoutSent e (f := fun x => x.touch now size)
      fun _ => rfl
    have hown (t : SessionTable) := t.modify_withoutSent e
      (f := fun x => { x with ownedRoutes := s.withoutSent.ownedBy (s.assign requested e) })
      fun _ => rfl
    rw [SessionTable.reclaim_withoutSent, SessionTable.ensure_withoutSent, htouch,
      SessionTable.setAddresses_withoutSent, hown]
    rfl

theorem implicitLogin?_withoutSent (now : Time) (e : Endpoint) (packet : Bytes) :
    s.withoutSent.implicitLogin? now e packet =
      (s.implicitLogin? now e packet).map SessionTable.withoutSent := by
  have hsessions : s.withoutSent.sessions = s.sessions.withoutSent := rfl
  have hoptions : s.withoutSent.options = s.options := rfl
  rw [implicitLogin?, implicitLogin?, hoptions, hsessions, Option.map_bind]
  congr 1
  funext source
  dsimp only [Function.comp]
  rw [SessionTable.reclaim_withoutSent, SessionTable.ensure_withoutSent,
    SessionTable.setAddresses_withoutSent]
  split <;> rfl

theorem forward_withoutSent (e : Endpoint) (packet : Bytes) :
    s.withoutSent.forward e packet =
      ((s.forward e packet).1.withoutSent, (s.forward e packet).2) := by
  have htarget : s.withoutSent.target? = s.target? := rfl
  have hoptions : s.withoutSent.options = s.options := rfl
  rw [forward, forward, htarget, hoptions]
  split <;> rfl

theorem modifySession_withoutSent (e : Endpoint) {f : Session → Session}
    (hf : ∀ x, (f x).withoutSent = f x.withoutSent) :
    s.withoutSent.modifySession e f = (s.modifySession e f).withoutSent :=
  congrArg (fun t => { s.withoutSent with sessions := t })
    (SessionTable.modify_withoutSent s.sessions e hf)

theorem acceptData_withoutSent (now : Time) (e : Endpoint) (packet : Bytes) (size : Nat) :
    s.withoutSent.acceptData now e packet size =
      ((s.acceptData now e packet size).1.withoutSent, (s.acceptData now e packet size).2) := by
  have htable : (if s.withoutSent.sessions.contains e then some s.withoutSent.sessions
      else s.withoutSent.implicitLogin? now e packet) =
      (if s.sessions.contains e then some s.sessions else s.implicitLogin? now e packet).map
        SessionTable.withoutSent := by
    have hsessions : s.withoutSent.sessions = s.sessions.withoutSent := rfl
    rw [hsessions, SessionTable.contains_withoutSent, implicitLogin?_withoutSent]
    split <;> rfl
  rw [acceptData, acceptData, htable]
  cases (if s.sessions.contains e then some s.sessions else s.implicitLogin? now e packet) with
  | none => rfl
  | some table =>
    have hmodify :=
      modifySession_withoutSent { s with sessions := table } e (f := fun x => x.touch now size)
        fun _ => rfl
    exact (congrArg (fun u => u.forward e packet) hmodify).trans (forward_withoutSent _ e packet)

theorem accept_withoutSent (now : Time) (e : Endpoint) (size : Nat) (m : Message) :
    s.withoutSent.accept now e size m =
      ((s.accept now e size m).1.withoutSent, (s.accept now e size m).2) := by
  have hsessions : s.withoutSent.sessions = s.sessions.withoutSent := rfl
  cases m with
  | clientLogin requested => exact login_withoutSent s now e requested size
  | data packet => exact acceptData_withoutSent s now e packet size
  | echoRequest echo =>
    rw [accept, accept, hsessions, SessionTable.contains_withoutSent]
    split
    · rw [modifySession_withoutSent s e (f := fun x => x.touch now size) fun _ => rfl]
    · rfl
  | echoAck echo =>
    have hacknowledge (x : Session) : ((x.touch now size).acknowledge echo).withoutSent =
        (x.withoutSent.touch now size).acknowledge echo := by
      rw [Session.acknowledge, Session.acknowledge]
      exact apply_ite Session.withoutSent _ _ _
    rw [accept, accept, modifySession_withoutSent s e hacknowledge]
  | routeAdvertise routes =>
    rw [accept, accept, modifySession_withoutSent s e (f := fun x => x.touch now size) fun _ => rfl]
  | disconnect =>
    rw [accept, accept, hsessions, SessionTable.remove_withoutSent]
    rfl

theorem react_withoutSent (now : Time) (event : Event) :
    s.withoutSent.react now event = ((s.react now event).1.withoutSent, (s.react now event).2) := by
  have hsessions : s.withoutSent.sessions = s.sessions.withoutSent := rfl
  cases event with
  | packet bytes =>
    have htarget : s.withoutSent.target? = s.target? := rfl
    rw [react, react, dispatch, dispatch, htarget]
    split <;> rfl
  | datagram bytes sender =>
    have hcodec : s.withoutSent.codec = s.codec := rfl
    rw [react, react, receive, receive, hcodec]
    split
    · rfl
    · rfl
    · exact accept_withoutSent s.heard now sender bytes.length _
  | outcome outcome => rfl
  | tick calendar =>
    rw [react, react, hsessions]
    exact congrArg (fun t => ({ s.withoutSent with sessions := t }, []))
      (SessionTable.expire_withoutSent _ _ _)
  | shutdown =>
    rw [react, react, shutdown, shutdown, hsessions, SessionTable.endpoints_withoutSent,
      SessionTable.removeEach_withoutSent]
    rfl

theorem credit_withoutSent (emission : Emission) :
    (s.credit emission).withoutSent = s.withoutSent := by
  cases emission with
  | packet bytes => rfl
  | datagram m bytes e =>
    exact congrArg (fun t => { s.withoutSent with sessions := t })
      (SessionTable.withoutSent_modify s.sessions e (f := fun x => x.recordSent bytes.length)
        fun _ => rfl)

theorem engine_hidesCredit : engine.HidesCredit withoutSent where
  codec _ := rfl
  react := react_withoutSent
  credit := credit_withoutSent
  takeJobs _ := rfl

end Server

def Link.withoutSent (link : Link) : Link := link.recount fun _ => .zero

theorem Link.modifySession_withoutSent (link : Link) {f : Session → Session}
    (hf : ∀ x, (f x).withoutSent = f x.withoutSent) :
    link.withoutSent.modifySession f = (link.modifySession f).withoutSent := by
  cases link with
  | disconnected => rfl
  | loginSent x t => exact congrArg (Link.loginSent · t) (hf x).symm
  | established x t assigned => exact congrArg (Link.established · t assigned) (hf x).symm

namespace Client

def withoutSent (c : Client) : Client :=
  { c.count fun n => { n with datagramsOut := 0, deviceWrites := 0 } with
    link := c.link.withoutSent }

variable (c : Client)

theorem isSome_session?_withoutSent : c.withoutSent.session?.isSome = c.session?.isSome := by
  rw [session?, session?, withoutSent]
  cases c.link <;> rfl

theorem accept_withoutSent (m : Message) :
    c.withoutSent.accept m = ((c.accept m).1.withoutSent, (c.accept m).2) := by
  cases m with
  | routeAdvertise routes =>
    rw [accept, accept, foldl_learnRoute, foldl_learnRoute]
    rfl
  | data packet => rfl
  | echoRequest echo => rfl
  | echoAck echo =>
    have hlink := c.link.modifySession_withoutSent (f := fun x => x.acknowledge echo) fun x => by
      rw [Session.acknowledge, Session.acknowledge]
      exact apply_ite Session.withoutSent _ _ _
    exact congrArg (fun link => ({ c.withoutSent with link := link }, [])) hlink
  | clientLogin addresses =>
    have hlink : c.link.withoutSent.confirm addresses = (c.link.confirm addresses).withoutSent := by
      cases c.link <;> rfl
    exact congrArg (fun link => ({ c.withoutSent with link := link }, [])) hlink
  | disconnect => rfl

theorem acceptOnLink_of_linked {c : Client} (h : c.link ≠ .disconnected) (now : Time) (size : Nat)
    (m : Message) :
    c.acceptOnLink now size m =
      { c with
        link := if m = Message.disconnect then c.link.modifySession fun x => x.touch now size
          else (c.link.modifySession fun x => x.touch now size).answered }.accept m := by
  rw [acceptOnLink]
  split
  · contradiction
  · rfl

theorem acceptOnLink_withoutSent (now : Time) (size : Nat) (m : Message) :
    c.withoutSent.acceptOnLink now size m =
      ((c.acceptOnLink now size m).1.withoutSent, (c.acceptOnLink now size m).2) := by
  have htouch := c.link.modifySession_withoutSent (f := fun x => x.touch now size) fun _ => rfl
  have hanswered (link : Link) : link.withoutSent.answered = link.answered.withoutSent := by
    cases link <;> rfl
  have hlink : c.withoutSent.link = c.link.withoutSent := rfl
  by_cases h : c.link = .disconnected
  · rw [acceptOnLink, acceptOnLink, hlink, h]
    rfl
  · have h' : c.withoutSent.link ≠ .disconnected := by
      rw [hlink]
      revert h
      cases c.link <;> simp [Link.withoutSent, Link.recount, Link.modifySession]
    rw [acceptOnLink_of_linked h, acceptOnLink_of_linked h', hlink, htouch, hanswered,
      ← accept_withoutSent, ← apply_ite Link.withoutSent]
    rfl

theorem tick_withoutSent (now : Time) (calendar : UInt64) :
    c.withoutSent.tick now calendar =
      ((c.tick now calendar).1.withoutSent, (c.tick now calendar).2) := by
  have hoptions : c.withoutSent.options = c.options := rfl
  have hlink : c.withoutSent.link = c.link.withoutSent := rfl
  rw [tick, tick, hlink, hoptions]
  cases c.link with
  | disconnected => rfl
  | loginSent x t =>
    have hidle : (x.recount fun _ => .zero).idle now = x.idle now := rfl
    dsimp only [Link.withoutSent, Link.recount, Link.modifySession]
    rw [hidle]
    split
    · rfl
    · split <;> rfl
  | established x t assigned =>
    have hidle : (x.recount fun _ => .zero).idle now = x.idle now := rfl
    have hdue : (x.recount fun _ => .zero).keepaliveDue now c.options.keepalive =
        x.keepaliveDue now c.options.keepalive := rfl
    dsimp only [Link.withoutSent, Link.recount, Link.modifySession]
    rw [hidle, hdue]
    split
    · rfl
    · split <;> rfl

theorem react_withoutSent (now : Time) (event : Event) :
    c.withoutSent.react now event = ((c.react now event).1.withoutSent, (c.react now event).2) := by
  have hserver : c.withoutSent.server = c.server := rfl
  have hcodec : c.withoutSent.codec = c.codec := rfl
  cases event with
  | packet bytes =>
    rw [react, react, dispatch, dispatch, isSome_session?_withoutSent]
    split <;> rfl
  | datagram bytes sender =>
    rw [react, react, receive, receive, hserver, hcodec]
    split
    · rfl
    · split
      · rfl
      · rfl
      · exact acceptOnLink_withoutSent
          (c.count fun n => { n with datagramsIn := n.datagramsIn + 1 }) now bytes.length _
  | outcome outcome =>
    cases outcome with
    | resolved endpoint =>
      have hlink := c.link.modifySession_withoutSent (f := fun x => { x with endpoint := endpoint })
        fun _ => rfl
      rw [react, react, acceptOutcome, acceptOutcome, hserver]
      split
      · rfl
      · exact congrArg (fun link => ({ c.withoutSent with server := endpoint, link := link }, []))
          hlink
    | routeInstalled r => rfl
    | failed reason => rfl
  | tick calendar => exact tick_withoutSent c now calendar
  | shutdown =>
    rw [react, react, shutdown, shutdown, isSome_session?_withoutSent]
    split <;> rfl

theorem credit_withoutSent (emission : Emission) :
    (c.credit emission).withoutSent = c.withoutSent := by
  cases emission with
  | packet bytes => rfl
  | datagram m bytes e =>
    obtain ⟨codec, options, server, link, routes, jobs, counters, started⟩ := c
    cases link <;> rfl

theorem engine_hidesCredit : engine.HidesCredit withoutSent where
  codec _ := rfl
  react := react_withoutSent
  credit := credit_withoutSent
  takeJobs _ := rfl

end Client

/-- Sends and writes that fail, in any pattern, change nothing of a run of a server or of a client
but the counts of what was sent and written. -/
theorem failures_harmless :
    (∀ (s : Server) (calls : List Call), Server.engine.Unharmed Server.withoutSent s calls) ∧
      ∀ (c : Client) (calls : List Call), Client.engine.Unharmed Client.withoutSent c calls :=
  ⟨Server.engine_hidesCredit.unharmed, Client.engine_hidesCredit.unharmed⟩

end PacketTunnel
