import PacketTunnel.Exchange

/-!
# Runs of an exchange

A turn of an exchange is an event at a station, the delivery, loss or copying of the letter at some
position of the wire, or the taking of a client's jobs. Deliveries need not respect the order of the
wire. Every turn first handles the wire and then lets at most one event happen; the log of a run
records what each event led to.
-/
namespace PacketTunnel

structure Happening where
  station : Station
  moment : Engine.Moment

/-- What a station emitted on an event. -/
structure Occurrence where
  station : Station
  event : Event
  emissions : List Emission

/-- One turn in the life of an exchange. -/
inductive Turn where
  | happen (h : Happening)
  | deliver (position : Nat) (now : Time) (c : Station → Conditions)
  | lose (position : Nat)
  | copy (position : Nat)
  | takeJobs (index : Nat)

namespace Exchange

def after (x : Exchange) (h : Happening) : Exchange :=
  (x.happen h.moment.conditions h.moment.now h.moment.event h.station).1

/-- The exchange after a turn. A delivery from beyond the end of the wire does nothing. -/
def turn (x : Exchange) : Turn → Exchange
  | .happen h => x.after h
  | .deliver position now c => ((x.deliver c now position).map Prod.fst).getD x
  | .lose position => x.lose position
  | .copy position => x.copy position
  | .takeJobs index => (x.takeJobs index).2

def happening? (x : Exchange) : Turn → Option Happening
  | .happen h => some h
  | .deliver position now c =>
    x.wire[position]?.bind fun letter =>
      (x.stationAt? letter.recipient).map fun station =>
        ⟨station, now, .datagram letter.bytes letter.sender, c station⟩
  | _ => none

/-- The exchange just before the event of a turn. -/
def handle (x : Exchange) : Turn → Exchange
  | .happen _ => x
  | .deliver position _ _ => x.lose position
  | .lose position => x.lose position
  | .copy position => x.copy position
  | .takeJobs index => (x.takeJobs index).2

def emissions (x : Exchange) (h : Happening) : List Emission :=
  match h.station with
  | .server => (Server.engine.step h.moment.conditions h.moment.now h.moment.event x.server).2
  | .client i =>
    match x.clients[i]? with
    | none => []
    | some (_, client) =>
      (Client.engine.step h.moment.conditions h.moment.now h.moment.event client).2

def occurrence? (x : Exchange) (t : Turn) : Option Occurrence :=
  (x.happening? t).map fun h => ⟨h.station, h.moment.event, (x.handle t).emissions h⟩

def run (x : Exchange) : List Turn → Exchange × List Occurrence
  | [] => (x, [])
  | t :: rest =>
    let (x', later) := (x.turn t).run rest
    (x', (x.occurrence? t).toList ++ later)

theorem turn_of_happening {x : Exchange} {t : Turn} {h : Happening} (ht : x.happening? t = some h) :
    x.turn t = (x.handle t).after h := by
  cases t with
  | happen h' =>
    cases ht
    rfl
  | deliver position now c =>
    obtain ⟨letter, hletter, hstation⟩ := Option.bind_eq_some_iff.mp ht
    obtain ⟨station, hat, rfl⟩ := Option.map_eq_some_iff.mp hstation
    simp only [turn, deliver, hletter, Option.map_some, hat, Option.getD_some]
    rfl
  | lose position => cases ht
  | copy position => cases ht
  | takeJobs index => cases ht

theorem turn_of_no_happening {x : Exchange} {t : Turn} (ht : x.happening? t = none) :
    x.turn t = x.handle t := by
  cases t with
  | happen h => cases ht
  | deliver position now c =>
    cases hletter : x.wire[position]? with
    | none =>
      have hsame : x.wire.eraseIdx position = x.wire :=
        List.eraseIdx_of_length_le (List.getElem?_eq_none_iff.mp hletter)
      simp only [turn, deliver, hletter, Option.map_none, Option.getD_none, handle, lose, hsame]
    | some letter =>
      have hat : x.stationAt? letter.recipient = none := by
        rw [happening?, hletter, Option.bind_some, Option.map_eq_none_iff] at ht
        exact ht
      simp only [turn, deliver, hletter, Option.map_some, hat, Option.getD_some, handle, lose]
  | lose position => rfl
  | copy position => rfl
  | takeJobs index => rfl

theorem mem_wire_of_lose {x : Exchange} {position : Nat} {letter : Letter}
    (h : letter ∈ (x.lose position).wire) : letter ∈ x.wire :=
  List.mem_of_mem_eraseIdx h

theorem mem_wire_of_copy {x : Exchange} {position : Nat} {letter : Letter}
    (h : letter ∈ (x.copy position).wire) : letter ∈ x.wire := by
  rcases List.mem_append.mp h with h | h
  · exact h
  · exact List.mem_of_getElem? (Option.mem_toList.mp h)

theorem stationAt?_server (x : Exchange) : x.stationAt? x.serverEndpoint = some .server := by
  rw [stationAt?, if_pos rfl]

theorem run_append (x : Exchange) (ts ts' : List Turn) :
    (x.run (ts ++ ts')).1 = ((x.run ts).1.run ts').1 := by
  induction ts generalizing x with
  | nil => rfl
  | cons t rest ih => exact ih (x.turn t)

end Exchange

end PacketTunnel
