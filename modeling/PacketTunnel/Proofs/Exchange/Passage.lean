import PacketTunnel.Proofs.Client.Packets
import PacketTunnel.Proofs.Exchange.Run
import PacketTunnel.Proofs.Server.Packets

/-!
# Packets at the devices

The log of a run tells which packets the devices handed out and which packets were written to them.
An account of a log names for each packet that was written the handing out that it comes from: an
earlier one, of the same bytes, at a device from which packets may pass to the other. What one
engine wants done on an event brings at most one packet on its way, the one that the event brought
along.
-/
namespace PacketTunnel

/-- A packet that goes through a device, at a position of the log. -/
structure Passage where
  position : Nat
  station : Station
  packet : Bytes
deriving DecidableEq, Repr

namespace Occurrence

def handed? (o : Occurrence) : Option Bytes :=
  match o.event with
  | .packet bytes => some bytes
  | _ => none

def written (o : Occurrence) : List Bytes := o.emissions.filterMap Exchange.packet?

end Occurrence

namespace Passage

def handings (log : List Occurrence) : List Passage :=
  log.zipIdx.filterMap fun (o, n) => o.handed?.map (⟨n, o.station, ·⟩)

def writings (log : List Occurrence) : List Passage :=
  log.zipIdx.flatMap fun (o, n) => o.written.map (⟨n, o.station, ·⟩)

@[simp] theorem handings_concat (log : List Occurrence) (o : Occurrence) :
    handings (log ++ [o]) = handings log ++
      (o.handed?.map (⟨log.length, o.station, ·⟩)).toList := by
  cases h : o.handed? <;> simp [handings, List.zipIdx_append, h]

@[simp] theorem writings_concat (log : List Occurrence) (o : Occurrence) :
    writings (log ++ [o]) = writings log ++ o.written.map (⟨log.length, o.station, ·⟩) := by
  simp [writings, List.zipIdx_append]

theorem position_lt_of_mem_handings {log : List Occurrence} {p : Passage} (h : p ∈ handings log) :
    p.position < log.length := by
  obtain ⟨⟨o, n⟩, hmem, hp⟩ := List.mem_filterMap.mp h
  obtain ⟨packet, -, rfl⟩ := Option.map_eq_some_iff.mp hp
  have hn := List.mem_zipIdx hmem
  simpa using hn.2.1

end Passage

namespace Exchange

def endpoints (x : Exchange) : List Endpoint := x.clients.map Prod.fst

/-- From which device to which other one a packet may pass: between a client and the server either
way, and from a client to another one if the server relays. -/
inductive MayPass (x : Exchange) : Station → Station → Prop
  | up {i : Nat} (hi : i < x.clients.length) : MayPass x (.client i) .server
  | down {j : Nat} : MayPass x .server (.client j)
  | across {i j : Nat} (hi : i < x.clients.length) (hrelay : x.server.options.relay = true)
      (hij : i ≠ j) : MayPass x (.client i) (.client j)

/-- A packet that was written comes from one that was handed out. -/
structure Accounts (x : Exchange) (source written : Passage) : Prop where
  earlier : source.position < written.position
  same : source.packet = written.packet
  nonempty : written.packet ≠ []
  permitted : x.MayPass source.station written.station

theorem stationAt?_congr {x x' : Exchange} (hserver : x'.serverEndpoint = x.serverEndpoint)
    (hclients : x'.endpoints = x.endpoints) (e : Endpoint) : x'.stationAt? e = x.stationAt? e := by
  have hfind (y : Exchange) : (y.clients.findIdx? fun c => c.1 = e) =
      y.endpoints.findIdx? (· = e) := by
    rw [endpoints, List.findIdx?_map]
    rfl
  rw [stationAt?, stationAt?, hserver, hfind, hfind, hclients]

theorem eq_of_stationAt?_server {x : Exchange} {e : Endpoint} (h : x.stationAt? e = some .server) :
    e = x.serverEndpoint := by
  rw [stationAt?] at h
  split at h
  · assumption
  · obtain ⟨i, -, hi⟩ := Option.map_eq_some_iff.mp h
    cases hi

theorem exists_of_stationAt?_client {x : Exchange} {e : Endpoint} {i : Nat}
    (h : x.stationAt? e = some (.client i)) : ∃ c, x.clients[i]? = some (e, c) := by
  rw [stationAt?] at h
  split at h
  · cases h
  · obtain ⟨j, hj, hi⟩ := Option.map_eq_some_iff.mp h
    cases hi
    obtain ⟨hlt, he, -⟩ := List.findIdx?_eq_some_iff_getElem.mp hj
    have hpair : x.clients[i]? = some x.clients[i] := List.getElem?_eq_getElem hlt
    refine ⟨x.clients[i].2, ?_⟩
    rw [hpair, ← of_decide_eq_true he]

theorem mem_endpoints_of_getElem? {x : Exchange} {i : Nat} {e : Endpoint} {c : Client}
    (h : x.clients[i]? = some (e, c)) : e ∈ x.endpoints :=
  List.mem_map.mpr ⟨_, List.mem_of_getElem? h, rfl⟩

/-- The letter goes from the server to somebody else, or from a client to nobody but the server. -/
def Proper (x : Exchange) (l : Letter) : Prop :=
  l.sender = x.serverEndpoint ∧ l.recipient ≠ x.serverEndpoint ∨ l.sender ∈ x.endpoints ∧
    l.recipient ∉ x.endpoints

inductive Leads (x : Exchange) : Station → Letter → Prop
  | up {l : Letter} {i : Nat} {c : Client} (hi : x.clients[i]? = some (l.sender, c)) : Leads x
      (.client i) l
  | down {l : Letter} (hl : l.sender = x.serverEndpoint) : Leads x .server l
  | across {l : Letter} {i : Nat} {e : Endpoint} {c : Client} (hl : l.sender = x.serverEndpoint)
      (hi : x.clients[i]? = some (e, c)) (hrelay : x.server.options.relay = true)
      (hne : l.recipient ≠ e) :
      Leads x (.client i) l

/-- The letter is proper, and if it carries a packet then the one that was handed out at the given
place. -/
structure Marked (x : Exchange) (l : Letter) (source : Option Passage) : Prop where
  proper : x.Proper l
  content : ∀ packet, x.server.codec.decode l.bytes = .ok (.data packet) →
    ∃ p, source = some p ∧ p.packet = packet ∧ x.Leads p.station l

variable {x : Exchange} {l : Letter} {station : Station}

theorem Leads.mayPass (h : x.Leads station l) (hl : x.Proper l)
    (hapart : x.serverEndpoint ∉ x.endpoints) {station' : Station}
    (hat : x.stationAt? l.recipient = some station') : x.MayPass station station' := by
  have hlength {i : Nat} {e : Endpoint} {c : Client} (hi : x.clients[i]? = some (e, c)) :
      i < x.clients.length := by
    obtain ⟨hlt, -⟩ := List.getElem?_eq_some_iff.mp hi
    exact hlt
  cases station' with
  | server =>
    have hrecipient := eq_of_stationAt?_server hat
    have hsender : l.sender ∈ x.endpoints := by
      rcases hl with ⟨-, hne⟩ | ⟨hsender, -⟩
      · exact absurd hrecipient hne
      · exact hsender
    cases h with
    | up hi => exact .up (hlength hi)
    | down hserver => exact absurd (hserver ▸ hsender) hapart
    | across hserver hi hrelay hne => exact absurd (hserver ▸ hsender) hapart
  | client j =>
    obtain ⟨d, hj⟩ := exists_of_stationAt?_client hat
    have hserver : l.sender = x.serverEndpoint := by
      rcases hl with ⟨hserver, -⟩ | ⟨-, hnobody⟩
      · exact hserver
      · exact absurd (mem_endpoints_of_getElem? hj) hnobody
    cases h with
    | up hi =>
      rw [hserver] at hi
      exact absurd (mem_endpoints_of_getElem? hi) hapart
    | down _ => exact .down
    | across _ hi hrelay hne =>
      refine .across (hlength hi) hrelay fun hij => hne ?_
      subst hij
      rw [hi] at hj
      cases hj
      rfl

/-- What a station, which sends from the given endpoint, wants done is to send notices, or to bring
on its way the one packet that was handed out at the given place. -/
inductive Outgo (x : Exchange) (log : List Occurrence) (station : Station) (sender : Endpoint) :
    Option Passage → List Action → Prop
  | notices {source : Option Passage} {actions : List Action}
      (h : ∀ action ∈ actions, ∃ m g, action = .send m g ∧ m.kind ≠ .data ∧
        ∀ bytes, x.Proper ⟨sender, g, bytes⟩) : Outgo x log station sender source actions
  | sends {p : Passage} {g : Endpoint}
      (hproper : ∀ bytes, x.Proper ⟨sender, g, bytes⟩ ∧ x.Leads p.station ⟨sender, g, bytes⟩) :
      Outgo x log station sender (some p) [.send (.data p.packet) g]
  | writes {p : Passage} (hearlier : p.position < log.length) (hnonempty : p.packet ≠ [])
      (hpass : x.MayPass p.station station) :
      Outgo x log station sender (some p) [.deliver p.packet]

/-- The handings out that an account and the marks on letters use. -/
def used (account : List (Passage × Passage)) (letters : List (Letter × Option Passage)) :
    List Passage :=
  account.map Prod.fst ++ letters.filterMap Prod.snd

/-- What a station emits on an event is on record: the letters are marked, the packets are accounted
for, and both use nothing but the handing out that the event brings along, and that at most once. -/
structure Recorded (x : Exchange) (log : List Occurrence) (station : Station)
    (source : Option Passage) (sent : List Letter) (packets : List Bytes)
    (letters : List (Letter × Option Passage)) (account : List (Passage × Passage)) : Prop where
  sent : letters.map Prod.fst = sent
  marked : ∀ m ∈ letters, x.Marked m.1 m.2
  written : account.map Prod.snd = packets.map (⟨log.length, station, ·⟩)
  accounts : ∀ a ∈ account, x.Accounts a.1 a.2
  used : (used account letters).Sublist source.toList

theorem recorded_nothing (x : Exchange) (log : List Occurrence) (station : Station)
    (source : Option Passage) :
    x.Recorded log station source [] [] [] [] where
  sent := rfl
  marked _ hm := absurd hm List.not_mem_nil
  written := rfl
  accounts _ ha := absurd ha List.not_mem_nil
  used := List.nil_sublist _

/-- Of notices only datagrams come, none of which carries a packet. -/
theorem exists_notice_of_emission {sender : Endpoint} {actions : List Action}
    (h : ∀ action ∈ actions, ∃ m g, action = .send m g ∧ m.kind ≠ .data ∧
      ∀ bytes, x.Proper ⟨sender, g, bytes⟩) {codec : Codec} {k : Conditions} {emission : Emission}
    (he : emission ∈ Action.performAll codec k actions) :
    ∃ m bytes g iv, emission = .datagram m bytes g ∧ m.kind ≠ .data ∧
      codec.encode iv m = .ok bytes ∧ x.Proper ⟨sender, g, bytes⟩ := by
  cases emission with
  | datagram m bytes g =>
    obtain ⟨hsend, iv, hbytes⟩ := Action.send_of_mem_performAll he
    obtain ⟨m', g', heq, hkind, hproper⟩ := h _ hsend
    cases heq
    exact ⟨m, bytes, g, iv, rfl, hkind, hbytes, hproper bytes⟩
  | packet packet =>
    obtain ⟨m, g, heq, -⟩ := h _ (Action.deliver_of_mem_performAll he)
    cases heq

theorem used_unmarked (letters : List Letter) :
    used [] (letters.map (·, (none : Option Passage))) = [] := by
  rw [used, List.map_nil, List.nil_append, List.filterMap_map, List.filterMap_eq_nil_iff]
  exact fun _ _ => rfl

/-- Notices go on record without a mark. -/
theorem recorded_notices {log : List Occurrence} {sender : Endpoint} {source : Option Passage}
    {actions : List Action} (h : ∀ action ∈ actions, ∃ m g, action = .send m g ∧ m.kind ≠ .data ∧
      ∀ bytes, x.Proper ⟨sender, g, bytes⟩) (k : Conditions) :
    x.Recorded log station source
      ((Action.performAll x.server.codec k actions).filterMap (letter? sender))
      ((Action.performAll x.server.codec k actions).filterMap packet?)
      (((Action.performAll x.server.codec k actions).filterMap (letter? sender)).map (·, none))
      [] where
  sent := by
    rw [List.map_map]
    exact List.map_id _
  marked marked hmarked := by
    obtain ⟨l, hl, rfl⟩ := List.mem_map.mp hmarked
    obtain ⟨emission, he, hletter⟩ := List.mem_filterMap.mp hl
    obtain ⟨m, bytes, g, iv, rfl, hkind, hbytes, hproper⟩ := exists_notice_of_emission h he
    cases hletter
    refine ⟨hproper, fun packet hd => absurd ?_ hkind⟩
    rw [Codec.eq_data_of_decode_encode hbytes hd]
    rfl
  written := by
    have hnone : (Action.performAll x.server.codec k actions).filterMap packet? = [] := by
      rw [List.filterMap_eq_nil_iff]
      intro emission he
      obtain ⟨m, bytes, g, iv, rfl, -⟩ := exists_notice_of_emission h he
      rfl
    rw [hnone]
    rfl
  accounts _ ha := absurd ha List.not_mem_nil
  used := by
    rw [used_unmarked]
    exact List.nil_sublist _

/-- Whatever goes out of a station, what it emits can be put on record. -/
theorem Outgo.emit {log : List Occurrence} {sender : Endpoint} {source : Option Passage}
    {actions : List Action} (h : x.Outgo log station sender source actions) {codec : Codec}
    (hcodec : codec = x.server.codec) (k : Conditions) :
    ∃ letters account, x.Recorded log station source
      ((Action.performAll codec k actions).filterMap (letter? sender))
      ((Action.performAll codec k actions).filterMap packet?) letters account := by
  subst hcodec
  cases h with
  | notices h => exact ⟨_, _, recorded_notices h k⟩
  | @sends p g hproper =>
    rcases Action.performAll_send_cases x.server.codec k (.data p.packet) g with
      hnone | ⟨bytes, iv, hbytes, hone⟩
    · rw [hnone]
      exact ⟨[], [], recorded_nothing ..⟩
    · rw [hone]
      refine ⟨[(⟨sender, g, bytes⟩, some p)], [], rfl, fun m hm => ?_, rfl, by simp,
        List.Sublist.refl _⟩
      cases List.mem_singleton.mp hm
      refine ⟨(hproper bytes).1, fun packet hd => ⟨p, rfl, ?_, (hproper bytes).2⟩⟩
      cases Codec.eq_data_of_decode_encode hbytes hd
      rfl
  | @writes p hearlier hnonempty hpass =>
    rw [Action.performAll_deliver]
    split
    · refine ⟨[], [(p, ⟨log.length, station, p.packet⟩)], rfl, by simp, rfl, fun a ha => ?_,
        List.Sublist.refl _⟩
      cases List.mem_singleton.mp ha
      exact ⟨hearlier, rfl, hnonempty, hpass⟩
    · exact ⟨[], [], recorded_nothing ..⟩

end Exchange

end PacketTunnel
