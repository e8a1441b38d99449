import PacketTunnel.Proofs.Client.Change
import PacketTunnel.Proofs.Exchange.Passage

/-!
# Packets from end to end

However the wire loses, copies and reorders letters, every packet that is written to a device was
handed out by another one before, byte for byte. Every letter is marked with the handing out of the
packet in it; on the way through the server the mark goes over to the next letter. The marks in
flight and those of the packets already written stay distinct as long as the wire copies nothing, so
that no packet is written twice.
-/
namespace PacketTunnel

/-- An event that neither invents a datagram nor tells a client that its server is where a client
is. -/
def Event.IsGenuine (clients : List Endpoint) (station : Station) : Event → Prop
  | .datagram _ _ => False
  | .outcome (.resolved endpoint) => station ≠ .server → endpoint ∉ clients
  | _ => True

/-- The wire does what it likes with its letters, but datagrams come from the engines alone. -/
def Turn.IsGenuine (clients : List Endpoint) : Turn → Prop
  | .happen h => h.moment.event.IsGenuine clients h.station
  | _ => True

/-- A server of the same codec and options as another one, without a session for the endpoint where
it is itself. -/
structure Server.Hosts (s₀ : Server) (home : Endpoint) (s : Server) : Prop where
  codec : s.codec = s₀.codec
  options : s.options = s₀.options
  sound : Sound s.options.own s.sessions
  alone : s.sessions.find? home = none

theorem Server.Hosts.react {s₀ s : Server} {home : Endpoint} (h : Hosts s₀ home s) (now : Time)
    {event : Event} (hother : ∀ bytes, event ≠ .datagram bytes home) :
    (s.react now event).1.sessions.find? home = none :=
  find?_react_eq_none h.sound now hother h.alone

theorem Server.Hosts.step {s₀ s : Server} {home : Endpoint} (h : Hosts s₀ home s) (k : Conditions)
    (now : Time) {event : Event} (hother : ∀ bytes, event ≠ .datagram bytes home) :
    Hosts s₀ home (engine.step k now event s).1 where
  codec := (sameSetup_step s k now event).codec.trans h.codec
  options := (sameSetup_step s k now event).options.trans h.options
  sound := sound_step h.sound k now event
  alone := find?_step_eq_none_iff.mpr (h.react now hother)

namespace Exchange

/-- The exchange has just started: one codec, clients that are set up for the server, nobody else at
the server's endpoint and nothing in flight. -/
structure Opens (x : Exchange) : Prop where
  server : ∃ codec routes options now, x.server = Server.start codec routes options now
  clients : ∀ e c, (e, c) ∈ x.clients → ∃ routes options now,
    c = Client.start x.server.codec routes options now ∧ options.server = x.serverEndpoint
  apart : x.serverEndpoint ∉ x.endpoints
  wire : x.wire = []

/-- The handing out that a packet comes from which an event brings along. -/
inductive Brings (x : Exchange) (log : List Occurrence) : Happening → Option Passage → Prop
  | packet (station : Station) (now : Time) (packet : Bytes) (k : Conditions) :
      Brings x log ⟨station, now, .packet packet, k⟩ (some ⟨log.length, station, packet⟩)
  | letter {l : Letter} {source : Option Passage} {station : Station} (now : Time) (k : Conditions)
      (hl : x.Marked l source) (hat : x.stationAt? l.recipient = some station)
      (hsource : ∀ p ∈ source, p ∈ Passage.handings log) :
      Brings x log ⟨station, now, .datagram l.bytes l.sender, k⟩ source
  | quiet {a : Happening} (hpacket : ∀ packet, a.moment.event ≠ .packet packet)
      (hgenuine : a.moment.event.IsGenuine x.endpoints a.station) : Brings x log a none

variable {x : Exchange} {log : List Occurrence} {source : Option Passage} {now : Time}
  {event : Event} {k : Conditions}

theorem Brings.sender_ne (h : x.Brings log ⟨.server, now, event, k⟩ source)
    (hapart : x.serverEndpoint ∉ x.endpoints) {bytes : Bytes} {sender : Endpoint}
    (hevent : event = .datagram bytes sender) : sender ≠ x.serverEndpoint := by
  cases h with
  | packet => cases hevent
  | quiet hpacket hgenuine =>
    subst hevent
    exact hgenuine.elim
  | letter now k hl hat hsource =>
    cases hevent
    rintro hserver
    rcases hl.proper with ⟨-, hne⟩ | ⟨hsender, -⟩
    · exact hne (eq_of_stationAt?_server hat)
    · exact hapart (hserver ▸ hsender)

/-- A packet in a datagram comes from a handing out that leads to where the datagram is. -/
theorem Brings.exists_source {station : Station} {bytes packet : Bytes} {sender : Endpoint}
    (h : x.Brings log ⟨station, now, .datagram bytes sender, k⟩ source)
    (hd : x.server.codec.decode bytes = .ok (.data packet)) :
    ∃ p l, source = some p ∧ p.packet = packet ∧ p ∈ Passage.handings log ∧ l.sender = sender ∧
      x.Leads p.station l ∧ x.Proper l ∧ x.stationAt? l.recipient = some station := by
  cases h with
  | quiet hpacket hgenuine => exact hgenuine.elim
  | @letter l _ _ _ _ hl hat hsource =>
    obtain ⟨p, rfl, hpacket, hleads⟩ := hl.content packet hd
    exact ⟨p, l, rfl, hpacket, hsource p rfl, rfl, hleads, hl.proper, hat⟩

theorem Brings.outgo_server (h : x.Brings log ⟨.server, now, event, k⟩ source)
    (hapart : x.serverEndpoint ∉ x.endpoints) {s : Server}
    (hs : Server.Hosts x.server x.serverEndpoint s) :
    x.Outgo log .server x.serverEndpoint source (s.react now event).2 := by
  have hother (bytes : Bytes) : event ≠ .datagram bytes x.serverEndpoint :=
    fun hevent => h.sender_ne hapart hevent rfl
  have hknown {t : SessionTable} (ht : t.find? x.serverEndpoint = none) {g : Endpoint} {y : Session}
      (hy : t.find? g = some y) : g ≠ x.serverEndpoint := by
    rintro rfl
    rw [ht] at hy
    cases hy
  have hconduct := Server.conduct hs.sound.toIndexed now event
  have hafter := hs.react now hother
  generalize (s.react now event).2 = actions at hconduct ⊢
  cases hconduct with
  | notices hactions =>
    refine .notices fun action haction => ?_
    obtain ⟨m, g, rfl, hkind, hg⟩ := hactions action haction
    refine ⟨m, g, rfl, hkind, fun bytes => .inl ⟨rfl, ?_⟩⟩
    rcases hg with ⟨bytes', hevent⟩ | ⟨y, hy⟩
    · exact h.sender_ne hapart hevent
    · exact hknown hs.alone hy
  | sends hy =>
    cases h with
    | packet => exact .sends fun bytes => ⟨.inl ⟨rfl, hknown hs.alone hy⟩, .down rfl⟩
    | quiet hpacket hgenuine => exact absurd rfl (hpacket _)
  | relays hd hrelay hne hy =>
    rw [hs.codec] at hd
    rw [hs.options] at hrelay
    obtain ⟨p, l, rfl, rfl, -, rfl, hleads, hproper, hat⟩ := h.exists_source hd
    have hsender := h.sender_ne hapart rfl
    -- The mark goes over to the letter that leaves: the packet is a client's, and goes to another
    -- one.
    refine .sends fun bytes => ⟨.inl ⟨rfl, hknown hafter hy⟩, ?_⟩
    generalize p.station = origin at hleads
    cases hleads with
    | up hi => exact .across rfl hi hrelay hne
    | down hserver => exact absurd hserver hsender
    | across hserver hi hrelay' hne' => exact absurd hserver hsender
  | writes hd =>
    have hd' := hs.codec ▸ hd
    obtain ⟨hnonempty, -⟩ := Codec.fits_of_decode hd' default
    obtain ⟨p, l, rfl, rfl, hmem, rfl, hleads, hproper, hat⟩ := h.exists_source hd'
    exact .writes (Passage.position_lt_of_mem_handings hmem) hnonempty
      (hleads.mayPass hproper hapart hat)

theorem Brings.outgo_client {i : Nat} (h : x.Brings log ⟨.client i, now, event, k⟩ source)
    (hapart : x.serverEndpoint ∉ x.endpoints) {e : Endpoint} {c₀ c : Client}
    (hi : x.clients[i]? = some (e, c₀)) (hcodec : c.codec = x.server.codec)
    (hserver : c.server ∉ x.endpoints) :
    x.Outgo log (.client i) e source (c.react now event).2 := by
  have hproper (bytes : Bytes) : x.Proper ⟨e, c.server, bytes⟩ :=
    .inr ⟨mem_endpoints_of_getElem? hi, hserver⟩
  have hconduct := Client.conduct c now event
  generalize (c.react now event).2 = actions at hconduct ⊢
  cases hconduct with
  | notices hactions =>
    refine .notices fun action haction => ?_
    obtain ⟨m, rfl, hkind⟩ := hactions action haction
    exact ⟨m, c.server, rfl, hkind, hproper⟩
  | sends packet =>
    cases h with
    | packet => exact .sends fun bytes => ⟨hproper bytes, .up hi⟩
    | quiet hpacket hgenuine => exact absurd rfl (hpacket _)
  | writes hd =>
    rw [hcodec] at hd
    obtain ⟨hnonempty, -⟩ := Codec.fits_of_decode hd default
    obtain ⟨p, l, rfl, rfl, hmem, -, hleads, hproper', hat⟩ := h.exists_source hd
    exact .writes (Passage.position_lt_of_mem_handings hmem) hnonempty
      (hleads.mayPass hproper' hapart hat)

theorem Brings.mem_handings {a : Happening} (h : x.Brings log a source)
    (emissions : List Emission) :
    ∀ p ∈ source, p ∈ Passage.handings (log ++ [⟨a.station, a.moment.event, emissions⟩]) := by
  intro p hp
  rw [Passage.handings_concat]
  cases h with
  | packet station now packet k =>
    cases hp
    exact List.mem_append_right _ List.mem_cons_self
  | letter now k hl hat hsource => exact List.mem_append_left _ (hsource p hp)
  | quiet hpacket hgenuine => cases hp

theorem Brings.endpoint_not_mem {i : Nat} (h : x.Brings log ⟨.client i, now, event, k⟩ source)
    {endpoint : Endpoint} (hevent : event = .outcome (.resolved endpoint)) :
    endpoint ∉ x.endpoints := by
  cases h with
  | packet => cases hevent
  | letter now k hl hat hsource => cases hevent
  | quiet hpacket hgenuine =>
    subst hevent
    exact hgenuine nofun

/-- An exchange as it opened, but for what its engines have been through. -/
structure Staged (x₀ x : Exchange) : Prop where
  home : x.serverEndpoint = x₀.serverEndpoint
  endpoints : x.endpoints = x₀.endpoints
  server : Server.Hosts x₀.server x₀.serverEndpoint x.server
  clients : ∀ e c, (e, c) ∈ x.clients → c.codec = x₀.server.codec ∧ c.server ∉ x₀.endpoints

/-- The letters in flight are marked, and an account tells where the packets come from that were
written. -/
structure Booked (x₀ : Exchange) (log : List Occurrence) (account : List (Passage × Passage))
    (wire : List (Letter × Option Passage)) : Prop where
  marked : ∀ m ∈ wire, x₀.Marked m.1 m.2
  written : account.map Prod.snd = Passage.writings log
  accounts : ∀ a ∈ account, x₀.Accounts a.1 a.2
  handed : ∀ p ∈ used account wire, p ∈ Passage.handings log

structure Traced (x₀ x : Exchange) (log : List Occurrence) (account : List (Passage × Passage))
    (wire : List (Letter × Option Passage)) :
    Prop extends Staged x₀ x, Booked x₀ log account wire where
  flight : x.wire = wire.map Prod.fst

variable {x₀ : Exchange} {account : List (Passage × Passage)}
  {wire wire' : List (Letter × Option Passage)} {a : Happening}

theorem Traced.start (hx : x.Opens) : Traced x x [] [] [] where
  home := rfl
  endpoints := rfl
  server := by
    obtain ⟨codec, routes, options, now, hserver⟩ := hx.server
    rw [hserver]
    exact ⟨rfl, rfl, Server.Sound.empty, rfl⟩
  clients e c hc := by
    obtain ⟨routes, options, now, rfl, hoptions⟩ := hx.clients e c hc
    refine ⟨rfl, ?_⟩
    rw [Client.start, hoptions]
    exact hx.apart
  marked _ hm := absurd hm List.not_mem_nil
  written := rfl
  accounts _ ha := absurd ha List.not_mem_nil
  handed _ hp := absurd hp List.not_mem_nil
  flight := hx.wire

/-- Fewer letters, or some of them twice, stay booked. -/
theorem Booked.subset (h : Booked x₀ log account wire) (hwire : wire' ⊆ wire) :
    Booked x₀ log account wire' where
  marked m hm := h.marked m (hwire hm)
  written := h.written
  accounts := h.accounts
  handed p hp := by
    apply h.handed
    rcases List.mem_append.mp hp with hp | hp
    · exact List.mem_append_left _ hp
    · obtain ⟨m, hm, hmark⟩ := List.mem_filterMap.mp hp
      exact List.mem_append_right _ (List.mem_filterMap.mpr ⟨m, hwire hm, hmark⟩)

theorem used_sublist (account : List (Passage × Passage)) (hwire : wire'.Sublist wire) :
    (used account wire').Sublist (used account wire) :=
  (List.Sublist.refl _).append (hwire.filterMap _)

theorem used_eraseIdx_perm (account : List (Passage × Passage)) {position : Nat}
    {m : Letter × Option Passage} (hm : wire[position]? = some m) :
    (m.2.toList ++ used account (wire.eraseIdx position)).Perm (used account wire) := by
  obtain ⟨hposition, rfl⟩ := List.getElem?_eq_some_iff.mp hm
  have hmark : (wire[position] :: wire.eraseIdx position).filterMap Prod.snd =
      wire[position].2.toList ++ (wire.eraseIdx position).filterMap Prod.snd := by
    cases hmark : wire[position].2 <;> simp [hmark]
  have hout : (wire[position] :: wire.eraseIdx position).Perm wire := by
    rw [List.eraseIdx_eq_take_drop_succ]
    refine List.perm_middle.symm.trans ?_
    rw [← List.drop_eq_getElem_cons hposition, List.take_append_drop]
  have hperm := hout.filterMap Prod.snd
  rw [hmark] at hperm
  exact (List.perm_append_comm_assoc _ _ _).trans (hperm.append_left _)

theorem Staged.set_client (h : Staged x₀ x) {i : Nat} {e : Endpoint} {c c' : Client}
    (hi : x.clients[i]? = some (e, c)) (hcodec : c'.codec = x₀.server.codec)
    (hserver : c'.server ∉ x₀.endpoints) (letters : List Letter) :
    Staged x₀ { x with clients := x.clients.set i (e, c'), wire := letters } where
  home := h.home
  endpoints := by
    obtain ⟨hlt, hget⟩ := List.getElem?_eq_some_iff.mp hi
    have hlt' : i < (x.clients.map Prod.fst).length := by rwa [List.length_map]
    have hsame : (x.clients.map Prod.fst)[i] = e := by rw [List.getElem_map, hget]
    have hset := List.set_getElem_self hlt'
    rw [hsame] at hset
    rw [← h.endpoints, Exchange.endpoints, Exchange.endpoints, List.map_set, hset]
  server := h.server
  clients f d hd := by
    rcases List.mem_or_eq_of_mem_set hd with hd | hd
    · exact h.clients f d hd
    · cases hd
      exact ⟨hcodec, hserver⟩

theorem Staged.exists_client (h : Staged x₀ x) {i : Nat} {e : Endpoint} {c : Client}
    (hi : x.clients[i]? = some (e, c)) : ∃ c₀, x₀.clients[i]? = some (e, c₀) := by
  have hendpoint : x₀.endpoints[i]? = some e := by
    rw [← h.endpoints, Exchange.endpoints, List.getElem?_map, hi]
    rfl
  rw [Exchange.endpoints, List.getElem?_map] at hendpoint
  obtain ⟨⟨e', c₀⟩, hi₀, rfl⟩ := Option.map_eq_some_iff.mp hendpoint
  exact ⟨c₀, hi₀⟩

theorem Staged.handle (h : Staged x₀ x) (t : Turn) : Staged x₀ (x.handle t) := by
  cases t with
  | happen a => exact h
  | deliver position now c => exact ⟨h.home, h.endpoints, h.server, h.clients⟩
  | lose position => exact ⟨h.home, h.endpoints, h.server, h.clients⟩
  | copy position => exact ⟨h.home, h.endpoints, h.server, h.clients⟩
  | takeJobs index =>
    rw [Exchange.handle, Exchange.takeJobs]
    split
    · exact h
    · rename_i e c hi
      obtain ⟨hcodec, hserver⟩ := h.clients e c (List.mem_of_getElem? hi)
      refine h.set_client hi ?_ ?_ x.wire
      · exact hcodec
      · exact hserver

theorem wire_of_lose (hwire : x.wire = wire.map Prod.fst) (position : Nat) :
    (x.lose position).wire = (wire.eraseIdx position).map Prod.fst := by
  rw [lose, hwire, List.eraseIdx_eq_take_drop_succ, List.eraseIdx_eq_take_drop_succ,
    List.map_append, List.map_take, List.map_drop]

theorem exists_wire_of_no_happening (hwire : x.wire = wire.map Prod.fst) {t : Turn}
    (ht : x.happening? t = none) :
    ∃ wire' : List (Letter × Option Passage), (x.handle t).wire = wire'.map Prod.fst ∧
      wire' ⊆ wire ∧
      ((∀ position, t ≠ .copy position) → wire'.Sublist wire) := by
  cases t with
  | happen a => cases ht
  | deliver position now c =>
    exact ⟨wire.eraseIdx position, wire_of_lose hwire position, List.eraseIdx_subset,
      fun _ => List.eraseIdx_sublist _ _⟩
  | lose position =>
    exact ⟨wire.eraseIdx position, wire_of_lose hwire position, List.eraseIdx_subset,
      fun _ => List.eraseIdx_sublist _ _⟩
  | copy position =>
    refine ⟨wire ++ wire[position]?.toList, ?_, ?_, fun hcopy => absurd rfl (hcopy position)⟩
    · rw [Exchange.handle, copy, hwire, List.map_append, List.getElem?_map, Option.toList_map]
    · refine List.append_subset.mpr ⟨List.Subset.refl wire, fun m hm => ?_⟩
      exact List.mem_of_getElem? (Option.mem_toList.mp hm)
  | takeJobs index =>
    refine ⟨wire, ?_, List.Subset.refl wire, fun _ => List.Sublist.refl wire⟩
    rw [Exchange.handle, Exchange.takeJobs, ← hwire]
    split <;> rfl

/-- The event of a turn brings a packet along whose handing out nothing else uses. -/
theorem Traced.exists_brings (h : Traced x₀ x log account wire) {t : Turn}
    (hgenuine : t.IsGenuine x₀.endpoints) (ht : x.happening? t = some a) :
    ∃ source wire', Brings x₀ log a source ∧ (x.handle t).wire = wire'.map Prod.fst ∧ wire' ⊆ wire ∧
      ((used account wire).Nodup → (source.toList ++ used account wire').Nodup) := by
  cases t with
  | happen b =>
    cases ht
    obtain ⟨station, now, event, k⟩ := a
    have hquiet (hpacket : ∀ packet, event ≠ .packet packet) : ∃ source wire',
        Brings x₀ log ⟨station, now, event, k⟩ source ∧ x.wire = wire'.map Prod.fst ∧ wire' ⊆ wire ∧
          ((used account wire).Nodup → (source.toList ++ used account wire').Nodup) :=
      ⟨none, wire, .quiet hpacket hgenuine, h.flight, List.Subset.refl wire, id⟩
    cases event with
    | packet packet =>
      refine ⟨some ⟨log.length, station, packet⟩, wire, .packet station now packet k, h.flight,
        List.Subset.refl wire, fun hnodup => List.nodup_cons.mpr ⟨fun hmem => ?_, hnodup⟩⟩
      exact Nat.lt_irrefl _ (Passage.position_lt_of_mem_handings (h.handed _ hmem))
    | datagram bytes sender => exact hquiet nofun
    | outcome outcome => exact hquiet nofun
    | tick calendar => exact hquiet nofun
    | shutdown => exact hquiet nofun
  | deliver position now c =>
    obtain ⟨l, hl, hstation⟩ := Option.bind_eq_some_iff.mp ht
    obtain ⟨station, hat, rfl⟩ := Option.map_eq_some_iff.mp hstation
    rw [h.flight, List.getElem?_map] at hl
    obtain ⟨⟨l', source⟩, hm, rfl⟩ := Option.map_eq_some_iff.mp hl
    have hmem : (l', source) ∈ wire := List.mem_of_getElem? hm
    refine ⟨source, wire.eraseIdx position, .letter now (c station) (h.marked _ hmem) ?_
      fun p hp => ?_, wire_of_lose h.flight position, List.eraseIdx_subset,
        (used_eraseIdx_perm account hm).nodup_iff.mpr⟩
    · rw [← hat, stationAt?_congr h.home h.endpoints]
    · exact h.handed p (List.mem_append_right _ (List.mem_filterMap.mpr ⟨_, hmem, hp⟩))
  | lose position => cases ht
  | copy position => cases ht
  | takeJobs index => cases ht

theorem Staged.after (h : Staged x₀ x) (hapart : x₀.serverEndpoint ∉ x₀.endpoints)
    (hb : x₀.Brings log a source) :
    Staged x₀ (x.after a) := by
  obtain ⟨station, now, event, k⟩ := a
  cases station with
  | server =>
    have hother (bytes : Bytes) : event ≠ .datagram bytes x₀.serverEndpoint :=
      fun hevent => hb.sender_ne hapart hevent rfl
    exact ⟨h.home, h.endpoints, h.server.step k now hother, h.clients⟩
  | client i =>
    rw [Exchange.after, happen]
    dsimp only
    split
    · exact h
    · rename_i e c hi
      obtain ⟨hcodec, hserver⟩ := h.clients e c (List.mem_of_getElem? hi)
      have hchange := Client.change c now event
      obtain ⟨counters, f, hstep⟩ := Client.exists_step c k now event
      refine h.set_client hi ?_ ?_ _
      · rw [hstep]
        exact hchange.codec.trans hcodec
      · rw [hstep]
        rcases hchange.server with hsame | hmoved
        · exact hsame ▸ hserver
        · exact hb.endpoint_not_mem hmoved

/-- What a station emits on an event can be put on record. -/
theorem Staged.exists_recorded (h : Staged x₀ x) (hapart : x₀.serverEndpoint ∉ x₀.endpoints)
    (hb : x₀.Brings log a source) :
    ∃ sent letters account, (x.after a).wire = x.wire ++ sent ∧
      x₀.Recorded log a.station source sent ((x.emissions a).filterMap packet?) letters
        account := by
  obtain ⟨station, now, event, k⟩ := a
  cases station with
  | server =>
    obtain ⟨letters, account, hrecorded⟩ := (hb.outgo_server hapart h.server).emit h.server.codec k
    refine ⟨_, letters, account, ?_, hrecorded⟩
    rw [← h.home]
    rfl
  | client i =>
    cases hi : x.clients[i]? with
    | none =>
      simp only [Exchange.after, happen, Exchange.emissions, hi]
      exact ⟨[], [], [], (List.append_nil _).symm, recorded_nothing ..⟩
    | some ec =>
      obtain ⟨e, c⟩ := ec
      obtain ⟨hcodec, hserver⟩ := h.clients e c (List.mem_of_getElem? hi)
      obtain ⟨c₀, hi₀⟩ := h.exists_client hi
      obtain ⟨letters, account, hrecorded⟩ :=
        (hb.outgo_client hapart hi₀ hcodec hserver).emit hcodec k
      simp only [Exchange.after, happen, Exchange.emissions, hi, Client.step_emissions]
      exact ⟨_, letters, account, rfl, hrecorded⟩

theorem used_append_perm (account account' : List (Passage × Passage))
    (wire letters : List (Letter × Option Passage)) :
    (used (account ++ account') (wire ++ letters)).Perm
      (used account' letters ++ used account wire) := by
  rw [used, used, used, List.map_append, List.filterMap_append]
  refine (List.perm_append_comm.append List.perm_append_comm).trans ?_
  rw [List.append_assoc, List.append_assoc]
  exact (List.perm_append_comm_assoc _ _ _).append_left _

theorem Traced.after (h : Traced x₀ x log account wire) (hapart : x₀.serverEndpoint ∉ x₀.endpoints)
    {a : Happening} {source : Option Passage} (hb : x₀.Brings log a source) :
    ∃ account' wire',
      Traced x₀ (x.after a) (log ++ [⟨a.station, a.moment.event, x.emissions a⟩]) account' wire' ∧
      ((source.toList ++ used account wire).Nodup → (used account' wire').Nodup) := by
  obtain ⟨sent, letters, written, hwire, hrecorded⟩ := h.exists_recorded hapart hb
  have hperm := used_append_perm account written wire letters
  refine ⟨account ++ written, wire ++ letters, ⟨h.toStaged.after hapart hb, ⟨?_, ?_, ?_, ?_⟩, ?_⟩,
    fun hnodup => ?_⟩
  · intro m hm
    rcases List.mem_append.mp hm with hm | hm
    · exact h.marked m hm
    · exact hrecorded.marked m hm
  · rw [List.map_append, h.written, hrecorded.written, Passage.writings_concat, Occurrence.written]
  · intro p hp
    rcases List.mem_append.mp hp with hp | hp
    · exact h.accounts p hp
    · exact hrecorded.accounts p hp
  · intro p hp
    rcases List.mem_append.mp (hperm.subset hp) with hp | hp
    · exact hb.mem_handings _ p (Option.mem_toList.mp (hrecorded.used.subset hp))
    · rw [Passage.handings_concat]
      exact List.mem_append_left _ (h.handed p hp)
  · rw [hwire, h.flight, List.map_append, hrecorded.sent]
  · exact hperm.nodup_iff.mpr (hnodup.sublist (hrecorded.used.append (.refl _)))

theorem Traced.turn (h : Traced x₀ x log account wire) (hapart : x₀.serverEndpoint ∉ x₀.endpoints)
    {t : Turn} (hgenuine : t.IsGenuine x₀.endpoints) :
    ∃ account' wire', Traced x₀ (x.turn t) (log ++ (x.occurrence? t).toList) account' wire' ∧
      ((∀ position, t ≠ .copy position) → (used account wire).Nodup →
        (used account' wire').Nodup) := by
  cases ht : x.happening? t with
  | none =>
    obtain ⟨wire', hwire, hsubset, hsublist⟩ := exists_wire_of_no_happening h.flight ht
    rw [turn_of_no_happening ht, occurrence?, ht, Option.map_none, Option.toList_none,
      List.append_nil]
    exact ⟨account, wire', ⟨h.toStaged.handle t, h.toBooked.subset hsubset, hwire⟩,
      fun hcopy hnodup => hnodup.sublist (used_sublist account (hsublist hcopy))⟩
  | some a =>
    obtain ⟨source, wire', hb, hwire, hsubset, hnodup⟩ := h.exists_brings hgenuine ht
    have hhandled : Traced x₀ (x.handle t) log account wire' :=
      ⟨h.toStaged.handle t, h.toBooked.subset hsubset, hwire⟩
    obtain ⟨account', wire'', htraced, hnodup'⟩ := hhandled.after hapart hb
    rw [turn_of_happening ht, occurrence?, ht]
    exact ⟨account', wire'', htraced, fun _ hfresh => hnodup' (hnodup hfresh)⟩

theorem Traced.run (h : Traced x₀ x log account wire) (hapart : x₀.serverEndpoint ∉ x₀.endpoints)
    {ts : List Turn} (hgenuine : ∀ t ∈ ts, t.IsGenuine x₀.endpoints) :
    ∃ account' wire', Traced x₀ (x.run ts).1 (log ++ (x.run ts).2) account' wire' ∧
      ((∀ position, .copy position ∉ ts) → (used account wire).Nodup →
        (used account' wire').Nodup) := by
  induction ts generalizing x log account wire with
  | nil => exact ⟨account, wire, by rwa [Exchange.run, List.append_nil], fun _ => id⟩
  | cons t rest ih =>
    obtain ⟨hfirst, hrest⟩ := List.forall_mem_cons.mp hgenuine
    obtain ⟨account₁, wire₁, h₁, hnodup₁⟩ := h.turn hapart hfirst
    obtain ⟨account₂, wire₂, h₂, hnodup₂⟩ := ih h₁ hrest
    rw [List.append_assoc] at h₂
    refine ⟨account₂, wire₂, h₂,
      fun hcopy hnodup => hnodup₂ (fun position hmem => ?_) (hnodup₁ ?_ hnodup)⟩
    · exact hcopy position (List.mem_cons_of_mem t hmem)
    · rintro position rfl
      exact hcopy position List.mem_cons_self

/-- End to end, packets stay as they are: whatever the wire loses, copies and reorders, an account
of the run names for every packet that was written to a device the earlier handing out, at a device
from which packets may pass there, that the packet comes from byte for byte. As long as the wire
copies nothing, no two of them come from the same one. -/
theorem packets_intact {x : Exchange} (hx : x.Opens) {ts : List Turn}
    (hts : ∀ t ∈ ts, t.IsGenuine x.endpoints) :
    ∃ account : List (Passage × Passage),
      account.map Prod.snd = Passage.writings (x.run ts).2 ∧
      (∀ a ∈ account, a.1 ∈ Passage.handings (x.run ts).2 ∧ x.Accounts a.1 a.2) ∧
      ((∀ position, .copy position ∉ ts) → (account.map Prod.fst).Nodup) := by
  obtain ⟨account, wire, h, hnodup⟩ := (Traced.start hx).run hx.apart hts
  rw [List.nil_append] at h
  refine ⟨account, h.written, fun a ha => ⟨h.handed a.1 ?_, h.accounts a ha⟩, fun hcopy => ?_⟩
  · exact List.mem_append_left _ (List.mem_map_of_mem ha)
  · exact (List.nodup_append.mp (hnodup hcopy List.nodup_nil)).1

def relayed : Exchange where
  server := .start Server.clearCodec .empty Server.poolOptions 0
  serverEndpoint := Client.newcomer.server
  clients := [(Server.caller 1, .newcomer), (Server.caller 2, .newcomer)]
  wire := []

theorem opens_newcomers (options : ServerOptions) :
    Opens { relayed with server := .start Server.clearCodec .empty options 0 } := by
  have hapart : relayed.serverEndpoint ∉ relayed.endpoints := by decide +kernel
  refine ⟨⟨_, _, _, _, rfl⟩, fun e c hc => ?_, hapart, rfl⟩
  have hplain : c = .newcomer := by
    simp only [relayed, List.mem_cons, List.not_mem_nil, or_false, Prod.mk.injEq] at hc
    rcases hc with hc | hc
    · exact hc.2
    · exact hc.2
  exact ⟨_, _, _, hplain, rfl⟩

def back : Bytes := 0x60 :: List.replicate 22 0 ++ 7 :: List.replicate 16 0

/-- Both logins are lost. The first client's packet finds nobody at ::7 and goes to the server's
device, the second client's answer goes to the first client, and a packet from the server's device
to the second one. -/
def correspondence : List Turn :=
  [.happen ⟨.client 0, 0, .tick 0, Conditions.fair⟩,
    .happen ⟨.client 1, 0, .tick 0, Conditions.fair⟩, .lose 0, .lose 0,
    .happen ⟨.client 0, 1, .packet Server.across, Conditions.fair⟩,
    .deliver 0 2 fun _ => Conditions.fair,
    .happen ⟨.client 1, 3, .packet back, Conditions.fair⟩, .deliver 0 4 fun _ => Conditions.fair,
    .deliver 0 5 fun _ => Conditions.fair,
    .happen ⟨.server, 6, .packet Server.across, Conditions.fair⟩,
    .deliver 0 7 fun _ => Conditions.fair]

theorem packets_intact_correspondence :
    relayed.Opens ∧ (∀ t ∈ correspondence, t.IsGenuine relayed.endpoints) ∧
      Passage.writings (relayed.run correspondence).2 =
        [⟨3, .server, Server.across⟩, ⟨6, .client 0, back⟩, ⟨8, .client 1, Server.across⟩] ∧
      ∃ sources : List Passage, sources.length = 3 ∧ sources.Nodup ∧
        ∀ p ∈ sources, p ∈ Passage.handings (relayed.run correspondence).2 := by
  have hopens : relayed.Opens := opens_newcomers Server.poolOptions
  have hgenuine : ∀ t ∈ correspondence, t.IsGenuine relayed.endpoints := by
    simp only [correspondence, List.mem_cons, List.not_mem_nil, or_false]
    rintro t (rfl | rfl | rfl | rfl | rfl | rfl | rfl | rfl | rfl | rfl | rfl) <;> trivial
  have hwritings : Passage.writings (relayed.run correspondence).2 =
      [⟨3, .server, Server.across⟩, ⟨6, .client 0, back⟩, ⟨8, .client 1, Server.across⟩] := by
    decide +kernel
  have hcopy (position : Nat) : .copy position ∉ correspondence := by
    simp [correspondence]
  obtain ⟨account, hwritten, haccounts, hnodup⟩ := packets_intact hopens hgenuine
  refine ⟨hopens, hgenuine, hwritings, account.map Prod.fst, ?_, hnodup hcopy, fun p hp => ?_⟩
  · rw [List.length_map, ← List.length_map Prod.snd, hwritten, hwritings]
    rfl
  · obtain ⟨a, ha, rfl⟩ := List.mem_map.mp hp
    exact (haccounts a ha).1

def unrelayed : Exchange :=
  { relayed with
    server := .start Server.clearCodec .empty { Server.poolOptions with relay := false } 0 }

/-- Both logins are lost, and then each client is told that the server is where the other one is. -/
def crossing : List Turn :=
  [.happen ⟨.client 0, 0, .tick 0, Conditions.fair⟩,
    .happen ⟨.client 1, 0, .tick 0, Conditions.fair⟩, .lose 0, .lose 0,
    .happen ⟨.client 0, 1, .outcome (.resolved (Server.caller 2)), Conditions.fair⟩,
    .happen ⟨.client 1, 1, .outcome (.resolved (Server.caller 1)), Conditions.fair⟩,
    .happen ⟨.client 0, 2, .packet Server.across, Conditions.fair⟩,
    .deliver 0 3 fun _ => Conditions.fair]

/-- Clients that look for their server at each other exchange packets past it. -/
theorem crossed_clients_exchange :
    unrelayed.Opens ∧ unrelayed.endpoints.Nodup ∧ unrelayed.server.options.relay = false ∧
      (∀ t ∈ crossing, t.IsGenuine []) ∧
      Passage.handings (unrelayed.run crossing).2 = [⟨4, .client 0, Server.across⟩] ∧
      Passage.writings (unrelayed.run crossing).2 = [⟨5, .client 1, Server.across⟩] ∧
      ¬∃ account : List (Passage × Passage),
        account.map Prod.snd = Passage.writings (unrelayed.run crossing).2 ∧
        ∀ a ∈ account,
          a.1 ∈ Passage.handings (unrelayed.run crossing).2 ∧ unrelayed.Accounts a.1 a.2 := by
  have hhandings : Passage.handings (unrelayed.run crossing).2 =
      [⟨4, .client 0, Server.across⟩] := by decide +kernel
  have hwritings : Passage.writings (unrelayed.run crossing).2 =
      [⟨5, .client 1, Server.across⟩] := by decide +kernel
  refine ⟨opens_newcomers _, by decide +kernel, rfl, ?_, hhandings, hwritings, ?_⟩
  · simp only [crossing, List.mem_cons, List.not_mem_nil, or_false]
    rintro t (rfl | rfl | rfl | rfl | rfl | rfl | rfl | rfl)
    all_goals simp [Turn.IsGenuine, Event.IsGenuine]
  · rintro ⟨account, hwritten, haccounts⟩
    rw [hwritings] at hwritten
    obtain ⟨⟨p, q⟩, rest, rfl, hq, -⟩ := List.map_eq_cons_iff.mp hwritten
    obtain ⟨hp, haccount⟩ := haccounts (p, q) List.mem_cons_self
    rw [hhandings, List.mem_singleton] at hp
    subst hp hq
    cases haccount.permitted with
    | across hi hrelay hij => cases hrelay

end Exchange

end PacketTunnel
