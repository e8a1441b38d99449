import PacketTunnel.Proofs.Server.Step

/-!
# Who holds which address

In every state that a server reaches, the index is exact, every session holds an address, and none
holds an address of the server itself. The table does not enforce this: it follows from what one
step can do to it, and the one place where the index is overwritten without looking, the assignment
of addresses, is always preceded by the removal of their other holders.
-/
namespace PacketTunnel.Server

open SessionTable

/-- A session table as a server with the given addresses of its own leaves it. -/
structure Sound (own : VirtualAddresses) (t : SessionTable) : Prop extends t.Indexed where
  proper : ∀ {e : Endpoint} {x : Session}, t.find? e = some x → Proper own x.addresses

namespace Sound

variable {own : VirtualAddresses} {t : SessionTable}

theorem foreign (h : Sound own t) : Foreign own t := fun hx ha => (h.proper hx).foreign ha

theorem empty : Sound own SessionTable.empty where
  toIndexed := indexed_empty
  proper h := by cases h

theorem modify (h : Sound own t) (e : Endpoint) {f : Session → Session} (hf : Keeps f) :
    Sound own (t.modify e f) where
  toIndexed := h.toIndexed.modify e hf
  proper {e' x} hx := by
    rw [find?_modify] at hx
    split at hx
    · obtain ⟨x₀, hx₀, rfl⟩ := Option.map_eq_some_iff.mp hx
      rw [(hf x₀).2]
      exact h.proper hx₀
    · exact h.proper hx

theorem removeAll (h : Sound own t) (es : List Endpoint) : Sound own (t.removeAll es) where
  toIndexed := h.toIndexed.removeAll es
  proper {e' x} hx := by
    rw [find?_removeAll] at hx
    split at hx
    · cases hx
    · exact h.proper hx

theorem settle (h : Sound own t) (now : Time) (e : Endpoint) {v : VirtualAddresses}
    (hv : Proper own v) :
    Sound own (settle t now e v) where
  toIndexed := indexed_settle h.toIndexed now e v
  proper {e' x} hx := by
    rw [find?_settle h.toIndexed] at hx
    split at hx
    · cases hx
      exact hv
    · split at hx
      · cases hx
      · exact h.proper hx

end Sound

theorem Reception.sound {s : Server} {now : Time} {e : Endpoint} {m : Message} {t : SessionTable}
    (h : Reception s now e m t) (hs : Sound s.options.own s.sessions) : Sound s.options.own t := by
  cases h with
  | untouched => exact hs
  | touched f hf => exact hs.modify e hf
  | removed hm => exact hs.removeAll [e]
  | settled v f hf hv => exact (hs.settle now e hv).modify e hf

theorem sound_credits {own : VirtualAddresses} {s : Server} (h : Sound own s.sessions)
    (emissions : List Emission) : Sound own (emissions.foldl credit s).sessions := by
  induction emissions generalizing s with
  | nil => exact h
  | cons emission rest ih =>
    apply ih
    cases emission with
    | datagram message bytes recipient => exact h.modify recipient fun _ => ⟨rfl, rfl⟩
    | packet bytes => exact h

theorem sound_react {s : Server} (h : Sound s.options.own s.sessions) (now : Time) (event : Event) :
    Sound s.options.own (s.react now event).1.sessions := by
  cases event with
  | packet bytes =>
    rw [react, dispatch]
    split <;> exact h
  | datagram bytes sender =>
    rw [react]
    cases hd : s.codec.decode bytes with
    | error r =>
      rw [receive_rejected hd]
      exact h
    | ok m => exact (receive_reception h.foreign now sender hd).sound h
  | outcome outcome => exact h
  | tick calendar => exact h.removeAll (s.sessions.stale now s.options.sessionExpiry)
  | shutdown => exact h.removeAll s.sessions.endpoints

theorem sound_step {s : Server} (h : Sound s.options.own s.sessions) (c : Conditions) (now : Time)
    (event : Event) :
    Sound (engine.step c now event s).1.options.own (engine.step c now event s).1.sessions := by
  rw [(sameSetup_step s c now event).options]
  exact sound_credits (sound_react h now event) _

theorem sound_run {s : Server} (h : Sound s.options.own s.sessions) (moments : List Engine.Moment) :
    Sound (engine.run s moments).1.options.own (engine.run s moments).1.sessions := by
  induction moments generalizing s with
  | nil => exact h
  | cons m rest ih => exact ih (sound_step h m.conditions m.now m.event)

theorem Reachable.sound {s : Server} (h : s.Reachable) : Sound s.options.own s.sessions := by
  obtain ⟨protection, mtu, routes, options, origin, moments, rfl⟩ := h
  exact sound_run Sound.empty moments

/-- In every reachable state each session stands under its own endpoint, the index leads from an
address to an endpoint exactly when the session there holds it, no two sessions share an address,
every session holds one, and none holds one of the server's own. -/
theorem index_exact {s : Server} (hs : s.Reachable) :
    (∀ e x, s.sessions.find? e = some x → x.endpoint = e) ∧
    (∀ a e, s.sessions.endpointFor? a = some e ↔
      ∃ x, s.sessions.find? e = some x ∧ x.addresses.contains a = true) ∧
    (∀ e e' x x' a, s.sessions.find? e = some x → s.sessions.find? e' = some x' →
      x.addresses.contains a = true → x'.addresses.contains a = true → e = e') ∧
    (∀ e x, s.sessions.find? e = some x → ∃ a, x.addresses.contains a = true) ∧
    (∀ e x a, s.sessions.find? e = some x → s.options.own.contains a = true →
      x.addresses.contains a = false) := by
  have h := hs.sound
  refine ⟨fun e x hx => h.endpoint_eq hx, fun a e => h.owner_iff, ?_, ?_, ?_⟩
  · intro e e' x x' a hx hx' ha ha'
    exact h.unique hx hx' ha ha'
  · intro e x hx
    exact VirtualAddresses.exists_contains (h.proper hx).nonempty
  · intro e x a hx ha
    exact h.foreign hx ha

def clearCodec : Codec := .ofMtu .clear 1416

def poolOptions : ServerOptions where
  own := ⟨some 0x0a070001, none⟩
  pool := Subnet.make? 0x0a070000 24
  sessionExpiry := 39000
  relay := true
  implicitLogin := true
  advertise := true
  interface := "vt0"

def caller (port : UInt16) : Endpoint := .v4 0xc6336401 port

def hears (now : Time) (e : Endpoint) (m : Message) : Engine.Moment where
  now := now
  event := .datagram ((clearCodec.encode default m).toOption.getD []) e
  conditions := Conditions.fair

/-- The first peer holds 10.7.0.2 from the pool and the second ::7. -/
def pair : Server :=
  (engine.run (start clearCodec .empty poolOptions 0)
    [hears 0 (caller 1) (.clientLogin .empty), hears 1 (caller 2) (.clientLogin ⟨none, some 7⟩)]).1

theorem reachable_pair : pair.Reachable := ⟨.clear, 1416, .empty, poolOptions, 0, _, rfl⟩

/-- A third peer asks for the addresses of both. -/
def displaced : Server :=
  (engine.step Conditions.fair 2 (hears 2 (caller 3) (.clientLogin ⟨some 0x0a070002, some 7⟩)).event
    pair).1

theorem reachable_displaced : displaced.Reachable := reachable_pair.step _ _ _

theorem index_exact_displaced :
    displaced.Reachable ∧ displaced.sessions.endpoints = [caller 3] ∧
      displaced.sessions.endpointFor? (.v6 7) = some (caller 3) ∧
      ∃ x, displaced.sessions.find? (caller 3) = some x ∧ x.addresses.contains (.v6 7) = true := by
  have h := index_exact reachable_displaced
  have howner : displaced.sessions.endpointFor? (.v6 7) = some (caller 3) := by decide +kernel
  exact ⟨reachable_displaced, by decide +kernel, howner, (h.2.1 (.v6 7) (caller 3)).mp howner⟩

end PacketTunnel.Server
