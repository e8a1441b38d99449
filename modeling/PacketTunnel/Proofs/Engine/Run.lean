import PacketTunnel.Engine.Basic

/-!
# Runs of an engine

A state reaches another when some run leads there. What one step preserves, every run preserves; a
step after a run is a run again. A reaction with a single action emits at most that action. Some
kinds of events, and what makes two sessions one, are named here since both sides of a tunnel need
them.
-/
namespace PacketTunnel

/-- An event that is nobody's message: a packet from the device, or the clock. -/
def Event.IsLocal : Event → Prop
  | .packet _ => True
  | .tick _ => True
  | _ => False

/-- An event that neither carries a sound message nor moves the server to another endpoint nor ends
the tunnel. -/
def Event.IsHarmless (codec : Codec) (server : Endpoint) : Event → Prop
  | .packet _ => True
  | .datagram bytes _ => ∃ r, codec.decode bytes = .error r
  | .outcome (.resolved endpoint) => endpoint = server
  | .outcome _ => True
  | .tick _ => True
  | .shutdown => False

instance (codec : Codec) (server : Endpoint) :
    (event : Event) → Decidable (event.IsHarmless codec server)
  | .packet _ => isTrue trivial
  | .datagram bytes _ =>
    match hd : codec.decode bytes with
    | .error r => isTrue ⟨r, hd⟩
    | .ok _ => isFalse fun ⟨_, hr⟩ => by cases hd.symm.trans hr
  | .outcome (.resolved endpoint) => inferInstanceAs (Decidable (endpoint = server))
  | .outcome (.routeInstalled _) => isTrue trivial
  | .outcome (.failed _) => isTrue trivial
  | .tick _ => isTrue trivial
  | .shutdown => isFalse id

namespace Session

structure Same (x x' : Session) : Prop where
  endpoint : x'.endpoint = x.endpoint
  addresses : x'.addresses = x.addresses
  created : x'.created = x.created

theorem Same.refl (x : Session) : x.Same x := ⟨rfl, rfl, rfl⟩

theorem Same.trans {x x' x'' : Session} (h : x.Same x') (h' : x'.Same x'') : x.Same x'' :=
  ⟨h'.endpoint.trans h.endpoint, h'.addresses.trans h.addresses, h'.created.trans h.created⟩

def recount (f : Tally → Tally) (x : Session) : Session := { x with sent := f x.sent }

/-- A session once a message of the given size was heard, which may have been the answer to a probe.
-/
def Renews (x : Session) (now : Time) (size : Nat) (x' : Session) : Prop :=
  x' = x.touch now size ∨ ∃ echo, x' = (x.touch now size).acknowledge echo

theorem Renews.keeps {x x' : Session} {now : Time} {size : Nat} (h : x.Renews now size x') :
    x'.created = x.created ∧ x'.addresses = x.addresses ∧ x'.ownedRoutes = x.ownedRoutes ∧
      x'.lastReceived = now := by
  rcases h with rfl | ⟨echo, rfl⟩
  · exact ⟨rfl, rfl, rfl, rfl⟩
  · rw [Session.acknowledge]
    split <;> exact ⟨rfl, rfl, rfl, rfl⟩

end Session

/-- Surroundings in which everything sent and written gets through. -/
def Conditions.fair : Conditions := ⟨fun _ => default, fun _ => true, fun _ => true⟩

namespace Engine

variable {σ : Type} {E : Engine σ}

def Reaches (E : Engine σ) (s s' : σ) : Prop := ∃ moments, (E.run s moments).1 = s'

theorem run_append (s : σ) (ms ms' : List Moment) :
    (E.run s (ms ++ ms')).1 = (E.run (E.run s ms).1 ms').1 := by
  induction ms generalizing s with
  | nil => rfl
  | cons m rest ih => exact ih _

theorem Reaches.step {s s' : σ} (h : E.Reaches s s') (m : Moment) :
    E.Reaches s (E.step m.conditions m.now m.event s').1 := by
  obtain ⟨ms, rfl⟩ := h
  exact ⟨ms ++ [m], run_append s ms [m]⟩

/-- A property that every step preserves holds wherever a run leads. -/
theorem Reaches.preserves {P : σ → Prop} {s s' : σ} (h : E.Reaches s s') (hs : P s)
    (hstep : ∀ (u : σ) (m : Moment), P u → P (E.step m.conditions m.now m.event u).1) : P s' := by
  obtain ⟨ms, rfl⟩ := h
  induction ms generalizing s with
  | nil => exact hs
  | cons m rest ih => exact ih (hstep s m hs)

theorem step_of_silent {s s' : σ} {now : Time} {event : Event} (h : E.react s now event = (s', []))
    (c : Conditions) : E.step c now event s = (s', []) := by
  rw [step, h]
  rfl

end Engine

def Emission.sent? : Emission → Option (Message × Endpoint)
  | .datagram message _ recipient => some (message, recipient)
  | .packet _ => none

def Conditions.Sending (k : Conditions) : Prop := ∀ position, k.sends position = true

/-- The surroundings of the actions that follow the first one. -/
def Conditions.later (c : Conditions) : Conditions :=
  ⟨fun n => c.vector (n + 1), fun n => c.sends (n + 1), fun n => c.writes (n + 1)⟩

namespace Action

theorem performAll_nil (codec : Codec) (c : Conditions) : performAll codec c [] = [] := rfl

theorem perform?_later (codec : Codec) (c : Conditions) (position : Nat) (action : Action) :
    action.perform? codec c.later position = action.perform? codec c (position + 1) := by
  cases action <;> rfl

theorem performAll_cons (codec : Codec) (c : Conditions) (action : Action) (rest : List Action) :
    performAll codec c (action :: rest) =
      (action.perform? codec c 0).toList ++ performAll codec c.later rest := by
  have hrest : performAll codec c.later rest = (rest.zipIdx 1).filterMap fun p =>
      p.1.perform? codec c p.2 := by
    rw [List.zipIdx_succ, List.filterMap_map, performAll]
    simp only [perform?_later, Function.comp_def]
  rw [hrest, performAll, List.zipIdx_cons, Nat.zero_add, List.filterMap_cons]
  dsimp only
  cases action.perform? codec c 0 <;> rfl

theorem length_performAll_le (codec : Codec) (c : Conditions) (actions : List Action) :
    (performAll codec c actions).length ≤ actions.length := by
  have h :=
    List.length_filterMap_le (fun p : Action × Nat => p.1.perform? codec c p.2) actions.zipIdx
  rw [List.length_zipIdx] at h
  exact h

theorem performAll_send {codec : Codec} {c : Conditions} {m : Message} {e : Endpoint}
    {bytes : Bytes} (h : codec.encode (c.vector 0) m = .ok bytes) :
    performAll codec c [.send m e] = if c.sends 0 = true then [.datagram m bytes e] else [] := by
  cases hs : c.sends 0 <;> simp [performAll, perform?, h, hs]

/-- A single message leads to its datagram or to nothing. -/
theorem performAll_send_cases (codec : Codec) (c : Conditions) (m : Message) (e : Endpoint) :
    performAll codec c [.send m e] = [] ∨ ∃ bytes iv, codec.encode iv m = .ok bytes ∧
      performAll codec c [.send m e] = [.datagram m bytes e] := by
  cases h : codec.encode (c.vector 0) m with
  | error fault => exact .inl (by simp [performAll, perform?, h])
  | ok bytes =>
    rw [performAll_send h]
    split
    · exact .inr ⟨bytes, _, h, rfl⟩
    · exact .inl rfl

theorem exists_of_mem_performAll {codec : Codec} {c : Conditions} {actions : List Action}
    {emission : Emission} (h : emission ∈ performAll codec c actions) :
    ∃ action ∈ actions, ∃ position, action.perform? codec c position = some emission := by
  obtain ⟨⟨action, position⟩, hmem, hperform⟩ := List.mem_filterMap.mp h
  exact ⟨action, List.fst_mem_of_mem_zipIdx hmem, position, hperform⟩

/-- A datagram that was sent is the encoding of a message that was to be sent to its recipient. -/
theorem send_of_mem_performAll {codec : Codec} {c : Conditions} {actions : List Action}
    {m : Message} {bytes : Bytes} {e : Endpoint}
    (h : .datagram m bytes e ∈ performAll codec c actions) :
    .send m e ∈ actions ∧ ∃ iv, codec.encode iv m = .ok bytes := by
  obtain ⟨action, hmem, position, hperform⟩ := exists_of_mem_performAll h
  cases action with
  | send message recipient =>
    rw [perform?] at hperform
    split at hperform
    · rename_i d hd
      split at hperform
      · cases hperform
        exact ⟨hmem, _, hd⟩
      · cases hperform
    · cases hperform
  | deliver packet =>
    rw [perform?] at hperform
    split at hperform
    · cases hperform
    · cases hperform

theorem deliver_of_mem_performAll {codec : Codec} {c : Conditions} {actions : List Action}
    {packet : Bytes} (h : .packet packet ∈ performAll codec c actions) :
    .deliver packet ∈ actions := by
  obtain ⟨action, hmem, position, hperform⟩ := exists_of_mem_performAll h
  cases action with
  | send message recipient =>
    rw [perform?] at hperform
    split at hperform
    · split at hperform
      · cases hperform
      · cases hperform
    · cases hperform
  | deliver packet' =>
    rw [perform?] at hperform
    split at hperform
    · cases hperform
      exact hmem
    · cases hperform

theorem performAll_deliver (codec : Codec) (c : Conditions) (packet : Bytes) :
    performAll codec c [.deliver packet] = if c.writes 0 = true then [.packet packet] else [] := by
  cases hw : c.writes 0 <;> simp [performAll, perform?, hw]

end Action

end PacketTunnel
