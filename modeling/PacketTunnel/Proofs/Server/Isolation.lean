import PacketTunnel.Proofs.Server.Ownership

/-!
# Isolation of peers

A session ends for one of four reasons: it was silent for too long, its peer said farewell or asked
for addresses when there are none, another peer took one of its addresses, or the server shuts down.
Short of that, nothing that the device, the clock or another peer does shows in it, except in its
count of sent datagrams.
-/
namespace PacketTunnel.Server

open SessionTable

/-- The session of an endpoint is as it was, its count of sent datagrams apart, and the index still
leads to it from each of its addresses. -/
def Undisturbed (s' : Server) (e : Endpoint) (x : Session) : Prop :=
  (∃ sent, s'.sessions.find? e = some { x with sent := sent }) ∧
    ∀ a, x.addresses.contains a = true → s'.sessions.endpointFor? a = some e

theorem undisturbed_of_find? {s' : Server} (hs' : s'.sessions.Indexed) {e : Endpoint} {x : Session}
    {sent : Tally} (h : s'.sessions.find? e = some { x with sent := sent }) : Undisturbed s' e x :=
  ⟨⟨sent, h⟩, fun _ ha => hs'.owner_iff.mpr ⟨_, h, ha⟩⟩

theorem find?_step (s : Server) (c : Conditions) (now : Time) (event : Event) (e : Endpoint) :
    (engine.step c now event s).1.sessions.find? e =
      ((s.react now event).1.sessions.find? e).map fun x => { x with
        sent := (Action.performAll s.codec c (s.react now event).2).foldl (Emission.tally e)
          x.sent } :=
  find?_credits _ _ e

theorem find?_step_eq_none_iff {s : Server} {c : Conditions} {now : Time} {event : Event}
    {e : Endpoint} :
    (engine.step c now event s).1.sessions.find? e = none ↔
      (s.react now event).1.sessions.find? e = none := by
  rw [find?_step, Option.map_eq_none_iff]

theorem undisturbed_step {s : Server} (hs : Sound s.options.own s.sessions) {c : Conditions}
    {now : Time} {event : Event} {e : Endpoint} {x : Session}
    (h : (s.react now event).1.sessions.find? e = some x) :
    Undisturbed (engine.step c now event s).1 e x := by
  have hfind := find?_step s c now event e
  rw [h] at hfind
  exact undisturbed_of_find? (sound_step hs c now event).toIndexed hfind

theorem find?_tick {s : Server} (hs : s.sessions.Indexed) (now : Time) (calendar : UInt64)
    {e : Endpoint} {x : Session} (hx : s.sessions.find? e = some x) :
    (s.react now (.tick calendar)).1.sessions.find? e =
      if s.options.sessionExpiry < x.idle now then none else some x := by
  have hstale : e ∈ s.sessions.stale now s.options.sessionExpiry ↔
      s.options.sessionExpiry < x.idle now := by
    rw [hs.mem_stale, hx]
    simp [Session.isExpired]
  change (s.sessions.removeAll _).find? e = _
  simp only [find?_removeAll, hstale, hx]

theorem find?_shutdown {s : Server} (hs : s.sessions.Indexed) (now : Time) (e : Endpoint) :
    (s.react now .shutdown).1.sessions.find? e = none := by
  change (s.sessions.removeAll s.sessions.endpoints).find? e = none
  rw [find?_removeAll]
  cases hx : s.sessions.find? e with
  | none => rw [ite_self]
  | some x => rw [if_pos (hs.mem_endpoints.mpr ⟨x, hx⟩)]

/-- What a datagram does to the session of another endpoint: nothing, or the sender afterwards holds
one of its addresses and it is gone. -/
theorem find?_receive_of_ne {s : Server} (hs : Sound s.options.own s.sessions) (now : Time)
    (bytes : Bytes) {e f : Endpoint} (hne : e ≠ f) {x : Session}
    (hx : s.sessions.find? e = some x) :
    (s.receive now bytes f).1.sessions.find? e = some x ∨
      (s.receive now bytes f).1.sessions.find? e = none ∧
        ∃ y a, (s.receive now bytes f).1.sessions.find? f = some y ∧
          y.addresses.contains a = true ∧ x.addresses.contains a = true := by
  cases hd : s.codec.decode bytes with
  | error r =>
    rw [receive_rejected hd]
    exact .inl hx
  | ok m =>
    have hcases := receive_reception hs.foreign now f hd
    generalize (s.receive now bytes f).1.sessions = t at hcases ⊢
    cases hcases with
    | untouched => exact .inl hx
    | touched g hg =>
      refine .inl ?_
      rw [find?_modify, if_neg hne]
      exact hx
    | removed hm =>
      refine .inl ?_
      rw [find?_remove, if_neg hne]
      exact hx
    | settled v g hg hv =>
      simp only [find?_modify, if_neg hne, if_true, find?_settle hs.toIndexed]
      by_cases hh : e ∈ holders s.sessions v
      · obtain ⟨a, hva, ho⟩ := mem_holders.mp hh
        refine .inr ⟨if_pos hh, _, a, rfl, ?_, (hs.contains_iff hx a).mpr ho⟩
        rw [(hg _).2]
        exact hva
      · exact .inl ((if_neg hh).trans hx)

/-- A datagram ends its own sender's session exactly by a farewell, or by a login for which there is
no address. -/
theorem find?_receive_self {s : Server} (hs : Sound s.options.own s.sessions) (now : Time)
    (bytes : Bytes) {e : Endpoint} {x : Session} (hx : s.sessions.find? e = some x) :
    (s.receive now bytes e).1.sessions.find? e = none ↔
      s.codec.decode bytes = .ok .disconnect ∨
        ∃ v, s.codec.decode bytes = .ok (.clientLogin v) ∧ s.NoAddress v e := by
  cases hd : s.codec.decode bytes with
  | error r => simp [receive_rejected hd, hx]
  | ok m =>
    simp only [Except.ok.injEq]
    constructor
    · intro hgone
      have hcases := receive_reception hs.foreign now e hd
      generalize (s.receive now bytes e).1.sessions = t at hcases hgone
      cases hcases with
      | untouched =>
        rw [hx] at hgone
        cases hgone
      | touched g hg =>
        rw [find?_modify, if_pos rfl, hx] at hgone
        cases hgone
      | removed hm =>
        rcases hm with hm | ⟨v, hm, hv⟩
        · exact .inl hm
        · exact .inr ⟨v, hm, assign_isEmpty_iff.mp hv⟩
      | settled v g hg hv =>
        rw [find?_modify, if_pos rfl, find?_settle hs.toIndexed, if_pos rfl] at hgone
        cases hgone
    · have hgone : (s.sessions.remove e).find? e = none := by rw [find?_remove, if_pos rfl]
      rintro (rfl | ⟨v, rfl, hv⟩)
      · rw [receive_of_decode hd, accept]
        exact hgone
      · have hempty : (s.heard.assign v e).isEmpty = true := (assign_isEmpty_iff (s := s)).mpr hv
        rw [receive_of_decode hd, accept, login]
        simp only [hempty, if_true]
        exact hgone

theorem find?_react_eq_none {s : Server} (hs : Sound s.options.own s.sessions) (now : Time)
    {event : Event} {e : Endpoint} (hother : ∀ bytes, event ≠ .datagram bytes e)
    (hnone : s.sessions.find? e = none) :
    (s.react now event).1.sessions.find? e = none := by
  have hremoved (es : List Endpoint) : (s.sessions.removeAll es).find? e = none := by
    rw [find?_removeAll, hnone, ite_self]
  cases event with
  | packet bytes =>
    rw [react, dispatch]
    split <;> exact hnone
  | datagram bytes f =>
    have hne : e ≠ f := fun he => hother bytes (by rw [he])
    rw [react]
    cases hd : s.codec.decode bytes with
    | error r =>
      rw [receive_rejected hd]
      exact hnone
    | ok m =>
      have hcases := receive_reception hs.foreign now f hd
      generalize (s.receive now bytes f).1.sessions = t at hcases ⊢
      cases hcases with
      | untouched => exact hnone
      | touched g hg => rw [find?_modify, if_neg hne, hnone]
      | removed hm => exact hremoved [f]
      | settled v g hg hv =>
        rw [find?_modify, if_neg hne, find?_settle hs.toIndexed, if_neg hne, hnone, ite_self]
  | outcome outcome => exact hnone
  | tick calendar => exact hremoved _
  | shutdown => exact hremoved _

/-- What ends a session in a step. -/
def Ends (s : Server) (c : Conditions) (now : Time) (e : Endpoint) (x : Session) : Event → Prop
  | .packet _ => False
  | .outcome _ => False
  | .tick _ => s.options.sessionExpiry < x.idle now
  | .shutdown => True
  | .datagram bytes f =>
    if f = e then
      s.codec.decode bytes = .ok .disconnect ∨
        ∃ v, s.codec.decode bytes = .ok (.clientLogin v) ∧ s.NoAddress v e
    else
      ∃ y a, (engine.step c now (.datagram bytes f) s).1.sessions.find? f = some y ∧
        y.addresses.contains a = true ∧ x.addresses.contains a = true

theorem datagram_of_ne {s : Server} (hs : Sound s.options.own s.sessions) (c : Conditions)
    (now : Time) (bytes : Bytes) {e f : Endpoint} (hne : e ≠ f) {x : Session}
    (hx : s.sessions.find? e = some x) :
    (engine.step c now (.datagram bytes f) s).1.sessions.find? e = none ∧
        s.Ends c now e x (.datagram bytes f) ∨
      Undisturbed (engine.step c now (.datagram bytes f) s).1 e x ∧
        ¬ s.Ends c now e x (.datagram bytes f) := by
  rw [Ends, if_neg hne.symm]
  rcases find?_receive_of_ne hs now bytes hne hx with h | ⟨hgone, y, a, hy, hya, hxa⟩
  · have hu : Undisturbed (engine.step c now (.datagram bytes f) s).1 e x := undisturbed_step hs h
    refine .inr ⟨hu, ?_⟩
    rintro ⟨y, a, hy, hya, hxa⟩
    obtain ⟨⟨sent, hfind⟩, -⟩ := hu
    exact hne ((sound_step hs c now _).unique hfind hy hxa hya)
  · refine .inl ⟨find?_step_eq_none_iff.mpr hgone, ?_⟩
    have hfind := find?_step s c now (.datagram bytes f) f
    rw [react, hy] at hfind
    exact ⟨_, a, hfind, hya, hxa⟩

/-- In every reachable state a session ends in a step exactly for the reason that `Ends` names; a
session that goes on is undisturbed by everything but a datagram of its own peer. -/
theorem session_fate {s : Server} (hs : s.Reachable) {e : Endpoint} {x : Session}
    (hx : s.sessions.find? e = some x) (c : Conditions) (now : Time) (event : Event) :
    ((engine.step c now event s).1.sessions.find? e = none ↔ s.Ends c now e x event) ∧
    (¬ s.Ends c now e x event → (∀ bytes, event ≠ .datagram bytes e) →
      Undisturbed (engine.step c now event s).1 e x) := by
  have h := hs.sound
  cases event with
  | packet bytes =>
    have hstay : (s.react now (.packet bytes)).1.sessions.find? e = some x := by
      rw [react, dispatch]
      split <;> exact hx
    rw [find?_step_eq_none_iff, hstay]
    exact ⟨by simp [Ends], fun _ _ => undisturbed_step h hstay⟩
  | outcome outcome =>
    have hstay : (s.react now (.outcome outcome)).1.sessions.find? e = some x := hx
    rw [find?_step_eq_none_iff, hstay]
    exact ⟨by simp [Ends], fun _ _ => undisturbed_step h hstay⟩
  | tick calendar =>
    have htick := find?_tick h.toIndexed now calendar hx
    rw [find?_step_eq_none_iff, htick, Ends]
    constructor
    · split <;> simp_all
    · intro hidle _
      exact undisturbed_step h (htick.trans (if_neg hidle))
  | shutdown =>
    rw [find?_step_eq_none_iff, find?_shutdown h.toIndexed]
    exact ⟨by simp [Ends], fun hn => absurd trivial hn⟩
  | datagram bytes f =>
    by_cases hf : e = f
    · subst hf
      refine ⟨?_, fun _ hother => absurd rfl (hother bytes)⟩
      rw [find?_step_eq_none_iff, Ends, if_pos rfl]
      exact find?_receive_self h now bytes hx
    · rcases datagram_of_ne h c now bytes hf hx with ⟨hgone, hends⟩ | ⟨hu, hends⟩
      · exact ⟨⟨fun _ => hends, fun _ => hgone⟩, fun hn => absurd hends hn⟩
      · obtain ⟨⟨sent, hfind⟩, -⟩ := id hu
        exact ⟨by simp [hfind, hends], fun _ _ => hu⟩

theorem session_fate_pair :
    pair.Reachable ∧ ∃ x, pair.sessions.find? (caller 1) = some x ∧
      ¬ pair.Ends Conditions.fair 40 (caller 1) x (.tick 0) ∧
      Undisturbed (engine.step Conditions.fair 40 (.tick 0) pair).1 (caller 1) x := by
  have hsome : (pair.sessions.find? (caller 1)).isSome = true := by decide +kernel
  obtain ⟨x, hx⟩ := Option.isSome_iff_exists.mp hsome
  have h := session_fate reachable_pair hx Conditions.fair 40 (.tick 0)
  have hstay : (engine.step Conditions.fair 40 (.tick 0) pair).1.sessions.find? (caller 1) ≠
      none := by
    decide +kernel
  have hends : ¬ pair.Ends Conditions.fair 40 (caller 1) x (.tick 0) := fun hn => hstay (h.1.mpr hn)
  exact ⟨reachable_pair, x, hx, hends, h.2 hends fun _ => Event.noConfusion⟩

end PacketTunnel.Server
