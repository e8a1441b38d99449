import PacketTunnel.Proofs.Datagram.RoundTrip
import PacketTunnel.Proofs.Server.Isolation
import PacketTunnel.Proofs.Session.Reordering

/-!
# The order of sessions does not matter

A server keeps its sessions in a table that may be gone through in any order. Whatever the order, a
tick forgets the same peers, a shutdown sends one farewell to each peer and leaves nothing behind,
and the status is the same to the letter. At a shutdown the peers are told and forgotten one by one;
the server's own order, by the text of the endpoints, is one of the orders in which that may be
done. The farewells always fit into datagrams, since a server with a session has read one, and none
is shorter.
-/
namespace PacketTunnel.Server

open SessionTable

def withSessions (s : Server) (t : SessionTable) : Server := { s with sessions := t }

/-- Servers that differ in nothing but the order in which their tables are gone through. -/
structure Reorders (s s' : Server) : Prop where
  sessions : s.sessions.Reorders s'.sessions
  rest : s' = s.withSessions s'.sessions

namespace Reorders

variable {s s' : Server}

theorem symm (h : s.Reorders s') : s'.Reorders s where
  sessions := h.sessions.symm
  rest := by
    rw [h.rest]
    rfl

theorem trans {s'' : Server} (h : s.Reorders s') (h' : s'.Reorders s'') : s.Reorders s'' where
  sessions := h.sessions.trans h'.sessions
  rest := by
    rw [h'.rest, h.rest]
    rfl

theorem codec (h : s.Reorders s') : s'.codec = s.codec := by
  rw [h.rest]
  rfl

theorem options (h : s.Reorders s') : s'.options = s.options := by
  rw [h.rest]
  rfl

end Reorders

theorem step_tick (s : Server) (c : Conditions) (now : Time) (calendar : UInt64) :
    engine.step c now (.tick calendar) s =
      (s.withSessions (s.sessions.removeAll (s.sessions.stale now s.options.sessionExpiry)), []) :=
  Engine.step_of_silent rfl c

theorem Reorders.tick {s s' : Server} (h : s.Reorders s') (hs : s.sessions.Indexed) (c : Conditions)
    (now : Time) (calendar : UInt64) :
    (engine.step c now (.tick calendar) s).1.Reorders
      (engine.step c now (.tick calendar) s').1 := by
  rw [step_tick, step_tick, h.options]
  refine ⟨hs.removeAll_perm h.sessions (h.sessions.stale _ _), ?_⟩
  rw [h.rest]
  rfl

def Expires (s : Server) (c : Conditions) (now : Time) (calendar : UInt64) (e : Endpoint) : Prop :=
  (∃ x, s.sessions.find? e = some x) ∧
    (engine.step c now (.tick calendar) s).1.sessions.find? e = none

theorem expires_iff {s : Server} (hs : s.sessions.Indexed) (c : Conditions) (now : Time)
    (calendar : UInt64) (e : Endpoint) :
    s.Expires c now calendar e ↔
      ∃ x, s.sessions.find? e = some x ∧ s.options.sessionExpiry < now.since x.lastReceived := by
  have hafter : (engine.step c now (.tick calendar) s).1.sessions.find? e =
      if e ∈ s.sessions.stale now s.options.sessionExpiry then none else s.sessions.find? e := by
    rw [step_tick]
    exact find?_removeAll _ _ e
  have hstale : e ∈ s.sessions.stale now s.options.sessionExpiry ↔
      ∃ x, s.sessions.find? e = some x ∧ s.options.sessionExpiry < now.since x.lastReceived := by
    rw [hs.mem_stale]
    exact exists_congr fun x => and_congr_right fun _ => decide_eq_true_iff
  rw [Expires, hafter]
  constructor
  · rintro ⟨⟨x, hx⟩, hgone⟩
    split at hgone
    case isTrue hmem => exact hstale.mp hmem
    case isFalse => cases hx.symm.trans hgone
  · rintro ⟨x, hx, hsilent⟩
    exact ⟨⟨x, hx⟩, if_pos (hstale.mpr ⟨x, hx, hsilent⟩)⟩

/-- Tell endpoints one after the other that the tunnel ends, and forget the session of each as soon
as it is told. -/
def dismiss (c : Conditions) : List Endpoint → Server → Server × List Emission
  | [], s => (s, [])
  | e :: rest, s =>
    let sent := Action.performAll s.codec c [.send .disconnect e]
    let told := sent.foldl credit s
    let (s', later) := dismiss c.later rest (told.withSessions (told.sessions.remove e))
    (s', sent ++ later)

def farewells (s : Server) (c : Conditions) (order : List Endpoint) : List Emission :=
  Action.performAll s.codec c (order.map (.send .disconnect ·))

theorem farewells_cons (s : Server) (c : Conditions) (e : Endpoint) (rest : List Endpoint) :
    s.farewells c (e :: rest) = s.farewells c [e] ++ s.farewells c.later rest := by
  simp only [farewells, List.map_cons, List.map_nil, Action.performAll_cons, Action.performAll_nil,
    List.append_nil]

/-- A datagram to an endpoint without a session counts for the server alone. -/
theorem credit_of_find?_eq_none {s : Server} {e : Endpoint} (h : s.sessions.find? e = none)
    (m : Message) (bytes : Bytes) :
    s.credit (.datagram m bytes e) = s.count fun c =>
      { c with datagramsOut := c.datagramsOut + 1 } :=
  congrArg (s.count fun c => { c with datagramsOut := c.datagramsOut + 1 }).withSessions
    (modify_of_find?_eq_none h _)

theorem credit_farewell (s : Server) (c : Conditions) {e : Endpoint} {t : SessionTable}
    (ht : t.find? e = none) :
    (s.farewells c [e]).foldl credit (s.withSessions t) =
      ((s.farewells c [e]).foldl credit s).withSessions t := by
  rcases Action.performAll_send_cases s.codec c .disconnect e with h | ⟨bytes, iv, -, h⟩
  · have hnone : s.farewells c [e] = [] := h
    rw [hnone]
    rfl
  · have hone : s.farewells c [e] = [.datagram .disconnect bytes e] := h
    rw [hone]
    exact credit_of_find?_eq_none (s := s.withSessions t) ht .disconnect bytes

theorem remove_farewell (s : Server) (c : Conditions) (e : Endpoint) :
    ((s.farewells c [e]).foldl credit s).sessions.remove e = s.sessions.remove e := by
  rcases Action.performAll_send_cases s.codec c .disconnect e with h | ⟨bytes, iv, -, h⟩
  · have hnone : s.farewells c [e] = [] := h
    rw [hnone]
    rfl
  · have hone : s.farewells c [e] = [.datagram .disconnect bytes e] := h
    rw [hone]
    exact remove_modify s.sessions e fun _ => rfl

/-- Telling and forgetting one by one comes to the same as forgetting all of them and then telling
them. -/
theorem dismiss_eq (c : Conditions) (order : List Endpoint) (s : Server) :
    dismiss c order s =
      ((s.farewells c order).foldl credit (s.withSessions (s.sessions.removeAll order)),
        s.farewells c order) := by
  induction order generalizing c s with
  | nil => rfl
  | cons e rest ih =>
    have hgone : ((s.sessions.remove e).removeAll rest).find? e = none := by
      rw [find?_removeAll, find?_remove, if_pos rfl, ite_self]
    have hcredit := s.credit_farewell c hgone
    have hremove := s.remove_farewell c e
    have hcodec : ((s.farewells c [e]).foldl credit s).codec = s.codec :=
      (sameSetup_credits s _).codec
    generalize htold : (s.farewells c [e]).foldl credit s = told at hcredit hremove hcodec
    have hrest := ih c.later (told.withSessions (told.sessions.remove e))
    have hsame : (told.withSessions (told.sessions.remove e)).farewells c.later rest =
        s.farewells c.later rest :=
      congrArg (Action.performAll · c.later (rest.map (.send .disconnect ·))) hcodec
    have hleft : (told.withSessions (told.sessions.remove e)).withSessions
        ((told.withSessions (told.sessions.remove e)).sessions.removeAll rest) =
          told.withSessions ((s.sessions.remove e).removeAll rest) :=
      congrArg (fun t : SessionTable => told.withSessions (t.removeAll rest)) hremove
    have hunfold : dismiss c (e :: rest) s =
        ((dismiss c.later rest (told.withSessions (told.sessions.remove e))).1,
          s.farewells c [e] ++
          (dismiss c.later rest (told.withSessions (told.sessions.remove e))).2) := by
      rw [← htold]
      rfl
    rw [hunfold, hrest, hsame, hleft, ← hcredit, farewells_cons s c e rest, List.foldl_append]
    rfl

theorem step_shutdown (s : Server) (c : Conditions) (now : Time) :
    engine.step c now .shutdown s = dismiss c s.sessions.endpoints s :=
  (dismiss_eq c s.sessions.endpoints s).symm

def CanDismiss (s : Server) : Prop := ∀ iv, ∃ d, s.codec.encode iv .disconnect = .ok d

theorem exists_decode_of_session {s : Server} (hs : s.Reachable) {e : Endpoint} {x : Session}
    (hx : s.sessions.find? e = some x) : ∃ bytes m, s.codec.decode bytes = .ok m := by
  obtain ⟨protection, mtu, routes, options, origin, hreaches⟩ := hs
  have hinvariant := hreaches.preserves
    (P := fun u => Sound u.options.own u.sessions ∧
      ∀ e x, u.sessions.find? e = some x → ∃ bytes m, u.codec.decode bytes = .ok m)
    ⟨Sound.empty, fun e x hx => by cases hx⟩ ?_
  · exact hinvariant.2 e x hx
  · rintro u m ⟨hsound, hread⟩
    refine ⟨sound_step hsound m.conditions m.now m.event, fun e x hx => ?_⟩
    rw [(sameSetup_step u m.conditions m.now m.event).codec]
    by_cases hdatagram : ∃ bytes, m.event = .datagram bytes e
    · obtain ⟨bytes, hevent⟩ := hdatagram
      cases hd : u.codec.decode bytes with
      | ok message => exact ⟨bytes, message, hd⟩
      | error r =>
        rw [find?_step, hevent, react, receive_rejected hd] at hx
        obtain ⟨x₀, hx₀, -⟩ := Option.map_eq_some_iff.mp hx
        exact hread e x₀ hx₀
    · cases hbefore : u.sessions.find? e with
      | some x₀ => exact hread e x₀ hbefore
      | none =>
        have hnone :=
          find?_react_eq_none hsound m.now (fun bytes hevent => hdatagram ⟨bytes, hevent⟩) hbefore
        rw [find?_step_eq_none_iff.mpr hnone] at hx
        cases hx

/-- A server with a sound table and with a datagram for every farewell that it may have to send. -/
structure Ready (s : Server) : Prop where
  sound : Sound s.options.own s.sessions
  able : ∀ {e x}, s.sessions.find? e = some x → s.CanDismiss

theorem Reachable.ready {s : Server} (hs : s.Reachable) : s.Ready where
  sound := hs.sound
  able hx := by
    obtain ⟨bytes, m, hd⟩ := exists_decode_of_session hs hx
    exact Codec.exists_encode_disconnect hd

theorem Reorders.ready {s s' : Server} (h : s.Reorders s') (hs : s.Ready) : s'.Ready where
  sound :=
    { toIndexed := h.sessions.indexed hs.sound.toIndexed
      proper := fun hx => by
        rw [← h.sessions.find?] at hx
        rw [h.options]
        exact hs.sound.proper hx }
  able hx := by
    rw [← h.sessions.find?] at hx
    intro iv
    rw [h.codec]
    exact hs.able hx iv

theorem farewells_singleton {s : Server} (hs : s.CanDismiss) {c : Conditions} (hc : c.Sending)
    (e : Endpoint) :
    ∃ d, s.farewells c [e] = [.datagram .disconnect d e] := by
  obtain ⟨d, hd⟩ := hs (c.vector 0)
  have hperform := Action.performAll_send (e := e) hd
  rw [hc 0, if_pos rfl] at hperform
  exact ⟨d, hperform⟩

theorem sent_farewells {s : Server} (hs : s.CanDismiss) {c : Conditions} (hc : c.Sending)
    (order : List Endpoint) :
    (s.farewells c order).filterMap Emission.sent? = order.map ((Message.disconnect, ·)) := by
  induction order generalizing c with
  | nil => rfl
  | cons e rest ih =>
    obtain ⟨d, hone⟩ := farewells_singleton hs hc e
    rw [farewells_cons s c e rest, hone, List.filterMap_append, ih fun n => hc (n + 1)]
    rfl

theorem sent_farewells_sublist (s : Server) (c : Conditions) (order : List Endpoint) :
    ((s.farewells c order).filterMap Emission.sent?).Sublist
      (order.map ((Message.disconnect, ·))) := by
  induction order generalizing c with
  | nil => exact List.Sublist.refl _
  | cons e rest ih =>
    rw [farewells_cons, List.filterMap_append, List.map_cons]
    rcases Action.performAll_send_cases s.codec c .disconnect e with h | ⟨bytes, iv, -, h⟩
    · have hnone : s.farewells c [e] = [] := h
      rw [hnone]
      exact (ih c.later).cons _
    · have hone : s.farewells c [e] = [.datagram .disconnect bytes e] := h
      rw [hone]
      exact (ih c.later).cons_cons _

/-- The server once it has sent a number of datagrams to endpoints without a session. -/
def sentOut (s : Server) : Nat → Server
  | 0 => s
  | n + 1 => (s.count fun c => { c with datagramsOut := c.datagramsOut + 1 }).sentOut n

theorem Reorders.sentOut {s s' : Server} (h : s.Reorders s') (n : Nat) :
    (s.sentOut n).Reorders (s'.sentOut n) := by
  induction n generalizing s s' with
  | zero => exact h
  | succ n ih =>
    refine ih ⟨h.sessions, ?_⟩
    rw [h.rest]
    rfl

theorem credit_farewells {s : Server} (hs : s.CanDismiss) {c : Conditions} (hc : c.Sending)
    {order : List Endpoint} {u : Server} (hu : ∀ e ∈ order, u.sessions.find? e = none) :
    (s.farewells c order).foldl credit u = u.sentOut order.length := by
  induction order generalizing c u with
  | nil => rfl
  | cons e rest ih =>
    obtain ⟨d, hone⟩ := farewells_singleton hs hc e
    rw [farewells_cons s c e rest, hone, List.singleton_append, List.foldl_cons,
      credit_of_find?_eq_none (hu e List.mem_cons_self)]
    exact ih (fun n => hc (n + 1)) fun e' he' => hu e' (List.mem_cons_of_mem e he')

theorem dismiss_of_sending {s : Server} (hs : s.CanDismiss) {c : Conditions} (hc : c.Sending)
    (order : List Endpoint) :
    dismiss c order s =
      ((s.withSessions (s.sessions.removeAll order)).sentOut order.length,
        s.farewells c order) := by
  rw [dismiss_eq, credit_farewells hs hc]
  intro e he
  exact (find?_removeAll _ _ e).trans (if_pos he)

/-- An order in which all sessions of a server can be gone through. -/
def IsOrder (s : Server) (order : List Endpoint) : Prop := order.Perm s.sessions.endpoints

theorem Reorders.isOrder {s s' : Server} (h : s.Reorders s') {order : List Endpoint}
    (horder : s'.IsOrder order) :
    s.IsOrder order :=
  horder.trans
    ((s'.sessions.endpoints_perm.trans (h.symm.sessions.values.map _)).trans
      s.sessions.endpoints_perm.symm)

/-- How a server is left when every peer has been told: each got one farewell at most, and one if
the socket works; nobody else got anything; and neither a session nor an address remains. -/
structure Dismissed (s : Server) (c : Conditions) (after : Server × List Emission) : Prop where
  once : (after.2.filterMap Emission.sent?).Nodup
  only : ∀ m e, (m, e) ∈ after.2.filterMap Emission.sent? → m = .disconnect ∧
    ∃ x, s.sessions.find? e = some x
  all : c.Sending → ∀ e x, s.sessions.find? e = some x →
    (.disconnect, e) ∈ after.2.filterMap Emission.sent?
  forgotten : ∀ e, after.1.sessions.find? e = none
  unowned : ∀ a, after.1.sessions.endpointFor? a = none

section

variable {s : Server} {order : List Endpoint}

theorem IsOrder.mem_iff (horder : s.IsOrder order) (hs : s.sessions.Indexed) (e : Endpoint) :
    e ∈ order ↔ ∃ x, s.sessions.find? e = some x := by
  rw [List.Perm.mem_iff horder, hs.mem_endpoints]

theorem sent_dismiss (hs : s.Ready) (horder : s.IsOrder order) {c : Conditions} (hc : c.Sending) :
    (dismiss c order s).2.filterMap Emission.sent? = order.map ((Message.disconnect, ·)) := by
  rw [dismiss_eq]
  cases order with
  | nil => rfl
  | cons e rest =>
    obtain ⟨x, hx⟩ := (horder.mem_iff hs.sound.toIndexed e).mp List.mem_cons_self
    exact sent_farewells (hs.able hx) hc (e :: rest)

theorem find?_dismiss (hs : s.Ready) (horder : s.IsOrder order) (c : Conditions) (e : Endpoint) :
    (dismiss c order s).1.sessions.find? e = none := by
  have hnone : (s.withSessions (s.sessions.removeAll order)).sessions.find? e = none := by
    refine (find?_removeAll _ _ e).trans ?_
    split
    · rfl
    · rename_i hforeign
      exact Option.eq_none_iff_forall_ne_some.mpr fun x hx =>
        hforeign ((horder.mem_iff hs.sound.toIndexed e).mpr ⟨x, hx⟩)
  rw [dismiss_eq, find?_credits, hnone, Option.map_none]

theorem endpointFor?_dismiss (hs : s.Ready) (horder : s.IsOrder order) (c : Conditions)
    (a : Address) :
    (dismiss c order s).1.sessions.endpointFor? a = none := by
  have hafter : Sound s.options.own (dismiss c order s).1.sessions := by
    rw [dismiss_eq]
    exact sound_credits (s := s.withSessions (s.sessions.removeAll order))
      (hs.sound.removeAll order) _
  rw [Option.eq_none_iff_forall_ne_some]
  intro e ha
  obtain ⟨x, hx, -⟩ := hafter.owner_iff.mp ha
  cases (find?_dismiss hs horder c e).symm.trans hx

theorem dismissed_dismiss (hs : s.Ready) (horder : s.IsOrder order) (c : Conditions) :
    s.Dismissed c (dismiss c order s) where
  once := by
    have hnodup : order.Nodup := (List.Perm.nodup_iff horder).mpr hs.sound.nodup_inOrder
    have hpairs : (order.map ((Message.disconnect, ·))).Nodup :=
      List.Pairwise.map _ (fun e e' hne he => hne (congrArg Prod.snd he)) hnodup
    rw [dismiss_eq]
    exact (s.sent_farewells_sublist c order).nodup hpairs
  only m e hsent := by
    rw [dismiss_eq] at hsent
    obtain ⟨e', he', hpair⟩ := List.mem_map.mp ((s.sent_farewells_sublist c order).subset hsent)
    cases hpair
    exact ⟨rfl, (horder.mem_iff hs.sound.toIndexed e).mp he'⟩
  all hc e x hx := by
    rw [sent_dismiss hs horder hc]
    exact List.mem_map_of_mem ((horder.mem_iff hs.sound.toIndexed e).mpr ⟨x, hx⟩)
  forgotten := find?_dismiss hs horder c
  unowned := endpointFor?_dismiss hs horder c

end

theorem Reorders.dismissed {s s' : Server} (h : s.Reorders s') {c : Conditions}
    {after : Server × List Emission} (hafter : s'.Dismissed c after) : s.Dismissed c after where
  once := hafter.once
  only m e hsent := by
    rw [h.sessions.find?]
    exact hafter.only m e hsent
  all hc e x hx := hafter.all hc e x (by rwa [← h.sessions.find?])
  forgotten := hafter.forgotten
  unowned := hafter.unowned

/-- Two orders in which the same servers say farewell leave the same server. -/
theorem Reorders.dismiss {s s' : Server} (h : s.Reorders s') (hs : s.Ready) {c c' : Conditions}
    (hc : c.Sending) (hc' : c'.Sending) {order order' : List Endpoint} (horder : s.IsOrder order)
    (horder' : s'.IsOrder order') :
    (dismiss c order s).1.Reorders (dismiss c' order' s').1 := by
  have hperm : order.Perm order' := List.Perm.trans horder (List.Perm.symm (h.isOrder horder'))
  cases order with
  | nil =>
    cases List.Perm.nil_eq hperm
    exact h
  | cons e rest =>
    obtain ⟨x, hx⟩ := (horder.mem_iff hs.sound.toIndexed e).mp List.mem_cons_self
    rw [h.sessions.find?] at hx
    have hs' := h.ready hs
    rw [dismiss_of_sending (hs.able (by rwa [h.sessions.find?])) hc,
      dismiss_of_sending (hs'.able hx) hc', hperm.length_eq]
    refine Reorders.sentOut ⟨hs.sound.removeAll_perm h.sessions hperm, ?_⟩ _
    rw [h.rest]
    rfl

theorem Reorders.snapshot {s s' : Server} (h : s.Reorders s') (hs : s.sessions.Indexed)
    (now : Time) :
    s.snapshot now = s'.snapshot now := by
  have hsessions : s.sessions.snapshots now = s'.sessions.snapshots now :=
    congrArg (List.map fun x : Session => x.snapshot now) (h.sessions.inOrder hs)
  rw [Server.snapshot, hsessions, h.rest]
  rfl

/-- Whatever the orders in which two servers with the same sessions go through their tables, a tick
ends the same sessions, those that were silent for too long, and leaves the same server; a shutdown
sends every peer one farewell, nothing to anyone else, and leaves the same server without sessions
or addresses; and the reports are the same, with the sessions by the text of their endpoints. -/
theorem order_immaterial {s s₁ s₂ : Server} (hs : s.Reachable) (h₁ : s.Reorders s₁)
    (h₂ : s.Reorders s₂) :
    (∀ c now calendar,
      (engine.step c now (.tick calendar) s₁).1.Reorders (engine.step c now (.tick calendar) s₂).1 ∧
      (s₁.sessions.stale now s₁.options.sessionExpiry).Perm
        (s₂.sessions.stale now s₂.options.sessionExpiry) ∧
      ∀ e, (s₁.Expires c now calendar e ↔ s₂.Expires c now calendar e) ∧
        (s₁.Expires c now calendar e ↔
          ∃ x, s.sessions.find? e = some x ∧ s.options.sessionExpiry < now.since x.lastReceived)) ∧
    (∀ order₁ order₂, s₁.IsOrder order₁ → s₂.IsOrder order₂ → ∀ c₁ c₂ : Conditions,
      s.Dismissed c₁ (dismiss c₁ order₁ s₁) ∧ s.Dismissed c₂ (dismiss c₂ order₂ s₂) ∧
      (c₁.Sending → c₂.Sending →
        ((dismiss c₁ order₁ s₁).2.filterMap Emission.sent?).Perm
          ((dismiss c₂ order₂ s₂).2.filterMap Emission.sent?) ∧
        (dismiss c₁ order₁ s₁).1.Reorders (dismiss c₂ order₂ s₂).1)) ∧
    (∀ c now, ∃ order, s₁.IsOrder order ∧ engine.step c now .shutdown s₁ = dismiss c order s₁) ∧
    (∀ now, s₁.snapshot now = s₂.snapshot now ∧
      ((s₁.snapshot now).sessions.Perm (s₁.sessions.sessions.values.map fun x => x.snapshot now)) ∧
      (s₁.snapshot now).sessions.Pairwise fun x y => x.endpoint < y.endpoint) := by
  have h := h₁.symm.trans h₂
  have hs₁ := h₁.ready hs.ready
  have hs₂ := h₂.ready hs.ready
  refine ⟨fun c now calendar => ⟨?_, ?_, fun e => ?_⟩, fun order₁ order₂ horder₁ horder₂ c₁ c₂ =>
    ⟨?_, ?_, fun hc₁ hc₂ => ⟨?_, ?_⟩⟩,
    fun c now => ⟨_, List.Perm.refl _, step_shutdown s₁ c now⟩, fun now => ⟨?_, ?_, ?_⟩⟩
  · exact h.tick hs₁.sound.toIndexed c now calendar
  · rw [h.options]
    exact h.sessions.stale now _
  · rw [expires_iff hs₁.sound.toIndexed, expires_iff hs₂.sound.toIndexed, ← h₁.sessions.find?,
      ← h₂.sessions.find?, h₁.options, h₂.options]
    exact ⟨Iff.rfl, Iff.rfl⟩
  · exact h₁.dismissed (dismissed_dismiss hs₁ horder₁ c₁)
  · exact h₂.dismissed (dismissed_dismiss hs₂ horder₂ c₂)
  · rw [sent_dismiss hs₁ horder₁ hc₁, sent_dismiss hs₂ horder₂ hc₂]
    exact (List.Perm.trans horder₁ (List.Perm.symm (h.isOrder horder₂))).map _
  · exact h.dismiss hs₁ hc₁ hc₂ horder₁ horder₂
  · exact h.snapshot hs₁.sound.toIndexed now
  · exact s₁.sessions.inOrder_perm.map _
  · exact List.Pairwise.map _ (fun x y hlt => hlt) hs₁.sound.inOrder_pairwise_lt

def backwards (s : Server) : Server :=
  s.withSessions ⟨s.sessions.sessions.backwards, s.sessions.owners.backwards⟩

theorem reorders_backwards (s : Server) : s.Reorders s.backwards where
  sessions := ⟨s.sessions.sessions.reorders_backwards, s.sessions.owners.reorders_backwards⟩
  rest := rfl

theorem order_immaterial_pair :
    pair.backwards.sessions.sessions.keys = [caller 2, caller 1] ∧
      pair.Dismissed Conditions.fair (dismiss Conditions.fair [caller 1, caller 2] pair) ∧
      pair.Dismissed Conditions.fair (dismiss Conditions.fair [caller 2, caller 1] pair.backwards) ∧
      Conditions.fair.Sending ∧ pair.snapshot 5 = pair.backwards.snapshot 5 := by
  have h := order_immaterial reachable_pair ⟨.refl pair.sessions, rfl⟩ pair.reorders_backwards
  have hvalues : pair.sessions.sessions.values.map Session.endpoint = [caller 1, caller 2] := by
    decide +kernel
  have hbackwards : pair.backwards.sessions.sessions.values.map Session.endpoint =
      [caller 2, caller 1] := by
    decide +kernel
  have horder₁ : pair.IsOrder [caller 1, caller 2] := by
    rw [← hvalues]
    exact pair.sessions.endpoints_perm.symm
  have horder₂ : pair.backwards.IsOrder [caller 2, caller 1] := by
    rw [← hbackwards]
    exact pair.backwards.sessions.endpoints_perm.symm
  obtain ⟨hone, htwo, -⟩ := h.2.1 _ _ horder₁ horder₂ Conditions.fair Conditions.fair
  exact ⟨by decide +kernel, hone, htwo, fun _ => rfl, (h.2.2.2 5).1⟩

end PacketTunnel.Server
