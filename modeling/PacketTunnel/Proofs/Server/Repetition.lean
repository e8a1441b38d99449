import PacketTunnel.Proofs.Server.Hearing
import PacketTunnel.Proofs.Server.Login

/-!
# A login that comes twice

Clients repeat a login until it is answered, and the wire may copy it. The second of two equal
logins is answered like the first one and changes nothing but reception times and counts. There is
one exception. The addresses of a login are chosen before their other holders are removed, so when
no address of the pool is left and the login takes a version 6 address from a peer that also holds
one of the pool, this one is free from then on, but only the second login gets it.
-/
namespace PacketTunnel

def Session.unmetered (x : Session) : Session :=
  { x with lastReceived := 0, received := .zero, sent := .zero }

theorem Session.addresses_unmetered (x : Session) : x.unmetered.addresses = x.addresses := rfl

theorem map_addresses_of_unmetered {found found' : Option Session}
    (h : found'.map Session.unmetered = found.map Session.unmetered) :
    found'.map Session.addresses = found.map Session.addresses := by
  have haddresses := congrArg (Option.map Session.addresses) h
  rw [Option.map_map, Option.map_map] at haddresses
  exact haddresses

namespace SessionTable

variable {t t' : SessionTable}

theorem exists_contains_iff {e : Endpoint} {a : Address} :
    (∃ x, t.find? e = some x ∧ x.addresses.contains a = true) ↔
      ∃ v, (t.find? e).map Session.addresses = some v ∧ v.contains a = true := by
  simp only [Option.map_eq_some_iff]
  constructor
  · rintro ⟨x, hx, ha⟩
    exact ⟨_, ⟨x, hx, rfl⟩, ha⟩
  · rintro ⟨_, ⟨x, hx, rfl⟩, ha⟩
    exact ⟨x, hx, ha⟩

/-- Indexed tables whose sessions hold the same addresses have the same index. -/
theorem Indexed.endpointFor?_congr (ht : t.Indexed) (ht' : t'.Indexed)
    (h : ∀ e, (t'.find? e).map Session.addresses = (t.find? e).map Session.addresses)
    (a : Address) :
    t'.endpointFor? a = t.endpointFor? a := by
  apply Option.ext
  intro e
  rw [ht'.owner_iff, ht.owner_iff, exists_contains_iff, exists_contains_iff, h]

theorem Indexed.isTaken_iff (ht : t.Indexed) {a : Address} {e : Endpoint} :
    t.isTaken a e = true ↔ ∃ g x, g ≠ e ∧ t.find? g = some x ∧ x.addresses.contains a = true := by
  simp only [isTaken, Option.any_eq_true, decide_eq_true_eq, ht.owner_iff]
  constructor
  · rintro ⟨g, ⟨x, hx, ha⟩, hne⟩
    exact ⟨g, x, hne, hx, ha⟩
  · rintro ⟨g, x, hne, hx, ha⟩
    exact ⟨g, ⟨x, hx, ha⟩, hne⟩

end SessionTable

namespace Server

open SessionTable
open Engine (Moment)

def after (s : Server) (m : Moment) : Server := (engine.step m.conditions m.now m.event s).1

/-- The second of two moments repeats the first: it has the same replies, leaves the live sessions,
their addresses and routes and the index as they are, and differs in reception times and in what was
received and sent. -/
structure Repeats (s : Server) (first second : Moment) : Prop where
  replies : ((s.after first).react second.now second.event).2 = (s.react first.now first.event).2
  session : ∀ f, (((s.after first).after second).sessions.find? f).map Session.unmetered =
    ((s.after first).sessions.find? f).map Session.unmetered
  index : ∀ a, ((s.after first).after second).sessions.endpointFor? a =
    (s.after first).sessions.endpointFor? a
  setup : SameSetup (s.after first) ((s.after first).after second)
  counters : ∃ received sent, ((s.after first).after second).counters =
    { (s.after first).counters with datagramsIn := received, datagramsOut := sent }

/-- A login frees an address that it could have had: it gets no version 4 address, since the pool is
exhausted, and takes its version 6 address from a peer that holds an address of the pool. -/
structure Vacates (s : Server) (v : VirtualAddresses) (e : Endpoint) : Prop where
  without : s.assignIPv4 v.ipv4 e = none
  freed : ∃ pool a b g x, s.options.pool = some pool ∧ Between pool a ∧ s.mayAssign a = true ∧
    s.assignIPv6 v.ipv6 = some b ∧ g ≠ e ∧ s.sessions.find? g = some x ∧
    x.addresses = ⟨some a, some b⟩

variable {s s' : Server} {v : VirtualAddresses} {e : Endpoint}

theorem sameSetup_after (s : Server) (m : Moment) : SameSetup s (s.after m) :=
  sameSetup_step s m.conditions m.now m.event

theorem sound_after (hs : Sound s.options.own s.sessions) (m : Moment) :
    Sound (s.after m).options.own (s.after m).sessions := sound_step hs m.conditions m.now m.event

theorem decode_after {bytes : Bytes} {message : Message} (hd : s.codec.decode bytes = .ok message)
    (m : Moment) :
    (s.after m).codec.decode bytes = .ok message := by
  rw [(sameSetup_after s m).codec, hd]

theorem unmetered_step (s : Server) (c : Conditions) (now : Time) (event : Event) (f : Endpoint) :
    ((engine.step c now event s).1.sessions.find? f).map Session.unmetered =
      ((s.react now event).1.sessions.find? f).map Session.unmetered := by
  rw [find?_step, Option.map_map]
  rfl

theorem unmetered_login (hs : s.sessions.Indexed) {m : Moment} {bytes : Bytes}
    (hevent : m.event = .datagram bytes e) (hd : s.codec.decode bytes = .ok (.clientLogin v))
    (h : ¬ s.NoAddress v e) (f : Endpoint) :
    ((s.after m).sessions.find? f).map Session.unmetered =
      if f = e then some (Session.unmetered { (s.sessions.find? e).getD (.start e m.now) with
        addresses := s.assign v e, ownedRoutes := s.ownedBy (s.assign v e) })
      else if f ∈ holders s.sessions (s.assign v e) then none
      else (s.sessions.find? f).map Session.unmetered := by
  rw [after, unmetered_step, hevent, react_login_accepted hd h, find?_modify, find?_settle hs]
  by_cases hf : f = e
  · simp only [if_pos hf]
    rfl
  · simp only [if_neg hf]
    split <;> rfl

theorem counters_credits_of_sends {actions : List Action}
    (h : ∀ action ∈ actions, ∃ m g, action = .send m g) (s : Server) (codec : Codec)
    (c : Conditions) :
    ∃ sent, ((Action.performAll codec c actions).foldl credit s).counters =
      { s.counters with datagramsOut := sent } := by
  have hdatagrams : ∀ emission ∈ Action.performAll codec c actions,
      ∃ m bytes g, emission = .datagram m bytes g := by
    intro emission hemission
    cases emission with
    | datagram m bytes g => exact ⟨m, bytes, g, rfl⟩
    | packet packet =>
      obtain ⟨m, g, hm⟩ := h _ (Action.deliver_of_mem_performAll hemission)
      cases hm
  generalize Action.performAll codec c actions = emissions at hdatagrams
  induction emissions generalizing s with
  | nil => exact ⟨_, rfl⟩
  | cons emission rest ih =>
    obtain ⟨m, bytes, g, rfl⟩ := hdatagrams emission List.mem_cons_self
    obtain ⟨sent, hsent⟩ := ih (s.credit (.datagram m bytes g)) fun x hx =>
      hdatagrams x (List.mem_cons_of_mem _ hx)
    exact ⟨sent, hsent⟩

theorem counters_login {m : Moment} {bytes : Bytes} (hevent : m.event = .datagram bytes e)
    (hd : s.codec.decode bytes = .ok (.clientLogin v)) :
    ∃ received sent, (s.after m).counters =
      { s.counters with datagramsIn := received, datagramsOut := sent } := by
  have hreact : (s.react m.now m.event).1.counters = s.heard.counters ∧
      ∀ action ∈ (s.react m.now m.event).2, ∃ m g, action = .send m g := by
    rw [hevent]
    by_cases h : s.NoAddress v e
    · rw [react_login_refused hd h]
      exact ⟨rfl, fun action haction => ⟨_, _, List.mem_singleton.mp haction⟩⟩
    · rw [react_login_accepted hd h]
      refine ⟨rfl, fun action haction => ?_⟩
      obtain ⟨m, -, rfl⟩ := List.mem_map.mp haction
      exact ⟨m, e, rfl⟩
  obtain ⟨hcounters, hsends⟩ := hreact
  obtain ⟨sent, hsent⟩ :=
    counters_credits_of_sends hsends (s.react m.now m.event).1 s.codec m.conditions
  rw [hcounters] at hsent
  exact ⟨_, sent, hsent⟩

theorem SameSetup.mayAssign_eq (h : SameSetup s s') (a : IPv4) :
    s'.mayAssign a = s.mayAssign a := by
  rw [mayAssign, h.options]
  rfl

theorem SameSetup.assignIPv6_eq (h : SameSetup s s') (requested : Option IPv6) :
    s'.assignIPv6 requested = s.assignIPv6 requested := by
  rw [assignIPv6, h.options]
  rfl

theorem addresses_login (hs : s.sessions.Indexed) {m : Moment} {bytes : Bytes}
    (hevent : m.event = .datagram bytes e) (hd : s.codec.decode bytes = .ok (.clientLogin v))
    (h : ¬ s.NoAddress v e) (f : Endpoint) :
    ((s.after m).sessions.find? f).map Session.addresses =
      if f = e then some (s.assign v e)
      else if f ∈ holders s.sessions (s.assign v e) then none
      else (s.sessions.find? f).map Session.addresses := by
  have hfind := congrArg (Option.map Session.addresses) (unmetered_login hs hevent hd h f)
  rw [Option.map_map] at hfind
  refine hfind.trans ?_
  by_cases hf : f = e
  · simp only [if_pos hf]
    rfl
  · simp only [if_neg hf]
    split
    · rfl
    · rw [Option.map_map]
      rfl

/-- Once a peer has the version 4 address that it was assigned, a further login can only find one in
the pool. -/
theorem SameSetup.assignIPv4_again (h : SameSetup s s') {requested : Option IPv4}
    (hcurrent : ((s'.sessions.find? e).bind fun x => x.addresses.ipv4) = s.assignIPv4 requested e) :
    s'.assignIPv4 requested e =
      (s.assignIPv4 requested e).or (s.options.pool.bind (s'.freeAddress? · e)) := by
  have hfilter : requested.filter s'.mayAssign = requested.filter s.mayAssign :=
    congrArg requested.filter (funext h.mayAssign_eq)
  rw [assignIPv4, hcurrent, hfilter, h.options]
  cases hreq : requested.filter s.mayAssign with
  | none => rfl
  | some a => simp only [assignIPv4, hreq, Option.some_or]

theorem isTaken_login_iff (hs : Sound s.options.own s.sessions) {m : Moment} {bytes : Bytes}
    (hevent : m.event = .datagram bytes e) (hd : s.codec.decode bytes = .ok (.clientLogin v))
    (h : ¬ s.NoAddress v e) {a : Address} {g : Endpoint} {x : Session} (hg : g ≠ e)
    (hx : s.sessions.find? g = some x) (ha : x.addresses.contains a = true) :
    (s.after m).sessions.isTaken a e = true ↔ g ∉ holders s.sessions (s.assign v e) := by
  have hafter : (s.after m).sessions.Indexed := (sound_after hs m).toIndexed
  have hfind := addresses_login hs.toIndexed hevent hd h
  rw [hafter.isTaken_iff]
  constructor
  · rintro ⟨f, y, hf, hy, hya⟩ hgone
    have hkept := hfind f
    rw [hy, if_neg hf] at hkept
    split at hkept
    · cases hkept
    · rename_i hstays
      obtain ⟨z, hz, hzy⟩ := Option.map_eq_some_iff.mp hkept.symm
      have hfg : f = g := hs.unique hz hx (hzy ▸ hya) ha
      exact hstays (hfg ▸ hgone)
  · intro hstays
    have hkept := hfind g
    rw [if_neg hg, if_neg hstays, hx] at hkept
    obtain ⟨y, hy, hyx⟩ := Option.map_eq_some_iff.mp hkept
    exact ⟨g, y, hg, hy, hyx ▸ ha⟩

theorem mem_holders_iff_of_without (hs : s.sessions.Indexed) (h4 : s.assignIPv4 v.ipv4 e = none)
    {a : IPv4} {g : Endpoint} {x : Session} (hx : s.sessions.find? g = some x)
    (ha : x.addresses.contains (.v4 a) = true) :
    g ∈ holders s.sessions (s.assign v e) ↔
      ∃ b, s.assignIPv6 v.ipv6 = some b ∧ x.addresses = ⟨some a, some b⟩ := by
  have hx4 : x.addresses.ipv4 = some a := by simpa [VirtualAddresses.contains] using ha
  rw [mem_holders]
  constructor
  · rintro ⟨b, hb, howner⟩
    have hxb := (hs.contains_iff hx b).mpr howner
    cases b with
    | v4 b => simp [assign, h4, VirtualAddresses.contains] at hb
    | v6 b =>
      have hx6 : x.addresses.ipv6 = some b := by simpa [VirtualAddresses.contains] using hxb
      refine ⟨b, by simpa [assign, VirtualAddresses.contains] using hb, ?_⟩
      rw [← hx4, ← hx6]
  · rintro ⟨b, hb, hxab⟩
    refine ⟨.v6 b, by simp [assign, hb, VirtualAddresses.contains], (hs.contains_iff hx _).mp ?_⟩
    simp [hxab, VirtualAddresses.contains]

/-- A peer that was assigned no version 4 address finds none in the pool after its login either,
unless this login vacated one. -/
theorem exhausted_login_iff (hs : Sound s.options.own s.sessions) {m : Moment} {bytes : Bytes}
    (hevent : m.event = .datagram bytes e) (hd : s.codec.decode bytes = .ok (.clientLogin v))
    (h : ¬ s.NoAddress v e) (h4 : s.assignIPv4 v.ipv4 e = none) :
    s.options.pool.bind ((s.after m).freeAddress? · e) = none ↔ ¬ s.Vacates v e := by
  have hsetup : SameSetup s (s.after m) := sameSetup_after s m
  have hexhausted := (assignIPv4_eq_none_iff.mp h4).2.2
  simp only [Option.bind_eq_none_iff, freeAddress?_eq_none_iff, hsetup.mayAssign_eq]
  constructor
  · rintro hnone ⟨-, pool, a, b, g, x, hpool, hbetween, hmay, hb, hg, hx, hxab⟩
    have ha : x.addresses.contains (.v4 a) = true := by simp [hxab, VirtualAddresses.contains]
    have htaken := hnone pool hpool a hbetween hmay
    exact (isTaken_login_iff hs hevent hd h hg hx ha).mp htaken
      ((mem_holders_iff_of_without hs.toIndexed h4 hx ha).mpr ⟨b, hb, hxab⟩)
  · intro hvacates pool hpool a hbetween hmay
    have htaken := freeAddress?_eq_none_iff.mp (hexhausted pool hpool) a hbetween hmay
    obtain ⟨g, x, hg, hx, ha⟩ := hs.isTaken_iff.mp htaken
    refine (isTaken_login_iff hs hevent hd h hg hx ha).mpr fun hgone => hvacates ?_
    obtain ⟨b, hb, hxab⟩ := (mem_holders_iff_of_without hs.toIndexed h4 hx ha).mp hgone
    exact ⟨h4, pool, a, b, g, x, hpool, hbetween, hmay, hb, hg, hx, hxab⟩

theorem assign_again_iff (hs : Sound s.options.own s.sessions) {m : Moment} {bytes : Bytes}
    (hevent : m.event = .datagram bytes e) (hd : s.codec.decode bytes = .ok (.clientLogin v))
    (h : ¬ s.NoAddress v e) : (s.after m).assign v e = s.assign v e ↔ ¬ s.Vacates v e := by
  have hsetup : SameSetup s (s.after m) := sameSetup_after s m
  have hcurrent : (((s.after m).sessions.find? e).bind fun x => x.addresses.ipv4) =
      s.assignIPv4 v.ipv4 e := by
    have hfind := addresses_login hs.toIndexed hevent hd h e
    rw [if_pos rfl] at hfind
    obtain ⟨y, hy, hya⟩ := Option.map_eq_some_iff.mp hfind
    rw [hy, Option.bind_some, hya]
    rfl
  rw [assign, assign, hsetup.assignIPv6_eq, hsetup.assignIPv4_again hcurrent,
    VirtualAddresses.mk.injEq, and_iff_left rfl]
  cases h4 : s.assignIPv4 v.ipv4 e with
  | some a =>
    have hno : ¬ s.Vacates v e := fun hv => Option.some_ne_none a (h4.symm.trans hv.without)
    simp [hno]
  | none => rw [Option.none_or, exhausted_login_iff hs hevent hd h h4]

theorem SameSetup.welcome_eq (h : SameSetup s s') (assigned : VirtualAddresses) :
    s'.welcome assigned = s.welcome assigned := by
  simp only [welcome, usableBy, h.options, h.codec, h.routes]

theorem unmetered_login_refused {m : Moment} {bytes : Bytes} (hevent : m.event = .datagram bytes e)
    (hd : s.codec.decode bytes = .ok (.clientLogin v)) (h : s.NoAddress v e) (f : Endpoint) :
    ((s.after m).sessions.find? f).map Session.unmetered =
      if f = e then none else (s.sessions.find? f).map Session.unmetered := by
  rw [after, unmetered_step, hevent, react_login_refused hd h, find?_remove]
  split <;> rfl

theorem NoAddress.again (h : s.NoAddress v e) (hs : Sound s.options.own s.sessions) {m : Moment}
    {bytes : Bytes} (hevent : m.event = .datagram bytes e)
    (hd : s.codec.decode bytes = .ok (.clientLogin v)) :
    (s.after m).NoAddress v e := by
  have hsetup : SameSetup s (s.after m) := sameSetup_after s m
  have hafter : (s.after m).sessions.Indexed := (sound_after hs m).toIndexed
  have hfind := unmetered_login_refused hevent hd h
  refine ⟨fun ha => ?_, fun {x} hx => ?_, fun hpool a hbetween hmay => ?_, fun ha => ?_⟩
  · rw [hsetup.mayAssign_eq]
    exact h.reserved ha
  · have hnone := hfind e
    rw [if_pos rfl, hx] at hnone
    cases hnone
  · rw [hsetup.options] at hpool
    rw [hsetup.mayAssign_eq] at hmay
    obtain ⟨g, x, hg, hx, hxa⟩ := hs.isTaken_iff.mp (h.exhausted hpool a hbetween hmay)
    have hkept := hfind g
    rw [if_neg hg, hx] at hkept
    obtain ⟨y, hy, hyx⟩ := Option.map_eq_some_iff.mp hkept
    have hsame : y.unmetered.addresses = x.unmetered.addresses := congrArg Session.addresses hyx
    have hya : y.addresses.contains (.v4 a) = true := by rwa [← y.addresses_unmetered, hsame]
    exact hafter.isTaken_iff.mpr ⟨g, y, hg, hy, hya⟩
  · rw [hsetup.options]
    exact h.unwanted ha

/-- Of what makes a repetition, only replies and sessions are ever at risk. -/
theorem repeats_of_sessions (hs : Sound s.options.own s.sessions) {first second : Moment}
    {bytes : Bytes} (hsecond : second.event = .datagram bytes e)
    (hd : s.codec.decode bytes = .ok (.clientLogin v))
    (hreplies : ((s.after first).react second.now second.event).2 =
      (s.react first.now first.event).2)
    (hsession : ∀ f, (((s.after first).after second).sessions.find? f).map Session.unmetered =
      ((s.after first).sessions.find? f).map Session.unmetered) : Repeats s first second := by
  have hafter := sound_after hs first
  exact {
    replies := hreplies
    session := hsession
    index := hafter.endpointFor?_congr (sound_after hafter second).toIndexed fun f =>
      map_addresses_of_unmetered (hsession f)
    setup := sameSetup_after (s.after first) second
    counters := counters_login hsecond (decode_after hd first) }

section
variable {first second : Moment} {bytes bytes' : Bytes} (hs : Sound s.options.own s.sessions)
  (hfirst : first.event = .datagram bytes e) (hsecond : second.event = .datagram bytes' e)
  (hd : s.codec.decode bytes = .ok (.clientLogin v))
  (hd' : s.codec.decode bytes' = .ok (.clientLogin v))
include hs hfirst hsecond hd hd'

theorem repeats_of_refused (h : s.NoAddress v e) : Repeats s first second := by
  have hd₁ : (s.after first).codec.decode bytes' = .ok (.clientLogin v) := decode_after hd' first
  have hagain := h.again hs hfirst hd
  refine repeats_of_sessions hs hsecond hd' ?_ fun f => ?_
  · rw [hfirst, hsecond, react_login_refused hd₁ hagain, react_login_refused hd h]
  · rw [unmetered_login_refused hsecond hd₁ hagain]
    split
    · rename_i hf
      rw [unmetered_login_refused hfirst hd h, if_pos hf]
    · rfl

theorem repeats_of_accepted (h : ¬ s.NoAddress v e)
    (hsame : (s.after first).assign v e = s.assign v e) :
    Repeats s first second := by
  have hsetup : SameSetup s (s.after first) := sameSetup_after s first
  have hd₁ : (s.after first).codec.decode bytes' = .ok (.clientLogin v) := decode_after hd' first
  have hafter : (s.after first).sessions.Indexed := (sound_after hs first).toIndexed
  have hagain : ¬ (s.after first).NoAddress v e := by
    rwa [← assign_isEmpty_iff, hsame, assign_isEmpty_iff]
  have howned : (s.after first).ownedBy (s.assign v e) = s.ownedBy (s.assign v e) := by
    rw [ownedBy, hsetup.routes, ← ownedBy]
  have hfind := unmetered_login hs.toIndexed hfirst hd h
  obtain ⟨y, hy, hunmetered⟩ := Option.map_eq_some_iff.mp ((hfind e).trans (if_pos rfl))
  have haddresses : y.addresses = s.assign v e := congrArg Session.addresses hunmetered
  have hroutes : y.ownedRoutes = s.ownedBy (s.assign v e) := congrArg Session.ownedRoutes hunmetered
  refine repeats_of_sessions hs hsecond hd' ?_ fun f => ?_
  · rw [hfirst, hsecond, react_login_accepted hd₁ hagain, react_login_accepted hd h, hsame,
      hsetup.welcome_eq]
  · rw [unmetered_login hafter hsecond hd₁ hagain, hsame, howned]
    -- The peer itself holds the addresses now, so that the second login removes nobody.
    by_cases hf : f = e
    · rw [if_pos hf, hf, hy, ← hroutes, ← haddresses]
      rfl
    · rw [if_neg hf, if_neg]
      intro hholder
      obtain ⟨a, ha, howner⟩ := mem_holders.mp hholder
      have hown := (hafter.contains_iff hy a).mp (haddresses ▸ ha)
      exact hf (Option.some.inj (howner.symm.trans hown))

theorem not_repeats_of_vacates (h : s.Vacates v e) : ¬ Repeats s first second := by
  intro hrepeats
  have hsetup : SameSetup s (s.after first) := sameSetup_after s first
  have hd₁ : (s.after first).codec.decode bytes' = .ok (.clientLogin v) := decode_after hd' first
  have hafter : (s.after first).sessions.Indexed := (sound_after hs first).toIndexed
  obtain ⟨-, -, b, -, -, -, -, -, hb, -⟩ := h.freed
  have hsome {u : Server} (hu : SameSetup s u) : ¬ u.NoAddress v e := by
    intro hno
    rw [← assign_isEmpty_iff] at hno
    simp [assign, VirtualAddresses.isEmpty, hu.assignIPv6_eq, hb] at hno
  have haccepted := hsome (.refl s)
  have hsession := map_addresses_of_unmetered (hrepeats.session e)
  have hfirstly := addresses_login hs.toIndexed hfirst hd haccepted e
  have hsecondly := addresses_login hafter hsecond hd₁ (hsome hsetup) e
  have hsame := hsecondly.symm.trans (hsession.trans hfirstly)
  rw [if_pos rfl, if_pos rfl] at hsame
  exact (assign_again_iff hs hfirst hd haccepted).mp (Option.some.inj hsame) h

end

/-- In every reachable state, the second of two equal logins repeats the first exactly when this one
vacated no address that it could have had. -/
theorem login_repeats_iff (hs : s.Reachable) {first second : Moment}
    (hfirst : s.hearing? e first.now first.event = some ⟨first.now, .clientLogin v⟩)
    (hsecond : s.hearing? e second.now second.event = some ⟨second.now, .clientLogin v⟩) :
    Repeats s first second ↔ ¬ s.Vacates v e := by
  obtain ⟨bytes, hfirst, hd, -⟩ := hearing?_eq_some_iff.mp hfirst
  obtain ⟨bytes', hsecond, hd', -⟩ := hearing?_eq_some_iff.mp hsecond
  constructor
  · intro hrepeats hvacates
    exact not_repeats_of_vacates hs.sound hfirst hsecond hd hd' hvacates hrepeats
  · intro hvacates
    by_cases h : s.NoAddress v e
    · exact repeats_of_refused hs.sound hfirst hsecond hd hd' h
    · have hsame := (assign_again_iff hs.sound hfirst hd h).mpr hvacates
      exact repeats_of_accepted hs.sound hfirst hsecond hd hd' h hsame

/-- The third peer of `displaced` asks for the addresses of both others, and asks once more. -/
def displacing (now : Time) : Moment :=
  hears now (caller 3) (.clientLogin ⟨some 0x0a070002, some 7⟩)

theorem login_repeats_iff_displacing :
    pair.Reachable ∧
      pair.hearing? (caller 3) 2 (displacing 2).event =
        some ⟨2, .clientLogin ⟨some 0x0a070002, some 7⟩⟩ ∧
      pair.hearing? (caller 3) 3 (displacing 3).event =
        some ⟨3, .clientLogin ⟨some 0x0a070002, some 7⟩⟩ ∧
      Repeats pair (displacing 2) (displacing 3) := by
  have hfirst : pair.hearing? (caller 3) 2 (displacing 2).event =
      some ⟨2, .clientLogin ⟨some 0x0a070002, some 7⟩⟩ := by decide +kernel
  have hsecond : pair.hearing? (caller 3) 3 (displacing 3).event =
      some ⟨3, .clientLogin ⟨some 0x0a070002, some 7⟩⟩ := by decide +kernel
  have hassigned : pair.assignIPv4 (some 0x0a070002) (caller 3) = some 0x0a070002 := by
    decide +kernel
  have hiff : Repeats pair (displacing 2) (displacing 3) ↔
      ¬ pair.Vacates ⟨some 0x0a070002, some 7⟩ (caller 3) :=
    login_repeats_iff reachable_pair hfirst hsecond
  refine ⟨reachable_pair, hfirst, hsecond, hiff.mpr fun hvacates => ?_⟩
  exact Option.some_ne_none _ (hassigned.symm.trans hvacates.without)

/-- A server whose pool has one address to give, which is with the holder of ::7. -/
def full : Server :=
  (engine.run (start clearCodec .empty { poolOptions with pool := Subnet.make? 0x0a070000 30 } 0)
    [hears 0 (caller 1) (.clientLogin ⟨none, some 7⟩)]).1

/-- A second peer takes ::7 over. Only when it repeats its login does it get the address of the
pool. -/
def takingOver (now : Time) : Moment := hears now (caller 2) (.clientLogin ⟨none, some 7⟩)

theorem takingOver_not_repeats :
    full.Reachable ∧
      full.hearing? (caller 2) 1 (takingOver 1).event = some ⟨1, .clientLogin ⟨none, some 7⟩⟩ ∧
      full.hearing? (caller 2) 2 (takingOver 2).event = some ⟨2, .clientLogin ⟨none, some 7⟩⟩ ∧
      ¬ Repeats full (takingOver 1) (takingOver 2) := by
  refine ⟨⟨.clear, 1416, .empty, _, 0, _, rfl⟩, by decide +kernel, by decide +kernel,
    fun hrepeats => ?_⟩
  have hsame := map_addresses_of_unmetered (hrepeats.session (caller 2))
  have hfirst : ((full.after (takingOver 1)).sessions.find? (caller 2)).map Session.addresses =
      some ⟨none, some 7⟩ := by decide +kernel
  have hsecond :
      (((full.after (takingOver 1)).after (takingOver 2)).sessions.find? (caller 2)).map
      Session.addresses = some ⟨some 0x0a070002, some 7⟩ := by decide +kernel
  rw [hfirst, hsecond] at hsame
  exact absurd hsame (by decide)

end Server

end PacketTunnel
