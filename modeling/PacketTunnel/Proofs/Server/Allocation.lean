import PacketTunnel.Proofs.Address.Subnet
import PacketTunnel.Proofs.Datagram.Advertising
import PacketTunnel.Proofs.Server.Repetition

/-!
# The addresses of a login

Which addresses a login gets, told by the live sessions and not by the index or the search. A
version 4 address is the one asked for if it is acceptable, else the one that the peer holds, else
the lowest one strictly between the ends of the pool that is neither the server's nor any other
peer's. A version 6 address is the one asked for unless it is the server's. No more than these is
given, the peer's session holds exactly them, and the confirmation names them; with no address of
either family the peer has no session and is told farewell. What is not asked for is taken from
nobody: apart from a version 4 address that is asked for, only a version 6 address displaces another
peer.
-/
namespace PacketTunnel

/-- A codec of an MTU that leaves its sum with the room beyond it within 64 bits. -/
def Codec.Uncut (c : Codec) : Prop := ∃ p mtu, c = ofMtu p mtu ∧ mtu.toNat + 64 < 2 ^ 64

theorem Codec.Uncut.room {c : Codec} (h : c.Uncut) : 64 ≤ c.maxPayload := by
  obtain ⟨p, mtu, rfl, hmtu⟩ := h
  exact room_of_ofMtu p hmtu

theorem VirtualAddresses.eq_empty_of_isEmpty {v : VirtualAddresses} (h : v.isEmpty = true) :
    v = .empty := by
  obtain ⟨v4, v6⟩ := v
  cases v4 <;> cases v6 <;> first | rfl | cases h

namespace Server

open SessionTable

/-- An address that the server gives to whoever asks for it: not its own and, if there is a pool,
one of the pool and neither its network address nor its broadcast address. -/
structure Acceptable (s : Server) (a : IPv4) : Prop where
  foreign : s.options.own.ipv4 ≠ some a
  pooled : ∀ pool, s.options.pool = some pool → pool.contains a = true ∧ a ≠ pool.first ∧
    a ≠ pool.last

/-- An address that a pool has left for a peer: not the server's, and held by no other peer. -/
structure Free (s : Server) (pool : Subnet 32) (e : Endpoint) (a : IPv4) : Prop where
  between : Between pool a
  foreign : s.options.own.ipv4 ≠ some a
  untaken : ∀ g x, g ≠ e → s.sessions.find? g = some x → x.addresses.ipv4 ≠ some a

/-- The version 4 address that a login gets, in the order in which the server looks for one. -/
inductive GetsIPv4 (s : Server) (e : Endpoint) (requested : Option IPv4) : Option IPv4 → Prop where
  | requested {a : IPv4} (asked : requested = some a) (acceptable : s.Acceptable a) :
      GetsIPv4 s e requested (some a)
  | current {x : Session} {a : IPv4} (declined : ∀ b, requested = some b → ¬ s.Acceptable b)
      (session : s.sessions.find? e = some x) (held : x.addresses.ipv4 = some a) :
      GetsIPv4 s e requested (some a)
  | pooled {pool : Subnet 32} {a : IPv4} (declined : ∀ b, requested = some b → ¬ s.Acceptable b)
      (without : ∀ x, s.sessions.find? e = some x → x.addresses.ipv4 = none)
      (hpool : s.options.pool = some pool)
      (free : s.Free pool e a) (least : ∀ b, s.Free pool e b → a.toNat ≤ b.toNat) :
      GetsIPv4 s e requested (some a)
  | exhausted {pool : Subnet 32} (declined : ∀ b, requested = some b → ¬ s.Acceptable b)
      (without : ∀ x, s.sessions.find? e = some x → x.addresses.ipv4 = none)
      (hpool : s.options.pool = some pool)
      (full : ∀ b, ¬ s.Free pool e b) : GetsIPv4 s e requested none
  | poolless (declined : ∀ b, requested = some b → ¬ s.Acceptable b)
      (without : ∀ x, s.sessions.find? e = some x → x.addresses.ipv4 = none)
      (hpool : s.options.pool = none) :
      GetsIPv4 s e requested none

structure Gets (s : Server) (e : Endpoint) (v given : VirtualAddresses) : Prop where
  ipv4 : s.GetsIPv4 e v.ipv4 given.ipv4
  ipv6 : ∀ b, given.ipv6 = some b ↔ v.ipv6 = some b ∧ s.options.own.ipv6 ≠ some b

variable {s : Server} {e : Endpoint} {v : VirtualAddresses}

theorem inPool_iff_between {pool : Subnet 32} {a : IPv4} :
    inPool pool a = true ↔ Between pool a := by
  have hne {b c : IPv4} : b ≠ c ↔ b.toNat ≠ c.toNat := not_congr BitVec.toNat_inj.symm
  simp only [inPool, Bool.and_eq_true, bne_iff_ne, Subnet.contains_iff_between, Between, hne]
  omega

theorem own_contains_v4 (s : Server) (a : IPv4) :
    s.options.own.contains (.v4 a) = false ↔ s.options.own.ipv4 ≠ some a := by
  simp [VirtualAddresses.contains]

theorem acceptable_iff {a : IPv4} : s.Acceptable a ↔ s.mayAssign a = true := by
  have hown := own_contains_v4 s a
  rw [mayAssign, Bool.and_eq_true, Bool.not_eq_true', hown, Option.all_eq_true]
  simp only [inPool, Bool.and_eq_true, bne_iff_ne, and_assoc]
  constructor
  · intro h
    exact ⟨h.pooled, h.foreign⟩
  · rintro ⟨hpooled, hforeign⟩
    exact ⟨hforeign, hpooled⟩

theorem free_iff (hs : s.sessions.Indexed) {pool : Subnet 32} (hpool : s.options.pool = some pool)
    {a : IPv4} (ha : Between pool a) :
    s.Free pool e a ↔ (s.mayAssign a && !s.sessions.isTaken (.v4 a) e) = true := by
  have hinside : (s.options.pool.all (inPool · a)) = true := by
    rw [hpool]
    exact inPool_iff_between.mpr ha
  have huntaken : s.sessions.isTaken (.v4 a) e = false ↔
      ∀ g x, g ≠ e → s.sessions.find? g = some x → x.addresses.ipv4 ≠ some a := by
    rw [← Bool.not_eq_true, hs.isTaken_iff]
    simp only [VirtualAddresses.contains, beq_iff_eq, not_exists, not_and, ne_eq]
  rw [mayAssign, hinside, Bool.true_and, Bool.and_eq_true, Bool.not_eq_true', Bool.not_eq_true',
    own_contains_v4, huntaken]
  constructor
  · intro h
    exact ⟨h.foreign, h.untaken⟩
  · rintro ⟨hforeign, huntaken⟩
    exact ⟨ha, hforeign, huntaken⟩

theorem firstFree?_least {isFree : IPv4 → Bool} {count start : Nat} {a : IPv4}
    (h : firstFree? isFree count start = some a) :
    ∃ n, start ≤ n ∧ n < start + count ∧ a = BitVec.ofNat 32 n ∧
      ∀ m, start ≤ m → isFree (BitVec.ofNat 32 m) = true → n ≤ m := by
  induction count generalizing start with
  | zero => cases h
  | succ count ih =>
    rw [firstFree?] at h
    split at h
    · cases h
      exact ⟨start, Nat.le_refl _, by omega, rfl, fun m hm _ => hm⟩
    · rename_i hnot
      obtain ⟨n, hstart, hcount, ha, hleast⟩ := ih h
      refine ⟨n, by omega, by omega, ha, fun m hm hfree => ?_⟩
      rcases Nat.eq_or_lt_of_le hm with rfl | hm
      · exact absurd hfree hnot
      · exact hleast m hm hfree

/-- The search through the pool yields the lowest free address. -/
theorem freeAddress?_least (hs : s.sessions.Indexed) {pool : Subnet 32}
    (hpool : s.options.pool = some pool) {a : IPv4} (h : s.freeAddress? pool e = some a) :
    s.Free pool e a ∧ ∀ b, s.Free pool e b → a.toNat ≤ b.toNat := by
  have hlast := pool.last.isLt
  obtain ⟨n, hstart, hcount, rfl, hleast⟩ := firstFree?_least h
  have hn : (BitVec.ofNat 32 n).toNat = n := by
    rw [BitVec.toNat_ofNat]
    omega
  have hbetween : Between pool (BitVec.ofNat 32 n) := ⟨by omega, by omega⟩
  refine ⟨(free_iff hs hpool hbetween).mpr (firstFree?_isFree h), fun b hb => ?_⟩
  rw [hn]
  apply hleast b.toNat hb.between.1
  rw [BitVec.ofNat_toNat, BitVec.setWidth_eq]
  exact (free_iff hs hpool hb.between).mp hb

theorem not_free_of_freeAddress? (hs : s.sessions.Indexed) {pool : Subnet 32}
    (hpool : s.options.pool = some pool) (h : s.freeAddress? pool e = none) (b : IPv4) :
    ¬ s.Free pool e b := by
  intro hb
  have hfree := (free_iff hs hpool hb.between).mp hb
  rw [Bool.and_eq_true, Bool.not_eq_true'] at hfree
  rw [freeAddress?_eq_none_iff.mp h b hb.between hfree.1] at hfree
  cases hfree.2

theorem filter_of_declined {requested : Option IPv4}
    (h : ∀ b, requested = some b → ¬ s.Acceptable b) :
    requested.filter s.mayAssign = none := by
  rw [Option.filter_eq_none_iff]
  exact fun b hb hmay => h b hb (acceptable_iff.mpr hmay)

theorem getsIPv4_assignIPv4 (hs : s.sessions.Indexed) (requested : Option IPv4) :
    s.GetsIPv4 e requested (s.assignIPv4 requested e) := by
  rw [assignIPv4]
  cases hreq : requested.filter s.mayAssign with
  | some a =>
    obtain ⟨hasked, hmay⟩ := Option.filter_eq_some_iff.mp hreq
    exact .requested hasked (acceptable_iff.mpr hmay)
  | none =>
    have hdeclined : ∀ b, requested = some b → ¬ s.Acceptable b :=
      fun b hb hacc => Option.filter_eq_none_iff.mp hreq b hb (acceptable_iff.mp hacc)
    rw [Option.none_or]
    cases hcur : (s.sessions.find? e).bind fun x => x.addresses.ipv4 with
    | some a =>
      obtain ⟨x, hx, hxa⟩ := Option.bind_eq_some_iff.mp hcur
      exact .current hdeclined hx hxa
    | none =>
      have hwithout := Option.bind_eq_none_iff.mp hcur
      rw [Option.none_or]
      cases hpool : s.options.pool with
      | none => exact .poolless hdeclined hwithout hpool
      | some pool =>
        rw [Option.bind_some]
        cases hfree : s.freeAddress? pool e with
        | none =>
          exact .exhausted hdeclined hwithout hpool (not_free_of_freeAddress? hs hpool hfree)
        | some a =>
          obtain ⟨ha, hleast⟩ := freeAddress?_least hs hpool hfree
          exact .pooled hdeclined hwithout hpool ha hleast

theorem assignIPv4_of_without {requested : Option IPv4}
    (declined : ∀ b, requested = some b → ¬ s.Acceptable b)
    (without : ∀ x, s.sessions.find? e = some x → x.addresses.ipv4 = none) :
    s.assignIPv4 requested e = s.options.pool.bind (s.freeAddress? · e) := by
  rw [assignIPv4, filter_of_declined declined, Option.bind_eq_none_iff.mpr without, Option.none_or,
    Option.none_or]

/-- No rule gives anything else than the server does. -/
theorem GetsIPv4.eq_assignIPv4 (hs : s.sessions.Indexed) {requested given : Option IPv4}
    (h : s.GetsIPv4 e requested given) : given = s.assignIPv4 requested e := by
  cases h with
  | requested asked acceptable =>
    rw [assignIPv4, asked, Option.filter_some_pos (acceptable_iff.mp acceptable), Option.some_or]
  | current declined session held =>
    rw [assignIPv4, filter_of_declined declined, session, Option.none_or, Option.bind_some, held,
      Option.some_or]
  | @pooled pool a declined without hpool free least =>
    rw [assignIPv4_of_without declined without, hpool, Option.bind_some]
    cases hfree : s.freeAddress? pool e with
    | none => exact absurd free (not_free_of_freeAddress? hs hpool hfree a)
    | some b =>
      obtain ⟨hb, hleast⟩ := freeAddress?_least hs hpool hfree
      exact congrArg some (BitVec.eq_of_toNat_eq (Nat.le_antisymm (least b hb) (hleast a free)))
  | @exhausted pool declined without hpool full =>
    rw [assignIPv4_of_without declined without, hpool, Option.bind_some]
    cases hfree : s.freeAddress? pool e with
    | none => rfl
    | some b => exact absurd (freeAddress?_least hs hpool hfree).1 (full b)
  | poolless declined without hpool =>
    rw [assignIPv4_of_without declined without, hpool, Option.bind_none]

theorem assignIPv6_eq_some_iff {requested : Option IPv6} {b : IPv6} :
    s.assignIPv6 requested = some b ↔ requested = some b ∧ s.options.own.ipv6 ≠ some b := by
  simp [assignIPv6, Option.filter_eq_some_iff, VirtualAddresses.contains]

theorem gets_iff (hs : s.sessions.Indexed) {given : VirtualAddresses} :
    s.Gets e v given ↔ given = s.assign v e := by
  constructor
  · rintro ⟨h4, h6⟩
    have hipv6 : given.ipv6 = s.assignIPv6 v.ipv6 :=
      Option.ext fun b => (h6 b).trans assignIPv6_eq_some_iff.symm
    rw [assign, ← h4.eq_assignIPv4 hs, ← hipv6]
  · rintro rfl
    exact ⟨getsIPv4_assignIPv4 hs v.ipv4, fun b => assignIPv6_eq_some_iff⟩

variable {bytes : Bytes}

/-- A login ends the session of another peer exactly when it gets an address of this peer. -/
theorem login_ends_iff (hs : s.sessions.Indexed) (hd : s.codec.decode bytes = .ok (.clientLogin v))
    (k : Conditions) (now : Time) {g : Endpoint} {x : Session} (hg : g ≠ e)
    (hx : s.sessions.find? g = some x) :
    (engine.step k now (.datagram bytes e) s).1.sessions.find? g = none ↔
      ∃ a, (s.assign v e).contains a = true ∧ x.addresses.contains a = true := by
  have hholder : g ∈ holders s.sessions (s.assign v e) ↔
      ∃ a, (s.assign v e).contains a = true ∧ x.addresses.contains a = true := by
    simp only [mem_holders, hs.contains_iff hx]
  rw [find?_step_eq_none_iff, ← hholder]
  by_cases h : s.NoAddress v e
  · have hnobody : g ∉ holders s.sessions (s.assign v e) := by
      rw [VirtualAddresses.eq_empty_of_isEmpty (assign_isEmpty_iff.mpr h)]
      exact List.not_mem_nil
    rw [react_login_refused hd h]
    simp only [find?_remove, if_neg hg, hx, reduceCtorEq, hnobody]
  · rw [react_login_accepted hd h, find?_modify, if_neg hg, find?_settle hs, if_neg hg, hx]
    by_cases hgone : g ∈ holders s.sessions (s.assign v e)
    · simp only [hgone, if_true]
    · simp only [hgone, if_false, reduceCtorEq]

/-- No other peer holds a version 4 address that a login gets without having asked for it. -/
theorem GetsIPv4.untaken (hs : s.sessions.Indexed) {requested : Option IPv4} {a : IPv4}
    (h : s.GetsIPv4 e requested (some a)) (declined : ∀ b, requested = some b → ¬ s.Acceptable b)
    {g : Endpoint} {x : Session} (hg : g ≠ e) (hx : s.sessions.find? g = some x) :
    x.addresses.ipv4 ≠ some a := by
  cases h with
  | requested asked acceptable => exact absurd acceptable (declined a asked)
  | current _ session held =>
    intro hxa
    refine hg (hs.unique (a := .v4 a) hx session ?_ ?_)
    · rw [VirtualAddresses.contains, hxa, beq_self_eq_true]
    · rw [VirtualAddresses.contains, held, beq_self_eq_true]
  | pooled _ _ _ free _ => exact free.untaken g x hg hx

theorem login_ends_iff_of_declined (hs : s.sessions.Indexed)
    (hd : s.codec.decode bytes = .ok (.clientLogin v))
    (declined : ∀ b, v.ipv4 = some b → ¬ s.Acceptable b) (k : Conditions) (now : Time)
    {g : Endpoint} {x : Session} (hg : g ≠ e) (hx : s.sessions.find? g = some x) :
    (engine.step k now (.datagram bytes e) s).1.sessions.find? g = none ↔
      ∃ b, (s.assign v e).ipv6 = some b ∧ x.addresses.ipv6 = some b := by
  rw [login_ends_iff hs hd k now hg hx]
  constructor
  · rintro ⟨a | b, ha, hxa⟩
    · have hgets := getsIPv4_assignIPv4 (e := e) hs v.ipv4
      rw [VirtualAddresses.contains, beq_iff_eq] at ha hxa
      rw [show s.assignIPv4 v.ipv4 e = some a from ha] at hgets
      exact absurd hxa (hgets.untaken hs declined hg hx)
    · rw [VirtualAddresses.contains, beq_iff_eq] at ha hxa
      exact ⟨b, ha, hxa⟩
  · rintro ⟨b, hb, hxb⟩
    refine ⟨.v6 b, ?_, ?_⟩
    · rw [VirtualAddresses.contains, hb, beq_self_eq_true]
    · rw [VirtualAddresses.contains, hxb, beq_self_eq_true]

theorem performAll_first {c : Codec} (hlimit : c.maxPayload ≤ 65535) (hroom : 64 ≤ c.maxPayload)
    {k : Conditions} (hk : k.sends 0 = true) {m : Message} (hm : m.Sound)
    (hshort : m.encodeBody.length < 48) (rest : List Action) :
    ∃ d, c.decode d = .ok m ∧
      Action.performAll c k (.send m e :: rest) = .datagram m d e ::
        Action.performAll c k.later rest := by
  obtain ⟨d, hd⟩ := Codec.exists_encode_of_short hroom (k.vector 0) hshort
  refine ⟨d, Codec.decode_encode hlimit hm hd, ?_⟩
  rw [Action.performAll_cons, Action.perform?, hd]
  simp only [hk, if_true, Option.toList_some, List.singleton_append]

/-- In every reachable state a login gets its addresses by the rules, which leave one outcome. Only
an acceptable request takes a version 4 address from another peer. With no address of either family,
the peer has no session and nothing but a farewell is sent, and with some, its session holds exactly
these, and the confirmation, which comes first, names them. -/
theorem login_allocation (hs : s.Reachable) (hd : s.codec.decode bytes = .ok (.clientLogin v))
    (e : Endpoint) (k : Conditions) (now : Time) :
    ∃ given, (∀ other, s.Gets e v other ↔ other = given) ∧
      ((∀ a, v.ipv4 = some a → ¬ s.Acceptable a) → ∀ g x, g ≠ e → s.sessions.find? g = some x →
        ((engine.step k now (.datagram bytes e) s).1.sessions.find? g = none ↔
          ∃ b, given.ipv6 = some b ∧ x.addresses.ipv6 = some b)) ∧
      (given = .empty →
        (engine.step k now (.datagram bytes e) s).1.sessions.find? e = none ∧
        (∀ emission ∈ (engine.step k now (.datagram bytes e) s).2, ∃ d,
          emission = .datagram .disconnect d e) ∧
        (s.codec.Uncut → k.sends 0 = true → ∃ d, s.codec.decode d = .ok .disconnect ∧
          (engine.step k now (.datagram bytes e) s).2 = [.datagram .disconnect d e])) ∧
      (given ≠ .empty →
        (∃ y, (engine.step k now (.datagram bytes e) s).1.sessions.find? e = some y ∧
          y.addresses = given) ∧
        (s.codec.Uncut → k.sends 0 = true → ∃ d later, s.codec.decode d = .ok (.clientLogin given) ∧
          (engine.step k now (.datagram bytes e) s).2 = .datagram (.clientLogin given) d e ::
            later)) := by
  have hindexed : s.sessions.Indexed := hs.sound.toIndexed
  have hlimit := hs.maxPayload_le
  refine ⟨s.assign v e, fun other => gets_iff hindexed,
    fun declined g x hg hx => login_ends_iff_of_declined hindexed hd declined k now hg hx, ?_, ?_⟩
  · intro hempty
    have hno : s.NoAddress v e := assign_isEmpty_iff.mp (hempty ▸ rfl)
    obtain ⟨hgone, hsent⟩ := step_login_refused hd hno k now
    refine ⟨hgone, fun emission hemission => ?_, fun huncut hk => ?_⟩
    · rw [hsent] at hemission
      rcases Action.performAll_send_cases s.codec k .disconnect e with hnone | ⟨d, -, -, hd⟩
      · rw [hnone] at hemission
        cases hemission
      · rw [hd] at hemission
        exact ⟨d, List.mem_singleton.mp hemission⟩
    · obtain ⟨d, hdecode, hfirst⟩ :=
        performAll_first (e := e) hlimit huncut.room hk (m := .disconnect) trivial (by decide) []
      exact ⟨d, hdecode, hsent.trans hfirst⟩
  · intro hsome
    have hno : ¬ s.NoAddress v e :=
      fun hno => hsome (VirtualAddresses.eq_empty_of_isEmpty (assign_isEmpty_iff.mpr hno))
    obtain ⟨⟨y, hy, haddresses, -⟩, hsent⟩ := step_login_accepted hindexed hd hno k now
    refine ⟨⟨y, hy, haddresses⟩, fun huncut hk => ?_⟩
    have hshort := Message.length_encodeBody_clientLogin (s.assign v e)
    obtain ⟨d, hdecode, hfirst⟩ :=
      performAll_first (e := e) hlimit huncut.room hk (m := .clientLogin (s.assign v e)) trivial
        (by omega) _
    exact ⟨d, _, hdecode, hsent.trans hfirst⟩

def undemanding : Bytes := (clearCodec.encode default (.clientLogin .empty)).toOption.getD []

/-- Each of two peers has taken an address from the pool, and a third gets the next one. -/
theorem login_allocation_pair :
    pair.Reachable ∧ pair.codec.decode undemanding = .ok (.clientLogin .empty) ∧
      pair.Gets (caller 3) .empty ⟨some 0x0a070004, none⟩ ∧
      ∃ y, (engine.step Conditions.fair 2 (.datagram undemanding (caller 3)) pair).1.sessions.find?
        (caller 3) = some y ∧
        y.addresses = ⟨some 0x0a070004, none⟩ := by
  have hcodec : pair.codec = clearCodec := (sameSetup_run _ _).codec
  have hdecode : pair.codec.decode undemanding = .ok (.clientLogin .empty) := by
    have hencode : clearCodec.encode default (.clientLogin .empty) = .ok undemanding := rfl
    rw [hcodec]
    exact Codec.decode_encode (Codec.ofMtu_limit _ _) (m := .clientLogin .empty) trivial hencode
  have hassigned : pair.assign .empty (caller 3) = ⟨some 0x0a070004, none⟩ := by decide +kernel
  obtain ⟨given, hgets, -, -, hsome⟩ :=
    login_allocation reachable_pair hdecode (caller 3) Conditions.fair 2
  obtain rfl : ⟨some 0x0a070004, none⟩ = given :=
    (hgets _).mp ((gets_iff reachable_pair.sound.toIndexed).mpr hassigned.symm)
  exact ⟨reachable_pair, hdecode, (hgets _).mpr rfl, (hsome (by decide)).1⟩

/-- A server with the route 10.8.0.0/16=10.9.0.1, whose MTU is so great that its payloads have 17
bytes at most, as many as a login that asks for a version 6 address. -/
def narrow : Server :=
  start (.ofMtu .clear 0xffffffffffffffd1)
    (.ofList (Route.make (.v4 0x0a080000) 16 (.v4 0x0a090001)).toOption.toList) poolOptions 0

def narrowLogin : Bytes :=
  (narrow.codec.encode default (.clientLogin ⟨none, some 9⟩)).toOption.getD []

def narrowAdvert : Bytes :=
  (narrow.codec.encode default (.routeAdvertise narrow.routes.routes)).toOption.getD []

/-- The server gives two addresses, but their confirmation does not fit, so that the first datagram
sent advertises the route. -/
theorem narrow_confirmation_unsent :
    narrow.Reachable ∧ narrow.codec.decode narrowLogin = .ok (.clientLogin ⟨none, some 9⟩) ∧
      ((engine.step Conditions.fair 0 (.datagram narrowLogin (caller 1)) narrow).1.sessions.find?
        (caller 1)).map Session.addresses = some ⟨some 0x0a070002, some 9⟩ ∧
      (engine.step Conditions.fair 0 (.datagram narrowLogin (caller 1)) narrow).2 =
        [.datagram (.routeAdvertise narrow.routes.routes) narrowAdvert (caller 1)] := by
  have hencode : narrow.codec.encode default (.clientLogin ⟨none, some 9⟩) = .ok narrowLogin := rfl
  refine ⟨⟨.clear, _, _, _, 0, [], rfl⟩, ?_, by decide +kernel, by decide +kernel⟩
  exact Codec.decode_encode (Codec.ofMtu_limit _ _) (m := .clientLogin ⟨none, some 9⟩) trivial
    hencode

end Server

end PacketTunnel
