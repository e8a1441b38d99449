import PacketTunnel.Proofs.Session.AddressIndex
import PacketTunnel.Server.Basic

/-!
# Which addresses a server gives away

The search through the pool finds a free address whenever there is one. A login is refused exactly
when the server can assign no address of either family, and no login ever gets an address of the
server itself, provided that no session holds one already.
-/
namespace PacketTunnel.Server

open SessionTable

theorem firstFree?_isFree {isFree : IPv4 → Bool} {count start : Nat} {a : IPv4}
    (h : firstFree? isFree count start = some a) : isFree a = true := by
  induction count generalizing start with
  | zero => cases h
  | succ count ih =>
    rw [firstFree?] at h
    split at h
    · rename_i hfree
      cases h
      exact hfree
    · exact ih h

theorem firstFree?_eq_none_iff {isFree : IPv4 → Bool} {count start : Nat} :
    firstFree? isFree count start = none ↔
      ∀ n, start ≤ n → n < start + count → isFree (BitVec.ofNat 32 n) = false := by
  induction count generalizing start with
  | zero =>
    simp only [firstFree?, true_iff]
    intro n hn hlt
    omega
  | succ count ih =>
    rw [firstFree?]
    cases hfree : isFree (BitVec.ofNat 32 start) with
    | true =>
      simp only [if_true, reduceCtorEq, false_iff]
      intro h
      have hstart := h start (Nat.le_refl _) (by omega)
      rw [hfree] at hstart
      cases hstart
    | false =>
      simp only [Bool.false_eq_true, if_false, ih]
      constructor
      · intro h n hn hlt
        rcases Nat.eq_or_lt_of_le hn with rfl | hn
        · exact hfree
        · exact h n hn (by omega)
      · intro h n hn hlt
        exact h n (by omega) (by omega)

def Between (pool : Subnet 32) (a : IPv4) : Prop :=
  pool.first.toNat < a.toNat ∧ a.toNat < pool.last.toNat

theorem freeAddress?_eq_none_iff {s : Server} {pool : Subnet 32} {e : Endpoint} :
    s.freeAddress? pool e = none ↔
      ∀ a, Between pool a → s.mayAssign a = true → s.sessions.isTaken (.v4 a) e = true := by
  rw [freeAddress?, firstFree?_eq_none_iff]
  constructor
  · intro h a ⟨hfirst, hlast⟩ hmay
    have ha := h a.toNat (by omega) (by omega)
    rw [BitVec.ofNat_toNat, BitVec.setWidth_eq] at ha
    simpa [hmay] using ha
  · intro h n hn hlt
    have hlast := pool.last.isLt
    have hto : (BitVec.ofNat 32 n).toNat = n := by
      rw [BitVec.toNat_ofNat]
      omega
    have ha := h (BitVec.ofNat 32 n) ⟨by omega, by omega⟩
    cases hmay : s.mayAssign (BitVec.ofNat 32 n) with
    | false => rfl
    | true => rw [ha hmay]; rfl

/-- The server has no address for a peer that asks for some: of version 4, the address asked for may
not be given, the peer has none, and the pool has none left; of version 6, none is asked for but the
server's own. -/
structure NoAddress (s : Server) (requested : VirtualAddresses) (e : Endpoint) : Prop where
  reserved : ∀ {a}, requested.ipv4 = some a → s.mayAssign a = false
  current : ∀ {x}, s.sessions.find? e = some x → x.addresses.ipv4 = none
  exhausted : ∀ {pool}, s.options.pool = some pool →
    ∀ a, Between pool a → s.mayAssign a = true → s.sessions.isTaken (.v4 a) e = true
  unwanted : ∀ {a}, requested.ipv6 = some a → s.options.own.contains (.v6 a) = true

theorem assignIPv4_eq_none_iff {s : Server} {requested : Option IPv4} {e : Endpoint} :
    s.assignIPv4 requested e = none ↔
      (∀ a, requested = some a → s.mayAssign a = false) ∧
      (∀ x, s.sessions.find? e = some x → x.addresses.ipv4 = none) ∧
      (∀ pool, s.options.pool = some pool → s.freeAddress? pool e = none) := by
  simp only [assignIPv4, Option.or_eq_none_iff, Option.filter_eq_none_iff, Option.bind_eq_none_iff,
    Bool.not_eq_true]

theorem assignIPv6_eq_none_iff {s : Server} {requested : Option IPv6} :
    s.assignIPv6 requested = none ↔ ∀ a, requested = some a →
      s.options.own.contains (.v6 a) = true := by
  simp only [assignIPv6, Option.filter_eq_none_iff, Bool.not_eq_true, Bool.not_eq_false']

theorem assign_isEmpty_iff {s : Server} {requested : VirtualAddresses} {e : Endpoint} :
    (s.assign requested e).isEmpty = true ↔ s.NoAddress requested e := by
  simp only [assign, VirtualAddresses.isEmpty, Bool.and_eq_true, Option.isNone_iff_eq_none,
    assignIPv4_eq_none_iff, assignIPv6_eq_none_iff]
  constructor
  · rintro ⟨⟨hreserved, hcurrent, hpool⟩, h6⟩
    exact ⟨fun h => hreserved _ h, fun h => hcurrent _ h,
      fun h => freeAddress?_eq_none_iff.mp (hpool _ h), fun h => h6 _ h⟩
  · intro h
    exact ⟨⟨fun _ ha => h.reserved ha, fun _ hx => h.current hx,
      fun _ hp => freeAddress?_eq_none_iff.mpr (h.exhausted hp)⟩, fun _ ha => h.unwanted ha⟩

/-- No session of the table holds an address of the server itself. -/
def Foreign (own : VirtualAddresses) (t : SessionTable) : Prop :=
  ∀ {e : Endpoint} {x : Session} {a : Address},
    t.find? e = some x → own.contains a = true → x.addresses.contains a = false

theorem mayAssign_own {s : Server} {a : IPv4} (h : s.mayAssign a = true) :
    s.options.own.contains (.v4 a) = false := by
  simp only [mayAssign, Bool.and_eq_true, Bool.not_eq_true'] at h
  exact h.2

/-- Addresses that a session may hold: at least one, and none of the server's own. -/
structure Proper (own v : VirtualAddresses) : Prop where
  nonempty : v.isEmpty = false
  foreign : ∀ {a}, own.contains a = true → v.contains a = false

/-- The server gives away none of its own addresses, nor lets a peer keep one. -/
theorem assign_own {s : Server} (hs : Foreign s.options.own s.sessions)
    (requested : VirtualAddresses) (e : Endpoint) {a : Address}
    (ha : s.options.own.contains a = true) :
    (s.assign requested e).contains a = false := by
  cases a with
  | v4 a =>
    rw [Bool.eq_false_iff]
    intro hc
    have hassigned : s.assignIPv4 requested.ipv4 e = some a := by
      simpa [assign, VirtualAddresses.contains] using hc
    rw [assignIPv4, Option.or_eq_some_iff, Option.or_eq_some_iff] at hassigned
    rcases hassigned with hreq | ⟨-, hcur | ⟨-, hpool⟩⟩
    · have hmay := (Option.filter_eq_some_iff.mp hreq).2
      rw [mayAssign_own hmay] at ha
      cases ha
    · obtain ⟨x, hx, hxa⟩ := Option.bind_eq_some_iff.mp hcur
      have hnot := hs hx ha
      simp [VirtualAddresses.contains, hxa] at hnot
    · obtain ⟨pool, -, hfree⟩ := Option.bind_eq_some_iff.mp hpool
      have hmay := firstFree?_isFree hfree
      rw [Bool.and_eq_true] at hmay
      rw [mayAssign_own hmay.1] at ha
      cases ha
  | v6 a =>
    rw [Bool.eq_false_iff]
    intro hc
    have hassigned : s.assignIPv6 requested.ipv6 = some a := by
      simpa [assign, VirtualAddresses.contains] using hc
    have hnot := (Option.filter_eq_some_iff.mp hassigned).2
    rw [ha] at hnot
    cases hnot

end PacketTunnel.Server
