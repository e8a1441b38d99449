import Mathlib.Data.List.Forall2
import Mathlib.Data.Nat.Digits.Defs
import PacketTunnel.Proofs.Address.Subnet
import PacketTunnel.Proofs.Except
import PacketTunnel.Proofs.Message.Body

/-!
# The grammar of bodies

Which bytes are a body of which message, said without a reader: fields are lists of bytes of a
stated length that stand one after the other, and numbers are big-endian. The readers of a body take
their fields off its front one at a time. Each of them succeeds exactly when a field of its form
stands there, so `decodeBody` accepts exactly the grammar, and reads a body as the message that it
says.
-/
namespace PacketTunnel

/-- The number that bytes spell in base 256, the most significant first. -/
def Bytes.bigEndian (bytes : Bytes) : Nat := Nat.ofDigits 256 (bytes.reverse.map UInt8.toNat)

theorem Bytes.toNat_eq_bigEndian (bytes : Bytes) : toNat bytes = bytes.bigEndian := by
  induction bytes using concat_induction with
  | nil => rfl
  | concat bs b ih =>
    rw [toNat_concat, ih, bigEndian, bigEndian, List.reverse_append, List.reverse_singleton,
      List.singleton_append, List.map_cons, Nat.ofDigits_cons, Nat.add_comm]

/-- The network of a prefix length and the number of an address, without what the bits after the
prefix count. -/
structure Subnet.CutFrom {width : Nat} (s : Subnet width) (length address : Nat) : Prop where
  inRange : length ≤ width
  lengthKept : s.length.val = length
  cut : s.address.toNat = address / 2 ^ (width - length) * 2 ^ (width - length)

theorem Subnet.truncate_of_make?_iff {width length : Nat} {a : BitVec width} {s : Subnet width} :
    (make? a length).map truncate = some s ↔ s.CutFrom length a.toNat := by
  rw [make?]
  constructor
  · intro h
    split at h
    · rename_i hlength
      obtain rfl := Option.some.inj h
      exact ⟨Nat.le_of_lt_succ hlength, rfl, toNat_first _⟩
    · cases h
  · rintro ⟨hle, hlength, hcut⟩
    rw [dif_pos (Nat.lt_succ_of_le hle)]
    obtain ⟨address, kept⟩ := s
    refine congrArg some ?_
    rw [truncate, Subnet.mk.injEq]
    refine ⟨BitVec.eq_of_toNat_eq ?_, Fin.ext hlength.symm⟩
    rw [toNat_first, hcut]
    rfl

namespace Message

structure NumberForm (size : Nat) (bytes : Bytes) (n : Nat) : Prop where
  length_eq : bytes.length = size
  value_eq : n = bytes.bigEndian

theorem NumberForm.lt {size n : Nat} {bytes : Bytes} (h : NumberForm size bytes n) :
    n < Bytes.capacity size := by
  rw [h.value_eq, ← h.length_eq, ← Bytes.toNat_eq_bigEndian]
  exact Bytes.toNat_lt bytes

/-- The body of a probe: nothing, or an identifier and a timestamp. -/
inductive EchoForm : Bytes → Echo → Prop where
  | blank : EchoForm [] ⟨0, 0⟩
  | full {first second : Bytes} {echo : Echo} (id : NumberForm 4 first echo.id.toNat)
      (timestamp : NumberForm 8 second echo.timestamp.toNat) : EchoForm (first ++ second) echo

inductive AddressForm (size : Nat) {width : Nat} : Bool → Bytes → Option (BitVec width) → Prop where
  | absent : AddressForm size false [] none
  | present {bytes : Bytes} {a : BitVec width} (number : NumberForm size bytes a.toNat) :
      AddressForm size true bytes (some a)

/-- The body of a login: flags that announce addresses by their two lowest bits, and these
addresses. -/
inductive LoginForm : Bytes → VirtualAddresses → Prop where
  | mk {flags : UInt8} {first second : Bytes} {v : VirtualAddresses} (known : flags.toNat ≤ 3)
      (ipv4 : AddressForm 4 (flags.toNat.testBit 0) first v.ipv4)
      (ipv6 : AddressForm 16 (flags.toNat.testBit 1) second v.ipv6) :
      LoginForm (flags :: (first ++ second)) v

/-- The ends of a route behind its prefix length: a network and a gateway of `size` bytes each. -/
inductive EndsForm (size : Nat) {width : Nat} (length : Nat) :
    Bytes → Subnet width → BitVec width → Prop where
  | mk {first second : Bytes} {a g : BitVec width} {s : Subnet width}
      (network : NumberForm size first a.toNat)
      (cut : s.CutFrom length a.toNat) (gateway : NumberForm size second g.toNat) :
      EndsForm size length (first ++ second) s g

inductive EntryForm : Bytes → Route → Prop where
  | v4 {length : UInt8} {ends : Bytes} {s : Subnet 32} {g : IPv4}
      (form : EndsForm 4 length.toNat ends s g) : EntryForm (4 :: length :: ends) ⟨.v4 s, .v4 g⟩
  | v6 {length : UInt8} {ends : Bytes} {s : Subnet 128} {g : IPv6}
      (form : EndsForm 16 length.toNat ends s g) : EntryForm (6 :: length :: ends) ⟨.v6 s, .v6 g⟩

inductive AdvertisementForm : Bytes → List Route → Prop where
  | mk {count : Bytes} {entries : List Bytes} {routes : List Route}
      (counted : NumberForm 2 count entries.length)
      (read : List.Forall₂ EntryForm entries routes) :
      AdvertisementForm (count ++ entries.flatten) routes

/-- The bytes that are a body of a kind of message, and the message that they say. -/
inductive BodyForm : MessageKind → Bytes → Message → Prop where
  | data {packet : Bytes} (nonempty : packet ≠ []) : BodyForm .data packet (data packet)
  | echoRequest {body : Bytes} {echo : Echo} (form : EchoForm body echo) :
      BodyForm .echoRequest body (echoRequest echo)
  | echoAck {body : Bytes} {echo : Echo} (form : EchoForm body echo) : BodyForm .echoAck body
      (echoAck echo)
  | clientLogin {body : Bytes} {v : VirtualAddresses} (form : LoginForm body v) :
      BodyForm .clientLogin body (clientLogin v)
  | routeAdvertise {body : Bytes} {routes : List Route} (form : AdvertisementForm body routes) :
      BodyForm .routeAdvertise body (routeAdvertise routes)
  | disconnect : BodyForm .disconnect [] disconnect

/-- The reader takes a field of the form off the front of a body, and succeeds whenever there is
one. -/
def Reads {α : Type} (read : Bytes → Except DatagramFault (α × Bytes)) (form : Bytes → α → Prop) :
    Prop :=
  ∀ body a rest, read body = .ok (a, rest) ↔ ∃ front, form front a ∧ body = front ++ rest

theorem Reads.length_le {α : Type} {read : Bytes → Except DatagramFault (α × Bytes)}
    {form : Bytes → α → Prop} (h : Reads read form) {body rest : Bytes} {a : α}
    (hread : read body = .ok (a, rest)) :
    rest.length ≤ body.length := by
  obtain ⟨front, -, rfl⟩ := (h body a rest).mp hread
  rw [List.length_append]
  omega

theorem choice_bind {ε α β : Type} {p : Prop} [Decidable p] {x y : Except ε α}
    {f : α → Except ε β} :
    (if p then x >>= f else y >>= f) = (if p then x else y) >>= f :=
  (apply_ite (· >>= f) p x y).symm

theorem takeBytes_eq_ok_iff {count : Nat} {body front rest : Bytes} :
    takeBytes count body = .ok (front, rest) ↔ front.length = count ∧ body = front ++ rest := by
  constructor
  · intro h
    rw [takeBytes] at h
    split at h
    · cases h
    · cases h
      rw [List.length_take, List.take_append_drop]
      exact ⟨by omega, rfl⟩
  · rintro ⟨hcount, rfl⟩
    exact takeBytes_append front hcount rest

/-- What is computed from some bytes at the front of a body. -/
private theorem reads_bytes {α : Type} (count : Nat) (f : Bytes → α) {form : Bytes → α → Prop}
    (hform : ∀ front a, form front a ↔ front.length = count ∧ f front = a) :
    Reads (fun body => (takeBytes count body).map fun parts => (f parts.1, parts.2)) form := by
  intro body a rest
  rw [Except.map_eq_ok_iff]
  constructor
  · rintro ⟨⟨front, rest'⟩, hfront, heq⟩
    obtain ⟨hvalue, rfl⟩ := Prod.mk.inj heq
    obtain ⟨hlength, hbody⟩ := takeBytes_eq_ok_iff.mp hfront
    exact ⟨front, (hform front a).mpr ⟨hlength, hvalue⟩, hbody⟩
  · rintro ⟨front, hfront, hbody⟩
    obtain ⟨hlength, rfl⟩ := (hform front a).mp hfront
    exact ⟨(front, rest), takeBytes_eq_ok_iff.mpr ⟨hlength, hbody⟩, rfl⟩

theorem reads_takeNat (width : Nat) : Reads (takeNat width) (NumberForm width) := by
  refine reads_bytes width Bytes.toNat fun front n => ?_
  rw [Bytes.toNat_eq_bigEndian]
  constructor
  · rintro ⟨hlength, rfl⟩
    exact ⟨hlength, rfl⟩
  · rintro ⟨hlength, rfl⟩
    exact ⟨hlength, rfl⟩

theorem takeNat_one_eq_ok_iff {n : Nat} {body rest : Bytes} :
    takeNat 1 body = .ok (n, rest) ↔ ∃ b : UInt8, n = b.toNat ∧ body = b :: rest := by
  constructor
  · intro h
    obtain ⟨front, ⟨hlength, rfl⟩, rfl⟩ := (reads_takeNat 1 _ _ _).mp h
    obtain ⟨b, rfl⟩ := List.length_eq_one_iff.mp hlength
    exact ⟨b, by simp [Bytes.bigEndian], rfl⟩
  · rintro ⟨b, rfl, rfl⟩
    exact takeNat_one_cons b rest

private theorem reads_address {width size : Nat} (hroom : Bytes.capacity size = 2 ^ width) :
    Reads
      (fun body => (takeBytes size body).map fun parts =>
        (BitVec.ofNat width (Bytes.toNat parts.1), parts.2))
      fun front a => NumberForm size front a.toNat := by
  refine reads_bytes size (fun front => BitVec.ofNat width (Bytes.toNat front)) fun front a => ?_
  have hvalue (hlength : front.length = size) :
      (BitVec.ofNat width (Bytes.toNat front)).toNat = front.bigEndian := by
    have hlt := Bytes.toNat_lt front
    rw [hlength, hroom] at hlt
    rw [BitVec.toNat_ofNat, Nat.mod_eq_of_lt hlt, Bytes.toNat_eq_bigEndian]
  constructor
  · rintro ⟨hlength, ha⟩
    exact ⟨hlength, BitVec.eq_of_toNat_eq ((hvalue hlength).trans ha.symm)⟩
  · rintro ⟨hlength, rfl⟩
    exact ⟨hlength, hvalue hlength⟩

theorem reads_takeIPv4 : Reads takeIPv4 fun front a => NumberForm 4 front a.toNat :=
  reads_address rfl

theorem reads_takeIPv6 : Reads takeIPv6 fun front a => NumberForm 16 front a.toNat :=
  reads_address rfl

theorem decodeEcho_eq_ok_iff {body : Bytes} {echo : Echo} :
    decodeEcho body = .ok (echo, []) ↔ EchoForm body echo := by
  by_cases hempty : body = []
  · subst hempty
    constructor
    · intro h
      cases h
      exact .blank
    · generalize hbody : ([] : Bytes) = body
      rintro (_ | ⟨hid, -⟩)
      · rfl
      · have hlength := hid.length_eq
        rw [(List.append_eq_nil_iff.mp hbody.symm).1] at hlength
        cases hlength
  · rw [decodeEcho, if_neg (fun hnil => hempty (List.isEmpty_iff.mp hnil))]
    simp only [Except.bind_eq_ok_iff, Prod.exists]
    constructor
    · rintro ⟨id, rest, hid, timestamp, rest', htimestamp, heq⟩
      obtain ⟨rfl, rfl⟩ := Prod.mk.inj (Except.ok.inj heq)
      obtain ⟨first, hfirst, rfl⟩ := (reads_takeNat 4 _ _ _).mp hid
      obtain ⟨second, hsecond, rfl⟩ := (reads_takeNat 8 _ _ _).mp htimestamp
      rw [List.append_nil]
      rw [← UInt32.toNat_ofNat_of_lt' hfirst.lt] at hfirst
      rw [← UInt64.toNat_ofNat_of_lt' hsecond.lt] at hsecond
      exact .full hfirst hsecond
    · rintro (_ | ⟨hfirst, hsecond⟩)
      · exact absurd rfl hempty
      rename_i first second
      refine ⟨_, second, (reads_takeNat 4 _ _ _).mpr ⟨first, hfirst, rfl⟩, _, [],
        (reads_takeNat 8 _ _ _).mpr ⟨second, hsecond, (List.append_nil _).symm⟩, ?_⟩
      rw [UInt32.ofNat_toNat, UInt64.ofNat_toNat]

theorem flags_iff (flags : UInt8) :
    (flags &&& ~~~(ipv4Flag ||| ipv6Flag) = 0 ↔ flags.toNat ≤ 3) ∧
      decide (flags &&& ipv4Flag ≠ 0) = flags.toNat.testBit 0 ∧
      decide (flags &&& ipv6Flag ≠ 0) = flags.toNat.testBit 1 := by
  revert flags
  apply Bytes.forall_byte
  decide +kernel

theorem reads_announced {size width : Nat}
    {read : Bytes → Except DatagramFault (BitVec width × Bytes)}
    (h : Reads read fun front a => NumberForm size front a.toNat) (announced : Prop)
    [Decidable announced] :
    Reads (fun body => if announced then (read body).map fun p => (some p.1, p.2)
      else .ok (none, body)) (AddressForm size (decide announced)) := by
  intro body o rest
  by_cases hflag : announced
  · simp only [hflag, if_true, decide_true, Except.map_eq_ok_iff]
    constructor
    · rintro ⟨⟨a, rest'⟩, ha, heq⟩
      obtain ⟨rfl, rfl⟩ := Prod.mk.inj heq
      obtain ⟨front, hnumber, hbody⟩ := (h _ _ _).mp ha
      exact ⟨front, .present hnumber, hbody⟩
    · rintro ⟨front, ⟨⟩ | ⟨hnumber⟩, hbody⟩
      exact ⟨_, (h _ _ _).mpr ⟨front, hnumber, hbody⟩, rfl⟩
  · simp only [hflag, if_false, decide_false]
    constructor
    · intro heq
      cases heq
      exact ⟨[], .absent, rfl⟩
    · rintro ⟨front, ⟨⟩, rfl⟩
      rfl

theorem reads_decodeLogin : Reads decodeLogin LoginForm := by
  intro body v rest
  rw [decodeLogin]
  simp only [Except.bind_eq_ok_iff, Prod.exists]
  constructor
  · rintro ⟨n, rest₁, hn, h⟩
    obtain ⟨flags, rfl, rfl⟩ := takeNat_one_eq_ok_iff.mp hn
    obtain ⟨hknown, h4, h6⟩ := flags_iff flags
    rw [UInt8.ofNat_toNat] at h
    split at h
    · cases h
    rename_i hflags
    obtain ⟨⟨ipv4, rest₂⟩, hipv4, h⟩ := Except.bind_eq_ok_iff.mp (choice_bind.symm.trans h)
    obtain ⟨⟨ipv6, rest₃⟩, hipv6, h⟩ := Except.bind_eq_ok_iff.mp (choice_bind.symm.trans h)
    obtain ⟨rfl, rfl⟩ := Prod.mk.inj (Except.ok.inj h)
    obtain ⟨first, hfirst, rfl⟩ := (reads_announced reads_takeIPv4 _ _ _ _).mp hipv4
    obtain ⟨second, hsecond, rfl⟩ := (reads_announced reads_takeIPv6 _ _ _ _).mp hipv6
    rw [h4] at hfirst
    rw [h6] at hsecond
    refine ⟨_, .mk (hknown.mp (Decidable.not_not.mp hflags)) hfirst hsecond, ?_⟩
    rw [List.cons_append, List.append_assoc]
  · rintro ⟨_, ⟨known, hfirst, hsecond⟩, rfl⟩
    rename_i flags first second
    obtain ⟨hknown, h4, h6⟩ := flags_iff flags
    rw [← h4] at hfirst
    rw [← h6] at hsecond
    have hipv4 := (reads_announced reads_takeIPv4 _ _ _ (second ++ rest)).mpr ⟨first, hfirst, rfl⟩
    have hipv6 := (reads_announced reads_takeIPv6 _ _ _ rest).mpr ⟨second, hsecond, rfl⟩
    refine ⟨flags.toNat, first ++ (second ++ rest), ?_, ?_⟩
    · rw [List.cons_append, List.append_assoc, takeNat_one_cons]
    · rw [UInt8.ofNat_toNat, if_neg (Decidable.not_not.mpr (hknown.mpr known))]
      exact choice_bind.trans (Except.bind_eq_ok_iff.mpr
        ⟨_, hipv4, choice_bind.trans (Except.bind_eq_ok_iff.mpr ⟨_, hipv6, rfl⟩)⟩)

theorem ends_iff {size width length : Nat}
    {read : Bytes → Except DatagramFault (BitVec width × Bytes)}
    (h : Reads read fun front a => NumberForm size front a.toNat) {s : Subnet width}
    {g : BitVec width} {body rest : Bytes} :
    (∃ a rest', read body = .ok (a, rest') ∧ read rest' = .ok (g, rest) ∧
      s.CutFrom length a.toNat) ↔
      ∃ ends, EndsForm size length ends s g ∧ body = ends ++ rest := by
  constructor
  · rintro ⟨a, rest', ha, hg, hcut⟩
    obtain ⟨first, hfirst, rfl⟩ := (h _ _ _).mp ha
    obtain ⟨second, hsecond, rfl⟩ := (h _ _ _).mp hg
    exact ⟨_, .mk hfirst hcut hsecond, (List.append_assoc _ _ _).symm⟩
  · rintro ⟨_, ⟨hfirst, hcut, hsecond⟩, rfl⟩
    rename_i first second a
    exact ⟨a, second ++ rest, (h _ _ _).mpr ⟨first, hfirst, List.append_assoc _ _ _⟩,
      (h _ _ _).mpr ⟨second, hsecond, rfl⟩, hcut⟩

private theorem make_v4_iff {a g : IPv4} {length : Nat} {r : Route} :
    Route.make (.v4 a) length (.v4 g) = .ok r ↔
      ∃ s : Subnet 32, r = ⟨.v4 s, .v4 g⟩ ∧ s.CutFrom length a.toNat := by
  simp only [← Subnet.truncate_of_make?_iff, Route.make, Address.isV4, ne_eq, not_true_eq_false,
    if_false, Network.make?]
  cases Subnet.make? a length with
  | none => simp
  | some s => simp [Network.truncate, eq_comm]

private theorem make_v6_iff {a g : IPv6} {length : Nat} {r : Route} :
    Route.make (.v6 a) length (.v6 g) = .ok r ↔
      ∃ s : Subnet 128, r = ⟨.v6 s, .v6 g⟩ ∧ s.CutFrom length a.toNat := by
  simp only [← Subnet.truncate_of_make?_iff, Route.make, Address.isV4, ne_eq, not_true_eq_false,
    if_false, Network.make?]
  cases Subnet.make? a length with
  | none => simp
  | some s => simp [Network.truncate, eq_comm]

private theorem ends_eq_ok_iff {width : Nat}
    {read : Bytes → Except DatagramFault (BitVec width × Bytes)} {address : BitVec width → Address}
    {body rest : Bytes} {network gateway : Address} :
    (do let (a, rest) ← read body
        let (g, rest) ← read rest
        .ok (address a, address g, rest)) = Except.ok (network, gateway, rest) ↔
      ∃ a g, network = address a ∧ gateway = address g ∧
        ∃ rest', read body = .ok (a, rest') ∧ read rest' = .ok (g, rest) := by
  simp only [Except.bind_eq_ok_iff, Prod.exists, Except.ok.injEq, Prod.mk.injEq]
  constructor
  · rintro ⟨a, rest', ha, g, _, hg, rfl, rfl, rfl⟩
    exact ⟨a, g, rfl, rfl, rest', ha, hg⟩
  · rintro ⟨a, g, rfl, rfl, rest', ha, hg⟩
    exact ⟨a, rest', ha, g, rest, hg, rfl, rfl, rfl⟩

theorem takeRouteEnds_eq_ok_iff {family : UInt8} {body rest : Bytes} {network gateway : Address} :
    takeRouteEnds family body = .ok (network, gateway, rest) ↔
      (family = 4 ∧ ∃ a g, network = .v4 a ∧ gateway = .v4 g ∧
        ∃ rest', takeIPv4 body = .ok (a, rest') ∧ takeIPv4 rest' = .ok (g, rest)) ∨
      (family = 6 ∧ ∃ a g, network = .v6 a ∧ gateway = .v6 g ∧
        ∃ rest', takeIPv6 body = .ok (a, rest') ∧ takeIPv6 rest' = .ok (g, rest)) := by
  have hdistinct : (4 : UInt8) ≠ 6 := by decide
  rw [takeRouteEnds]
  by_cases hfour : family = 4
  · rw [if_pos hfour, ends_eq_ok_iff]
    simp only [hfour, true_and, hdistinct, false_and, or_false]
  · rw [if_neg hfour]
    by_cases hsix : family = 6
    · rw [if_pos hsix, ends_eq_ok_iff]
      simp only [hsix, hdistinct.symm, false_and, true_and, false_or]
    · rw [if_neg hsix]
      simp only [hfour, hsix, false_and, or_self, reduceCtorEq]

theorem decodeRoute_eq_ok_iff {body rest : Bytes} {r : Route} :
    decodeRoute body = .ok (r, rest) ↔
      ∃ (family length : UInt8) (ends : Bytes) (network gateway : Address),
        body = family :: length :: ends ∧
        takeRouteEnds family ends = .ok (network, gateway, rest) ∧
        Route.make network length.toNat gateway = .ok r := by
  rw [decodeRoute]
  simp only [Except.bind_eq_ok_iff, Prod.exists]
  constructor
  · rintro ⟨n, rest₁, hfamily, m, rest₂, hlength, network, gateway, rest₃, hends, h⟩
    obtain ⟨family, rfl, rfl⟩ := takeNat_one_eq_ok_iff.mp hfamily
    obtain ⟨length, rfl, rfl⟩ := takeNat_one_eq_ok_iff.mp hlength
    rw [UInt8.ofNat_toNat] at hends
    split at h
    · rename_i hmade
      obtain ⟨rfl, rfl⟩ := Prod.mk.inj (Except.ok.inj h)
      exact ⟨family, length, rest₂, network, gateway, rfl, hends, hmade⟩
    · cases h
  · rintro ⟨family, length, ends, network, gateway, rfl, hends, hmade⟩
    refine ⟨_, _, takeNat_one_cons _ _, _, _, takeNat_one_cons _ _, network, gateway, rest, ?_, ?_⟩
    · rw [UInt8.ofNat_toNat, hends]
    · rw [hmade]

theorem reads_decodeRoute : Reads decodeRoute EntryForm := by
  intro body r rest
  rw [decodeRoute_eq_ok_iff]
  constructor
  · rintro ⟨family, length, ends, network, gateway, rfl, hends, hmade⟩
    rcases takeRouteEnds_eq_ok_iff.mp hends with
      ⟨rfl, a, g, rfl, rfl, rest', ha, hg⟩ | ⟨rfl, a, g, rfl, rfl, rest', ha, hg⟩
    · obtain ⟨s, rfl, hcut⟩ := make_v4_iff.mp hmade
      obtain ⟨ends, hform, rfl⟩ := (ends_iff reads_takeIPv4).mp ⟨a, rest', ha, hg, hcut⟩
      exact ⟨_, .v4 hform, rfl⟩
    · obtain ⟨s, rfl, hcut⟩ := make_v6_iff.mp hmade
      obtain ⟨ends, hform, rfl⟩ := (ends_iff reads_takeIPv6).mp ⟨a, rest', ha, hg, hcut⟩
      exact ⟨_, .v6 hform, rfl⟩
  · rintro ⟨_, ⟨hform⟩ | ⟨hform⟩, rfl⟩
    · obtain ⟨a, rest', ha, hg, hcut⟩ := (ends_iff reads_takeIPv4).mpr ⟨_, hform, rfl⟩
      exact ⟨4, _, _, .v4 a, _, rfl,
        takeRouteEnds_eq_ok_iff.mpr (.inl ⟨rfl, a, _, rfl, rfl, rest', ha, hg⟩),
        make_v4_iff.mpr ⟨_, rfl, hcut⟩⟩
    · obtain ⟨a, rest', ha, hg, hcut⟩ := (ends_iff reads_takeIPv6).mpr ⟨_, hform, rfl⟩
      exact ⟨6, _, _, .v6 a, _, rfl,
        takeRouteEnds_eq_ok_iff.mpr (.inr ⟨rfl, a, _, rfl, rfl, rest', ha, hg⟩),
        make_v6_iff.mpr ⟨_, rfl, hcut⟩⟩

theorem reads_decodeRoutes (count : Nat) :
    Reads (decodeRoutes count) fun front routes =>
      ∃ entries : List Bytes, entries.length = count ∧ front = entries.flatten ∧
        List.Forall₂ EntryForm entries routes := by
  induction count with
  | zero =>
    intro body routes rest
    constructor
    · intro h
      cases h
      exact ⟨[], ⟨[], rfl, rfl, .nil⟩, rfl⟩
    · rintro ⟨_, ⟨entries, hcount, rfl, hread⟩, rfl⟩
      obtain rfl := List.length_eq_zero_iff.mp hcount
      cases hread
      rfl
  | succ count ih =>
    intro body routes rest
    rw [decodeRoutes]
    simp only [Except.bind_eq_ok_iff, Prod.exists]
    constructor
    · rintro ⟨r, rest₁, hr, later, rest₂, hlater, h⟩
      obtain ⟨rfl, rfl⟩ := Prod.mk.inj (Except.ok.inj h)
      obtain ⟨entry, hentry, rfl⟩ := (reads_decodeRoute _ _ _).mp hr
      obtain ⟨_, ⟨entries, rfl, rfl, hread⟩, rfl⟩ := (ih _ _ _).mp hlater
      exact ⟨_, ⟨entry :: entries, rfl, rfl, .cons hentry hread⟩,
        by rw [List.flatten_cons, List.append_assoc]⟩
    · rintro ⟨_, ⟨entries, hcount, rfl, hread⟩, rfl⟩
      cases hread with
      | nil => cases hcount
      | @cons entry r entries later hentry hread =>
        refine ⟨r, entries.flatten ++ rest, (reads_decodeRoute _ _ _).mpr ⟨entry, hentry, ?_⟩,
          later, rest, (ih _ _ _).mpr ⟨_, ⟨entries, Nat.succ.inj hcount, rfl, hread⟩, rfl⟩, rfl⟩
        rw [List.flatten_cons, List.append_assoc]

theorem EntryForm.shortest_le {entry : Bytes} {r : Route} (h : EntryForm entry r) :
    shortestRoute ≤ entry.length := by
  rcases h with ⟨⟨hnetwork, -, hgateway⟩⟩ | ⟨⟨hnetwork, -, hgateway⟩⟩
  all_goals
    simp only [List.length_cons, List.length_append, hnetwork.length_eq, hgateway.length_eq]
    decide

theorem length_mul_shortest_le {entries : List Bytes} {routes : List Route}
    (h : List.Forall₂ EntryForm entries routes) :
    entries.length * shortestRoute ≤ entries.flatten.length := by
  induction h with
  | nil => exact Nat.le_of_eq (Nat.zero_mul _)
  | cons hentry _ ih =>
    have hshort := hentry.shortest_le
    rw [List.length_cons, Nat.succ_mul, List.flatten_cons, List.length_append]
    omega

theorem reads_decodeAdvertisement : Reads decodeAdvertisement AdvertisementForm := by
  intro body routes rest
  rw [decodeAdvertisement]
  simp only [Except.bind_eq_ok_iff, Prod.exists]
  constructor
  · rintro ⟨n, rest₁, hn, h⟩
    obtain ⟨count, hcount, rfl⟩ := (reads_takeNat 2 _ _ _).mp hn
    split at h
    · cases h
    obtain ⟨_, ⟨entries, rfl, rfl, hread⟩, rfl⟩ := (reads_decodeRoutes _ _ _ _).mp h
    exact ⟨_, .mk hcount hread, (List.append_assoc _ _ _).symm⟩
  · rintro ⟨_, ⟨counted, hread⟩, rfl⟩
    rename_i count entries
    refine ⟨entries.length, entries.flatten ++ rest,
      (reads_takeNat 2 _ _ _).mpr ⟨count, counted, List.append_assoc _ _ _⟩, ?_⟩
    have hroom : ¬ (entries.flatten ++ rest).length / shortestRoute < entries.length := by
      have hshort := length_mul_shortest_le hread
      rw [Nat.not_lt, Nat.le_div_iff_mul_le (by decide), List.length_append]
      omega
    rw [if_neg hroom]
    exact (reads_decodeRoutes _ _ _ _).mpr ⟨_, ⟨entries, rfl, rfl, hread⟩, rfl⟩

private theorem finish_eq_ok_iff {k : MessageKind} {m m' : Message} {rest : Bytes} :
    finish k m rest = .ok m' ↔ rest = [] ∧ m = m' := by
  cases rest <;> simp [finish]

private theorem finished_iff {α : Type} {read : Except DatagramFault (α × Bytes)} {k : MessageKind}
    {build : α → Message} {m : Message} :
    (read >>= fun p => finish k (build p.1) p.2) = .ok m ↔ ∃ a, read = .ok (a, []) ∧
      build a = m := by
  simp only [Except.bind_eq_ok_iff, Prod.exists, finish_eq_ok_iff]
  constructor
  · rintro ⟨a, rest, ha, rfl, rfl⟩
    exact ⟨a, ha, rfl⟩
  · rintro ⟨a, ha, rfl⟩
    exact ⟨a, [], ha, rfl, rfl⟩

theorem Reads.whole {α : Type} {read : Bytes → Except DatagramFault (α × Bytes)}
    {form : Bytes → α → Prop} (h : Reads read form) {body : Bytes} {a : α} :
    read body = .ok (a, []) ↔ form body a := by
  rw [h]
  simp only [List.append_nil]
  exact ⟨fun ⟨_, hform, hbody⟩ => hbody ▸ hform, fun hform => ⟨body, hform, rfl⟩⟩

/-- A body is read exactly when it is one, and as the message that it says. -/
theorem decodeBody_eq_ok_iff {k : MessageKind} {body : Bytes} {m : Message} :
    decodeBody k body = .ok m ↔ BodyForm k body m := by
  cases k with
  | data =>
    rw [decodeBody]
    constructor
    · intro h
      split at h
      · cases h
      · rename_i hnonempty
        cases h
        exact .data (fun hnil => hnonempty (List.isEmpty_iff.mpr hnil))
    · rintro ⟨hnonempty⟩
      rw [if_neg (fun hnil => hnonempty (List.isEmpty_iff.mp hnil))]
  | echoRequest =>
    refine finished_iff.trans ?_
    simp only [decodeEcho_eq_ok_iff]
    constructor
    · rintro ⟨echo, hform, rfl⟩
      exact .echoRequest hform
    · intro h
      cases h with
      | echoRequest hform => exact ⟨_, hform, rfl⟩
  | echoAck =>
    refine finished_iff.trans ?_
    simp only [decodeEcho_eq_ok_iff]
    constructor
    · rintro ⟨echo, hform, rfl⟩
      exact .echoAck hform
    · intro h
      cases h with
      | echoAck hform => exact ⟨_, hform, rfl⟩
  | clientLogin =>
    refine finished_iff.trans ?_
    simp only [reads_decodeLogin.whole]
    constructor
    · rintro ⟨v, hform, rfl⟩
      exact .clientLogin hform
    · intro h
      cases h with
      | clientLogin hform => exact ⟨_, hform, rfl⟩
  | routeAdvertise =>
    refine finished_iff.trans ?_
    simp only [reads_decodeAdvertisement.whole]
    constructor
    · rintro ⟨routes, hform, rfl⟩
      exact .routeAdvertise hform
    · intro h
      cases h with
      | routeAdvertise hform => exact ⟨_, hform, rfl⟩
  | disconnect =>
    refine finish_eq_ok_iff.trans ?_
    constructor
    · rintro ⟨rfl, rfl⟩
      exact .disconnect
    · rintro ⟨⟩
      exact ⟨rfl, rfl⟩

end Message

end PacketTunnel
