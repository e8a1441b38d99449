import Mathlib.Algebra.Group.Nat.Defs
import PacketTunnel.Proofs.Message.Grammar

/-!
# How a body spells its message

The converse of reading back: what stands in the form of a body is what the writer would have put
there. Two forms are more lenient than the writers. An empty body passes for a probe of zeros, and a
route may have bits after its prefix, which are cleared as it is read. Every body that is read is
therefore empty or the bytes of some message, its routes taken as they stand in the body, and the
message that was read is that one with its routes cleared.
-/
namespace PacketTunnel

theorem Subnet.parts_of_make? {width length : Nat} {address : BitVec width} {s : Subnet width}
    (h : make? address length = some s) : s.address = address ∧ s.length.val = length := by
  unfold make? at h
  split at h
  · cases h
    exact ⟨rfl, rfl⟩
  · cases h

namespace Route

def cleared (r : Route) : Route := { r with network := r.network.truncate }

def OneFamily (r : Route) : Prop := r.isV4 = r.gateway.isV4

theorem OneFamily.ends {r : Route} (h : r.OneFamily) :
    (∃ s g, r = ⟨.v4 s, .v4 g⟩) ∨ ∃ s g, r = ⟨.v6 s, .v6 g⟩ := by
  obtain ⟨network, gateway⟩ := r
  cases network with
  | v4 s =>
    cases gateway with
    | v4 g => exact .inl ⟨s, g, rfl⟩
    | v6 g => cases h
  | v6 s =>
    cases gateway with
    | v4 g => cases h
    | v6 g => exact .inr ⟨s, g, rfl⟩

theorem made_cleared {r : Route} (h : r.OneFamily) : r.cleared.Made := by
  have hfamily : r.cleared.isV4 = r.cleared.gateway.isV4 := by
    rw [isV4, cleared, Network.isV4_truncate]
    exact h
  exact made_iff.mpr ⟨hfamily, r.network.truncate_truncate⟩

theorem Made.oneFamily {r : Route} (h : r.Made) : r.OneFamily := (made_iff.mp h).1

end Route

namespace Message

theorem NumberForm.spelled {size n : Nat} {bytes : Bytes} (h : NumberForm size bytes n) :
    bytes = Bytes.ofNat size n := by
  rw [h.value_eq, ← Bytes.toNat_eq_bigEndian, ← h.length_eq, Bytes.ofNat_toNat]

theorem EchoForm.spelled {body : Bytes} {echo : Echo} (h : EchoForm body echo) :
    body = [] ∧ echo = ⟨0, 0⟩ ∨ body = encodeEcho echo := by
  cases h with
  | blank => exact .inl ⟨rfl, rfl⟩
  | full id timestamp => exact .inr (by rw [encodeEcho, id.spelled, timestamp.spelled])

theorem AddressForm.spelled {size width : Nat} {announced : Bool} {bytes : Bytes}
    {o : Option (BitVec width)} (h : AddressForm size announced bytes o) :
    announced = o.isSome ∧ bytes = (o.map fun a => Bytes.ofNat size a.toNat).getD [] := by
  cases h with
  | absent => exact ⟨rfl, rfl⟩
  | present number => exact ⟨rfl, number.spelled⟩

private theorem flags_of_known (flags : UInt8) : flags.toNat ≤ 3 →
    (if flags.toNat.testBit 0 then ipv4Flag else 0) ||| (if flags.toNat.testBit 1 then ipv6Flag
      else 0) = flags := by
  revert flags
  apply Bytes.forall_byte
  decide +kernel

theorem LoginForm.spelled {body : Bytes} {v : VirtualAddresses} (h : LoginForm body v) :
    body = encodeLogin v := by
  obtain ⟨known, ipv4, ipv6⟩ := h
  rename_i flags first second
  obtain ⟨h4, rfl⟩ := ipv4.spelled
  obtain ⟨h6, rfl⟩ := ipv6.spelled
  have hflags := flags_of_known flags known
  rw [h4, h6] at hflags
  rw [encodeLogin, hflags]
  rfl

/-- The ends of a route spell it to the network as it stands before it is cut. -/
theorem EndsForm.spelled {size width length : Nat} {ends : Bytes} {s : Subnet width}
    {g : BitVec width} (h : EndsForm size length ends s g) :
    ∃ n : Subnet width, n.truncate = s ∧ n.length.val = length ∧
      ends = Bytes.ofNat size n.address.toNat ++ Bytes.ofNat size g.toNat := by
  obtain ⟨network, cut, gateway⟩ := h
  obtain ⟨n, hn, rfl⟩ := Option.map_eq_some_iff.mp (Subnet.truncate_of_make?_iff.mpr cut)
  obtain ⟨haddress, hlength⟩ := Subnet.parts_of_make? hn
  exact ⟨n, rfl, hlength, by rw [haddress, network.spelled, gateway.spelled]⟩

theorem EntryForm.spelled {entry : Bytes} {r : Route} (h : EntryForm entry r) :
    ∃ q : Route, q.OneFamily ∧ q.cleared = r ∧ entry = encodeRoute q := by
  cases h with
  | @v4 length ends s g form =>
    obtain ⟨n, rfl, hlength, hends⟩ := form.spelled
    refine ⟨⟨.v4 n, .v4 g⟩, rfl, rfl, ?_⟩
    rw [hends, ← UInt8.ofNat_toNat (x := length), ← hlength]
    rfl
  | @v6 length ends s g form =>
    obtain ⟨n, rfl, hlength, hends⟩ := form.spelled
    refine ⟨⟨.v6 n, .v6 g⟩, rfl, rfl, ?_⟩
    rw [hends, ← UInt8.ofNat_toNat (x := length), ← hlength]
    rfl

theorem spelled_of_entries {entries : List Bytes} {routes : List Route}
    (h : List.Forall₂ EntryForm entries routes) :
    ∃ qs : List Route, qs.length = entries.length ∧ (∀ q ∈ qs, q.OneFamily) ∧
      qs.map Route.cleared = routes ∧
      entries.flatten = qs.flatMap encodeRoute := by
  induction h with
  | nil => exact ⟨[], rfl, fun _ hq => absurd hq List.not_mem_nil, rfl, rfl⟩
  | cons hentry _ ih =>
    obtain ⟨q, hq, rfl, rfl⟩ := hentry.spelled
    obtain ⟨qs, hlength, hqs, rfl, hbytes⟩ := ih
    refine ⟨q :: qs, by rw [List.length_cons, List.length_cons, hlength], ?_, rfl, ?_⟩
    · intro q' hq'
      rcases List.mem_cons.mp hq' with rfl | hq'
      · exact hq
      · exact hqs q' hq'
    · rw [List.flatten_cons, List.flatMap_cons, hbytes]

theorem AdvertisementForm.spelled {body : Bytes} {routes : List Route}
    (h : AdvertisementForm body routes) :
    ∃ qs : List Route, (∀ q ∈ qs, q.OneFamily) ∧ qs.map Route.cleared = routes ∧
      body = (routeAdvertise qs).encodeBody := by
  obtain ⟨counted, read⟩ := h
  obtain ⟨qs, hlength, hqs, hcleared, hbytes⟩ := spelled_of_entries read
  exact ⟨qs, hqs, hcleared, by rw [encodeBody, hlength, ← counted.spelled, hbytes]⟩

def cleared : Message → Message
  | routeAdvertise rs => routeAdvertise (rs.map Route.cleared)
  | m => m

/-- A message that a body can spell: its packet is not empty, each of its routes is of one family.
-/
def Spellable : Message → Prop
  | data packet => packet ≠ []
  | routeAdvertise rs => ∀ r ∈ rs, r.OneFamily
  | _ => True

/-- The probe of zeros that an empty body passes for. -/
def IsBlankProbe (m : Message) : Prop := m = echoRequest ⟨0, 0⟩ ∨ m = echoAck ⟨0, 0⟩

/-- A body that is read is empty in place of a probe, or spells a message which, cleared, is the one
read. -/
theorem spelled_of_decodeBody {k : MessageKind} {body : Bytes} {m : Message}
    (h : decodeBody k body = .ok m) :
    body = [] ∧ m.IsBlankProbe ∨ ∃ q : Message, q.Spellable ∧ q.cleared = m ∧
      q.encodeBody = body := by
  cases decodeBody_eq_ok_iff.mp h with
  | data nonempty => exact .inr ⟨data body, nonempty, rfl, rfl⟩
  | echoRequest form =>
    rcases form.spelled with ⟨hbody, rfl⟩ | hbody
    · exact .inl ⟨hbody, .inl rfl⟩
    · exact .inr ⟨echoRequest _, trivial, rfl, hbody.symm⟩
  | echoAck form =>
    rcases form.spelled with ⟨hbody, rfl⟩ | hbody
    · exact .inl ⟨hbody, .inr rfl⟩
    · exact .inr ⟨echoAck _, trivial, rfl, hbody.symm⟩
  | clientLogin form => exact .inr ⟨clientLogin _, trivial, rfl, form.spelled.symm⟩
  | routeAdvertise form =>
    obtain ⟨qs, hqs, rfl, hbody⟩ := form.spelled
    exact .inr ⟨routeAdvertise qs, hqs, rfl, hbody.symm⟩
  | disconnect => exact .inr ⟨disconnect, trivial, rfl, rfl⟩

theorem sound_of_decodeBody {k : MessageKind} {body : Bytes} {m : Message}
    (h : decodeBody k body = .ok m) :
    m.Sound := by
  rcases spelled_of_decodeBody h with ⟨-, rfl | rfl⟩ | ⟨q, hq, rfl, -⟩
  · trivial
  · trivial
  · cases q with
    | data packet => exact hq
    | routeAdvertise rs =>
      intro r hr
      obtain ⟨r₀, hr₀, rfl⟩ := List.mem_map.mp hr
      exact Route.made_cleared (hq r₀ hr₀)
    | _ => trivial

private theorem ofNat_toNat_inj {width count : Nat} {a b : BitVec width}
    (hroom : Bytes.capacity count = 2 ^ width)
    (h : Bytes.ofNat count a.toNat = Bytes.ofNat count b.toNat) : a = b := by
  have hread := congrArg Bytes.toNat h
  rw [Bytes.toNat_ofNat, Bytes.toNat_ofNat, hroom, Nat.mod_eq_of_lt a.isLt,
    Nat.mod_eq_of_lt b.isLt] at hread
  exact BitVec.eq_of_toNat_eq hread

private theorem ends_inj {width : Nat} (count : Nat) (hwidth : width ≤ 128)
    (hroom : Bytes.capacity count = 2 ^ width) {s t : Subnet width} {g g' : BitVec width}
    {x y : Bytes}
    (h : UInt8.ofNat s.length :: (Bytes.ofNat count s.address.toNat ++ Bytes.ofNat count g.toNat) ++
      x = UInt8.ofNat t.length ::
      (Bytes.ofNat count t.address.toNat ++ Bytes.ofNat count g'.toNat) ++ y) :
    s = t ∧ g = g' ∧ x = y := by
  obtain ⟨saddress, slength⟩ := s
  obtain ⟨taddress, tlength⟩ := t
  simp only [List.cons_append, List.append_assoc, List.cons.injEq] at h
  obtain ⟨hlength, hends⟩ := h
  obtain ⟨haddress, hends⟩ := List.append_inj hends (by simp)
  obtain ⟨hgateway, hrest⟩ := List.append_inj hends (by simp)
  have hbytes := congrArg UInt8.toNat hlength
  have hs := slength.isLt
  have ht := tlength.isLt
  rw [UInt8.toNat_ofNat', UInt8.toNat_ofNat'] at hbytes
  have hval : slength = tlength := Fin.ext (by omega)
  exact ⟨by rw [hval, ofNat_toNat_inj hroom haddress], ofNat_toNat_inj hroom hgateway, hrest⟩

/-- The bytes of a route of one family tell it from every other, whatever follows them. -/
theorem encodeRoute_append_inj {r q : Route} (hr : r.OneFamily) (hq : q.OneFamily) {x y : Bytes}
    (h : encodeRoute r ++ x = encodeRoute q ++ y) : r = q ∧ x = y := by
  rcases hr.ends with ⟨s, g, rfl⟩ | ⟨s, g, rfl⟩
  · rcases hq.ends with ⟨t, g', rfl⟩ | ⟨t, g', rfl⟩
    · obtain ⟨rfl, rfl, rfl⟩ := ends_inj 4 (by decide) rfl (List.cons.inj h).2
      exact ⟨rfl, rfl⟩
    · exact absurd (List.cons.inj h).1 (by decide)
  · rcases hq.ends with ⟨t, g', rfl⟩ | ⟨t, g', rfl⟩
    · exact absurd (List.cons.inj h).1 (by decide)
    · obtain ⟨rfl, rfl, rfl⟩ := ends_inj 16 (by decide) rfl (List.cons.inj h).2
      exact ⟨rfl, rfl⟩

theorem encodeRoute_ne_nil {r : Route} (hr : r.OneFamily) : encodeRoute r ≠ [] := by
  rcases hr.ends with ⟨s, g, rfl⟩ | ⟨s, g, rfl⟩ <;> exact List.cons_ne_nil _ _

theorem flatMap_encodeRoute_inj {rs qs : List Route} (hrs : ∀ r ∈ rs, r.OneFamily)
    (hqs : ∀ q ∈ qs, q.OneFamily) (h : rs.flatMap encodeRoute = qs.flatMap encodeRoute) :
    rs = qs := by
  induction rs generalizing qs with
  | nil =>
    cases qs with
    | nil => rfl
    | cons q qs =>
      have hnil := (List.append_eq_nil_iff.mp h.symm).1
      exact absurd hnil (encodeRoute_ne_nil (hqs q List.mem_cons_self))
  | cons r rs ih =>
    cases qs with
    | nil =>
      have hnil := (List.append_eq_nil_iff.mp h).1
      exact absurd hnil (encodeRoute_ne_nil (hrs r List.mem_cons_self))
    | cons q qs =>
      obtain ⟨rfl, hrest⟩ :=
        encodeRoute_append_inj (hrs r List.mem_cons_self) (hqs q List.mem_cons_self) h
      have hlater := ih (fun r' hr' => hrs r' (List.mem_cons_of_mem r hr'))
        (fun q' hq' => hqs q' (List.mem_cons_of_mem r hq')) hrest
      rw [hlater]

theorem encodeBody_routeAdvertise_inj {rs qs : List Route} (hrs : ∀ r ∈ rs, r.OneFamily)
    (hqs : ∀ q ∈ qs, q.OneFamily)
    (h : (routeAdvertise rs).encodeBody = (routeAdvertise qs).encodeBody) : rs = qs := by
  have hroutes := (List.append_inj h (by rw [Bytes.length_ofNat, Bytes.length_ofNat])).2
  exact flatMap_encodeRoute_inj hrs hqs hroutes

theorem length_encodeBody_cleared {m : Message} (hm : m.Spellable) :
    m.cleared.encodeBody.length = m.encodeBody.length := by
  cases m with
  | routeAdvertise rs =>
    have hroutes : ((rs.map Route.cleared).flatMap encodeRoute).length =
        (rs.flatMap encodeRoute).length := by
      rw [List.length_flatMap, List.length_flatMap, List.map_map]
      refine congrArg List.sum (List.map_congr_left fun r hr => ?_)
      rcases (hm r hr).ends with ⟨s, g, rfl⟩ | ⟨s, g, rfl⟩ <;>
        simp [encodeRoute, Route.cleared, Network.truncate, IPv4.toBytes, IPv6.toBytes]
    simp only [cleared, encodeBody, List.length_append, Bytes.length_ofNat, hroutes]
  | _ => rfl

end Message

end PacketTunnel
