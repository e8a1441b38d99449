import PacketTunnel.Message.Body
import PacketTunnel.Proofs.Route.Making

/-!
# Message bodies read back

Each reader takes from the front of a body exactly what its writer put there and leaves what
follows. For advertisements this needs routes that were made, since a reader makes every route anew,
and no more of them than a count of two bytes can state; a body of at most 65535 bytes never holds
more.
-/
namespace PacketTunnel

namespace Message

theorem takeBytes_append {count : Nat} (front : Bytes) (h : front.length = count) (rest : Bytes) :
    takeBytes count (front ++ rest) = .ok (front, rest) := by
  subst h
  rw [takeBytes, if_neg (by rw [List.length_append]; omega), List.take_left, List.drop_left]

theorem takeNat_append {width n : Nat} (h : n < Bytes.capacity width) (rest : Bytes) :
    takeNat width (Bytes.ofNat width n ++ rest) = .ok (n, rest) := by
  rw [takeNat, takeBytes_append _ (Bytes.length_ofNat width n)]
  simp only [Except.map, Bytes.toNat_ofNat, Nat.mod_eq_of_lt h]

theorem takeNat_one_cons (b : UInt8) (rest : Bytes) :
    takeNat 1 (b :: rest) = .ok (b.toNat, rest) := by
  have h : takeBytes 1 (b :: rest) = .ok ([b], rest) := takeBytes_append [b] rfl rest
  rw [takeNat, h]
  simp [Except.map, Bytes.toNat]

/-- An address whose bits fill its bytes reads back. -/
private theorem ofNat_toNat_ofNat {width count : Nat} {a : BitVec width}
    (h : a.toNat < Bytes.capacity count) :
    BitVec.ofNat width (Bytes.toNat (Bytes.ofNat count a.toNat)) = a := by
  rw [Bytes.toNat_ofNat, Nat.mod_eq_of_lt h, BitVec.ofNat_toNat, BitVec.setWidth_eq]

theorem takeIPv4_append (a : IPv4) (rest : Bytes) :
    takeIPv4 (a.toBytes ++ rest) = .ok (a, rest) := by
  have hfit : a.toNat < Bytes.capacity 4 := a.isLt
  rw [takeIPv4, takeBytes_append a.toBytes (Bytes.length_ofNat 4 a.toNat)]
  exact congrArg (fun b => Except.ok (b, rest)) (ofNat_toNat_ofNat hfit)

theorem takeIPv6_append (a : IPv6) (rest : Bytes) :
    takeIPv6 (a.toBytes ++ rest) = .ok (a, rest) := by
  have hfit : a.toNat < Bytes.capacity 16 := a.isLt
  rw [takeIPv6, takeBytes_append a.toBytes (Bytes.length_ofNat 16 a.toNat)]
  exact congrArg (fun b => Except.ok (b, rest)) (ofNat_toNat_ofNat hfit)

theorem decodeEcho_append (echo : Echo) (rest : Bytes) :
    decodeEcho (encodeEcho echo ++ rest) = .ok (echo, rest) := by
  have hid : echo.id.toNat < Bytes.capacity 4 := echo.id.toNat_lt
  have htimestamp : echo.timestamp.toNat < Bytes.capacity 8 := echo.timestamp.toNat_lt
  have hnonempty : (encodeEcho echo ++ rest).isEmpty = false := rfl
  rw [decodeEcho, hnonempty, encodeEcho, List.append_assoc]
  simp only [Bool.false_eq_true, if_false, takeNat_append hid, takeNat_append htimestamp, bind,
    Except.bind, UInt32.ofNat_toNat, UInt64.ofNat_toNat]

theorem decodeLogin_append (v : VirtualAddresses) (rest : Bytes) :
    decodeLogin (encodeLogin v ++ rest) = .ok (v, rest) := by
  obtain ⟨v4, v6⟩ := v
  cases v4 <;> cases v6 <;>
    simp +decide [decodeLogin, encodeLogin, takeNat_one_cons, takeIPv4_append, takeIPv6_append,
      ipv4Flag, ipv6Flag, bind, Except.bind, Except.map]

theorem takeRouteEnds_v4 (network gateway : IPv4) (rest : Bytes) :
    takeRouteEnds 4 (network.toBytes ++ (gateway.toBytes ++ rest)) =
      .ok (.v4 network, .v4 gateway, rest) := by
  simp only [takeRouteEnds, if_true, takeIPv4_append, bind, Except.bind]

theorem takeRouteEnds_v6 (network gateway : IPv6) (rest : Bytes) :
    takeRouteEnds 6 (network.toBytes ++ (gateway.toBytes ++ rest)) =
      .ok (.v6 network, .v6 gateway, rest) := by
  have hfamily : ¬ (6 : UInt8) = 4 := by decide
  simp only [takeRouteEnds, if_neg hfamily, if_true, takeIPv6_append, bind, Except.bind]

theorem encodeRoute_of_made {r : Route} (h : r.Made) :
    ∃ (family : UInt8) (ends : Bytes),
      encodeRoute r = family :: UInt8.ofNat r.network.length :: ends ∧
      shortestRoute ≤ ends.length + 2 ∧
      ∀ rest, takeRouteEnds family (ends ++ rest) = .ok (r.network.address, r.gateway, rest) := by
  obtain ⟨network, gateway⟩ := r
  have hfamily : network.isV4 = gateway.isV4 := (Route.made_iff.mp h).1
  cases network with
  | v4 s =>
    cases gateway with
    | v4 g =>
      refine ⟨4, IPv4.toBytes s.address ++ IPv4.toBytes g, rfl, ?_, fun rest => ?_⟩
      · rw [List.length_append, IPv4.toBytes, IPv4.toBytes, Bytes.length_ofNat, Bytes.length_ofNat]
        decide
      · rw [List.append_assoc]
        exact takeRouteEnds_v4 s.address g rest
    | v6 g => cases hfamily
  | v6 s =>
    cases gateway with
    | v4 g => cases hfamily
    | v6 g =>
      refine ⟨6, IPv6.toBytes s.address ++ IPv6.toBytes g, rfl, ?_, fun rest => ?_⟩
      · rw [List.length_append, IPv6.toBytes, IPv6.toBytes, Bytes.length_ofNat, Bytes.length_ofNat]
        decide
      · rw [List.append_assoc]
        exact takeRouteEnds_v6 s.address g rest

theorem decodeRoute_append {r : Route} (h : r.Made) (rest : Bytes) :
    decodeRoute (encodeRoute r ++ rest) = .ok (r, rest) := by
  obtain ⟨family, ends, hbytes, -, hends⟩ := encodeRoute_of_made h
  obtain ⟨hfamily, hclear⟩ := Route.made_iff.mp h
  have hlength : (UInt8.ofNat r.network.length).toNat = r.network.length := by
    have hle := r.network.length_le
    rw [UInt8.toNat_ofNat']
    omega
  rw [decodeRoute, hbytes]
  simp only [List.cons_append, takeNat_one_cons, hends, hlength, UInt8.ofNat_toNat, bind,
    Except.bind, Route.make_self hfamily hclear]

theorem decodeRoutes_append {routes : List Route} (h : ∀ r ∈ routes, r.Made) (rest : Bytes) :
    decodeRoutes routes.length (routes.flatMap encodeRoute ++ rest) = .ok (routes, rest) := by
  induction routes with
  | nil => rfl
  | cons r later ih =>
    have hlater := ih fun r' hr' => h r' (List.mem_cons_of_mem r hr')
    rw [List.length_cons, decodeRoutes, List.flatMap_cons, List.append_assoc,
      decodeRoute_append (h r List.mem_cons_self)]
    simp only [bind, Except.bind, hlater]

theorem length_flatMap_encodeRoute {routes : List Route} (h : ∀ r ∈ routes, r.Made) :
    routes.length * shortestRoute ≤ (routes.flatMap encodeRoute).length := by
  induction routes with
  | nil => decide
  | cons r later ih =>
    have hlater := ih fun r' hr' => h r' (List.mem_cons_of_mem r hr')
    obtain ⟨family, ends, hbytes, hshort, -⟩ := encodeRoute_of_made (h r List.mem_cons_self)
    simp only [List.flatMap_cons, List.length_append, List.length_cons, hbytes, Nat.succ_mul]
    omega

theorem decodeAdvertisement_append {routes : List Route} (h : ∀ r ∈ routes, r.Made)
    (hcount : routes.length < 65536) :
    decodeAdvertisement (Bytes.ofNat 2 routes.length ++ routes.flatMap encodeRoute) =
      .ok (routes, []) := by
  have hroom : ¬ (routes.flatMap encodeRoute).length / shortestRoute < routes.length := by
    rw [Nat.not_lt, Nat.le_div_iff_mul_le (by decide)]
    exact length_flatMap_encodeRoute h
  have hroutes := decodeRoutes_append h []
  rw [List.append_nil] at hroutes
  rw [decodeAdvertisement, takeNat_append (show routes.length < Bytes.capacity 2 from hcount)]
  simp only [bind, Except.bind, if_neg hroom, hroutes]

/-- A message that the other end accepts: its packet is not empty, its routes were made. -/
def Sound : Message → Prop
  | data packet => packet ≠ []
  | routeAdvertise routes => ∀ r ∈ routes, r.Made
  | _ => True

theorem length_routes_lt {routes : List Route} (h : ∀ r ∈ routes, r.Made)
    (hsize : (routeAdvertise routes).encodeBody.length ≤ 65535) : routes.length < 65536 := by
  have hroutes := length_flatMap_encodeRoute h
  rw [encodeBody, List.length_append, Bytes.length_ofNat] at hsize
  simp only [shortestRoute] at hroutes
  omega

theorem decodeBody_encodeBody {m : Message} (hm : m.Sound) (hsize : m.encodeBody.length ≤ 65535) :
    decodeBody m.kind m.encodeBody = .ok m := by
  cases m with
  | data packet =>
    have hnonempty : packet.isEmpty = false := List.isEmpty_eq_false_iff.mpr hm
    simp only [kind, encodeBody, decodeBody, hnonempty, Bool.false_eq_true, if_false]
  | echoRequest echo =>
    have h := decodeEcho_append echo []
    rw [List.append_nil] at h
    simp only [kind, encodeBody, decodeBody, h, bind, Except.bind, finish, List.isEmpty_nil,
      if_true]
  | echoAck echo =>
    have h := decodeEcho_append echo []
    rw [List.append_nil] at h
    simp only [kind, encodeBody, decodeBody, h, bind, Except.bind, finish, List.isEmpty_nil,
      if_true]
  | clientLogin v =>
    have h := decodeLogin_append v []
    rw [List.append_nil] at h
    simp only [kind, encodeBody, decodeBody, h, bind, Except.bind, finish, List.isEmpty_nil,
      if_true]
  | routeAdvertise routes =>
    have h := decodeAdvertisement_append hm (length_routes_lt hm hsize)
    simp only [kind, encodeBody, decodeBody, h, bind, Except.bind, finish, List.isEmpty_nil,
      if_true]
  | disconnect => rfl

end Message

end PacketTunnel
