import PacketTunnel.Proofs.Datagram.RoundTrip

/-!
# Routes in pieces

The routes of an advertisement are cut into pieces, none is lost or doubled, and the order stays.
Where the payload limit leaves room for one route, which every limit of at least 64 bytes does, each
piece is small enough for a datagram, and so are logins, probes and farewells. With an MTU of zero
and a passphrase the room for one route is exactly used up.
-/
namespace PacketTunnel

namespace Codec

variable {α : Type} {size fuel : Nat} {xs : List α}

theorem flatten_pieces (hsize : 0 < size) (hfuel : xs.length ≤ fuel) :
    (pieces size fuel xs).flatten = xs := by
  induction fuel generalizing xs with
  | zero =>
    have hnil : xs = [] := List.eq_nil_of_length_eq_zero (by omega)
    rw [hnil]
    rfl
  | succ fuel ih =>
    cases xs with
    | nil => rfl
    | cons x rest =>
      have hshorter : ((x :: rest).drop size).length ≤ fuel := by
        rw [List.length_drop]
        omega
      rw [pieces, List.flatten_cons, ih hshorter, List.take_append_drop]
      exact nofun

theorem length_pieces (size fuel : Nat) (xs : List α) : (pieces size fuel xs).length ≤ fuel := by
  induction fuel generalizing xs with
  | zero => exact Nat.le_refl 0
  | succ fuel ih =>
    cases xs with
    | nil => exact Nat.zero_le _
    | cons x rest =>
      have hrest := ih ((x :: rest).drop size)
      rw [pieces, List.length_cons]
      · omega
      · exact nofun

theorem length_of_mem_pieces {piece : List α} (h : piece ∈ pieces size fuel xs) :
    piece.length ≤ size := by
  induction fuel generalizing xs with
  | zero => cases h
  | succ fuel ih =>
    cases xs with
    | nil => cases h
    | cons x rest =>
      rw [pieces] at h
      · rcases List.mem_cons.mp h with rfl | h
        · exact List.length_take_le _ _
        · exact ih h
      · exact nofun

theorem nil_notMem_pieces (hsize : 0 < size) : [] ∉ pieces size fuel xs := by
  induction fuel generalizing xs with
  | zero => exact List.not_mem_nil
  | succ fuel ih =>
    cases xs with
    | nil => exact List.not_mem_nil
    | cons x rest =>
      have hfirst : (x :: rest).take size ≠ [] := by
        rw [ne_eq, List.take_eq_nil_iff]
        simp [Nat.ne_of_gt hsize]
      rw [pieces, List.mem_cons, not_or]
      · exact ⟨hfirst.symm, ih⟩
      · exact nofun

end Codec

namespace Message

theorem length_encodeRoute (r : Route) : (encodeRoute r).length ≤ longestRoute := by
  unfold encodeRoute
  split
  · rw [List.length_cons, List.length_cons, List.length_append, IPv4.toBytes, IPv4.toBytes,
      Bytes.length_ofNat, Bytes.length_ofNat]
    decide
  · rw [List.length_cons, List.length_cons, List.length_append, IPv6.toBytes, IPv6.toBytes,
      Bytes.length_ofNat, Bytes.length_ofNat]
    decide
  · exact Nat.zero_le _

theorem length_encodeBody_routeAdvertise (routes : List Route) :
    (routeAdvertise routes).encodeBody.length ≤ 2 + routes.length * longestRoute := by
  have hroutes : (routes.flatMap encodeRoute).length ≤ routes.length * longestRoute := by
    induction routes with
    | nil => exact Nat.zero_le _
    | cons r rest ih =>
      have hr := length_encodeRoute r
      rw [List.flatMap_cons, List.length_append, List.length_cons, Nat.succ_mul]
      omega
  rw [encodeBody, List.length_append, Bytes.length_ofNat]
  omega

theorem length_encodeBody_clientLogin (v : VirtualAddresses) :
    (clientLogin v).encodeBody.length ≤ 21 := by
  obtain ⟨v4, v6⟩ := v
  cases v4 <;> cases v6 <;>
    simp [encodeBody, encodeLogin, IPv4.toBytes, IPv6.toBytes, Bytes.length_ofNat]

end Message

theorem Protection.length_encrypt_le_64 (p : Protection) (iv : Block) {plain : Bytes}
    (h : plain.length < 48) : (p.encrypt iv plain).length ≤ 64 := by
  cases p with
  | keyed keys =>
    rw [length_encrypt_keyed]
    omega
  | clear =>
    rw [encrypt]
    omega

namespace Codec

variable {c : Codec}

/-- A message of less than three blocks is always sent. -/
theorem exists_encode_of_short (hroom : 64 ≤ c.maxPayload) (iv : Block) {m : Message}
    (h : m.encodeBody.length < 48) : ∃ d, c.encode iv m = .ok d :=
  exists_encode_iff.mpr (Nat.le_trans (c.protection.length_encrypt_le_64 iv h) hroom)

theorem routesPerMessage_pos (c : Codec) : 0 < c.routesPerMessage := by
  unfold routesPerMessage
  omega

theorem exists_encode_of_piece (hroom : 64 ≤ c.maxPayload) (iv : Block) {routes : List Route}
    (h : routes.length ≤ c.routesPerMessage) :
    ∃ d, c.encode iv (.routeAdvertise routes) = .ok d := by
  have hbody := Message.length_encodeBody_routeAdvertise routes
  rw [routesPerMessage] at h
  simp only [Message.longestRoute] at hbody h
  by_cases hone : routes.length ≤ 1
  · exact exists_encode_of_short hroom iv (by omega)
  · have hencrypt := c.protection.length_encrypt_le iv (Message.routeAdvertise routes).encodeBody
    have hpiece : routes.length ≤ (c.maxPayload - (c.protection.overhead + 2)) / 34 := by omega
    have hroutes := (Nat.le_div_iff_mul_le (by decide)).mp hpiece
    exact exists_encode_iff.mpr (by omega)

/-- The advertisements of some routes: lists of them that together are the routes in order, none of
which is empty and each of which is sent. -/
theorem exists_advertisements (hroom : 64 ≤ c.maxPayload) (routes : List Route) :
    ∃ parts : List (List Route), c.advertisements routes = parts.map .routeAdvertise ∧
      parts.flatten = routes ∧ parts.length ≤ routes.length ∧ [] ∉ parts ∧
      ∀ part ∈ parts, ∀ iv, ∃ d, c.encode iv (.routeAdvertise part) = .ok d :=
  ⟨pieces c.routesPerMessage routes.length routes, rfl,
    flatten_pieces c.routesPerMessage_pos (Nat.le_refl _), length_pieces _ _ _,
    nil_notMem_pieces c.routesPerMessage_pos,
    fun _ hpart iv => exists_encode_of_piece hroom iv (length_of_mem_pieces hpart)⟩

theorem room_of_ofMtu (p : Protection) {mtu : UInt64} (hmtu : mtu.toNat + 64 < 2 ^ 64) :
    64 ≤ (ofMtu p mtu).maxPayload := by
  rw [ofMtu_maxPayload p hmtu]
  omega

/-- The advertisements of any sound routes carry all of them in order, none is empty, and each one
is encoded within the limit and decodes to what it was. -/
theorem advertisements_complete (p : Protection) {mtu : UInt64} (hmtu : mtu.toNat + 64 < 2 ^ 64)
    {routes : List Route} (hroutes : ∀ r ∈ routes, r.Made) :
    ∃ parts : List (List Route), (ofMtu p mtu).advertisements routes = parts.map .routeAdvertise ∧
      parts.flatten = routes ∧ [] ∉ parts ∧
      ∀ part ∈ parts, ∀ iv, ∃ d, (ofMtu p mtu).encode iv (.routeAdvertise part) = .ok d ∧
        d.length ≤ Header.size + (ofMtu p mtu).maxPayload ∧
        (ofMtu p mtu).decode d = .ok (.routeAdvertise part) := by
  obtain ⟨parts, hparts, hflatten, -, hnonempty, hfits⟩ :=
    exists_advertisements (room_of_ofMtu p hmtu) routes
  refine ⟨parts, hparts, hflatten, hnonempty, fun part hpart iv => ?_⟩
  obtain ⟨d, hd⟩ := hfits part hpart iv
  have hsound : (Message.routeAdvertise part).Sound := by
    intro r hr
    apply hroutes
    rw [← hflatten]
    exact List.mem_flatten.mpr ⟨part, hpart, hr⟩
  obtain ⟨hlimit, hbytes⟩ := encode_eq_ok_iff.mp hd
  refine ⟨d, hd, ?_, decode_encode (ofMtu_limit p mtu) hsound hd⟩
  rw [hbytes, List.length_append, Header.length_encode]
  exact Nat.add_le_add_left hlimit _

theorem advertisements_complete_tight :
    (∀ r ∈ twoRoutes, r.Made) ∧
      (ofMtu (.ofPassphrase (some "secret")) 0).advertisements twoRoutes =
        twoRoutes.map (fun r => .routeAdvertise [r]) ∧
      ∀ r ∈ twoRoutes, ∃ d,
        (ofMtu (.ofPassphrase (some "secret")) 0).encode default (.routeAdvertise [r]) = .ok d ∧
        d.length ≤ 86 ∧ (ofMtu (.ofPassphrase (some "secret")) 0).decode d =
          .ok (.routeAdvertise [r]) := by
  have hadverts : (ofMtu (.ofPassphrase (some "secret")) 0).advertisements twoRoutes =
      twoRoutes.map fun r => .routeAdvertise [r] := rfl
  have hmtu : (0 : UInt64).toNat + 64 < 2 ^ 64 := by decide
  obtain ⟨parts, hparts, -, -, hsent⟩ :=
    advertisements_complete (.ofPassphrase (some "secret")) hmtu made_twoRoutes
  refine ⟨made_twoRoutes, hadverts, fun r hr => ?_⟩
  have hadvert : Message.routeAdvertise [r] ∈ parts.map .routeAdvertise := by
    rw [← hparts, hadverts]
    exact List.mem_map.mpr ⟨r, hr, rfl⟩
  obtain ⟨part, hpart, hsame⟩ := List.mem_map.mp hadvert
  cases hsame
  exact hsent [r] hpart default

end Codec

end PacketTunnel
