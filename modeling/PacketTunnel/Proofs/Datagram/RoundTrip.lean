import Mathlib.Algebra.Group.Nat.Defs
import PacketTunnel.Proofs.Datagram.Decoding
import PacketTunnel.Proofs.Message.Body

/-!
# Datagrams read back

The limit on payloads does all the work: no payload within it has a length, and no advertisement
within it a count, that two bytes cannot state. A sound message is therefore refused exactly for its
size, and otherwise comes back from its datagram unchanged.
-/
namespace PacketTunnel

namespace Codec

def header (c : Codec) (m : Message) (payload : Bytes) : Header :=
  ⟨c.fingerprint, m.kind.code, UInt16.ofNat payload.length⟩

theorem ofMtu_limit (p : Protection) (mtu : UInt64) : (ofMtu p mtu).maxPayload ≤ 65535 :=
  Nat.min_le_right _ _

/-- The limit is the MTU and the room beyond it, unless their sum does not fit into 64 bits. -/
theorem ofMtu_maxPayload (p : Protection) {mtu : UInt64} (h : mtu.toNat + 64 < 2 ^ 64) :
    (ofMtu p mtu).maxPayload = min (mtu.toNat + 64) 65535 := by
  have hroom : (mtu + slack).toNat = mtu.toNat + 64 := by
    rw [UInt64.toNat_add, show slack.toNat = 64 from rfl]
    exact Nat.mod_eq_of_lt h
  simp only [ofMtu, hroom]

/-- A message is refused for its size and for nothing else. -/
theorem encode_eq_ok_iff {c : Codec} {iv : Block} {m : Message} {d : Bytes} :
    c.encode iv m = .ok d ↔
      (c.protection.encrypt iv m.encodeBody).length ≤ c.maxPayload ∧
      d = (c.header m (c.protection.encrypt iv m.encodeBody)).encode ++
        c.protection.encrypt iv m.encodeBody := by
  dsimp only [encode]
  split
  · rename_i hlong
    simp only [reduceCtorEq, false_iff, not_and]
    omega
  · rename_i hfits
    simp only [Except.ok.injEq, Nat.not_lt.mp hfits, true_and]
    exact eq_comm

theorem exists_encode_iff {c : Codec} {iv : Block} {m : Message} :
    (∃ d, c.encode iv m = .ok d) ↔ (c.protection.encrypt iv m.encodeBody).length ≤ c.maxPayload :=
  ⟨fun ⟨_, hd⟩ => (encode_eq_ok_iff.mp hd).1, fun hfits => ⟨_, encode_eq_ok_iff.mpr ⟨hfits, rfl⟩⟩⟩

theorem header_payloadLength {c : Codec} (hc : c.maxPayload ≤ 65535) (m : Message) {payload : Bytes}
    (h : payload.length ≤ c.maxPayload) :
    (c.header m payload).payloadLength.toNat = payload.length := by
  rw [header, UInt16.toNat_ofNat']
  omega

theorem decode_encode {c : Codec} (hc : c.maxPayload ≤ 65535) {iv : Block} {m : Message}
    (hm : m.Sound) {d : Bytes} (h : c.encode iv m = .ok d) : c.decode d = .ok m := by
  obtain ⟨hfits, rfl⟩ := encode_eq_ok_iff.mp h
  have hbody := c.protection.length_le_encrypt iv m.encodeBody
  have hrest : ((c.header m (c.protection.encrypt iv m.encodeBody)).encode ++
      c.protection.encrypt iv m.encodeBody).drop Header.size =
        c.protection.encrypt iv m.encodeBody :=
    List.drop_left' (Header.length_encode _)
  rw [decode_eq_ok_iff, hrest]
  exact ⟨_, m.kind, m.encodeBody, Header.decode_append _ _, rfl,
    (header_payloadLength hc m hfits).symm, hfits, MessageKind.ofCode?_code m.kind,
    c.protection.decrypt?_encrypt iv m.encodeBody,
    Message.decodeBody_encodeBody hm (by omega)⟩

/-- Whatever is read from a datagram is of the kind that was sent, sound or not. -/
theorem kind_of_decode_encode {c : Codec} {iv : Block} {m m' : Message} {d : Bytes}
    (h : c.encode iv m = .ok d) (h' : c.decode d = .ok m') : m'.kind = m.kind := by
  obtain ⟨-, rfl⟩ := encode_eq_ok_iff.mp h
  obtain ⟨header, k, body, hheader, -, -, -, hkind, -, hbody⟩ := decode_eq_ok_iff.mp h'
  rw [Header.decode_append] at hheader
  obtain rfl := Except.ok.inj hheader
  have hk : k = m.kind := Option.some.inj (hkind.symm.trans (MessageKind.ofCode?_code m.kind))
  exact (Message.kind_of_decodeBody hbody).trans hk

/-- A packet is read only from a datagram that it was put into, whatever the limit. -/
theorem eq_data_of_decode_encode {c : Codec} {iv : Block} {m : Message} {d packet : Bytes}
    (h : c.encode iv m = .ok d) (h' : c.decode d = .ok (.data packet)) : m = .data packet := by
  have hkind := kind_of_decode_encode h h'
  obtain ⟨-, rfl⟩ := encode_eq_ok_iff.mp h
  obtain ⟨_, _, body, -, -, -, -, -, hbody, hm⟩ := decode_eq_ok_iff.mp h'
  rw [List.drop_left' (Header.length_encode _), c.protection.decrypt?_encrypt] at hbody
  obtain ⟨-, rfl, -⟩ := Message.decodeBody_eq_data_iff.mp hm
  cases m with
  | data packet' =>
    rw [← Option.some.inj hbody]
    rfl
  | _ => cases hkind

theorem exists_encode_data {c : Codec} (hc : c.maxPayload ≤ 65535) {iv : Block} {packet : Bytes}
    (hnonempty : packet ≠ []) (hfits : (c.protection.encrypt iv packet).length ≤ c.maxPayload) :
    ∃ d, c.encode iv (.data packet) = .ok d ∧ c.decode d = .ok (.data packet) := by
  obtain ⟨d, hd⟩ := (exists_encode_iff (m := .data packet)).mpr hfits
  exact ⟨d, hd, decode_encode hc (m := .data packet) hnonempty hd⟩

/-- Who has read any message can say farewell: no payload is shorter than that of an empty body. -/
theorem exists_encode_disconnect {c : Codec} {bytes : Bytes} {m : Message}
    (h : c.decode bytes = .ok m) (iv : Block) :
    ∃ d, c.encode iv .disconnect = .ok d := by
  obtain ⟨header, k, body, -, -, -, hlimit, -, hbody, -⟩ := decode_eq_ok_iff.mp h
  obtain ⟨iv', hpayload⟩ := Protection.exists_encrypt_of_decrypt? hbody
  rw [exists_encode_iff]
  calc (c.protection.encrypt iv Message.disconnect.encodeBody).length
      ≤ (c.protection.encrypt iv' body).length := c.protection.length_encrypt_nil_le iv iv' body
    _ = (bytes.drop Header.size).length := congrArg List.length hpayload
    _ ≤ c.maxPayload := hlimit

/-- A packet of at most the MTU fits, unless the room beyond the MTU is cut. -/
theorem packet_fits (p : Protection) {mtu : UInt64} (iv : Block) {packet : Bytes}
    (hpacket : packet.length ≤ mtu.toNat) (hmtu : mtu.toNat + 64 ≤ 65535) :
    (p.encrypt iv packet).length ≤ (ofMtu p mtu).maxPayload := by
  have hle := p.length_encrypt_le iv packet
  have hoverhead : p.overhead ≤ 32 := by cases p <;> simp [Protection.overhead]
  have hlimit : (ofMtu p mtu).maxPayload = min (mtu.toNat + 64) 65535 :=
    ofMtu_maxPayload p (by omega)
  omega

/-- Every sound message is encoded exactly when its payload is within the limit. Its datagram then
is a header and the payload, states the length of the payload and the number of routes as they are,
and decodes to the message. A packet of at most the MTU is always encoded, unless the limit was cut
to 65535. -/
theorem round_trip (p : Protection) (mtu : UInt64) (iv : Block) {m : Message} (hm : m.Sound) :
    ((∃ d, (ofMtu p mtu).encode iv m = .ok d) ↔
      (p.encrypt iv m.encodeBody).length ≤ (ofMtu p mtu).maxPayload) ∧
    (∀ d, (ofMtu p mtu).encode iv m = .ok d →
      d.length = 22 + (p.encrypt iv m.encodeBody).length ∧
      (∃ h, Header.decode d = .ok h ∧ h.payloadLength.toNat = (p.encrypt iv m.encodeBody).length) ∧
      (∀ routes, m = .routeAdvertise routes → Bytes.toNat (m.encodeBody.take 2) = routes.length) ∧
      (ofMtu p mtu).decode d = .ok m) ∧
    (∀ packet, m = .data packet → packet.length ≤ mtu.toNat → mtu.toNat + 64 ≤ 65535 →
      ∃ d, (ofMtu p mtu).encode iv m = .ok d) := by
  have hlimit := ofMtu_limit p mtu
  refine ⟨exists_encode_iff, ?_, ?_⟩
  · intro d hd
    have hback := decode_encode hlimit hm hd
    obtain ⟨hfits, hbytes⟩ := encode_eq_ok_iff.mp hd
    refine ⟨?_, ⟨_, ?_, header_payloadLength hlimit m hfits⟩, ?_, hback⟩
    · rw [hbytes, List.length_append, Header.length_encode]
      rfl
    · rw [hbytes]
      exact Header.decode_append _ _
    · rintro routes rfl
      have hbody := p.length_le_encrypt iv (Message.routeAdvertise routes).encodeBody
      have hcount := Message.length_routes_lt hm (Nat.le_trans hbody (Nat.le_trans hfits hlimit))
      rw [Message.encodeBody, List.take_left' (Bytes.length_ofNat 2 routes.length),
        Bytes.toNat_ofNat]
      exact Nat.mod_eq_of_lt hcount
  · rintro packet rfl hpacket hmtu
    exact exists_encode_iff.mpr (packet_fits p iv hpacket hmtu)

/-- One route of each family, as they are advertised through a tunnel with a passphrase. -/
def twoRoutes : List Route :=
  [⟨.v4 ⟨0x0a080000, 16⟩, .v4 0x0a070002⟩, ⟨.v6 ⟨0xfd000000000000000000000000000000, 16⟩, .v6 7⟩]

theorem made_twoRoutes : ∀ r ∈ twoRoutes, r.Made := by
  intro r hr
  simp only [twoRoutes, List.mem_cons, List.not_mem_nil, or_false] at hr
  rcases hr with rfl | rfl
  · exact Route.made_iff.mpr (by decide +kernel)
  · exact Route.made_iff.mpr (by decide +kernel)

theorem round_trip_twoRoutes :
    (Message.routeAdvertise twoRoutes).Sound ∧
      ∃ d, (ofMtu (.ofPassphrase (some "secret")) 1416).encode default (.routeAdvertise twoRoutes) =
        .ok d ∧
        d.length = 86 ∧
        (ofMtu (.ofPassphrase (some "secret")) 1416).decode d =
          .ok (.routeAdvertise twoRoutes) := by
  have hsound : (Message.routeAdvertise twoRoutes).Sound := made_twoRoutes
  have hbody : (Message.routeAdvertise twoRoutes).encodeBody.length = 46 := by decide +kernel
  have hpayload : ((Protection.ofPassphrase (some "secret")).encrypt default
      (Message.routeAdvertise twoRoutes).encodeBody).length = 64 := by
    rw [Protection.ofPassphrase, Protection.length_encrypt_keyed, hbody]
  have h := round_trip (.ofPassphrase (some "secret")) 1416 default hsound
  rw [hpayload] at h
  obtain ⟨d, hd⟩ := h.1.mpr (by decide)
  obtain ⟨hlength, -, -, hback⟩ := h.2.1 d hd
  exact ⟨hsound, d, hd, hlength, hback⟩

end Codec

end PacketTunnel
