import Mathlib
import PacketTunnel.Proofs.Datagram.RoundTrip
import PacketTunnel.Proofs.Message.Spelling

/-!
# Accepted datagrams made again

A datagram that decodes can be made again from its message under the vector at its front, and comes
out bit for bit the same. The header has one form, the payload is the encryption of its body, and a
body spells its message in one way; only an empty probe and a route with bits after its prefix are
read as something else than what they spell. The message can always be sent, but for one case: a
probe left out takes no room while a probe takes twelve bytes, which a limit that started over from
zero may not allow.
-/
namespace PacketTunnel

namespace Header

theorem encode_append_of_decode {d : Bytes} {h : Header} (hd : decode d = .ok h) :
    h.encode ++ d.drop size = d := by
  unfold decode at hd
  split at hd
  · cases hd
  split at hd
  · cases hd
  rename_i hprotocol
  split at hd
  · cases hd
  rename_i v rest hrest
  split at hd
  · cases hd
  rename_i hversion
  split at hd
  case h_2 => cases hd
  rename_i fingerprint kind high low tail htake
  cases hd
  have hlength : Bytes.ofNat 2 (UInt16.ofNat (Bytes.toNat [high, low])).toNat = [high, low] := by
    have hlt : Bytes.toNat [high, low] < 65536 := Bytes.toNat_lt [high, low]
    have hback := Bytes.ofNat_toNat [high, low]
    rw [UInt16.toNat_ofNat_of_lt' hlt]
    exact hback
  have hspelled :
      d = (Header.mk fingerprint kind (UInt16.ofNat (Bytes.toNat [high, low]))).encode ++ tail := by
    have hcut := List.take_append_drop 2 d
    rw [Decidable.not_not.mp hprotocol, hrest, Decidable.not_not.mp hversion,
      ← Block.eq_of_take? htake] at hcut
    rw [encode, hlength, ← hcut]
    simp only [List.append_assoc, List.cons_append, List.nil_append]
  have htail : d.drop size = tail := by
    rw [hspelled]
    exact List.drop_left' (length_encode _)
  rw [htail]
  exact hspelled.symm

end Header

theorem MessageKind.code_of_ofCode? {code : UInt8} {k : MessageKind} (h : ofCode? code = some k) :
    k.code = code := by
  grind [ofCode?, MessageKind.code]

theorem Protection.encrypt_firstBlock {p : Protection} {payload plain : Bytes}
    (h : p.decrypt? payload = some plain) :
    p.encrypt (KeyMaterial.firstBlock payload) plain = payload := by
  obtain ⟨iv, hpayload⟩ := exists_encrypt_of_decrypt? h
  cases p with
  | keyed keys =>
    have hfront : KeyMaterial.firstBlock payload = iv := by
      rw [← hpayload, encrypt, KeyMaterial.firstBlock, Block.take?_toBytes_append]
      rfl
    rw [hfront]
    exact hpayload
  | clear => exact hpayload

namespace Codec

/-- The vector at the front of a datagram's payload. -/
def vectorIn (d : Bytes) : Block := KeyMaterial.firstBlock (d.drop Header.size)

def body? (c : Codec) (d : Bytes) : Option Bytes := c.protection.decrypt? (d.drop Header.size)

/-- The message came as a probe without a body. -/
def EmptyProbe (c : Codec) (d : Bytes) (m : Message) : Prop :=
  (m.kind = .echoRequest ∨ m.kind = .echoAck) ∧ c.body? d = some []

/-- The message came as an advertisement of these routes, as they stand in the body. -/
def SpellsRoutes (c : Codec) (d : Bytes) (m : Message) (rs : List Route) : Prop :=
  m.kind = .routeAdvertise ∧ (∀ r ∈ rs, r.OneFamily) ∧
    c.body? d = some (Message.routeAdvertise rs).encodeBody

/-- The message came as an advertisement with bits after the prefix of some route. -/
def HostBits (c : Codec) (d : Bytes) (m : Message) : Prop :=
  ∃ rs, c.SpellsRoutes d m rs ∧ ∃ r ∈ rs, r.cleared ≠ r

variable {c : Codec} {d : Bytes} {m : Message}

/-- A datagram that decodes is its body in the codec's own header and protection, within the limit.
-/
theorem rebuilt_of_decode (h : c.decode d = .ok m) :
    ∃ body, c.body? d = some body ∧ Message.decodeBody m.kind body = .ok m ∧
      (c.protection.encrypt (vectorIn d) body).length ≤ c.maxPayload ∧
      d = (c.header m (c.protection.encrypt (vectorIn d) body)).encode ++
        c.protection.encrypt (vectorIn d) body := by
  obtain ⟨header, k, body, hheader, hfingerprint, hlength, hlimit, hkind, hbody, hm⟩ :=
    decode_eq_ok_iff.mp h
  have hpayload : c.protection.encrypt (vectorIn d) body = d.drop Header.size :=
    Protection.encrypt_firstBlock hbody
  have hk : m.kind = k := Message.kind_of_decodeBody hm
  have hown : c.header m (d.drop Header.size) = header := by
    have hcode : m.kind.code = header.kind := by rw [hk, MessageKind.code_of_ofCode? hkind]
    rw [Codec.header, hcode, hlength, UInt16.ofNat_toNat, ← hfingerprint]
  have hbytes := Header.encode_append_of_decode hheader
  refine ⟨body, hbody, hk.symm ▸ hm, ?_, ?_⟩
  · rw [hpayload]
    exact hlimit
  · rw [hpayload, hown]
    exact hbytes.symm

theorem encode_vectorIn_iff (h : c.decode d = .ok m) :
    c.encode (vectorIn d) m = .ok d ↔ c.body? d = some m.encodeBody := by
  obtain ⟨body, hbody, -, hlimit, hd⟩ := rebuilt_of_decode h
  rw [encode_eq_ok_iff, hbody, Option.some.injEq]
  constructor
  · rintro ⟨-, hown⟩
    have hpayload : d.drop Header.size = c.protection.encrypt (vectorIn d) m.encodeBody :=
      (congrArg (List.drop Header.size) hown).trans (List.drop_left' (Header.length_encode _))
    have hback := c.protection.decrypt?_encrypt (vectorIn d) m.encodeBody
    rw [← hpayload] at hback
    exact Option.some.inj (hbody.symm.trans hback)
  · intro hsame
    rw [hsame] at hlimit hd
    exact ⟨hlimit, hd⟩

theorem isBlankProbe_of_emptyProbe (h : c.decode d = .ok m) (hempty : c.EmptyProbe d m) :
    m.IsBlankProbe := by
  obtain ⟨body, hbody, hm, -, -⟩ := rebuilt_of_decode h
  obtain ⟨hkind, hnil⟩ := hempty
  obtain rfl : body = [] := Option.some.inj (hbody.symm.trans hnil)
  rcases hkind with hkind | hkind
  · rw [hkind] at hm
    cases hm
    exact .inl rfl
  · rw [hkind] at hm
    cases hm
    exact .inr rfl

theorem eq_cleared_of_spellsRoutes (h : c.decode d = .ok m) {rs : List Route}
    (hrs : c.SpellsRoutes d m rs) :
    m = .routeAdvertise (rs.map Route.cleared) := by
  obtain ⟨body, hbody, hm, -, -⟩ := rebuilt_of_decode h
  obtain ⟨hkind, hone, hspelled⟩ := hrs
  obtain rfl : body = (Message.routeAdvertise rs).encodeBody :=
    Option.some.inj (hbody.symm.trans hspelled)
  rcases Message.spelled_of_decodeBody hm with ⟨-, rfl | rfl⟩ | ⟨q, hq, rfl, hsame⟩
  · cases hkind
  · cases hkind
  · cases q with
    | routeAdvertise qs =>
      rw [Message.encodeBody_routeAdvertise_inj hq hone hsame]
      rfl
    | _ => cases hkind

/-- The body that came is the message's own, unless it leaves out a probe or has bits to clear. -/
theorem body?_eq_iff (h : c.decode d = .ok m) :
    c.body? d = some m.encodeBody ↔ ¬ c.EmptyProbe d m ∧ ¬ c.HostBits d m := by
  constructor
  · intro hown
    refine ⟨fun hempty => ?_, fun hbits => ?_⟩
    · have hnil : m.encodeBody = [] := Option.some.inj (hown.symm.trans hempty.2)
      rcases isBlankProbe_of_emptyProbe h hempty with rfl | rfl <;> cases hnil
    · obtain ⟨rs, hrs, r, hr, hbits⟩ := hbits
      obtain rfl := eq_cleared_of_spellsRoutes h hrs
      obtain ⟨-, hone, hspelled⟩ := hrs
      have hcleared : ∀ q ∈ rs.map Route.cleared, q.OneFamily := by
        intro q hq
        obtain ⟨q₀, hq₀, rfl⟩ := List.mem_map.mp hq
        exact (Route.made_cleared (hone q₀ hq₀)).oneFamily
      have hsame := Message.encodeBody_routeAdvertise_inj hcleared hone
        (Option.some.inj (hown.symm.trans hspelled))
      have hclear := List.map_inj_left.mp (hsame.trans (List.map_id rs).symm)
      exact hbits (hclear r hr)
  · rintro ⟨hempty, hbits⟩
    obtain ⟨body, hbody, hm, -, -⟩ := rebuilt_of_decode h
    rcases Message.spelled_of_decodeBody hm with ⟨rfl, hblank⟩ | ⟨q, hq, rfl, rfl⟩
    · refine absurd ⟨?_, hbody⟩ hempty
      rcases hblank with rfl | rfl
      · exact .inl rfl
      · exact .inr rfl
    · cases q with
      | routeAdvertise rs =>
        have hclear : ∀ r ∈ rs, r.cleared = r := fun r hr =>
          Decidable.byContradiction fun hne => hbits ⟨rs, ⟨rfl, hq, hbody⟩, r, hr, hne⟩
        have hsame : rs.map Route.cleared = rs :=
          (List.map_inj_left.mpr hclear).trans (List.map_id rs)
        rw [hbody, Message.cleared, hsame]
      | _ => exact hbody

theorem length_encrypt_le_of_decode (h : c.decode d = .ok m) (hempty : ¬ c.EmptyProbe d m)
    (iv : Block) :
    (c.protection.encrypt iv m.encodeBody).length ≤ c.maxPayload := by
  obtain ⟨body, hbody, hm, hlimit, -⟩ := rebuilt_of_decode h
  rcases Message.spelled_of_decodeBody hm with ⟨rfl, hblank⟩ | ⟨q, hq, rfl, rfl⟩
  · refine absurd ⟨?_, hbody⟩ hempty
    rcases hblank with rfl | rfl
    · exact .inl rfl
    · exact .inr rfl
  · -- Clearing bits does not change the length, and the length alone decides how much room
    -- encryption takes.
    have hlength := Message.length_encodeBody_cleared hq
    rw [c.protection.length_encrypt_congr_length iv (vectorIn d) hlength]
    exact hlimit

/-- A blank probe that came without a body fits again exactly if it is encrypted or the limit allows
its twelve bytes: encryption pads both forms to the same length. -/
theorem length_encrypt_le_iff_of_emptyProbe (h : c.decode d = .ok m) (hempty : c.EmptyProbe d m)
    (iv : Block) :
    (c.protection.encrypt iv m.encodeBody).length ≤ c.maxPayload ↔
      ¬ (c.protection = .clear ∧ c.maxPayload < 12) := by
  obtain ⟨body, hbody, -, hlimit, -⟩ := rebuilt_of_decode h
  obtain rfl : body = [] := Option.some.inj (hbody.symm.trans hempty.2)
  have htwelve : m.encodeBody.length = 12 := by
    rcases isBlankProbe_of_emptyProbe h hempty with rfl | rfl <;> rfl
  cases hp : c.protection with
  | keyed keys =>
    rw [hp, Protection.length_encrypt_keyed] at hlimit
    rw [Protection.length_encrypt_keyed, htwelve]
    simp only [reduceCtorEq, false_and, not_false_eq_true, iff_true]
    exact hlimit
  | clear =>
    simp only [Protection.encrypt, htwelve, true_and, Nat.not_lt]

/-- What a datagram was read as can be sent again, and is read the same; a probe left out in clear
text is the exception when the limit is below the twelve bytes of a probe, as only an overflowing
MTU makes it. Under the vector found in the datagram the datagram itself comes out, but for two
readings: a probe left out, which is read as zeros, and routes with bits after the prefix, which are
read with them cleared. -/
theorem accepted_canonical (p : Protection) (mtu : UInt64) {d : Bytes} {m : Message}
    (h : (ofMtu p mtu).decode d = .ok m) :
    (∀ iv, (∃ d', (ofMtu p mtu).encode iv m = .ok d') ↔
      ¬ (p = .clear ∧ (ofMtu p mtu).maxPayload < 12 ∧ (ofMtu p mtu).EmptyProbe d m)) ∧
    (mtu.toNat + 64 < 2 ^ 64 → 12 ≤ (ofMtu p mtu).maxPayload) ∧
    (∀ iv d', (ofMtu p mtu).encode iv m = .ok d' → (ofMtu p mtu).decode d' = .ok m) ∧
    ((ofMtu p mtu).encode (vectorIn d) m = .ok d ↔
      ¬ (ofMtu p mtu).EmptyProbe d m ∧ ¬ (ofMtu p mtu).HostBits d m) ∧
    ((ofMtu p mtu).EmptyProbe d m → m.IsBlankProbe) ∧
    (∀ rs, (ofMtu p mtu).SpellsRoutes d m rs → m = .routeAdvertise (rs.map Route.cleared)) := by
  obtain ⟨body, -, hm, -, -⟩ := rebuilt_of_decode h
  have hsound : m.Sound := Message.sound_of_decodeBody hm
  refine ⟨fun iv => ?_, fun hmtu => ?_, fun iv d' hd' => ?_, ?_, ?_, fun rs => ?_⟩
  · rw [exists_encode_iff]
    by_cases hempty : (ofMtu p mtu).EmptyProbe d m
    · have hiff := length_encrypt_le_iff_of_emptyProbe h hempty iv
      simp only [hempty, and_true]
      exact hiff
    · simp only [length_encrypt_le_of_decode h hempty iv, hempty, and_false, not_false_eq_true]
  · have hlimit := ofMtu_maxPayload p hmtu
    omega
  · exact decode_encode (ofMtu_limit p mtu) hsound hd'
  · rw [encode_vectorIn_iff h, body?_eq_iff h]
  · exact isBlankProbe_of_emptyProbe h
  · exact eq_cleared_of_spellsRoutes h

/-- An advertisement of 10.8.1.0/16 in clear text; the prefix ends before its last set bit. -/
def looseAdvert : Bytes :=
  Header.encode ⟨Protection.clearFingerprint, 5, 12⟩ ++ [0, 1, 4, 16, 10, 8, 1, 0, 10, 7, 0, 2]

theorem accepted_canonical_looseAdvert :
    (ofMtu .clear 1416).decode looseAdvert =
      .ok (.routeAdvertise [⟨.v4 ⟨0x0a080000, 16⟩, .v4 0x0a070002⟩]) ∧
      (ofMtu .clear 1416).encode (vectorIn looseAdvert)
        (.routeAdvertise [⟨.v4 ⟨0x0a080000, 16⟩, .v4 0x0a070002⟩]) ≠ .ok looseAdvert := by
  have hd : (ofMtu .clear 1416).decode looseAdvert =
      .ok (.routeAdvertise [⟨.v4 ⟨0x0a080000, 16⟩, .v4 0x0a070002⟩]) := by cbv
  have h := accepted_canonical .clear 1416 hd
  refine ⟨hd, fun hsame => (h.2.2.2.1.mp hsame).2 ?_⟩
  refine ⟨[⟨.v4 ⟨0x0a080100, 16⟩, .v4 0x0a070002⟩], ⟨rfl, ?_, rfl⟩, _, List.mem_singleton.mpr rfl,
    by decide⟩
  intro r hr
  rw [List.mem_singleton.mp hr]
  rfl

/-- A codec in clear text whose limit has started over from zero. -/
def cutCodec : Codec := ofMtu .clear 0xffffffffffffffc0

def bareProbe : Bytes := Header.encode ⟨Protection.clearFingerprint, 2, 0⟩

/-- The bare spelling of a probe is accepted, yet it cannot be sent on. -/
theorem bareProbe_not_sendable :
    cutCodec.decode bareProbe = .ok (.echoRequest ⟨0, 0⟩) ∧
      ∀ iv d, cutCodec.encode iv (.echoRequest ⟨0, 0⟩) ≠ .ok d := by
  refine ⟨by cbv, fun iv d h => ?_⟩
  cases h

end Codec

end PacketTunnel
