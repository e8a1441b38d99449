import PacketTunnel.Datagram
import PacketTunnel.Proofs.Except
import PacketTunnel.Proofs.Protection

/-!
# What a decoded datagram says

A datagram decodes exactly when every check passes one after the other. Since whatever decrypts is
an encryption, a datagram that carries a packet is one that the same codec could have made, so that
passing the packet on never exceeds the limit.
-/
namespace PacketTunnel

namespace Header

theorem length_encode (h : Header) : h.encode.length = size := by
  simp [encode, protocolId, size]

theorem decode_append (h : Header) (payload : Bytes) : decode (h.encode ++ payload) = .ok h := by
  obtain ⟨fingerprint, kind, payloadLength⟩ := h
  have hlong : ¬ ((Header.mk fingerprint kind payloadLength).encode ++ payload).length < size := by
    rw [List.length_append, length_encode]
    omega
  have hback : UInt16.ofNat (Bytes.toNat (Bytes.ofNat 2 payloadLength.toNat)) = payloadLength := by
    have hfit : payloadLength.toNat < Bytes.capacity 2 := payloadLength.toNat_lt
    rw [Bytes.toNat_ofNat, Nat.mod_eq_of_lt hfit, UInt16.ofNat_toNat]
  have hprotocol : ((Header.mk fingerprint kind payloadLength).encode ++ payload).take 2 =
      protocolId := rfl
  have hdrop : ((Header.mk fingerprint kind payloadLength).encode ++ payload).drop 2 =
      version :: (fingerprint.toBytes ++ kind :: (Bytes.ofNat 2 payloadLength.toNat ++ payload)) :=
        rfl
  have hblock :
      Block.take? (fingerprint.toBytes ++ kind :: (Bytes.ofNat 2 payloadLength.toNat ++ payload)) =
      some (fingerprint, kind :: (Bytes.ofNat 2 payloadLength.toNat ++ payload)) := rfl
  rw [decode, if_neg hlong, hprotocol, if_neg (fun hne => hne rfl), hdrop]
  dsimp only
  rw [if_neg (fun hne => hne rfl), hblock]
  exact congrArg (fun n => Except.ok (Header.mk fingerprint kind n)) hback

end Header

namespace Message

theorem eq_of_finish {k : MessageKind} {m m' : Message} {rest : Bytes}
    (h : finish k m rest = .ok m') :
    m = m' := by
  rw [finish] at h
  split at h
  · exact Except.ok.inj h
  · cases h

private theorem exists_of_finish {α : Type} (build : α → Message) {k : MessageKind}
    {read : Except DatagramFault (α × Bytes)} {m : Message}
    (h : (read >>= fun r => finish k (build r.1) r.2) = .ok m) : ∃ a, build a = m := by
  cases read with
  | error fault => cases h
  | ok r => exact ⟨r.1, eq_of_finish h⟩

theorem kind_of_decodeBody {k : MessageKind} {body : Bytes} {m : Message}
    (h : decodeBody k body = .ok m) :
    m.kind = k := by
  cases k with
  | data =>
    rw [decodeBody] at h
    split at h
    · cases h
    · cases h
      rfl
  | echoRequest =>
    obtain ⟨echo, rfl⟩ := exists_of_finish echoRequest h
    rfl
  | echoAck =>
    obtain ⟨echo, rfl⟩ := exists_of_finish echoAck h
    rfl
  | clientLogin =>
    obtain ⟨v, rfl⟩ := exists_of_finish clientLogin h
    rfl
  | routeAdvertise =>
    obtain ⟨routes, rfl⟩ := exists_of_finish routeAdvertise h
    rfl
  | disconnect =>
    cases eq_of_finish h
    rfl

theorem decodeBody_eq_data_iff {k : MessageKind} {body packet : Bytes} :
    decodeBody k body = .ok (data packet) ↔ k = .data ∧ packet = body ∧ packet ≠ [] := by
  constructor
  · intro h
    obtain rfl : MessageKind.data = k := kind_of_decodeBody h
    rw [decodeBody] at h
    split at h
    · cases h
    · rename_i hnonempty
      cases h
      exact ⟨rfl, rfl, fun hnil => hnonempty (List.isEmpty_iff.mpr hnil)⟩
  · rintro ⟨rfl, rfl, hnonempty⟩
    rw [decodeBody, if_neg (fun hnil => hnonempty (List.isEmpty_iff.mp hnil))]

end Message

namespace Codec

/-- A datagram decodes exactly when its header is sound and of the codec's tunnel, its payload is as
long as the header says and within the limit, the kind is known, and the payload decrypts to a body
of that kind. -/
theorem decode_eq_ok_iff {c : Codec} {d : Bytes} {m : Message} :
    c.decode d = .ok m ↔ ∃ h k body, Header.decode d = .ok h ∧ h.fingerprint = c.fingerprint ∧
      (d.drop Header.size).length = h.payloadLength.toNat ∧
      (d.drop Header.size).length ≤ c.maxPayload ∧
      MessageKind.ofCode? h.kind = some k ∧ c.protection.decrypt? (d.drop Header.size) = some body ∧
      Message.decodeBody k body = .ok m := by
  constructor
  · intro h
    unfold decode at h
    split at h
    · cases h
    rename_i header hheader
    dsimp only at h
    split at h
    · cases h
    rename_i hagrees
    split at h
    · cases h
    rename_i hlength
    split at h
    · cases h
    rename_i hlimit
    split at h
    · cases h
    rename_i k hkind
    split at h
    · cases h
    rename_i body hbody
    exact ⟨header, k, body, hheader, Fingerprint.agrees_iff.mp (by simpa using hagrees),
      Decidable.not_not.mp hlength, Nat.not_lt.mp hlimit, hkind, hbody,
      Except.mapError_eq_ok_iff.mp h⟩
  · rintro ⟨header, k, body, hheader, hfingerprint, hlength, hlimit, hkind, hbody, hm⟩
    have hagrees : header.fingerprint.agrees c.fingerprint = true :=
      Fingerprint.agrees_iff.mpr hfingerprint
    simp only [decode, hheader, hagrees, hlength, hkind, hbody, Bool.not_true, Bool.false_eq_true,
      if_false, ne_eq, not_true_eq_false]
    rw [if_neg (by omega)]
    exact Except.mapError_eq_ok_iff.mpr hm

theorem fits_of_decode {c : Codec} {d packet : Bytes} (h : c.decode d = .ok (.data packet))
    (iv : Block) :
    packet ≠ [] ∧ (c.protection.encrypt iv packet).length ≤ c.maxPayload := by
  obtain ⟨_, k, body, -, -, -, hlimit, -, hbody, hm⟩ := decode_eq_ok_iff.mp h
  obtain ⟨-, rfl, hnonempty⟩ := Message.decodeBody_eq_data_iff.mp hm
  obtain ⟨iv', hpayload⟩ := Protection.exists_encrypt_of_decrypt? hbody
  refine ⟨hnonempty, ?_⟩
  rw [c.protection.length_encrypt_congr iv iv', hpayload]
  exact hlimit

end Codec

end PacketTunnel
