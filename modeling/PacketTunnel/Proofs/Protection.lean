import PacketTunnel.Protection

/-!
# What protection does to lengths and back

A plain text of any length survives protection: it is padded to whole blocks, the blocks are
chained, and both can be undone. Conversely whatever decrypts is the encryption of what it decrypts
to, under the vector at its front. The length of a payload is therefore known from the length of its
plain text and the other way round, up to the padding. Everything else is refused: it is shorter
than two blocks, not made of whole ones, or ends in no sound padding once it is unchained.
-/
namespace PacketTunnel

namespace Block

private theorem exists_column {bytes : Bytes} (h : 4 ≤ bytes.length) :
    ∃ (c : Column) (rest : Bytes), bytes = c.toBytes ++ rest :=
  match bytes, h with
  | b0 :: b1 :: b2 :: b3 :: rest, _ => ⟨⟨b0, b1, b2, b3⟩, rest, rfl⟩

theorem exists_toBytes_append {bytes : Bytes} (h : 16 ≤ bytes.length) :
    ∃ (b : Block) (rest : Bytes), bytes = b.toBytes ++ rest := by
  obtain ⟨c0, rest, rfl⟩ := exists_column (by omega : 4 ≤ bytes.length)
  simp only [List.length_append, Column.toBytes, List.length_cons, List.length_nil] at h
  obtain ⟨c1, rest, rfl⟩ := exists_column (by omega : 4 ≤ rest.length)
  simp only [List.length_append, Column.toBytes, List.length_cons, List.length_nil] at h
  obtain ⟨c2, rest, rfl⟩ := exists_column (by omega : 4 ≤ rest.length)
  simp only [List.length_append, Column.toBytes, List.length_cons, List.length_nil] at h
  obtain ⟨c3, rest, rfl⟩ := exists_column (by omega : 4 ≤ rest.length)
  exact ⟨⟨c0, c1, c2, c3⟩, rest, rfl⟩

theorem exists_join {bytes : Bytes} {count : Nat} (h : bytes.length = 16 * count) :
    ∃ blocks, join blocks = bytes ∧ blocks.length = count := by
  induction count generalizing bytes with
  | zero => exact ⟨[], (List.length_eq_zero_iff.mp h).symm, rfl⟩
  | succ count ih =>
    obtain ⟨b, rest, rfl⟩ := exists_toBytes_append (by omega : 16 ≤ bytes.length)
    rw [List.length_append, length_toBytes] at h
    obtain ⟨blocks, rfl, hlength⟩ := ih (by omega : rest.length = 16 * count)
    exact ⟨b :: blocks, rfl, by rw [List.length_cons, hlength]⟩

theorem eq_of_take? {bytes rest : Bytes} {b : Block} (h : take? bytes = some (b, rest)) :
    b.toBytes ++ rest = bytes := by
  fun_cases take? bytes with
  | case1 =>
    rw [take?] at h
    cases h
    rfl
  | case2 hshort =>
    rw [take?] at h
    · cases h
    · assumption

end Block

namespace Cipher

theorem length_pad (bytes : Bytes) : (pad bytes).length = 16 * (bytes.length / 16 + 1) := by
  rw [pad, List.length_append, List.length_replicate, padCount]
  omega

/-- The bytes are the plain text and a sound padding: between one and sixteen bytes, each of which
states their number. -/
def Padded (plain bytes : Bytes) : Prop :=
  ∃ count, 0 < count ∧ count ≤ 16 ∧ bytes = plain ++ List.replicate count (UInt8.ofNat count)

theorem padded_pad (bytes : Bytes) : Padded bytes (pad bytes) := by
  refine ⟨padCount bytes.length, ?_, ?_, rfl⟩
  · unfold padCount
    omega
  · unfold padCount
    omega

theorem unpad?_of_padded {plain bytes : Bytes} (h : Padded plain bytes) :
    unpad? bytes = some plain := by
  obtain ⟨count, hpos, hle, rfl⟩ := h
  have hlast : (plain ++ List.replicate count (UInt8.ofNat count)).getLast? =
      some (UInt8.ofNat count) := by
    rw [List.getLast?_append, List.getLast?_replicate, if_neg (by omega), Option.some_or]
  have hback : (UInt8.ofNat count).toNat = count := by
    rw [UInt8.toNat_ofNat']
    omega
  have hlength : (plain ++ List.replicate count (UInt8.ofNat count)).length - count =
      plain.length := by
    rw [List.length_append, List.length_replicate]
    omega
  simp only [unpad?, hlast, hback, hlength, List.drop_left, List.take_left]
  rw [if_neg (by rw [List.length_append, List.length_replicate]; omega), if_pos]
  simp

theorem padded_of_unpad? {plain bytes : Bytes} (h : unpad? bytes = some plain) :
    Padded plain bytes := by
  unfold unpad? at h
  split at h
  · cases h
  rename_i last _
  dsimp only at h
  split at h
  · cases h
  rename_i hcount
  split at h
  · rename_i hsame
    cases h
    have hrest : bytes.drop (bytes.length - last.toNat) = List.replicate last.toNat last := by
      rw [List.eq_replicate_iff, List.length_drop]
      refine ⟨by omega, fun b hb => ?_⟩
      simpa using List.all_eq_true.mp hsame b hb
    refine ⟨last.toNat, by omega, by omega, ?_⟩
    rw [UInt8.ofNat_toNat, ← hrest, List.take_append_drop]
  · cases h

theorem unpad?_eq_some_iff {plain bytes : Bytes} : unpad? bytes = some plain ↔ Padded plain bytes :=
  ⟨padded_of_unpad?, unpad?_of_padded⟩

@[simp] theorem unpad?_pad (bytes : Bytes) : unpad? (pad bytes) = some bytes :=
  unpad?_of_padded (padded_pad bytes)

theorem pad_of_unpad? {bytes plain : Bytes} (h : unpad? bytes = some plain)
    (hwhole : bytes.length % 16 = 0) :
    pad plain = bytes := by
  obtain ⟨count, hpos, hle, rfl⟩ := padded_of_unpad? h
  have hpadding : padCount plain.length = count := by
    rw [List.length_append, List.length_replicate] at hwhole
    unfold padCount
    omega
  rw [pad, hpadding]

end Cipher

/-- Comparing without an early exit tells equal fingerprints from different ones. -/
theorem Fingerprint.agrees_iff {x y : Fingerprint} : x.agrees y = true ↔ x = y := by
  obtain ⟨⟨_, _, _, _⟩, ⟨_, _, _, _⟩, ⟨_, _, _, _⟩, ⟨_, _, _, _⟩⟩ := x
  obtain ⟨⟨_, _, _, _⟩, ⟨_, _, _, _⟩, ⟨_, _, _, _⟩, ⟨_, _, _, _⟩⟩ := y
  simp [agrees, Block.toBytes, Column.toBytes, UInt8.or_eq_zero_iff, and_assoc]

namespace Protection

/-- A keyed payload is the vector and the chained blocks of the padded plain text. -/
theorem exists_encrypt_keyed (keys : KeyMaterial) (plain : Bytes) :
    ∃ blocks, Block.join blocks = Cipher.pad plain ∧ blocks.length = plain.length / 16 + 1 ∧
      ∀ iv, (keyed keys).encrypt iv plain =
        iv.toBytes ++ Block.join (Cipher.chain keys.roundKeys iv blocks) := by
  obtain ⟨blocks, hjoin, hlength⟩ := Block.exists_join (Cipher.length_pad plain)
  refine ⟨blocks, hjoin, hlength, fun iv => ?_⟩
  rw [encrypt, ← hjoin, Block.split?_join, Option.getD_some]

theorem length_encrypt_keyed (keys : KeyMaterial) (iv : Block) (plain : Bytes) :
    ((keyed keys).encrypt iv plain).length = 16 * (plain.length / 16 + 2) := by
  obtain ⟨blocks, -, hlength, hencrypt⟩ := exists_encrypt_keyed keys plain
  rw [hencrypt, List.length_append, Block.length_toBytes, Block.length_join, Cipher.length_chain,
    hlength]
  omega

theorem length_encrypt_congr_length (p : Protection) (iv iv' : Block) {plain plain' : Bytes}
    (h : plain.length = plain'.length) :
    (p.encrypt iv plain).length = (p.encrypt iv' plain').length := by
  cases p with
  | keyed keys => rw [length_encrypt_keyed, length_encrypt_keyed, h]
  | clear => exact h

/-- The length of a payload does not depend on the vector. -/
theorem length_encrypt_congr (p : Protection) (iv iv' : Block) (plain : Bytes) :
    (p.encrypt iv plain).length = (p.encrypt iv' plain).length :=
  p.length_encrypt_congr_length iv iv' rfl

theorem length_le_encrypt (p : Protection) (iv : Block) (plain : Bytes) :
    plain.length ≤ (p.encrypt iv plain).length := by
  cases p with
  | keyed keys =>
    rw [length_encrypt_keyed]
    omega
  | clear => exact Nat.le_refl _

theorem length_encrypt_nil_le (p : Protection) (iv iv' : Block) (plain : Bytes) :
    (p.encrypt iv []).length ≤ (p.encrypt iv' plain).length := by
  cases p with
  | keyed keys =>
    rw [length_encrypt_keyed, length_encrypt_keyed, List.length_nil]
    omega
  | clear => exact Nat.zero_le _

theorem length_encrypt_le (p : Protection) (iv : Block) (plain : Bytes) :
    (p.encrypt iv plain).length ≤ plain.length + p.overhead := by
  cases p with
  | keyed keys =>
    rw [length_encrypt_keyed, overhead]
    omega
  | clear => exact Nat.le_refl _

@[simp] theorem decrypt?_encrypt (p : Protection) (iv : Block) (plain : Bytes) :
    p.decrypt? (p.encrypt iv plain) = some plain := by
  cases p with
  | keyed keys =>
    obtain ⟨blocks, hjoin, hlength, hencrypt⟩ := exists_encrypt_keyed keys plain
    have hlong : ¬ ((keyed keys).encrypt iv plain).length < 32 := by
      rw [length_encrypt_keyed]
      omega
    rw [decrypt?, if_neg hlong, hencrypt]
    simp only [Block.take?_toBytes_append, Block.split?_join, Option.bind_some,
      Cipher.unchain_chain, hjoin, Cipher.unpad?_pad]
  | clear => rfl

theorem exists_encrypt_of_decrypt? {p : Protection} {payload plain : Bytes}
    (h : p.decrypt? payload = some plain) : ∃ iv, p.encrypt iv plain = payload := by
  cases p with
  | keyed keys =>
    rw [decrypt?] at h
    split at h
    · cases h
    · split at h
      · cases h
      · rename_i iv rest htake
        obtain ⟨blocks, hsplit, hunpad⟩ := Option.bind_eq_some_iff.mp h
        have hpad := Cipher.pad_of_unpad? hunpad (by rw [Block.length_join]; omega)
        refine ⟨iv, ?_⟩
        rw [encrypt, hpad, Block.split?_join, Option.getD_some, Cipher.chain_unchain,
          Block.join_of_split? hsplit, Block.eq_of_take? htake]
  | clear => exact ⟨default, (Option.some.inj h).symm⟩

/-- A keyed payload of at least two whole blocks decrypts to what its last blocks, unchained, are
the padding of. -/
theorem decrypt?_keyed (keys : KeyMaterial) (iv : Block) {blocks : List Block} (h : blocks ≠ []) :
    (keyed keys).decrypt? (iv.toBytes ++ Block.join blocks) =
      Cipher.unpad? (Block.join (Cipher.unchain keys.roundKeys iv blocks)) := by
  have hlong : ¬ (iv.toBytes ++ Block.join blocks).length < 32 := by
    have hpos := List.length_pos_iff.mpr h
    rw [List.length_append, Block.length_toBytes, Block.length_join]
    omega
  rw [decrypt?, if_neg hlong]
  simp only [Block.take?_toBytes_append, Block.split?_join, Option.bind_some]

/-- Why a keyed payload is refused: it is short, or misaligned, or its blocks unchained end in no
sound padding. -/
def Refused (keys : KeyMaterial) (payload : Bytes) : Prop :=
  payload.length < 32 ∨ payload.length % 16 ≠ 0 ∨
    ∃ iv blocks, payload = iv.toBytes ++ Block.join blocks ∧
      ∀ plain, ¬ Cipher.Padded plain (Block.join (Cipher.unchain keys.roundKeys iv blocks))

theorem decrypt?_eq_none_iff {keys : KeyMaterial} {payload : Bytes} :
    (keyed keys).decrypt? payload = none ↔ Refused keys payload := by
  constructor
  · intro hnone
    by_cases hshort : payload.length < 32
    · exact .inl hshort
    by_cases hmisaligned : payload.length % 16 ≠ 0
    · exact .inr (.inl hmisaligned)
    obtain ⟨iv, rest, rfl⟩ := Block.exists_toBytes_append (by omega : 16 ≤ payload.length)
    rw [List.length_append, Block.length_toBytes] at hshort hmisaligned
    obtain ⟨blocks, rfl, hcount⟩ :=
      Block.exists_join (by omega : rest.length = 16 * (rest.length / 16))
    have hblocks : blocks ≠ [] := by
      rw [← List.length_pos_iff]
      omega
    refine .inr (.inr ⟨iv, blocks, rfl, fun plain hpadded => ?_⟩)
    rw [decrypt?_keyed keys iv hblocks, Cipher.unpad?_of_padded hpadded] at hnone
    cases hnone
  · intro hrefused
    rw [Option.eq_none_iff_forall_ne_some]
    intro plain hplain
    -- What decrypts has the length of an encryption, so that nothing but its padding can be amiss.
    obtain ⟨iv, hpayload⟩ := exists_encrypt_of_decrypt? hplain
    have hlength := length_encrypt_keyed keys iv plain
    rw [hpayload] at hlength
    rcases hrefused with hshort | hmisaligned | ⟨iv', blocks, rfl, hunpadded⟩
    · omega
    · omega
    · have hblocks : blocks ≠ [] := by
        rintro rfl
        rw [Block.join, List.flatMap_nil, List.append_nil, Block.length_toBytes] at hlength
        omega
      rw [decrypt?_keyed keys iv' hblocks, Cipher.unpad?_eq_some_iff] at hplain
      exact hunpadded plain hplain

/-- Encryption under a key maps the plain texts, for each vector, one to one onto the payloads with
this vector that decrypt: the vector stands in front, the length is known, and decryption gives the
plain text back; a payload decrypts to a plain text exactly if it is the encryption of this one
under the vector at its front, and every other payload is refused, for its length or its padding. -/
theorem encryption_exact (keys : KeyMaterial) :
    (∀ iv plain, ((keyed keys).encrypt iv plain).take 16 = iv.toBytes ∧
      ((keyed keys).encrypt iv plain).length = 16 + 16 * (plain.length / 16 + 1) ∧
      ((keyed keys).encrypt iv plain).length ≤ plain.length + 32 ∧
      (keyed keys).decrypt? ((keyed keys).encrypt iv plain) = some plain) ∧
    (∀ payload plain, (keyed keys).decrypt? payload = some plain ↔
      ∃ iv, iv.toBytes = payload.take 16 ∧ (keyed keys).encrypt iv plain = payload) ∧
    ∀ payload, (keyed keys).decrypt? payload = none ↔ Refused keys payload := by
  have hfront (iv : Block) (plain : Bytes) : ((keyed keys).encrypt iv plain).take 16 =
      iv.toBytes := by
    rw [encrypt]
    exact List.take_left' iv.length_toBytes
  refine ⟨fun iv plain => ⟨hfront iv plain, ?_, ?_, decrypt?_encrypt _ iv plain⟩,
    fun payload plain => ⟨?_, ?_⟩, fun payload => decrypt?_eq_none_iff⟩
  · rw [length_encrypt_keyed]
    omega
  · exact length_encrypt_le (keyed keys) iv plain
  · intro h
    obtain ⟨iv, rfl⟩ := exists_encrypt_of_decrypt? h
    exact ⟨iv, (hfront iv plain).symm, rfl⟩
  · rintro ⟨iv, -, rfl⟩
    exact decrypt?_encrypt _ iv plain

end Protection

end PacketTunnel
