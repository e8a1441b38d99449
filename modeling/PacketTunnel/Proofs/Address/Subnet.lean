import Mathlib.Algebra.Group.Nat.Defs
import PacketTunnel.Address.Subnet

/-!
# Prefixes as bits and as numbers

A subnet contains an address exactly when the two agree in the first bits, as many as the prefix
has. As numbers, the addresses of a subnet are those from its lowest to its highest: the lowest is
the address with what the host bits count taken off, and the highest has all of them set.
-/
namespace PacketTunnel.Subnet

variable {width : Nat} {s : Subnet width}

theorem length_le (s : Subnet width) : s.length.val ≤ width := Nat.le_of_lt_succ s.length.isLt

theorem contains_iff_getMsbD {a : BitVec width} :
    s.contains a = true ↔ ∀ i < s.length.val, a.getMsbD i = s.address.getMsbD i := by
  have hle := s.length_le
  rw [contains, beq_iff_eq]
  constructor
  · intro h i hi
    have hbit := congrArg (fun x : BitVec width => x.getLsbD (s.length - 1 - i)) h
    simp only [BitVec.getLsbD_ushiftRight, hostBits] at hbit
    have hplace : width - s.length.val + (s.length.val - 1 - i) = width - 1 - i := by omega
    rw [hplace] at hbit
    rw [BitVec.getMsbD, BitVec.getMsbD, hbit]
  · intro h
    apply BitVec.eq_of_getLsbD_eq
    intro i hi
    simp only [BitVec.getLsbD_ushiftRight, hostBits]
    by_cases hout : s.length.val ≤ i
    · rw [BitVec.getLsbD_of_ge _ _ (by omega), BitVec.getLsbD_of_ge _ _ (by omega)]
    · have hbit := h (s.length.val - 1 - i) (by omega)
      have hplace : width - 1 - (s.length.val - 1 - i) = width - s.length.val + i := by omega
      have hin : s.length.val - 1 - i < width := by omega
      simpa only [BitVec.getMsbD, hplace, hin, decide_true, Bool.true_and] using hbit

theorem toNat_first (s : Subnet width) :
    s.first.toNat = s.address.toNat / 2 ^ s.hostBits * 2 ^ s.hostBits := by
  have hlt : s.address.toNat / 2 ^ s.hostBits * 2 ^ s.hostBits < 2 ^ width :=
    Nat.lt_of_le_of_lt (Nat.div_mul_le_self _ _) s.address.isLt
  rw [first, BitVec.toNat_shiftLeft, BitVec.toNat_ushiftRight, Nat.shiftRight_eq_div_pow,
    Nat.shiftLeft_eq, Nat.mod_eq_of_lt hlt]

/-- From the lowest address to the highest the host bits count once through. -/
theorem toNat_last (s : Subnet width) : s.last.toNat = s.first.toNat + (2 ^ s.hostBits - 1) := by
  have hle := s.length_le
  have hpow : 2 ^ width = 2 ^ s.hostBits * 2 ^ s.length.val := by
    rw [← Nat.pow_add, hostBits, Nat.sub_add_cancel hle]
  have hones : (BitVec.allOnes width >>> s.length.val).toNat = 2 ^ s.hostBits - 1 := by
    have hhost := Nat.two_pow_pos s.hostBits
    have hprefix := Nat.two_pow_pos s.length.val
    rw [BitVec.toNat_ushiftRight, BitVec.toNat_allOnes, Nat.shiftRight_eq_div_pow, hpow]
    apply Nat.div_eq_of_lt_le
    · rw [Nat.sub_mul]
      omega
    · rw [Nat.sub_add_cancel hhost]
      exact Nat.sub_lt (Nat.mul_pos hhost hprefix) Nat.one_pos
  rw [last, BitVec.toNat_or, hones, toNat_first, ← Nat.shiftLeft_eq, Nat.shiftLeft_add_eq_or_of_lt]
  have hpos := Nat.two_pow_pos s.hostBits
  omega

/-- Containing is lying between the lowest address and the highest. -/
theorem contains_iff_between {a : BitVec width} :
    s.contains a = true ↔ s.first.toNat ≤ a.toNat ∧ a.toNat ≤ s.last.toNat := by
  have hpos := Nat.two_pow_pos s.hostBits
  have hsame : s.contains a = true ↔
      a.toNat / 2 ^ s.hostBits = s.address.toNat / 2 ^ s.hostBits := by
    rw [contains, beq_iff_eq, ← BitVec.toNat_inj, BitVec.toNat_ushiftRight,
      BitVec.toNat_ushiftRight, Nat.shiftRight_eq_div_pow, Nat.shiftRight_eq_div_pow]
  rw [hsame, toNat_last, toNat_first, Nat.div_eq_iff hpos]
  omega

end PacketTunnel.Subnet
