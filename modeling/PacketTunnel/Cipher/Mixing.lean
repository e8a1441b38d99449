import PacketTunnel.Block

/-!
# Mixing of columns

Bytes are read as polynomials over the field of two elements, modulo x⁸ + x⁴ + x³ + x + 1. A column
is mixed by a fixed matrix with entries 1, 2 and 3 and restored by one with entries 9, 11, 13 and
14. Both are written with doubling alone. That they are inverse (`unmix_mix`, `mix_unmix`) needs no
table: doubling respects exclusive or, and the products of the two matrices cancel as polynomials,
without any reduction.
-/
namespace PacketTunnel.Cipher

/-- Multiplication by x. -/
def double (b : UInt8) : UInt8 :=
  (b <<< 1) ^^^ (if b &&& 0x80 = 0 then 0 else 0x1b)

def triple (b : UInt8) : UInt8 := double b ^^^ b

def times9 (b : UInt8) : UInt8 := double (double (double b)) ^^^ b

def times11 (b : UInt8) : UInt8 := double (double (double b)) ^^^ double b ^^^ b

def times13 (b : UInt8) : UInt8 := double (double (double b)) ^^^ double (double b) ^^^ b

def times14 (b : UInt8) : UInt8 := double (double (double b)) ^^^ double (double b) ^^^ double b

def mixColumn (c : Column) : Column :=
  ⟨double c.b0 ^^^ triple c.b1 ^^^ c.b2 ^^^ c.b3,
   c.b0 ^^^ double c.b1 ^^^ triple c.b2 ^^^ c.b3,
   c.b0 ^^^ c.b1 ^^^ double c.b2 ^^^ triple c.b3,
   triple c.b0 ^^^ c.b1 ^^^ c.b2 ^^^ double c.b3⟩

def unmixColumn (c : Column) : Column :=
  ⟨times14 c.b0 ^^^ times11 c.b1 ^^^ times13 c.b2 ^^^ times9 c.b3,
   times9 c.b0 ^^^ times14 c.b1 ^^^ times11 c.b2 ^^^ times13 c.b3,
   times13 c.b0 ^^^ times9 c.b1 ^^^ times14 c.b2 ^^^ times11 c.b3,
   times11 c.b0 ^^^ times13 c.b1 ^^^ times9 c.b2 ^^^ times14 c.b3⟩

def mix (b : Block) : Block := ⟨mixColumn b.c0, mixColumn b.c1, mixColumn b.c2, mixColumn b.c3⟩

def unmix (b : Block) : Block :=
  ⟨unmixColumn b.c0, unmixColumn b.c1, unmixColumn b.c2, unmixColumn b.c3⟩

private theorem topBit_cases (a : UInt8) : a &&& 0x80 = 0 ∨ a &&& 0x80 = 0x80 := by
  revert a
  apply Bytes.forall_byte
  decide +kernel

private theorem xor_and (a b c : UInt8) : (a ^^^ b) &&& c = (a &&& c) ^^^ (b &&& c) := by
  apply UInt8.toBitVec_inj.mp
  ext i
  simp [Bool.and_xor_distrib_right]

theorem double_xor (a b : UInt8) : double (a ^^^ b) = double a ^^^ double b := by
  have regroup : ∀ x y z w : UInt8, (x ^^^ y) ^^^ (z ^^^ w) = (x ^^^ z) ^^^ (y ^^^ w) := by
    intro x y z w
    rw [UInt8.xor_assoc, ← UInt8.xor_assoc y, UInt8.xor_comm y z, UInt8.xor_assoc z,
      ← UInt8.xor_assoc x]
  simp only [double, UInt8.shiftLeft_xor, xor_and, regroup]
  rcases topBit_cases a with ha | ha <;> rcases topBit_cases b with hb | hb <;> simp [ha, hb]

private theorem xor_pair (x y : UInt8) : x ^^^ (x ^^^ y) = y := by
  rw [← UInt8.xor_assoc, UInt8.xor_self, UInt8.zero_xor]

/-- Sorted, the terms of the product stand in equal pairs, and each pair cancels. -/
@[simp] theorem unmixColumn_mixColumn (c : Column) : unmixColumn (mixColumn c) = c := by
  obtain ⟨a, b, c, d⟩ := c
  simp only [mixColumn, unmixColumn, times9, times11, times13, times14, triple, double_xor,
    Column.mk.injEq]
  refine ⟨?_, ?_, ?_, ?_⟩ <;> ac_nf <;>
    simp only [xor_pair, UInt8.xor_self, UInt8.xor_zero]

@[simp] theorem mixColumn_unmixColumn (c : Column) : mixColumn (unmixColumn c) = c := by
  obtain ⟨a, b, c, d⟩ := c
  simp only [mixColumn, unmixColumn, times9, times11, times13, times14, triple, double_xor,
    Column.mk.injEq]
  refine ⟨?_, ?_, ?_, ?_⟩ <;> ac_nf <;>
    simp only [xor_pair, UInt8.xor_self, UInt8.xor_zero]

@[simp] theorem unmix_mix (b : Block) : unmix (mix b) = b := by simp [mix, unmix]

@[simp] theorem mix_unmix (b : Block) : mix (unmix b) = b := by simp [mix, unmix]

end PacketTunnel.Cipher
