import PacketTunnel.Bytes

/-!
# Blocks of sixteen bytes

The cipher works on blocks of four columns of four bytes. The same shape serves for the
initialisation vector in front of a ciphertext and for the fingerprint in a datagram header, so a
block is simply sixteen bytes that are known to be sixteen. `take?` cuts one from the front of a
byte string and `split?` cuts a whole string into blocks, which succeeds exactly when the length is
a multiple of sixteen.
-/
namespace PacketTunnel

/-- Four bytes, top to bottom. -/
structure Column where
  b0 : UInt8
  b1 : UInt8
  b2 : UInt8
  b3 : UInt8
deriving DecidableEq, Repr, Inhabited

/-- Sixteen bytes as four columns, left to right. -/
structure Block where
  c0 : Column
  c1 : Column
  c2 : Column
  c3 : Column
deriving DecidableEq, Repr, Inhabited

namespace Column

def toBytes (c : Column) : Bytes := [c.b0, c.b1, c.b2, c.b3]

def map (f : UInt8 → UInt8) (c : Column) : Column := ⟨f c.b0, f c.b1, f c.b2, f c.b3⟩

def xor (x y : Column) : Column :=
  ⟨x.b0 ^^^ y.b0, x.b1 ^^^ y.b1, x.b2 ^^^ y.b2, x.b3 ^^^ y.b3⟩

@[simp] theorem xor_xor_cancel (x y : Column) : (x.xor y).xor y = x := by
  obtain ⟨x0, x1, x2, x3⟩ := x
  simp only [xor, UInt8.xor_assoc, UInt8.xor_self, UInt8.xor_zero]

end Column

namespace Block

def size : Nat := 16

def toBytes (b : Block) : Bytes :=
  b.c0.toBytes ++ b.c1.toBytes ++ b.c2.toBytes ++ b.c3.toBytes

def map (f : UInt8 → UInt8) (b : Block) : Block := ⟨b.c0.map f, b.c1.map f, b.c2.map f, b.c3.map f⟩

def xor (x y : Block) : Block := ⟨x.c0.xor y.c0, x.c1.xor y.c1, x.c2.xor y.c2, x.c3.xor y.c3⟩

def take? : Bytes → Option (Block × Bytes)
  | b0 :: b1 :: b2 :: b3 :: b4 :: b5 :: b6 :: b7 :: b8 :: b9 :: b10 :: b11 :: b12 :: b13 :: b14 ::
      b15 :: rest =>
    some (⟨⟨b0, b1, b2, b3⟩, ⟨b4, b5, b6, b7⟩, ⟨b8, b9, b10, b11⟩, ⟨b12, b13, b14, b15⟩⟩, rest)
  | _ => none

def split? : Bytes → Option (List Block)
  | [] => some []
  | b0 :: b1 :: b2 :: b3 :: b4 :: b5 :: b6 :: b7 :: b8 :: b9 :: b10 :: b11 :: b12 :: b13 :: b14 ::
      b15 :: rest =>
    (split? rest).map
      (⟨⟨b0, b1, b2, b3⟩, ⟨b4, b5, b6, b7⟩, ⟨b8, b9, b10, b11⟩, ⟨b12, b13, b14, b15⟩⟩ :: ·)
  | _ => none

def join (blocks : List Block) : Bytes := blocks.flatMap toBytes

/-- A block from the low-order sixteen bytes of a number. -/
def ofNat (n : Nat) : Block :=
  let byte (i : Nat) : UInt8 := UInt8.ofNat (n >>> (8 * (15 - i)))
  ⟨⟨byte 0, byte 1, byte 2, byte 3⟩, ⟨byte 4, byte 5, byte 6, byte 7⟩,
    ⟨byte 8, byte 9, byte 10, byte 11⟩, ⟨byte 12, byte 13, byte 14, byte 15⟩⟩

@[simp] theorem length_toBytes (b : Block) : b.toBytes.length = 16 := rfl

@[simp] theorem xor_xor_cancel (x y : Block) : (x.xor y).xor y = x := by
  simp [xor]

@[simp] theorem take?_toBytes_append (b : Block) (rest : Bytes) :
    take? (b.toBytes ++ rest) = some (b, rest) := rfl

theorem length_join (blocks : List Block) : (join blocks).length = 16 * blocks.length := by
  induction blocks with
  | nil => rfl
  | cons b bs ih => simp only [join, List.flatMap_cons, List.length_append, length_toBytes,
      List.length_cons] at ih ⊢; omega

@[simp] theorem split?_join (blocks : List Block) : split? (join blocks) = some blocks := by
  induction blocks with
  | nil => rfl
  | cons b bs ih =>
    have step : split? (join (b :: bs)) = (split? (join bs)).map (b :: ·) := rfl
    rw [step, ih]; rfl

theorem join_of_split? {bytes : Bytes} {blocks : List Block} (h : split? bytes = some blocks) :
    join blocks = bytes := by
  fun_induction split? bytes generalizing blocks with
  | case1 => cases h; rfl
  | case2 b0 b1 b2 b3 b4 b5 b6 b7 b8 b9 b10 b11 b12 b13 b14 b15 rest ih =>
    obtain ⟨tail, ht, rfl⟩ := Option.map_eq_some_iff.mp h
    rw [← ih ht]; rfl
  | case3 => cases h

end Block

end PacketTunnel
