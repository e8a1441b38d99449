/-!
# Bytes and big-endian numbers

A datagram, an IP packet and an address on the wire are lists of bytes. Numbers travel most
significant byte first, in a fixed width. `ofNat` writes the low-order part of a number in a given
width and `toNat` reads any number of bytes back; the two are inverse on numbers that fit, which are
those below `capacity`.
-/
namespace PacketTunnel

abbrev Bytes := List UInt8

namespace Bytes

/-- The low-order `width` bytes of `n`, most significant first. -/
def ofNat : Nat → Nat → Bytes
  | 0, _ => []
  | width + 1, n => ofNat width (n / 256) ++ [UInt8.ofNat n]

/-- How many numbers fit into a number of bytes. -/
def capacity : Nat → Nat
  | 0 => 1
  | width + 1 => 256 * capacity width

/-- The number that the bytes spell, most significant first. -/
def toNat (bytes : Bytes) : Nat :=
  bytes.foldl (fun n b => 256 * n + b.toNat) 0

def hexDigit (n : Nat) : Char :=
  if n < 10 then Char.ofNat (48 + n) else Char.ofNat (87 + n)

def toHex (bytes : Bytes) : String :=
  String.ofList (bytes.flatMap fun b => [hexDigit (b.toNat / 16), hexDigit (b.toNat % 16)])

def hexValue? (c : Char) : Option Nat :=
  if '0' ≤ c ∧ c ≤ '9' then some (c.toNat - 48)
  else if 'a' ≤ c ∧ c ≤ 'f' then some (c.toNat - 87)
  else if 'A' ≤ c ∧ c ≤ 'F' then some (c.toNat - 55)
  else none

def ofHex? : List Char → Option Bytes
  | [] => some []
  | [_] => none
  | high :: low :: rest => do
    let x ← hexValue? high
    let y ← hexValue? low
    some (UInt8.ofNat (16 * x + y) :: (← ofHex? rest))

theorem forall_byte {p : UInt8 → Prop} (h : ∀ i : Fin 256, p (UInt8.ofNat i)) (b : UInt8) :
    p b := by
  have hb := h ⟨b.toNat, b.toNat_lt⟩
  rw [UInt8.ofNat_toNat] at hb
  exact hb

@[simp] theorem length_ofNat (width n : Nat) : (ofNat width n).length = width := by
  induction width generalizing n with
  | zero => rfl
  | succ width ih => simp [ofNat, ih]

@[simp] theorem toNat_nil : toNat [] = 0 := rfl

theorem toNat_concat (bytes : Bytes) (b : UInt8) :
    toNat (bytes ++ [b]) = 256 * toNat bytes + b.toNat := by
  simp [toNat]

theorem concat_induction {p : Bytes → Prop} (nil : p []) (concat : ∀ bs b, p bs → p (bs ++ [b]))
    (bytes : Bytes) : p bytes := by
  rw [← List.reverse_reverse bytes]
  induction bytes.reverse with
  | nil => exact nil
  | cons b bs ih => exact List.reverse_cons ▸ concat _ _ ih

theorem toNat_lt (bytes : Bytes) : toNat bytes < capacity bytes.length := by
  induction bytes using concat_induction with
  | nil => decide
  | concat bs b ih =>
    have hb : b.toNat < 256 := b.toNat_lt
    rw [toNat_concat, List.length_append, List.length_singleton, capacity]
    omega

theorem toNat_ofNat (width n : Nat) : toNat (ofNat width n) = n % capacity width := by
  induction width generalizing n with
  | zero => simp [ofNat, capacity, Nat.mod_one]
  | succ width ih =>
    rw [ofNat, toNat_concat, ih, UInt8.toNat_ofNat', capacity, Nat.mod_mul]
    exact Nat.add_comm _ _

theorem ofNat_toNat (bytes : Bytes) : ofNat bytes.length (toNat bytes) = bytes := by
  induction bytes using concat_induction with
  | nil => rfl
  | concat bs b ih =>
    have hb : b.toNat < 256 := b.toNat_lt
    have rest : (256 * toNat bs + b.toNat) / 256 = toNat bs := by omega
    have last : UInt8.ofNat (256 * toNat bs + b.toNat) = b := by
      apply UInt8.toNat_inj.mp
      rw [UInt8.toNat_ofNat']
      omega
    rw [toNat_concat, List.length_append, List.length_singleton, ofNat, rest, last, ih]

end Bytes

end PacketTunnel
