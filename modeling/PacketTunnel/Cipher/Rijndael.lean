import PacketTunnel.Cipher.Substitution
import PacketTunnel.Cipher.Mixing

/-!
# The block cipher with a 256-bit key

A key of two blocks is expanded into fifteen round keys. Encryption adds the first, then runs
fourteen rounds of substitution, row rotation, column mixing and key addition, the last one without
the mixing. Decryption undoes the rounds in reverse. `decrypt_encrypt` and `encrypt_decrypt` hold
for any list of round keys, since each step of a round is undone by its own inverse.
-/
namespace PacketTunnel.Cipher

def substituteAll (b : Block) : Block := b.map substitute

def restoreAll (b : Block) : Block := b.map restore

/-- Rotate row `r` of a block by `r` places to the left. -/
def rotateRows (b : Block) : Block :=
  ⟨⟨b.c0.b0, b.c1.b1, b.c2.b2, b.c3.b3⟩, ⟨b.c1.b0, b.c2.b1, b.c3.b2, b.c0.b3⟩,
    ⟨b.c2.b0, b.c3.b1, b.c0.b2, b.c1.b3⟩, ⟨b.c3.b0, b.c0.b1, b.c1.b2, b.c2.b3⟩⟩

def unrotateRows (b : Block) : Block :=
  ⟨⟨b.c0.b0, b.c3.b1, b.c2.b2, b.c1.b3⟩, ⟨b.c1.b0, b.c0.b1, b.c3.b2, b.c2.b3⟩,
    ⟨b.c2.b0, b.c1.b1, b.c0.b2, b.c3.b3⟩, ⟨b.c3.b0, b.c2.b1, b.c1.b2, b.c0.b3⟩⟩

@[simp] theorem restoreAll_substituteAll (b : Block) : restoreAll (substituteAll b) = b := by
  simp [restoreAll, substituteAll, Block.map, Column.map]

@[simp] theorem substituteAll_restoreAll (b : Block) : substituteAll (restoreAll b) = b := by
  simp [restoreAll, substituteAll, Block.map, Column.map]

@[simp] theorem unrotateRows_rotateRows (b : Block) : unrotateRows (rotateRows b) = b := rfl

@[simp] theorem rotateRows_unrotateRows (b : Block) : rotateRows (unrotateRows b) = b := rfl

/-- The constants that tell the steps of the key expansion apart. -/
def stepConstants : List UInt8 := [0x01, 0x02, 0x04, 0x08, 0x10, 0x20, 0x40]

/-- The next two round keys after two given ones. -/
def nextKeys (constant : UInt8) (high low : Block) : Block × Block :=
  let turned : Column := ⟨low.c3.b1, low.c3.b2, low.c3.b3, low.c3.b0⟩
  let h0 := (high.c0.xor (turned.map substitute)).xor ⟨constant, 0, 0, 0⟩
  let h1 := high.c1.xor h0
  let h2 := high.c2.xor h1
  let h3 := high.c3.xor h2
  let l0 := low.c0.xor (h3.map substitute)
  let l1 := low.c1.xor l0
  let l2 := low.c2.xor l1
  let l3 := low.c3.xor l2
  (⟨h0, h1, h2, h3⟩, ⟨l0, l1, l2, l3⟩)

/-- The round keys from two given ones on, two for each constant and one to end with. -/
def roundKeysFrom : List UInt8 → Block → Block → List Block
  | [], high, _ => [high]
  | constant :: constants, high, low =>
    let next := nextKeys constant high low
    high :: low :: roundKeysFrom constants next.1 next.2

/-- The fifteen round keys of a key, given as its two halves. -/
def roundKeys (high low : Block) : List Block := roundKeysFrom stepConstants high low

/-- All rounds, one for each key; the last does not mix. -/
def encryptRounds : List Block → Block → Block
  | [], state => state
  | [key], state => (rotateRows (substituteAll state)).xor key
  | key :: keys, state => encryptRounds keys ((mix (rotateRows (substituteAll state))).xor key)

def decryptRounds : List Block → Block → Block
  | [], state => state
  | [key], state => restoreAll (unrotateRows (state.xor key))
  | key :: keys, state => restoreAll (unrotateRows (unmix ((decryptRounds keys state).xor key)))

def encrypt (keys : List Block) (plain : Block) : Block :=
  match keys with
  | [] => plain
  | key :: keys => encryptRounds keys (plain.xor key)

def decrypt (keys : List Block) (sealed : Block) : Block :=
  match keys with
  | [] => sealed
  | key :: keys => (decryptRounds keys sealed).xor key

theorem decryptRounds_encryptRounds (keys : List Block) (state : Block) :
    decryptRounds keys (encryptRounds keys state) = state := by
  fun_induction encryptRounds keys state with
  | case1 => rfl
  | case2 => simp [decryptRounds]
  | case3 key keys state hkeys ih =>
    cases keys with
    | nil => exact absurd rfl hkeys
    | cons next rest => simp [decryptRounds, ih]

theorem encryptRounds_decryptRounds (keys : List Block) (state : Block) :
    encryptRounds keys (decryptRounds keys state) = state := by
  fun_induction decryptRounds keys state with
  | case1 => rfl
  | case2 => simp [encryptRounds]
  | case3 key keys state hkeys ih =>
    cases keys with
    | nil => exact absurd rfl hkeys
    | cons next rest => simp [encryptRounds, ih]

@[simp] theorem decrypt_encrypt (keys : List Block) (plain : Block) :
    decrypt keys (encrypt keys plain) = plain := by
  cases keys with
  | nil => rfl
  | cons key keys => simp [encrypt, decrypt, decryptRounds_encryptRounds]

@[simp] theorem encrypt_decrypt (keys : List Block) (sealed : Block) :
    encrypt keys (decrypt keys sealed) = sealed := by
  cases keys with
  | nil => rfl
  | cons key keys => simp [encrypt, decrypt, encryptRounds_decryptRounds]

end PacketTunnel.Cipher
