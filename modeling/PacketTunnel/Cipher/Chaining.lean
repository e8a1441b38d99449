import PacketTunnel.Cipher.Rijndael

/-!
# Chaining of blocks

Each plain block is combined with the sealed block before it, the first with an initialisation
vector, before it is encrypted. A change in one sealed block therefore disturbs its own plain block
and the one after it.
-/
namespace PacketTunnel.Cipher

/-- Encrypt a list of blocks, each combined with the result before it. -/
def chain (keys : List Block) : Block → List Block → List Block
  | _, [] => []
  | previous, plain :: rest =>
    let sealed := encrypt keys (plain.xor previous)
    sealed :: chain keys sealed rest

def unchain (keys : List Block) : Block → List Block → List Block
  | _, [] => []
  | previous, sealed :: rest => (decrypt keys sealed).xor previous :: unchain keys sealed rest

@[simp] theorem length_chain (keys : List Block) (iv : Block) (plain : List Block) :
    (chain keys iv plain).length = plain.length := by
  induction plain generalizing iv with
  | nil => rfl
  | cons b bs ih => simp [chain, ih]

@[simp] theorem unchain_chain (keys : List Block) (iv : Block) (plain : List Block) :
    unchain keys iv (chain keys iv plain) = plain := by
  induction plain generalizing iv with
  | nil => rfl
  | cons b bs ih => simp [chain, unchain, ih]

@[simp] theorem chain_unchain (keys : List Block) (iv : Block) (sealed : List Block) :
    chain keys iv (unchain keys iv sealed) = sealed := by
  induction sealed generalizing iv with
  | nil => rfl
  | cons b bs ih => simp [chain, unchain, ih]

end PacketTunnel.Cipher
