/-!
# Byte substitution

The cipher's only non-linear step replaces each byte by an entry of a fixed table. A table is kept
as sixteen rows, each the sixteen entries for one upper half of the byte, written as one number. The
second table undoes the first: `restore_substitute` and `substitute_restore` rest on a check of all
256 entries in both directions.
-/
namespace PacketTunnel.Cipher

/-- The substitution table of the block cipher, a row for each upper half of a byte. -/
def substitutionRows : List Nat := [
  0x637c777bf26b6fc53001672bfed7ab76,
  0xca82c97dfa5947f0add4a2af9ca472c0,
  0xb7fd9326363ff7cc34a5e5f171d83115,
  0x04c723c31896059a071280e2eb27b275,
  0x09832c1a1b6e5aa0523bd6b329e32f84,
  0x53d100ed20fcb15b6acbbe394a4c58cf,
  0xd0efaafb434d338545f9027f503c9fa8,
  0x51a3408f929d38f5bcb6da2110fff3d2,
  0xcd0c13ec5f974417c4a77e3d645d1973,
  0x60814fdc222a908846eeb814de5e0bdb,
  0xe0323a0a4906245cc2d3ac629195e479,
  0xe7c8376d8dd54ea96c56f4ea657aae08,
  0xba78252e1ca6b4c6e8dd741f4bbd8b8a,
  0x703eb5664803f60e613557b986c11d9e,
  0xe1f8981169d98e949b1e87e9ce5528df,
  0x8ca1890dbfe6426841992d0fb054bb16]

def restorationRows : List Nat := [
  0x52096ad53036a538bf40a39e81f3d7fb,
  0x7ce339829b2fff87348e4344c4dee9cb,
  0x547b9432a6c2233dee4c950b42fac34e,
  0x082ea16628d924b2765ba2496d8bd125,
  0x72f8f66486689816d4a45ccc5d65b692,
  0x6c704850fdedb9da5e154657a78d9d84,
  0x90d8ab008cbcd30af7e45805b8b34506,
  0xd02c1e8fca3f0f02c1afbd0301138a6b,
  0x3a9111414f67dcea97f2cfcef0b4e673,
  0x96ac7422e7ad3585e2f937e81c75df6e,
  0x47f11a711d29c5896fb7620eaa18be1b,
  0xfc563e4bc6d279209adbc0fe78cd5af4,
  0x1fdda8338807c731b11210592780ec5f,
  0x60517fa919b54a0d2de57a9f93c99cef,
  0xa0e03b4dae2af5b0c8ebbb3c83539961,
  0x172b047eba77d626e169146355210c7d]

def entry (rows : List Nat) (b : UInt8) : UInt8 :=
  UInt8.ofNat (rows.getD (b.toNat / 16) 0 >>> (8 * (15 - b.toNat % 16)))

def substitute (b : UInt8) : UInt8 := entry substitutionRows b

def restore (b : UInt8) : UInt8 := entry restorationRows b

private theorem tables_inverse : ∀ i : Fin 256,
    restore (substitute (UInt8.ofNat i)) = UInt8.ofNat i ∧
      substitute (restore (UInt8.ofNat i)) = UInt8.ofNat i := by
  decide +kernel

@[simp] theorem restore_substitute (b : UInt8) : restore (substitute b) = b := by
  have h := (tables_inverse ⟨b.toNat, b.toNat_lt⟩).1
  simpa using h

@[simp] theorem substitute_restore (b : UInt8) : substitute (restore b) = b := by
  have h := (tables_inverse ⟨b.toNat, b.toNat_lt⟩).2
  simpa using h

end PacketTunnel.Cipher
