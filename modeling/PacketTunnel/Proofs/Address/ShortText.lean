import PacketTunnel.Address.Text
import PacketTunnel.Proofs.Text.Blank
import PacketTunnel.Proofs.Text.Numeral

/-!
# Characters of addresses, and version 4 in text

An address is written in digits, colons and points, characters of one byte each, of which none is a
blank or a separator. The four numbers of a version 4 address are read back, and what follows is
left. What starts with hexadecimal digits and has no point after them is not taken for such an
address.
-/
namespace PacketTunnel

open Text

def isAddressChar (c : Char) : Bool := isDigit 16 c || c == ':' || c == '.'

theorem toNat_of_isDigit {c : Char} (h : isDigit 16 c = true) :
    (48 ≤ c.toNat ∧ c.toNat ≤ 57) ∨ (97 ≤ c.toNat ∧ c.toNat ≤ 102) ∨
      (65 ≤ c.toNat ∧ c.toNat ≤ 70) := by
  rw [isDigit, digitValue?] at h
  split at h
  · rename_i hrange
    exact .inl hrange
  · split at h
    · rename_i hrange
      exact .inr (.inl hrange)
    · split at h
      · rename_i hrange
        exact .inr (.inr hrange)
      · simp at h

theorem toNat_of_isAddressChar {c : Char} (h : isAddressChar c = true) :
    46 ≤ c.toNat ∧ c.toNat ≤ 102 ∧ c.toNat ≠ 47 ∧ c.toNat ≠ 61 := by
  simp only [isAddressChar, Bool.or_eq_true, beq_iff_eq] at h
  rcases h with (h | rfl) | rfl
  · have hrange := toNat_of_isDigit h
    omega
  · decide
  · decide

theorem isBlank_of_isAddressChar {c : Char} (h : isAddressChar c = true) : isBlank c = false := by
  have hrange := toNat_of_isAddressChar h
  simp only [isBlank, Bool.or_eq_false_iff, Bool.and_eq_false_iff, decide_eq_false_iff_not,
    beq_eq_false_iff_ne]
  omega

theorem utf8Size_of_isAddressChar {c : Char} (h : isAddressChar c = true) : c.utf8Size = 1 := by
  have hrange := toNat_of_isAddressChar h
  have hval : c.val ≤ 0x7f := by
    rw [UInt32.le_iff_toNat_le]
    change c.toNat ≤ 127
    omega
  rw [Char.utf8Size]
  exact if_pos hval

theorem isAddressChar_of_isDigit {base : Nat} (hbase : base ≤ 16) {c : Char}
    (h : isDigit base c = true) :
    isAddressChar c = true := by
  rw [isAddressChar, isDigit_of_le hbase h]
  rfl

/-- What may follow an address in a text. -/
def EndsAddress (rest : List Char) : Prop := ∀ c ∈ rest.head?, isAddressChar c = false

theorem endsAddress_nil : EndsAddress [] := fun c hc => by cases hc

theorem EndsAddress.stops {rest : List Char} (h : EndsAddress rest) : Stops 16 rest := by
  intro c hc
  have hend := h c hc
  simp only [isAddressChar, Bool.or_eq_false_iff] at hend
  exact hend.1.1

theorem stops_decimal {rest : List Char} (h : Stops 16 rest) : Stops 10 rest := by
  intro c hc
  cases hdigit : isDigit 10 c with
  | false => rfl
  | true =>
    have hmore : isDigit 16 c = true := isDigit_of_le (by decide) hdigit
    rw [h c hc] at hmore
    cases hmore

theorem eq_of_skip? {c : Char} {text rest : List Char} (h : skip? c text = some rest) :
    text = c :: rest := by
  cases text with
  | nil => cases h
  | cons d text =>
    rw [skip?] at h
    split at h
    · rename_i heq
      cases h
      rw [heq]
    · cases h

theorem skip?_of_head? {c : Char} {text : List Char} (h : text.head? ≠ some c) :
    skip? c text = none := by
  cases text with
  | nil => rfl
  | cons d rest =>
    have hne : d ≠ c := fun he => h (by rw [he]; rfl)
    rw [skip?, if_neg hne]

namespace IPv4

theorem length_decimal_le {n : Nat} (h : n < 256) : (decimal n).length ≤ 3 :=
  (Nat.length_toDigits_le_iff (by decide) (by decide)).mpr (by omega)

theorem number?_decimal {n : Nat} (h : n < 256) {rest : List Char} (hrest : Stops 10 rest) :
    number? numberField (decimal n ++ rest) = some (n, rest) := by
  have hdigits : ∀ k ∈ numberField.maxDigits, (decimal n).length ≤ k := by
    intro k hk
    cases hk
    exact length_decimal_le h
  have hbase : numberField.base ≤ 16 := by decide
  exact number?_toDigits (by decide) hbase hdigits h hrest

theorem toChars_eq (a : IPv4) : a.toChars =
    decimal (a.toNat / 16777216 % 256) ++ '.' :: (decimal (a.toNat / 65536 % 256) ++
      '.' :: (decimal (a.toNat / 256 % 256) ++ '.' :: decimal (a.toNat % 256))) := by
  simp [toChars, toBytes, Bytes.ofNat, List.intercalate, List.intersperse, Nat.div_div_eq_div_mul]

theorem read?_toChars (a : IPv4) {rest : List Char} (hrest : Stops 10 rest) :
    read? (a.toChars ++ rest) = some (a, rest) := by
  have hpoint (text : List Char) : Stops 10 ('.' :: text) := by
    intro c hc
    cases hc
    decide
  have hvalue :
      ((a.toNat / 16777216 % 256 * 256 + a.toNat / 65536 % 256) * 256 + a.toNat / 256 % 256) * 256 +
      a.toNat % 256 = a.toNat := by
    have hlt := a.isLt
    omega
  simp only [read?, toChars_eq, List.append_assoc, List.cons_append,
    number?_decimal (Nat.mod_lt _ (by decide)) (hpoint _),
    number?_decimal (Nat.mod_lt _ (by decide)) hrest, skip?, if_true, Option.bind_eq_bind,
    Option.bind_some, hvalue,
    BitVec.ofNat_toNat, BitVec.setWidth_eq]

theorem parse?_toChars (a : IPv4) : parse? a.toChars = some a := by
  have hread : read? (a.toChars ++ []) = some (a, []) := read?_toChars a (by intro c hc; cases hc)
  rw [List.append_nil] at hread
  rw [parse?, hread]

theorem isAddressChar_of_mem_toChars {a : IPv4} : ∀ c ∈ a.toChars, isAddressChar c = true := by
  have hdecimal (n : Nat) : ∀ c ∈ decimal n, isAddressChar c = true := fun c hc =>
    isAddressChar_of_isDigit (by decide) (isDigit_of_mem_toDigits (by decide) (by decide) n c hc)
  intro c hc
  simp only [toChars_eq, List.mem_append, List.mem_cons] at hc
  rcases hc with hc | rfl | hc | rfl | hc | rfl | hc
  · exact hdecimal _ c hc
  · decide
  · exact hdecimal _ c hc
  · decide
  · exact hdecimal _ c hc
  · decide
  · exact hdecimal _ c hc

theorem length_toChars_le (a : IPv4) : a.toChars.length ≤ 15 := by
  have hlength (n : Nat) : (decimal (n % 256)).length ≤ 3 :=
    length_decimal_le (Nat.mod_lt n (by decide))
  have h₀ := hlength (a.toNat / 16777216)
  have h₁ := hlength (a.toNat / 65536)
  have h₂ := hlength (a.toNat / 256)
  have h₃ := hlength a.toNat
  simp only [toChars_eq, List.length_append, List.length_cons]
  omega

theorem exists_of_read? {text rest : List Char} {a : IPv4} (h : read? text = some (a, rest)) :
    ∃ spelled, text = spelled ++ rest ∧ ∀ c ∈ spelled, isDigit 10 c = true ∨ c = '.' := by
  simp only [read?, Option.bind_eq_bind, Option.bind_eq_some_iff, Option.some.injEq, Prod.exists,
    Prod.mk.injEq] at h
  obtain ⟨n₀, t₀, h₀, u₀, k₀, n₁, t₁, h₁, u₁, k₁, n₂, t₂, h₂, u₂, k₂, n₃, t₃, h₃, -, rfl⟩ := h
  obtain ⟨d₀, rfl, hd₀, -⟩ := exists_of_number? h₀
  obtain ⟨d₁, rfl, hd₁, -⟩ := exists_of_number? h₁
  obtain ⟨d₂, rfl, hd₂, -⟩ := exists_of_number? h₂
  obtain ⟨d₃, rfl, hd₃, -⟩ := exists_of_number? h₃
  refine ⟨d₀ ++ '.' :: (d₁ ++ '.' :: (d₂ ++ '.' :: d₃)), ?_, ?_⟩
  · rw [eq_of_skip? k₀, eq_of_skip? k₁, eq_of_skip? k₂]
    simp only [List.append_assoc, List.cons_append]
  · intro c hc
    simp only [List.mem_append, List.mem_cons] at hc
    rcases hc with hc | rfl | hc | rfl | hc | rfl | hc
    · exact .inl (hd₀ c hc)
    · exact .inr rfl
    · exact .inl (hd₁ c hc)
    · exact .inr rfl
    · exact .inl (hd₂ c hc)
    · exact .inr rfl
    · exact .inl (hd₃ c hc)

theorem mem_of_parse? {text : List Char} {a : IPv4} (h : parse? text = some a) :
    ∀ c ∈ text, isDigit 10 c = true ∨ c = '.' := by
  rw [parse?] at h
  split at h
  · rename_i a' hread
    obtain ⟨spelled, rfl, hspelled⟩ := exists_of_read? hread
    rwa [List.append_nil]
  · cases h

/-- Hexadecimal digits with no point after them are not the start of an address. -/
theorem read?_eq_none {digits rest : List Char} (hdigits : ∀ c ∈ digits, isDigit 16 c = true)
    (hrest : Stops 16 rest) (hpoint : rest.head? ≠ some '.') : read? (digits ++ rest) = none := by
  have hskip : skip? '.' ((digits ++ rest).dropWhile (isDigit 10)) = none := by
    apply skip?_of_head?
    induction digits with
    | nil =>
      have hdrop : ([] ++ rest).dropWhile (isDigit 10) = rest :=
        dropWhile_append_of_stops (by simp) (stops_decimal hrest)
      rw [hdrop]
      exact hpoint
    | cons d digits ih =>
      rw [List.cons_append, List.dropWhile_cons]
      split
      · exact ih fun c hc => hdigits c (by simp [hc])
      · rw [List.head?_cons, ne_eq, Option.some.injEq]
        rintro rfl
        exact absurd (hdigits '.' (by simp)) (by decide)
  rw [read?]
  cases h : number? numberField (digits ++ rest) with
  | none => rfl
  | some found =>
    have hleft : found.2 = (digits ++ rest).dropWhile (isDigit 10) :=
      rest_of_number? (n := found.1) h
    simp [hleft, hskip]

end IPv4

end PacketTunnel
