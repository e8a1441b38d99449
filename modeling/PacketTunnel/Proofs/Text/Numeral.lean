import PacketTunnel.Text.Numeral

/-!
# Numerals are read back

The digits of a number spell it, all of them are digits, and none but a lone zero stands in front.
So a field of an address takes back the number that was written, and leaves what follows, provided
that no digit follows; and a whole text that holds the digits alone is that number. What a field
accepts begins with digits and nothing else.
-/
namespace PacketTunnel.Text

variable {base n : Nat}

theorem digitValue?_digitChar (hbase : base ≤ 16) (hn : n < base) :
    digitValue? base n.digitChar = some n := by
  have h : ∀ b : Fin 17, ∀ i : Fin 16, i.val < b.val →
      digitValue? b i.val.digitChar = some i.val := by decide
  exact h ⟨base, by omega⟩ ⟨n, by omega⟩ hn

theorem isDigit_digitChar (hbase : base ≤ 16) (hn : n < base) :
    isDigit base n.digitChar = true := by
  rw [isDigit, digitValue?_digitChar hbase hn, Option.isSome_some]

theorem isDigit_of_le {base' : Nat} (h : base ≤ base') {c : Char} (hc : isDigit base c = true) :
    isDigit base' c = true := by
  simp only [isDigit, digitValue?] at hc ⊢
  split at hc <;> split at hc <;> grind

theorem digitsValue_append_singleton (digits : List Char) (c : Char) :
    digitsValue base (digits ++ [c]) = base * digitsValue base digits +
      (digitValue? base c).getD 0 := by
  rw [digitsValue, List.foldl_append]
  rfl

section
variable (hone : 1 < base) (hbase : base ≤ 16)
include hone hbase

theorem isDigit_of_mem_toDigits (n : Nat) : ∀ c ∈ Nat.toDigits base n, isDigit base c = true := by
  induction n using Nat.strongRecOn with
  | ind n ih =>
    intro c hc
    by_cases hn : n < base
    · rw [Nat.toDigits_of_lt_base hn, List.mem_singleton] at hc
      rw [hc]
      exact isDigit_digitChar hbase hn
    · rw [Nat.toDigits_of_base_le hone (Nat.not_lt.mp hn), List.mem_append,
        List.mem_singleton] at hc
      cases hc with
      | inl hc => exact ih (n / base) (Nat.div_lt_self (by omega) hone) c hc
      | inr hc =>
        rw [hc]
        exact isDigit_digitChar hbase (Nat.mod_lt n (by omega))

theorem digitsValue_toDigits (n : Nat) : digitsValue base (Nat.toDigits base n) = n := by
  induction n using Nat.strongRecOn with
  | ind n ih =>
    by_cases hn : n < base
    · rw [Nat.toDigits_of_lt_base hn]
      simp [digitsValue, digitValue?_digitChar hbase hn]
    · rw [Nat.toDigits_of_base_le hone (Nat.not_lt.mp hn), digitsValue_append_singleton,
        ih (n / base) (Nat.div_lt_self (by omega) hone),
        digitValue?_digitChar hbase (Nat.mod_lt n (by omega)), Option.getD_some, Nat.div_add_mod]

end

/-- No zero stands in front of other digits. -/
theorem head?_toDigits (hone : 1 < base) (hbase : base ≤ 16) (n : Nat) (h : 0 < n) :
    (Nat.toDigits base n).head? ≠ some '0' := by
  induction n using Nat.strongRecOn with
  | ind n ih =>
    by_cases hn : n < base
    · rw [Nat.toDigits_of_lt_base hn]
      simp only [List.head?_cons, ne_eq, Option.some.injEq, Nat.digitChar_eq_zero]
      omega
    · have hle : base ≤ n := Nat.not_lt.mp hn
      have hpos : 0 < n / base := Nat.div_pos hle (by omega)
      rw [Nat.toDigits_of_base_le hone hle, List.head?_append, Option.or_of_isSome (by simp)]
      exact ih (n / base) (Nat.div_lt_self h hone) hpos

/-- What starts with no digit of a base, and may therefore follow a number. -/
def Stops (base : Nat) (rest : List Char) : Prop := ∀ c ∈ rest.head?, isDigit base c = false

theorem takeWhile_append_of_stops {digits rest : List Char}
    (hdigits : ∀ c ∈ digits, isDigit base c = true) (hrest : Stops base rest) :
    (digits ++ rest).takeWhile (isDigit base) = digits := by
  rw [List.takeWhile_append_of_pos hdigits]
  cases rest with
  | nil => simp
  | cons c rest =>
    have hc : isDigit base c = false := hrest c (by simp)
    simp [hc]

theorem dropWhile_append_of_stops {digits rest : List Char}
    (hdigits : ∀ c ∈ digits, isDigit base c = true) (hrest : Stops base rest) :
    (digits ++ rest).dropWhile (isDigit base) = rest := by
  rw [List.dropWhile_append_of_pos hdigits]
  cases rest with
  | nil => simp
  | cons c rest =>
    have hc : isDigit base c = false := hrest c (by simp)
    simp [hc]

theorem number?_toDigits {field : NumberField} (hone : 1 < field.base) (hbase : field.base ≤ 16)
    (hdigits : ∀ k ∈ field.maxDigits, (Nat.toDigits field.base n).length ≤ k) (hn : n < field.bound)
    {rest : List Char} (hrest : Stops field.base rest) :
    number? field (Nat.toDigits field.base n ++ rest) = some (n, rest) := by
  have hall := isDigit_of_mem_toDigits hone hbase n
  have hempty : (Nat.toDigits field.base n).isEmpty = false := by
    rw [List.isEmpty_eq_false_iff]
    exact Nat.toDigits_ne_nil
  have hshort : (field.maxDigits.any (· < (Nat.toDigits field.base n).length)) = false := by
    cases h : field.maxDigits with
    | none => rfl
    | some k => simpa using hdigits k (by simp [h])
  have hfront : ((Nat.toDigits field.base n).head? == some '0' &&
      decide (1 < (Nat.toDigits field.base n).length)) = false := by
    cases n with
    | zero => simp
    | succ n => simp [head?_toDigits hone hbase (n + 1) (by omega)]
  simp only [number?, takeWhile_append_of_stops hall hrest, dropWhile_append_of_stops hall hrest,
    digitsValue_toDigits hone hbase, hempty, hshort, Bool.and_assoc, hfront, Nat.not_le.mpr hn,
    Bool.and_false,
    Bool.false_eq_true, if_false]

theorem number?_eq_none {field : NumberField} {text : List Char} (h : Stops field.base text) :
    number? field text = none := by
  have hnone : ([] ++ text).takeWhile (isDigit field.base) = [] :=
    takeWhile_append_of_stops (by simp) h
  rw [List.nil_append] at hnone
  simp [number?, hnone]

theorem rest_of_number? {field : NumberField} {text rest : List Char}
    (h : number? field text = some (n, rest)) :
    rest = text.dropWhile (isDigit field.base) := by
  simp only [number?] at h
  grind

theorem exists_of_number? {field : NumberField} {text rest : List Char}
    (h : number? field text = some (n, rest)) :
    ∃ digits, text = digits ++ rest ∧ (∀ c ∈ digits, isDigit field.base c = true) ∧
      n < field.bound := by
  refine ⟨text.takeWhile (isDigit field.base), ?_,
    fun c hc => List.all_eq_true.mp List.all_takeWhile c hc, ?_⟩
  · rw [rest_of_number? h]
    exact List.takeWhile_append_dropWhile.symm
  · simp only [number?] at h
    grind

theorem unsigned?_decimal {bound : Nat} (h : n < bound) : unsigned? bound (decimal n) = some n := by
  have hall : ∀ c ∈ Nat.toDigits 10 n, isDigit 10 c = true :=
    isDigit_of_mem_toDigits (by decide) (by decide) n
  have hvalue : digitsValue 10 (decimal n) = n := digitsValue_toDigits (by decide) (by decide) n
  cases htext : decimal n with
  | nil => exact absurd htext Nat.toDigits_ne_nil
  | cons c rest =>
    rw [htext] at hvalue
    change Nat.toDigits 10 n = c :: rest at htext
    rw [htext] at hall
    have hdigits : (c :: rest).all (isDigit 10) = true := List.all_eq_true.mpr hall
    have hplain : c ≠ '+' := by
      rintro rfl
      exact absurd (hall '+' (by simp)) (by decide)
    rw [unsigned?]
    · simp only [List.isEmpty_cons, hdigits, hvalue, h, Bool.not_true, Bool.or_self,
        Bool.false_eq_true, if_false, if_true]
    · intro rest' hplus
      exact hplain (List.cons.inj hplus).1

theorem mem_of_unsigned? {bound : Nat} {text : List Char} (h : unsigned? bound text = some n) :
    ∀ c ∈ text, isDigit 10 c = true ∨ c = '+' := by
  have hspelled {digits : List Char}
      (hdigits : (if digits.isEmpty || !digits.all (isDigit 10) then none
        else if digitsValue 10 digits < bound then some (digitsValue 10 digits) else none) =
          some n) :
      ∀ c ∈ digits, isDigit 10 c = true := by
    split at hdigits
    · cases hdigits
    · rename_i hall
      simp only [Bool.or_eq_true, Bool.not_eq_true', not_or, Bool.not_eq_false,
        List.all_eq_true] at hall
      exact hall.2
  unfold unsigned? at h
  intro c hc
  split at h
  · rcases List.mem_cons.mp hc with rfl | hc
    · exact .inr rfl
    · exact .inl (hspelled h c hc)
  · exact .inl (hspelled h c hc)

end PacketTunnel.Text
