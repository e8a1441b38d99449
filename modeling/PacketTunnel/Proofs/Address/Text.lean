import PacketTunnel.Address.Endpoint
import PacketTunnel.Proofs.Address.LongText

/-!
# Addresses and endpoints are read back

Whatever its family, an address is what its text is read as, and so is an endpoint with its port and
its scope. So two endpoints with one text are one endpoint.
-/
namespace PacketTunnel

open Text

namespace Address

/-- A whole text is read back as the address, of the same family: one of version 4 has no colon. -/
theorem parse?_toChars (a : Address) : parse? a.toChars = some a := by
  cases a with
  | v4 bits => rw [parse?, toChars, IPv4.parse?_toChars]
  | v6 bits =>
    have hnone : IPv4.parse? bits.toChars = none := by
      cases h : IPv4.parse? bits.toChars with
      | none => rfl
      | some low =>
        have hcolon := IPv4.mem_of_parse? h ':' bits.colon_mem_toChars
        exact absurd hcolon (by decide)
    rw [parse?, toChars, hnone]
    simp only [IPv6.parse?_toChars, Option.map_some]

theorem toChars_ne_nil (a : Address) : a.toChars ≠ [] := by
  intro h
  have hparse := parse?_toChars a
  rw [h] at hparse
  exact absurd hparse (by simp [show parse? [] = none from rfl])

theorem isAddressChar_of_mem_toChars {a : Address} : ∀ c ∈ a.toChars, isAddressChar c = true := by
  cases a with
  | v4 bits => exact IPv4.isAddressChar_of_mem_toChars
  | v6 bits => exact IPv6.isAddressChar_of_mem_toChars

theorem length_toChars_le (a : Address) : a.toChars.length ≤ 40 := by
  cases a with
  | v4 bits => exact Nat.le_trans bits.length_toChars_le (by decide)
  | v6 bits => exact bits.length_toChars_le

end Address

namespace Endpoint

theorem number?_port (port : UInt16) :
    number? ⟨10, none, true, 65536⟩ (decimal port.toNat) = some (port.toNat, []) := by
  have hread : number? ⟨10, none, true, 65536⟩ (decimal port.toNat ++ []) = some (port.toNat, []) :=
    number?_toDigits (by decide) (by decide) (fun k hk => by cases hk) port.toNat_lt fun c hc => by
      cases hc
  rwa [List.append_nil] at hread

theorem port?_decimal (port : UInt16) : port? (':' :: decimal port.toNat) = some port := by
  rw [port?]
  simp only [skip?, if_true, Option.bind_some, number?_port, UInt16.ofNat_toNat]

theorem readScope_append (scope : UInt32) (rest : List Char) :
    readScope ((if scope = 0 then [] else '%' :: decimal scope.toNat) ++ ']' :: rest) =
      (scope, ']' :: rest) := by
  by_cases hscope : scope = 0
  · rw [if_pos hscope, hscope]
    rfl
  · have hread : number? ⟨10, none, true, UInt32.size⟩ (decimal scope.toNat ++ ']' :: rest) =
        some (scope.toNat, ']' :: rest) :=
      number?_toDigits (by decide) (by decide) (fun k hk => by cases hk) scope.toNat_lt
        fun c hc => by cases hc; decide
    rw [if_neg hscope, readScope, List.cons_append]
    simp only [skip?, if_true, Option.bind_some, hread, UInt32.ofNat_toNat]

theorem parse?_toChars (e : Endpoint) : parse? e.toChars = some e := by
  cases e with
  | v4 a port =>
    have hcolon : Stops 10 (':' :: decimal port.toNat) := fun c hc => by
      cases hc
      decide
    simp [parse?, toChars, IPv4.read?_toChars a hcolon, port?_decimal]
  | v6 a port scope =>
    have hends :
        EndsAddress ((if scope = 0 then [] else '%' :: decimal scope.toNat) ++ ']' :: ':' ::
          decimal port.toNat) := by
      intro c hc
      split at hc <;> cases hc <;> decide
    have hshort :
        IPv4.read? ('[' :: (a.toChars ++ ((if scope = 0 then [] else '%' :: decimal scope.toNat) ++
        ']' :: ':' :: decimal port.toNat))) = none := by
      have hnumber :
          number? IPv4.numberField
          ('[' :: (a.toChars ++ ((if scope = 0 then [] else '%' :: decimal scope.toNat) ++
          ']' :: ':' :: decimal port.toNat))) = none :=
        number?_eq_none fun c hc => by
          cases hc
          decide
      rw [IPv4.read?, hnumber]
      rfl
    simp only [parse?, toChars, List.cons_append, List.append_assoc, hshort, skip?, if_true,
      Option.bind_eq_bind, Option.bind_none, Option.bind_some, IPv6.read?_toChars a hends,
      readScope_append, port?_decimal]
    rfl

theorem toText_injective {e f : Endpoint} (h : e.toText = f.toText) : e = f := by
  have hparse := parse?_toChars e
  rw [String.ofList_injective h, parse?_toChars f] at hparse
  exact (Option.some.inj hparse).symm

end Endpoint

end PacketTunnel
