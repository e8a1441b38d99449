import PacketTunnel.Route.Basic

/-!
# Routes that were made

A route comes out of `Route.make` exactly when its gateway has the family of its network and no bit
is set after the prefix. Making it again from its own parts gives it back, which is why it survives
being sent.
-/
namespace PacketTunnel

namespace Subnet

variable {width : Nat}

theorem first_truncate (s : Subnet width) : s.truncate.first = s.first := by
  apply BitVec.eq_of_getLsbD_eq
  intro i hi
  simp only [first, truncate, hostBits, BitVec.getLsbD_shiftLeft, BitVec.getLsbD_ushiftRight]
  by_cases h : i < width - s.length.val
  · simp only [h, decide_true, Bool.not_true, Bool.and_false, Bool.false_and]
  · have hback : width - s.length.val + (i - (width - s.length.val)) = i := by omega
    simp only [h, hback, hi, decide_true, decide_false, Bool.not_false, Bool.true_and]

@[simp] theorem truncate_truncate (s : Subnet width) : s.truncate.truncate = s.truncate := by
  rw [truncate, first_truncate]
  rfl

theorem make?_self (s : Subnet width) : make? s.address s.length = some s := by
  rw [make?, dif_pos s.length.isLt]

end Subnet

namespace Network

@[simp] theorem truncate_truncate (n : Network) : n.truncate.truncate = n.truncate := by
  cases n <;> simp only [truncate, Subnet.truncate_truncate]

@[simp] theorem isV4_truncate (n : Network) : n.truncate.isV4 = n.isV4 := by cases n <;> rfl

@[simp] theorem isV4_address (n : Network) : n.address.isV4 = n.isV4 := by cases n <;> rfl

theorem make?_self (n : Network) : make? n.address n.length = some n := by
  cases n with
  | v4 s => exact congrArg (Option.map v4) s.make?_self
  | v6 s => exact congrArg (Option.map v6) s.make?_self

theorem isV4_of_make? {a : Address} {length : Nat} {n : Network} (h : make? a length = some n) :
    n.isV4 = a.isV4 := by
  cases a <;> obtain ⟨s, -, rfl⟩ := Option.map_eq_some_iff.mp h <;> rfl

theorem length_le (n : Network) : n.length ≤ 128 := by
  cases n with
  | v4 s =>
    have h : s.length.val < 33 := s.length.isLt
    simp only [length]
    omega
  | v6 s =>
    have h : s.length.val < 129 := s.length.isLt
    simp only [length]
    omega

end Network

namespace Route

/-- The route was built from some network, prefix length and gateway. -/
def Made (r : Route) : Prop := ∃ network length gateway, make network length gateway = .ok r

/-- A route of one family without bits after the prefix is made from its own parts. -/
theorem make_self {r : Route} (hfamily : r.isV4 = r.gateway.isV4)
    (hclear : r.network.truncate = r.network) :
    make r.network.address r.network.length r.gateway = .ok r := by
  have h : ¬ r.network.address.isV4 ≠ r.gateway.isV4 := by
    rw [Network.isV4_address, ne_eq, Decidable.not_not]
    exact hfamily
  rw [make, if_neg h, Network.make?_self]
  simp only [hclear]

theorem made_iff {r : Route} :
    r.Made ↔ r.isV4 = r.gateway.isV4 ∧ r.network.truncate = r.network := by
  constructor
  · rintro ⟨network, length, gateway, h⟩
    rw [make] at h
    split at h
    · cases h
    · rename_i hfamily
      split at h
      · cases h
      · rename_i n hn
        cases h
        refine ⟨?_, n.truncate_truncate⟩
        rw [isV4, Network.isV4_truncate, Network.isV4_of_make? hn]
        exact Decidable.not_not.mp hfamily
  · rintro ⟨hfamily, hclear⟩
    exact ⟨_, _, _, make_self hfamily hclear⟩

end Route

end PacketTunnel
