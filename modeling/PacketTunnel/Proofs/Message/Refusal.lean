import PacketTunnel.Proofs.Message.Grammar

/-!
# Why a body is refused

A body outside the grammar is refused with a fault, and what the fault says is so: fields are
missing that it counts, a flag, a family or a prefix length is unknown, a count is beyond what the
body can hold, or bytes are left over. Each reader is shown to say only what is so of any body that
it can be a part of.
-/
namespace PacketTunnel.Message

/-- What a fault says of a body of a kind and a size that it refuses. -/
def Refuses (k : MessageKind) (size : Nat) : DatagramFault → Prop
  | .emptyData => k = .data ∧ size = 0
  | .truncated needed left => left < needed ∧ left ≤ size
  | .loginFlags flags => k = .clientLogin ∧ 3 < flags.toNat
  | .routeCount count => k = .routeAdvertise ∧ size < 2 + 10 * count
  | .routeFamily family => k = .routeAdvertise ∧ family ≠ 4 ∧ family ≠ 6
  | .route (.v4 _) length => k = .routeAdvertise ∧ 32 < length
  | .route (.v6 _) length => k = .routeAdvertise ∧ 128 < length
  | .trailing count kind => k = kind ∧ 0 < count ∧ count ≤ size
  | _ => False

/-- Whenever the reader fails at what is left of a body, its fault refuses the body. -/
def Raises {α : Type} (k : MessageKind) (read : Bytes → Except DatagramFault α) : Prop :=
  ∀ left fault size, left.length ≤ size → read left = .error fault → Refuses k size fault

/-- Where a reading fails, its first reader does, or what follows it does with no more left. -/
theorem Raises.first {α β : Type} {k : MessageKind}
    {read : Bytes → Except DatagramFault (α × Bytes)} {form : Bytes → α → Prop} (h : Raises k read)
    (hform : Reads read form) {next : α × Bytes → Except DatagramFault β} {left : Bytes}
    {fault : DatagramFault} {size : Nat} (hleft : left.length ≤ size)
    (herror : (read left >>= next) = .error fault) :
    Refuses k size fault ∨
      ∃ a rest, read left = .ok (a, rest) ∧ rest.length ≤ size ∧ next (a, rest) = .error fault := by
  rcases Except.bind_eq_error_iff.mp herror with herror | ⟨⟨a, rest⟩, ha, herror⟩
  · exact .inl (h left fault size hleft herror)
  · exact .inr ⟨a, rest, ha, Nat.le_trans (hform.length_le ha) hleft, herror⟩

theorem raises_takeBytes (k : MessageKind) (count : Nat) : Raises k (takeBytes count) := by
  intro left fault size hleft h
  rw [takeBytes] at h
  split at h
  · rename_i hshort
    cases h
    exact ⟨hshort, hleft⟩
  · cases h

theorem raises_takeNat (k : MessageKind) (width : Nat) : Raises k (takeNat width) :=
  fun left fault size hleft h =>
    raises_takeBytes k width left fault size hleft (Except.eq_error_of_map h)

theorem raises_takeIPv4 (k : MessageKind) : Raises k takeIPv4 :=
  fun left fault size hleft h =>
    raises_takeBytes k 4 left fault size hleft (Except.eq_error_of_map h)

theorem raises_takeIPv6 (k : MessageKind) : Raises k takeIPv6 :=
  fun left fault size hleft h =>
    raises_takeBytes k 16 left fault size hleft (Except.eq_error_of_map h)

theorem raises_decodeEcho (k : MessageKind) : Raises k decodeEcho := by
  intro left fault size hleft h
  rw [decodeEcho] at h
  split at h
  · cases h
  rcases (raises_takeNat k 4).first (reads_takeNat 4) hleft h with h | ⟨id, rest, -, hrest, h⟩
  · exact h
  rcases (raises_takeNat k 8).first (reads_takeNat 8) hrest h with h | ⟨_, _, -, -, h⟩
  · exact h
  · cases h

theorem Raises.announced {k : MessageKind} {width : Nat}
    {read : Bytes → Except DatagramFault (BitVec width × Bytes)} (h : Raises k read)
    (announced : Prop) [Decidable announced] :
    Raises k fun body => if announced then (read body).map fun p => (some p.1, p.2)
      else .ok (none, body) := by
  intro left fault size hleft herror
  dsimp only at herror
  split at herror
  · exact h left fault size hleft (Except.eq_error_of_map herror)
  · cases herror

theorem raises_decodeLogin : Raises .clientLogin decodeLogin := by
  intro left fault size hleft h
  rw [decodeLogin] at h
  rcases (raises_takeNat _ 1).first (reads_takeNat 1) hleft h with h | ⟨n, rest, -, hrest, h⟩
  · exact h
  dsimp only at h
  split at h
  · rename_i hflags
    cases h
    exact ⟨rfl, Nat.lt_of_not_le fun hle => hflags ((flags_iff _).1.mpr hle)⟩
  rcases ((raises_takeIPv4 _).announced _).first (reads_announced reads_takeIPv4 _) hrest
    (choice_bind.symm.trans h) with h | ⟨ipv4, rest', -, hrest', h⟩
  · exact h
  rcases ((raises_takeIPv6 _).announced _).first (reads_announced reads_takeIPv6 _) hrest'
    (choice_bind.symm.trans h) with h | ⟨_, _, -, -, h⟩
  · exact h
  · cases h

private theorem raises_ends {k : MessageKind} {count width : Nat}
    {read : Bytes → Except DatagramFault (BitVec width × Bytes)} {address : BitVec width → Address}
    (h : Raises k read) (hform : Reads read fun front a => NumberForm count front a.toNat) :
    Raises k (fun body => do
      let (network, rest) ← read body
      let (gateway, rest) ← read rest
      .ok (address network, address gateway, rest)) := by
  intro left fault size hleft herror
  rcases h.first hform hleft herror with herror | ⟨network, rest, -, hrest, herror⟩
  · exact herror
  rcases h.first hform hrest herror with herror | ⟨_, _, -, -, herror⟩
  · exact herror
  · cases herror

theorem raises_takeRouteEnds (family : UInt8) : Raises .routeAdvertise (takeRouteEnds family) := by
  intro left fault size hleft h
  rw [takeRouteEnds] at h
  split at h
  · exact raises_ends (raises_takeIPv4 _) reads_takeIPv4 left fault size hleft h
  · rename_i hfour
    split at h
    · exact raises_ends (raises_takeIPv6 _) reads_takeIPv6 left fault size hleft h
    · rename_i hsix
      cases h
      exact ⟨rfl, hfour, hsix⟩

theorem refuses_of_make {family : UInt8} {left rest : Bytes} {network gateway : Address}
    {length size : Nat} {fault : RouteFault}
    (hends : takeRouteEnds family left = .ok (network, gateway, rest))
    (h : Route.make network length gateway = .error fault) :
    Refuses .routeAdvertise size (.route network length) := by
  rcases takeRouteEnds_eq_ok_iff.mp hends with ⟨-, a, g, rfl, rfl, -⟩ | ⟨-, a, g, rfl, rfl, -⟩
  · refine ⟨rfl, Nat.lt_of_not_le fun hle => ?_⟩
    simp [Route.make, Address.isV4, Network.make?, Subnet.make?, Nat.lt_succ_of_le hle] at h
  · refine ⟨rfl, Nat.lt_of_not_le fun hle => ?_⟩
    simp [Route.make, Address.isV4, Network.make?, Subnet.make?, Nat.lt_succ_of_le hle] at h

theorem raises_decodeRoute : Raises .routeAdvertise decodeRoute := by
  intro left fault size hleft h
  rw [decodeRoute] at h
  rcases (raises_takeNat _ 1).first (reads_takeNat 1) hleft h with h | ⟨family, rest, -, hrest, h⟩
  · exact h
  rcases (raises_takeNat _ 1).first (reads_takeNat 1) hrest h with h | ⟨length, rest', -, hrest', h⟩
  · exact h
  rcases Except.bind_eq_error_iff.mp h with h | ⟨⟨network, gateway, rest''⟩, hends, h⟩
  · exact raises_takeRouteEnds _ rest' fault size hrest' h
  dsimp only at h
  split at h
  · cases h
  · rename_i hmade
    cases h
    exact refuses_of_make hends hmade

theorem raises_decodeRoutes (count : Nat) : Raises .routeAdvertise (decodeRoutes count) := by
  induction count with
  | zero =>
    intro left fault size _ h
    cases h
  | succ count ih =>
    intro left fault size hleft h
    rw [decodeRoutes] at h
    rcases raises_decodeRoute.first reads_decodeRoute hleft h with h | ⟨r, rest, -, hrest, h⟩
    · exact h
    rcases ih.first (reads_decodeRoutes count) hrest h with h | ⟨_, _, -, -, h⟩
    · exact h
    · cases h

/-- The bound on the count is about the whole body, so an advertisement is not refused at a part of
one. -/
theorem refuses_of_decodeAdvertisement {body : Bytes} {fault : DatagramFault}
    (h : decodeAdvertisement body = .error fault) : Refuses .routeAdvertise body.length fault := by
  rw [decodeAdvertisement] at h
  rcases (raises_takeNat _ 2).first (reads_takeNat 2) (Nat.le_refl _) h with h | ⟨n, rest, hn, -, h⟩
  · exact h
  obtain ⟨count, hcount, hbody⟩ := (reads_takeNat 2 _ _ _).mp hn
  have hsize : body.length = 2 + rest.length := by rw [hbody, List.length_append, hcount.length_eq]
  dsimp only at h
  split at h
  · rename_i hover
    cases h
    rw [Nat.div_lt_iff_lt_mul (by decide), shortestRoute] at hover
    exact ⟨rfl, by omega⟩
  · exact raises_decodeRoutes n rest fault _ (by omega) h

private theorem refuses_of_finish {k : MessageKind} {m : Message} {rest : Bytes} {size : Nat}
    {fault : DatagramFault} (hrest : rest.length ≤ size) (h : finish k m rest = .error fault) :
    Refuses k size fault := by
  rw [finish] at h
  split at h
  · cases h
  · rename_i hleft
    cases h
    exact ⟨rfl, List.length_pos_iff.mpr fun hnil => hleft (List.isEmpty_iff.mpr hnil), hrest⟩

theorem length_le_of_decodeEcho {body rest : Bytes} {echo : Echo}
    (h : decodeEcho body = .ok (echo, rest)) :
    rest.length ≤ body.length := by
  rw [decodeEcho] at h
  split at h
  · cases h
    exact Nat.zero_le _
  · obtain ⟨⟨id, rest₁⟩, hid, h⟩ := Except.bind_eq_ok_iff.mp h
    obtain ⟨⟨timestamp, rest₂⟩, htimestamp, h⟩ := Except.bind_eq_ok_iff.mp h
    cases h
    exact Nat.le_trans ((reads_takeNat 8).length_le htimestamp) ((reads_takeNat 4).length_le hid)

theorem refuses_of_decodeBody {k : MessageKind} {body : Bytes} {fault : DatagramFault}
    (h : decodeBody k body = .error fault) : Refuses k body.length fault := by
  have hle := Nat.le_refl body.length
  cases k with
  | data =>
    rw [decodeBody] at h
    split at h
    · rename_i hempty
      cases h
      exact ⟨rfl, List.length_eq_zero_iff.mpr (List.isEmpty_iff.mp hempty)⟩
    · cases h
  | echoRequest =>
    rcases Except.bind_eq_error_iff.mp h with h | ⟨⟨echo, rest⟩, hecho, h⟩
    · exact raises_decodeEcho _ body fault _ hle h
    · exact refuses_of_finish (length_le_of_decodeEcho hecho) h
  | echoAck =>
    rcases Except.bind_eq_error_iff.mp h with h | ⟨⟨echo, rest⟩, hecho, h⟩
    · exact raises_decodeEcho _ body fault _ hle h
    · exact refuses_of_finish (length_le_of_decodeEcho hecho) h
  | clientLogin =>
    rcases raises_decodeLogin.first reads_decodeLogin hle h with h | ⟨v, rest, -, hrest, h⟩
    · exact h
    · exact refuses_of_finish hrest h
  | routeAdvertise =>
    rcases Except.bind_eq_error_iff.mp h with h | ⟨⟨routes, rest⟩, hroutes, h⟩
    · exact refuses_of_decodeAdvertisement h
    · exact refuses_of_finish (reads_decodeAdvertisement.length_le hroutes) h
  | disconnect => exact refuses_of_finish hle h

/-- The parser of bodies and the grammar agree: a body is read as the message that it says, and a
body that says none is refused, for a fault that says something of a body of that kind and size. -/
theorem decodeBody_exact (k : MessageKind) (body : Bytes) :
    (∀ m, decodeBody k body = .ok m ↔ BodyForm k body m) ∧
      ((∃ fault, decodeBody k body = .error fault ∧ Refuses k body.length fault) ↔
        ∀ m, ¬ BodyForm k body m) := by
  refine ⟨fun m => decodeBody_eq_ok_iff, ?_⟩
  constructor
  · rintro ⟨fault, hfault, -⟩ m hm
    rw [decodeBody_eq_ok_iff.mpr hm] at hfault
    cases hfault
  · intro hnone
    cases hread : decodeBody k body with
    | ok m => exact absurd (decodeBody_eq_ok_iff.mp hread) (hnone m)
    | error fault => exact ⟨fault, rfl, refuses_of_decodeBody hread⟩

/-- A version 4 network has no prefix of 40 bits. -/
example : decodeBody .routeAdvertise [0, 1, 4, 40, 10, 0, 0, 0, 10, 7, 0, 1] =
    .error (.route (.v4 0x0a000000) 40) := by
  rfl

end PacketTunnel.Message
