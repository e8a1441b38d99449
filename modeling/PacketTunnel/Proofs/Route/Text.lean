import PacketTunnel.Proofs.Address.Text
import PacketTunnel.Proofs.Route.Making

/-!
# Routes are read back

The text of a route that was made is short enough to be read, and is read as that route, also with
blanks around each of its parts as long as the whole stays within the limit. So the printed form of
whatever was read stands for the same route as the text that was read, and a status report can go
back into the settings.
-/
namespace PacketTunnel.Route

open Text

structure Margins where
  start : List Char
  afterNetwork : List Char
  beforeLength : List Char
  afterLength : List Char
  beforeGateway : List Char
  finish : List Char

structure Margins.Blank (m : Margins) : Prop where
  start : AllBlank m.start
  afterNetwork : AllBlank m.afterNetwork
  beforeLength : AllBlank m.beforeLength
  afterLength : AllBlank m.afterLength
  beforeGateway : AllBlank m.beforeGateway
  finish : AllBlank m.finish

def Margins.none : Margins := ⟨[], [], [], [], [], []⟩

theorem Margins.blank_none : Margins.none.Blank := by
  constructor <;> exact fun c hc => by cases hc

def spacedNetwork (r : Route) (m : Margins) : List Char :=
  r.network.address.toChars ++ m.afterNetwork ++ '/' ::
    (m.beforeLength ++ (decimal r.length ++ m.afterLength))

/-- The text of a route with blanks around its parts. -/
def spaced (r : Route) (m : Margins) : List Char :=
  m.start ++ (r.spacedNetwork m ++ '=' :: (m.beforeGateway ++ r.gateway.toChars) ++ m.finish)

theorem spaced_none (r : Route) : r.spaced .none = r.toChars := by
  simp [spaced, spacedNetwork, Margins.none, toChars, Network.toChars, length]

theorem ne_of_isBlank {c : Char} (h : isBlank c = true) : c ≠ '/' ∧ c ≠ '=' := by
  constructor <;> rintro rfl <;> cases h

theorem ne_of_isAddressChar {c : Char} (h : isAddressChar c = true) : c ≠ '/' ∧ c ≠ '=' := by
  constructor <;> rintro rfl <;> exact absurd h (by decide)

theorem isAddressChar_of_mem_decimal {n : Nat} : ∀ c ∈ decimal n, isAddressChar c = true :=
  fun c hc =>
    isAddressChar_of_isDigit (by decide) (isDigit_of_mem_toDigits (by decide) (by decide) n c hc)

theorem slash_notMem {m : Margins} (hm : m.Blank) (a : Address) :
    '/' ∉ a.toChars ++ m.afterNetwork := by
  intro hc
  rcases List.mem_append.mp hc with hc | hc
  · exact (ne_of_isAddressChar (Address.isAddressChar_of_mem_toChars _ hc)).1 rfl
  · exact (ne_of_isBlank (hm.afterNetwork _ hc)).1 rfl

theorem equals_notMem {m : Margins} (hm : m.Blank) (r : Route) : '=' ∉ r.spacedNetwork m := by
  intro hc
  simp only [spacedNetwork, List.mem_append, List.mem_cons] at hc
  rcases hc with (hc | hc) | hc | hc | hc | hc
  · exact (ne_of_isAddressChar (Address.isAddressChar_of_mem_toChars _ hc)).2 rfl
  · exact (ne_of_isBlank (hm.afterNetwork _ hc)).2 rfl
  · exact absurd hc (by decide)
  · exact (ne_of_isBlank (hm.beforeLength _ hc)).2 rfl
  · exact (ne_of_isAddressChar (isAddressChar_of_mem_decimal _ hc)).2 rfl
  · exact (ne_of_isBlank (hm.afterLength _ hc)).2 rfl

theorem trimmed_address (a : Address) : Trimmed a.toChars :=
  .of_forall fun c hc => isBlank_of_isAddressChar (Address.isAddressChar_of_mem_toChars c hc)

theorem trimmed_decimal (n : Nat) : Trimmed (decimal n) :=
  .of_forall fun c hc => isBlank_of_isAddressChar (isAddressChar_of_mem_decimal c hc)

/-- A route's text starts and ends with an address, whatever blanks stand between. -/
theorem trimmed_inside (r : Route) (m : Margins) :
    Trimmed (r.spacedNetwork m ++ '=' :: (m.beforeGateway ++ r.gateway.toChars)) where
  first c hc := by
    have hnetwork : (r.network.address.toChars.head?).isSome = true := by
      cases h : r.network.address.toChars with
      | nil => exact absurd h (Address.toChars_ne_nil _)
      | cons d rest => rfl
    simp only [spacedNetwork, List.append_assoc, List.head?_append,
      Option.or_of_isSome hnetwork] at hc
    exact (trimmed_address _).first c hc
  last c hc := by
    have hgateway : (r.gateway.toChars.getLast?).isSome = true := by
      rw [List.getLast?_isSome]
      exact Address.toChars_ne_nil _
    have hcons : '=' :: (m.beforeGateway ++ r.gateway.toChars) = ('=' :: m.beforeGateway) ++
        r.gateway.toChars := rfl
    rw [hcons, List.getLast?_append, List.getLast?_append, Option.or_of_isSome hgateway,
      Option.or_of_isSome hgateway] at hc
    exact (trimmed_address _).last c hc

theorem parts?_spaced (r : Route) {m : Margins} (hm : m.Blank) :
    parts? (r.spaced m) = some (r.network.address, r.length, r.gateway) := by
  have hnil : AllBlank [] := fun c hc => by cases hc
  have houter : trim (r.spaced m) = r.spacedNetwork m ++ '=' ::
      (m.beforeGateway ++ r.gateway.toChars) :=
    trim_append hm.start hm.finish (trimmed_inside r m)
  have hnetwork : trim (r.network.address.toChars ++ m.afterNetwork) = r.network.address.toChars :=
    trim_append hnil hm.afterNetwork (trimmed_address _)
  have hlength : trim (m.beforeLength ++ (decimal r.length ++ m.afterLength)) = decimal r.length :=
    trim_append hm.beforeLength hm.afterLength (trimmed_decimal _)
  have hgateway : trim (m.beforeGateway ++ r.gateway.toChars) = r.gateway.toChars := by
    have htrim := trim_append hm.beforeGateway hnil (trimmed_address r.gateway)
    rwa [List.append_nil] at htrim
  have hbound : r.length < 256 := Nat.lt_of_le_of_lt r.network.length_le (by decide)
  rw [parts?, houter, splitFirst?_append (equals_notMem hm r)]
  simp only [Option.bind_eq_bind, Option.bind_some, spacedNetwork,
    splitFirst?_append (slash_notMem hm _), hnetwork, hlength, hgateway, Address.parse?_toChars,
    unsigned?_decimal hbound]

theorem parse_spaced {r : Route} (hr : r.Made) {m : Margins} (hm : m.Blank)
    (hlength : byteLength (r.spaced m) ≤ maxExpression) :
    parse (String.ofList (r.spaced m)) = .ok r := by
  obtain ⟨hfamily, hclear⟩ := made_iff.mp hr
  rw [parse, String.toList_ofList, if_neg (Nat.not_lt.mpr hlength), parts?_spaced r hm]
  exact make_self hfamily hclear

/-- The longest texts are those of version 6, of eighty-five characters at most. -/
theorem byteLength_toChars_le (r : Route) : byteLength r.toChars ≤ 85 := by
  have hsize : ∀ c ∈ r.toChars, c.utf8Size = 1 := by
    intro c hc
    simp only [toChars, Network.toChars, List.mem_append, List.mem_cons] at hc
    rcases hc with (hc | rfl | hc) | rfl | hc
    · exact utf8Size_of_isAddressChar (Address.isAddressChar_of_mem_toChars c hc)
    · decide
    · exact utf8Size_of_isAddressChar (isAddressChar_of_mem_decimal c hc)
    · decide
    · exact utf8Size_of_isAddressChar (Address.isAddressChar_of_mem_toChars c hc)
  have hnetwork := r.network.address.length_toChars_le
  have hlength : (decimal r.network.length).length ≤ 3 :=
    IPv4.length_decimal_le (Nat.lt_of_le_of_lt r.network.length_le (by decide))
  have hgateway := r.gateway.length_toChars_le
  rw [byteLength_eq_length hsize]
  simp only [toChars, Network.toChars, List.length_append, List.length_cons]
  omega

theorem parse_toText {r : Route} (hr : r.Made) : parse r.toText = .ok r := by
  have hlimit : byteLength (r.spaced .none) ≤ maxExpression := by
    rw [spaced_none]
    exact Nat.le_trans r.byteLength_toChars_le (by decide)
  have hparse := parse_spaced hr Margins.blank_none hlimit
  rwa [spaced_none] at hparse

theorem made_of_parse {text : String} {r : Route} (h : parse text = .ok r) : r.Made := by
  rw [parse] at h
  split at h
  · cases h
  · split at h
    · cases h
    · exact ⟨_, _, _, h⟩

/-- Every route that can be made prints within the limit and is read back, with any blanks around
its parts that keep within the limit too; and the printed form of a route that was read is read as
that route again. -/
theorem text_round_trip :
    (∀ network length gateway r, make network length gateway = .ok r →
      byteLength r.toText.toList ≤ maxExpression ∧ parse r.toText = .ok r ∧
      ∀ m : Margins, m.Blank → byteLength (r.spaced m) ≤ maxExpression →
        parse (String.ofList (r.spaced m)) = .ok r) ∧
    (∀ text r, parse text = .ok r → parse r.toText = .ok r) := by
  refine ⟨fun network length gateway r hmake => ?_,
    fun text r hparse => parse_toText (made_of_parse hparse)⟩
  have hr : r.Made := ⟨network, length, gateway, hmake⟩
  refine ⟨?_, parse_toText hr, fun m hm hlength => parse_spaced hr hm hlength⟩
  rw [toText, String.toList_ofList]
  exact Nat.le_trans r.byteLength_toChars_le (by decide)

/-- The network fd00::/20 through a gateway whose text ends in a version 4 address. -/
def mappedGateway : Route where
  network := .v6 ⟨0xfd000000000000000000000000000000, ⟨20, by decide⟩⟩
  gateway := .v6 0xffff0a070001

/-- Tabs, a narrow no-break space and an ideographic space. -/
def wideMargins : Margins where
  start := ['\t']
  afterNetwork := [' ', '\u202f']
  beforeLength := ['\u3000']
  afterLength := []
  beforeGateway := ['\t', '\t']
  finish := ['\n']

theorem text_round_trip_wide :
    make (.v6 0xfd000123000000000000000000000000) 20 (.v6 0xffff0a070001) = .ok mappedGateway ∧
      wideMargins.Blank ∧ byteLength (mappedGateway.spaced wideMargins) ≤ maxExpression ∧
      mappedGateway.toText = "fd00::/20=::ffff:10.7.0.1" ∧
      parse (String.ofList (mappedGateway.spaced wideMargins)) = .ok mappedGateway ∧
      parse " FD00:123:0:0::/+020=0::ffff:a07:1" = .ok mappedGateway ∧
      parse mappedGateway.toText = .ok mappedGateway := by
  have hmake : make (.v6 0xfd000123000000000000000000000000) 20 (.v6 0xffff0a070001) =
      .ok mappedGateway := rfl
  have hblank : wideMargins.Blank := by constructor <;> decide
  have hlength : byteLength (mappedGateway.spaced wideMargins) ≤ maxExpression := by decide +kernel
  have hparse : parse " FD00:123:0:0::/+020=0::ffff:a07:1" = .ok mappedGateway := by rfl
  exact ⟨hmake, hblank, hlength, by decide +kernel,
    (text_round_trip.1 _ _ _ _ hmake).2.2 _ hblank hlength, hparse, text_round_trip.2 _ _ hparse⟩

end PacketTunnel.Route
