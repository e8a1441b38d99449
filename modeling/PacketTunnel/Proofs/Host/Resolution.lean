import PacketTunnel.Host.Resolution
import PacketTunnel.Proofs.Text.Blank
import PacketTunnel.Proofs.Text.Numeral

/-!
# Names that need no look-up

An endpoint may be named without the help of a name service: in text of its own, or by the address
of its host and a port. Whatever the service, if only it takes addresses for what they are, such a
name leads to that endpoint, and one of which this can be told without a look-up leads to no other.
-/
namespace PacketTunnel.NameService

open Text

/-- A service that knows an address in text for what it is. -/
def Faithful (service : NameService) : Prop :=
  ∀ host a, HostAddress.parse? host.toList = some a → service host = .ok [a]

theorem faithful_literal : literal.Faithful := by
  intro host a ha
  rw [literal, ha]

/-- A name is that of an endpoint without any look-up: an endpoint in text, or else the address of a
host, a colon and a port. -/
inductive Names (name : String) (e : Endpoint) : Prop where
  | endpoint (h : Endpoint.parse? name.toList = some e)
  | host (h : Endpoint.parse? name.toList = none) (host port : List Char) (a : HostAddress)
      (number : Nat) (split : name.toList = host ++ ':' :: port)
      (address : HostAddress.parse? host = some a)
      (noZero : holdsZero host = false) (value : unsigned? 65536 port = some number)
      (eq : e = a.endpoint (UInt16.ofNat number))

/-- Whether a name is an endpoint can be told without a look-up: where a host would be looked up, it
is an address. -/
def Literal (name : String) : Prop :=
  Endpoint.parse? name.toList = none → ∀ host port, name.toList = host ++ ':' :: port →
    (unsigned? 65536 port).isSome = true → holdsZero host = false →
    ∃ a, HostAddress.parse? host = some a

theorem splitLast?_of_port {text host port : List Char} (htext : text = host ++ ':' :: port)
    {n : Nat} (hport : unsigned? 65536 port = some n) :
    splitLast? ':' text = some (host, port) := by
  refine splitLast?_eq_some_iff.mpr ⟨htext, fun hcolon => ?_⟩
  rcases mem_of_unsigned? hport _ hcolon with h | h <;> exact absurd h (by decide)

theorem literal_of_splitLast? {name : String} {host port : List Char} {a : HostAddress}
    (hsplit : splitLast? ':' name.toList = some (host, port))
    (ha : HostAddress.parse? host = some a) : Literal name := by
  intro _ host' port' htext hport _
  obtain ⟨n, hn⟩ := Option.isSome_iff_exists.mp hport
  cases hsplit.symm.trans (splitLast?_of_port htext hn)
  exact ⟨a, ha⟩

theorem candidates_of_names {service : NameService} (hservice : service.Faithful) {name : String}
    {e : Endpoint} (h : Names name e) : service.candidates name = .ok [e] := by
  cases h with
  | endpoint h => rw [candidates, h]
  | host h host port a number split address noZero value eq =>
    have hservice := hservice (String.ofList host) a (by rwa [String.toList_ofList])
    simp only [candidates, h, splitLast?_of_port split value, value, noZero, hservice, eq,
      Bool.false_eq_true, if_false]
    rfl

theorem resolve_of_names {service : NameService} (hservice : service.Faithful) {name : String}
    {e : Endpoint} (h : Names name e) : service.resolve name none = .ok e := by
  rw [resolve, candidates_of_names hservice h]
  rfl

/-- A name that needs no look-up leads to the endpoint that it is the name of, and to no other. -/
theorem resolve_eq_ok_iff {service : NameService} (hservice : service.Faithful) {name : String}
    (hname : Literal name) {e : Endpoint} : service.resolve name none = .ok e ↔ Names name e := by
  refine ⟨fun h => ?_, resolve_of_names hservice⟩
  have hnamed : ∃ e', Names name e' := by
    cases hparse : Endpoint.parse? name.toList with
    | some e' => exact ⟨e', .endpoint hparse⟩
    | none =>
      simp only [resolve, candidates, hparse] at h
      cases hsplit : splitLast? ':' name.toList with
      | none =>
        rw [hsplit] at h
        cases h
      | some parts =>
        obtain ⟨host, port⟩ := parts
        have htext := (splitLast?_eq_some_iff.mp hsplit).1
        simp only [hsplit] at h
        cases hport : unsigned? 65536 port with
        | none =>
          rw [hport] at h
          cases h
        | some number =>
          simp only [hport] at h
          cases hzero : holdsZero host with
          | true =>
            rw [hzero] at h
            cases h
          | false =>
            obtain ⟨a, ha⟩ := hname hparse host port htext (by rw [hport]; rfl) hzero
            exact ⟨_, .host hparse host port a number htext ha hzero hport rfl⟩
  obtain ⟨e', he'⟩ := hnamed
  cases (resolve_of_names hservice he').symm.trans h
  exact he'

end PacketTunnel.NameService
