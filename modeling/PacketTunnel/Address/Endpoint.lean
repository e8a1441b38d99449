import PacketTunnel.Address.Text

/-!
# Transport endpoints

A peer is known by the address and port that its datagrams come from. Version 6 endpoints stand in
brackets and carry a scope, which is written only when it is not zero.
-/
namespace PacketTunnel

open Text

/-- Where datagrams come from and go to. -/
inductive Endpoint where
  | v4 (address : IPv4) (port : UInt16)
  | v6 (address : IPv6) (port : UInt16) (scope : UInt32)
deriving DecidableEq, Repr

namespace Endpoint

def address : Endpoint → Address
  | v4 a _ => .v4 a
  | v6 a _ _ => .v6 a

def port : Endpoint → UInt16
  | v4 _ p => p
  | v6 _ p _ => p

def isV4 (e : Endpoint) : Bool := e.address.isV4

def toChars : Endpoint → List Char
  | v4 a port => a.toChars ++ ':' :: decimal port.toNat
  | v6 a port scope =>
    '[' :: a.toChars ++ (if scope = 0 then [] else '%' :: decimal scope.toNat) ++
      ']' :: ':' :: decimal port.toNat

def port? (text : List Char) : Option UInt16 :=
  match (skip? ':' text).bind (number? ⟨10, none, true, 65536⟩) with
  | some (n, []) => some (UInt16.ofNat n)
  | _ => none

/-- An optional scope, and what follows. -/
def readScope (text : List Char) : UInt32 × List Char :=
  match (skip? '%' text).bind (number? ⟨10, none, true, UInt32.size⟩) with
  | some (n, rest) => (UInt32.ofNat n, rest)
  | none => (0, text)

def parse? (text : List Char) : Option Endpoint :=
  let short := do
    let (a, rest) ← IPv4.read? text
    some (v4 a (← port? rest))
  short <|> do
    let (a, rest) ← IPv6.read? (← skip? '[' text)
    let (scope, rest) := readScope rest
    some (v6 a (← port? (← skip? ']' rest)) scope)

def toText (e : Endpoint) : String := String.ofList e.toChars

end Endpoint

end PacketTunnel
