import PacketTunnel.Route.Basic

/-!
# Route tables

A table holds distinct routes in the order in which they were last inserted. A destination is served
by the covering route with the longest prefix; among several of one length the most recent wins.
-/
namespace PacketTunnel

/-- Routes in order of their last insertion. -/
structure RouteTable where
  routes : List Route
deriving DecidableEq, Repr

namespace RouteTable

def empty : RouteTable := ⟨[]⟩

/-- Insert a route as the most recent one; a route that was there moves. -/
def insert (t : RouteTable) (r : Route) : RouteTable := ⟨t.routes.erase r ++ [r]⟩

def contains (t : RouteTable) (r : Route) : Bool := t.routes.contains r

/-- Insert a route, and tell whether it is new. -/
def insertNew (t : RouteTable) (r : Route) : RouteTable × Bool :=
  match t.routes.idxOf? r with
  | some i => (⟨t.routes.eraseIdx i ++ [r]⟩, false)
  | none => (⟨t.routes ++ [r]⟩, true)

def add (t : RouteTable) (network : Address) (length : Nat) (gateway : Address) :
    Except RouteFault RouteTable :=
  (Route.make network length gateway).map t.insert

def insertAll (t : RouteTable) (rs : List Route) : RouteTable := rs.foldl insert t

def ofList (rs : List Route) : RouteTable := empty.insertAll rs

/-- The better of a best route so far and a later candidate for a destination. -/
def better (destination : Address) (best : Option Route) (r : Route) : Option Route :=
  if r.contains destination then
    match best with
    | some b => if b.length ≤ r.length then some r else some b
    | none => some r
  else best

/-- The covering route with the longest prefix, the most recent of several. -/
def lookup? (t : RouteTable) (destination : Address) : Option Route :=
  t.routes.foldl (better destination) none

def gateway? (t : RouteTable) (destination : Address) : Option Address :=
  (t.lookup? destination).map Route.gateway

end RouteTable

end PacketTunnel
