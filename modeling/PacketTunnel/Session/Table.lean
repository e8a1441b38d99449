import PacketTunnel.Directory
import PacketTunnel.Session.Basic

/-!
# Session tables

A server keeps its sessions by the endpoint of the peer, and an index from virtual addresses to
endpoints. An address belongs to the session that claimed it last; giving a session other addresses,
or removing it, frees only those that still belong to it.
-/
namespace PacketTunnel

/-- Sessions by endpoint, with an index by virtual address. -/
structure SessionTable where
  sessions : Directory Endpoint Session
  owners : Directory Address Endpoint

namespace SessionTable

def empty : SessionTable := ⟨.empty, .empty⟩

def find? (t : SessionTable) (e : Endpoint) : Option Session := t.sessions.find? e

def contains (t : SessionTable) (e : Endpoint) : Bool := t.sessions.contains e

def size (t : SessionTable) : Nat := t.sessions.size

/-- Change the session of an endpoint, if it has one, in a way that leaves its addresses. -/
def modify (t : SessionTable) (e : Endpoint) (f : Session → Session) : SessionTable :=
  { t with sessions := t.sessions.modify e f }

def ensure (t : SessionTable) (e : Endpoint) (now : Time) : SessionTable :=
  if t.contains e then t else { t with sessions := t.sessions.insert e (.start e now) }

def endpointFor? (t : SessionTable) (a : Address) : Option Endpoint := t.owners.find? a

/-- Whether another endpoint's session holds an address. -/
def isTaken (t : SessionTable) (a : Address) (except : Endpoint) : Bool :=
  (t.endpointFor? a).any (· ≠ except)

/-- Take an address out of the index if it belongs to the given endpoint. -/
def release (e : Endpoint) (owners : Directory Address Endpoint) (a : Address) :
    Directory Address Endpoint :=
  if owners.find? a = some e then owners.erase a else owners

def claim (e : Endpoint) (owners : Directory Address Endpoint) (a : Address) :
    Directory Address Endpoint :=
  owners.insert a e

/-- Give the session of an endpoint, if it has one, other addresses. -/
def setAddresses (t : SessionTable) (e : Endpoint) (addresses : VirtualAddresses) : SessionTable :=
  match t.find? e with
  | none => t
  | some s =>
    { sessions := t.sessions.modify e fun s => { s with addresses := addresses }
      owners := addresses.toList.foldl (claim e) (s.addresses.toList.foldl (release e) t.owners) }

def remove (t : SessionTable) (e : Endpoint) : SessionTable :=
  match t.find? e with
  | none => t
  | some s =>
    { sessions := t.sessions.erase e
      owners := s.addresses.toList.foldl (release e) t.owners }

/-- The endpoints of the sessions that have been silent for longer than the threshold. -/
def stale (t : SessionTable) (now : Time) (threshold : Duration) : List Endpoint :=
  (t.sessions.values.filter fun s => s.isExpired now threshold).map Session.endpoint

def expire (t : SessionTable) (now : Time) (threshold : Duration) : SessionTable :=
  (t.stale now threshold).foldl remove t

/-- The sessions in the order of their endpoints' text. -/
def inOrder (t : SessionTable) : List Session :=
  t.sessions.values.mergeSort fun x y => decide (x.endpoint.toText ≤ y.endpoint.toText)

def endpoints (t : SessionTable) : List Endpoint := t.inOrder.map Session.endpoint

def snapshots (t : SessionTable) (now : Time) : List SessionSnapshot :=
  t.inOrder.map fun s => s.snapshot now

end SessionTable

end PacketTunnel
