import Mathlib.Data.List.Nodup
import PacketTunnel.Proofs.Address.Subnet
import PacketTunnel.Proofs.Route.LongestPrefix

/-!
# Tables and the history of their requests

What a table holds, and which route it finds, is said here of the routes that were ever accepted,
first to last: the table has each of them once, in the order of the last insertions, and serves a
destination by the covering one with the longest prefix, the one inserted last of several. Covering
is agreement of the first bits in one family.
-/
namespace PacketTunnel

/-- A network covers the addresses of its family that have its first bits. -/
def Network.Covers : Network → Address → Prop
  | .v4 s, .v4 a => ∀ i < s.length.val, a.getMsbD i = s.address.getMsbD i
  | .v6 s, .v6 a => ∀ i < s.length.val, a.getMsbD i = s.address.getMsbD i
  | _, _ => False

def Route.Covers (r : Route) (a : Address) : Prop := r.network.Covers a

theorem Route.contains_iff_covers {r : Route} {a : Address} : r.contains a = true ↔ r.Covers a := by
  obtain ⟨network, gateway⟩ := r
  cases network with
  | v4 s =>
    cases a with
    | v4 a => exact Subnet.contains_iff_getMsbD
    | v6 a => exact ⟨nofun, nofun⟩
  | v6 s =>
    cases a with
    | v4 a => exact ⟨nofun, nofun⟩
    | v6 a => exact Subnet.contains_iff_getMsbD

namespace RouteTable

/-- What is asked of a table: to build a route from its parts and insert it, or to insert a route as
it is. -/
inductive Request where
  | add (network : Address) (length : Nat) (gateway : Address)
  | insert (r : Route)

def Request.route? : Request → Option Route
  | .add network length gateway => (Route.make network length gateway).toOption
  | .insert r => some r

def serve (t : RouteTable) : Request → RouteTable
  | .add network length gateway => (t.add network length gateway).toOption.getD t
  | .insert r => (t.insertNew r).1

def ofRequests (requests : List Request) : RouteTable := requests.foldl serve empty

def accepted (requests : List Request) : List Route := requests.filterMap Request.route?

/-- How many routes were inserted after the last insertion of a route. -/
def age (history : List Route) (r : Route) : Nat := history.reverse.idxOf r

/-- The table has each route of a history once, in the order of the last insertions. -/
structure Records (history : List Route) (t : RouteTable) : Prop where
  nodup : t.routes.Nodup
  mem_iff : ∀ {r}, r ∈ t.routes ↔ r ∈ history
  ordered : t.routes.Pairwise fun r q => age history q < age history r

/-- Of the routes of a history that cover a destination the route has the longest prefix, and was
inserted last of those with a prefix of this length. -/
structure Preferred (history : List Route) (destination : Address) (r : Route) : Prop where
  mem : r ∈ history
  covers : r.Covers destination
  best : ∀ q ∈ history, q.Covers destination →
    q.length < r.length ∨ q.length = r.length ∧ age history r ≤ age history q

variable {t : RouteTable} {history : List Route} {destination : Address} {r : Route}

theorem insertNew_eq (t : RouteTable) (r : Route) :
    t.insertNew r = (t.insert r, !t.contains r) := by
  rw [insertNew, insert, contains, List.erase_eq_eraseIdx]
  cases h : t.routes.idxOf? r with
  | none =>
    have habsent : r ∉ t.routes := List.idxOf?_eq_none_iff.mp h
    simp [habsent]
  | some i =>
    have hpresent : r ∈ t.routes := List.isSome_idxOf?.mp (by rw [h]; rfl)
    simp [hpresent]

theorem serve_eq (t : RouteTable) (request : Request) :
    t.serve request = (request.route?.map t.insert).getD t := by
  cases request with
  | add network length gateway =>
    rw [serve, add, Request.route?]
    cases Route.make network length gateway <;> rfl
  | insert r =>
    rw [serve, insertNew_eq]
    rfl

theorem age_concat (history : List Route) (r q : Route) :
    age (history ++ [r]) q = if r = q then 0 else age history q + 1 := by
  rw [age, List.reverse_append, List.reverse_singleton, List.singleton_append, List.idxOf_cons, age]
  by_cases h : r = q
  · rw [if_pos h, beq_iff_eq.mpr h, cond_true]
  · rw [if_neg h, beq_eq_false_iff_ne.mpr h, cond_false]

theorem eq_of_age_eq {q : Route} (hr : r ∈ history) (h : age history r = age history q) : r = q :=
  (List.idxOf_inj (List.mem_reverse.mpr hr)).mp h

theorem records_empty : Records [] empty := ⟨List.nodup_nil, Iff.rfl, List.Pairwise.nil⟩

theorem Records.insert (h : Records history t) (r : Route) :
    Records (history ++ [r]) (t.insert r) := by
  have hrest : ∀ {q}, q ∈ t.routes.erase r ↔ q ≠ r ∧ q ∈ t.routes := h.nodup.mem_erase_iff
  refine ⟨?_, fun {q} => ?_, ?_⟩
  · rw [RouteTable.insert, List.nodup_append]
    refine ⟨h.nodup.erase r, List.nodup_singleton r, fun q hq q' hq' => ?_⟩
    rw [List.mem_singleton.mp hq']
    exact (hrest.mp hq).1
  · rw [RouteTable.insert, List.mem_append, List.mem_append, List.mem_singleton, hrest, h.mem_iff]
    by_cases hq : q = r <;> simp [hq]
  · rw [RouteTable.insert, List.pairwise_append]
    refine ⟨?_, List.pairwise_singleton _ _, fun q hq q' hq' => ?_⟩
    · refine (h.ordered.sublist List.erase_sublist).imp_of_mem fun hq hq' hage => ?_
      rw [age_concat, age_concat, if_neg (hrest.mp hq).1.symm, if_neg (hrest.mp hq').1.symm]
      exact Nat.succ_lt_succ hage
    · rw [List.mem_singleton.mp hq', age_concat, age_concat, if_pos rfl,
        if_neg (hrest.mp hq).1.symm]
      exact Nat.succ_pos _

theorem Records.serve (h : Records history t) (requests : List Request) :
    Records (history ++ accepted requests) (requests.foldl RouteTable.serve t) := by
  induction requests generalizing t history with
  | nil => simpa [accepted] using h
  | cons request later ih =>
    rw [List.foldl_cons, serve_eq, accepted, List.filterMap_cons]
    cases request.route? with
    | none => exact ih h
    | some r =>
      have hlater := ih (h.insert r)
      rw [List.append_assoc] at hlater
      exact hlater

theorem records_ofRequests (requests : List Request) :
    Records (accepted requests) (ofRequests requests) :=
  records_empty.serve requests

theorem Preferred.unique {r' : Route} (h : Preferred history destination r)
    (h' : Preferred history destination r') : r = r' := by
  have hle := h.best r' h'.mem h'.covers
  have hge := h'.best r h.mem h.covers
  exact eq_of_age_eq h.mem (by omega)

theorem Records.preferred (h : Records history t) (hr : t.lookup? destination = some r) :
    Preferred history destination r := by
  obtain ⟨earlier, later, hroutes, hcover, hearlier, hlater⟩ := lookup?_eq_iff.mp hr
  have hordered := h.ordered
  have hmem : r ∈ t.routes := by
    rw [hroutes]
    exact List.mem_append_right _ List.mem_cons_self
  rw [hroutes, List.pairwise_append] at hordered
  refine ⟨h.mem_iff.mp hmem, Route.contains_iff_covers.mp hcover, fun q hq hcovers => ?_⟩
  have hcontains := Route.contains_iff_covers.mpr hcovers
  rw [← h.mem_iff, hroutes] at hq
  -- What stands before is no longer and older, what stands behind is shorter.
  rcases List.mem_append.mp hq with hq | hq
  · have hlength := hearlier q hq hcontains
    have hage := hordered.2.2 q hq r List.mem_cons_self
    omega
  · rcases List.mem_cons.mp hq with rfl | hq
    · exact .inr ⟨rfl, Nat.le_refl _⟩
    · exact .inl (hlater q hq hcontains)

theorem Records.lookup?_eq_none_iff (h : Records history t) :
    t.lookup? destination = none ↔ ∀ r ∈ history, ¬ r.Covers destination := by
  rw [lookup?_eq_iff, Best]
  simp only [h.mem_iff, ← Route.contains_iff_covers, Bool.not_eq_true]

theorem Records.lookup?_eq_some_iff (h : Records history t) :
    t.lookup? destination = some r ↔ Preferred history destination r := by
  refine ⟨h.preferred, fun hr => ?_⟩
  cases hfound : t.lookup? destination with
  | none => exact absurd hr.covers (h.lookup?_eq_none_iff.mp hfound r hr.mem)
  | some q => rw [(h.preferred hfound).unique hr]

/-- After any requests to an empty table: it has each accepted route once, ordered by last
insertions; an insertion tells whether the route was absent, and a request whose route cannot be
built changes nothing; a destination has a gateway exactly if an accepted route covers it, and then
that of the preferred one. -/
theorem history_exact (requests : List Request) :
    Records (accepted requests) (ofRequests requests) ∧
      (∀ r, ((ofRequests requests).insertNew r).2 = true ↔ r ∉ (ofRequests requests).routes) ∧
      (∀ request, request.route? = none →
        (ofRequests requests).serve request = ofRequests requests) ∧
      ∀ destination,
        ((ofRequests requests).gateway? destination = none ↔
          ∀ r ∈ accepted requests, ¬ r.Covers destination) ∧
        ∀ gateway, (ofRequests requests).gateway? destination = some gateway ↔
          ∃ r, Preferred (accepted requests) destination r ∧ r.gateway = gateway := by
  have h := records_ofRequests requests
  generalize ofRequests requests = t at h ⊢
  refine ⟨h, fun r => ?_, fun request hrefused => ?_, fun destination => ⟨?_, fun gateway => ?_⟩⟩
  · rw [insertNew_eq]
    simp [contains]
  · rw [serve_eq, hrefused]
    rfl
  · rw [gateway?, Option.map_eq_none_iff, h.lookup?_eq_none_iff]
  · rw [gateway?, Option.map_eq_some_iff]
    simp only [h.lookup?_eq_some_iff]

end RouteTable

end PacketTunnel
