import PacketTunnel.Proofs.Server.Hearing

/-!
# The routes that a peer owns

A login tells a session which routes have its addresses for a gateway, and nothing later takes this
from it. A session that began with a packet is not told until its peer logs in: it owns no route,
whichever of them lead to it.
-/
namespace PacketTunnel.Server

open SessionTable

/-- After any run of a server, a session owns exactly the routes whose gateway is one of its
addresses, in the order of the table, if and only if its peer has logged in since the session began,
or there is no such route. It owns none if its peer has not logged in. -/
theorem owned_routes_exact_iff (codec : Codec) (routes : RouteTable) (options : ServerOptions)
    (origin : Time) (moments : List Engine.Moment) {e : Endpoint} {x : Session}
    (hx : (engine.run (start codec routes options origin) moments).1.sessions.find? e = some x) :
    let log := (start codec routes options origin).logFrom (fun _ => []) moments e
    (x.ownedRoutes = routes.routes.filter (fun r => x.addresses.contains r.gateway) ↔
      (∃ h ∈ log, h.message.kind = .clientLogin) ∨
        ∀ r ∈ routes.routes, x.addresses.contains r.gateway = false) ∧
    ((∀ h ∈ log, h.message.kind ≠ .clientLogin) → x.ownedRoutes = []) := by
  intro log
  have hlog := ((remembers_start codec routes options origin).run Sound.empty moments).live hx
  have howned := hlog.owned
  rw [ownedBy, (sameSetup_run (start codec routes options origin) moments).routes] at howned
  by_cases hlogin : ∃ h ∈ log, h.message.kind = .clientLogin
  · rw [if_pos hlogin] at howned
    refine ⟨⟨fun _ => .inl hlogin, fun _ => howned⟩, fun hnone => ?_⟩
    obtain ⟨h, hmem, hkind⟩ := hlogin
    exact absurd hkind (hnone h hmem)
  · rw [if_neg hlogin] at howned
    refine ⟨?_, fun _ => howned⟩
    rw [howned, eq_comm, List.filter_eq_nil_iff]
    simp [hlogin]

def fromGateway : Bytes := [0x45, 0, 0, 20] ++ List.replicate 8 0 ++ [10, 7, 0, 2, 10, 7, 0, 1]

/-- A peer joins by a packet from the gateway of one of two routes. -/
def joining : List Engine.Moment := [hears 0 (caller 1) (.data fromGateway)]

def crossroads : Server := start clearCodec (.ofList Codec.twoRoutes) poolOptions 0

theorem owned_routes_exact_iff_login :
    ∃ x,
      (engine.run crossroads
        (joining ++ [hears 1 (caller 1) (.clientLogin .empty)])).1.sessions.find? (caller 1) =
        some x ∧
      x.ownedRoutes = (RouteTable.ofList Codec.twoRoutes).routes.filter fun r =>
        x.addresses.contains r.gateway := by
  have hsome :
      ((engine.run crossroads
        (joining ++ [hears 1 (caller 1) (.clientLogin .empty)])).1.sessions.find?
      (caller 1)).isSome = true := by decide +kernel
  obtain ⟨x, hx⟩ := Option.isSome_iff_exists.mp hsome
  have h := owned_routes_exact_iff clearCodec (.ofList Codec.twoRoutes) poolOptions 0 _ hx
  exact ⟨x, hx, h.1.mpr (.inl (by decide +kernel))⟩

/-- Before its login the peer owns no route, although it is the gateway of one. -/
theorem joined_owns_nothing :
    (engine.run crossroads joining).1.Reachable ∧
      ∃ x, (engine.run crossroads joining).1.sessions.find? (caller 1) = some x ∧
      x.ownedRoutes = [] ∧
        x.ownedRoutes ≠
          (engine.run crossroads joining).1.routes.routes.filter fun r =>
            x.addresses.contains r.gateway := by
  have hsome : ((engine.run crossroads joining).1.sessions.find? (caller 1)).map
      (fun x => (x.addresses, x.ownedRoutes)) = some (⟨some 0x0a070002, none⟩, []) := by
        decide +kernel
  obtain ⟨x, hx, hparts⟩ := Option.map_eq_some_iff.mp hsome
  have haddresses : x.addresses = ⟨some 0x0a070002, none⟩ := congrArg Prod.fst hparts
  have howned : x.ownedRoutes = [] := congrArg Prod.snd hparts
  refine ⟨⟨.clear, 1416, _, _, 0, joining, rfl⟩, x, hx, howned, ?_⟩
  rw [howned, haddresses]
  decide +kernel

end PacketTunnel.Server
