import PacketTunnel.Proofs.Exchange.Run

/-!
# One server and one client

The smallest exchange. Nothing but the wire lies between the two ends: an event at either end puts
what that end sends behind the letters on the wire, and the first letter goes to the end that it
names.
-/
namespace PacketTunnel.Exchange

def pair (s : Server) (f : Endpoint) (e : Endpoint) (c : Client) (wire : List Letter) : Exchange :=
  ⟨s, f, [(e, c)], wire⟩

/-- Deliver from the front of the wire, each time at a time and under conditions of its own. -/
def drain (x : Exchange) (ds : List (Time × (Station → Conditions))) : Exchange :=
  (x.run (ds.map fun d => .deliver 0 d.1 d.2)).1

variable {s : Server} {f e : Endpoint} {c : Client} {wire : List Letter}

theorem drain_cons (x : Exchange) (d : Time × (Station → Conditions))
    (ds : List (Time × (Station → Conditions))) :
    x.drain (d :: ds) = (x.turn (.deliver 0 d.1 d.2)).drain ds := rfl

theorem drain_append (x : Exchange) (ds ds' : List (Time × (Station → Conditions))) :
    x.drain (ds ++ ds') = (x.drain ds).drain ds' := by
  rw [drain, List.map_append, run_append]
  rfl

theorem drain_of_empty {x : Exchange} (hx : x.wire = [])
    (ds : List (Time × (Station → Conditions))) :
    x.drain ds = x := by
  induction ds with
  | nil => rfl
  | cons d rest ih =>
    have hturn : x.turn (.deliver 0 d.1 d.2) = x := by
      rw [turn, deliver, hx]
      rfl
    rw [drain_cons, hturn, ih]

theorem pair_inj {s' : Server} {c' : Client} {wire' : List Letter}
    (h : pair s f e c wire = pair s' f e c' wire') : s = s' ∧ c = c' ∧ wire = wire' := by
  cases h
  exact ⟨rfl, rfl, rfl⟩

theorem eq_pair {x : Exchange} (hserver : x.serverEndpoint = f)
    (hclients : x.clients.map Prod.fst = [e]) (hwire : x.wire = []) (d : Client) :
    x = pair x.server f e ((x.clients.head?.map Prod.snd).getD d) [] := by
  obtain ⟨server, serverEndpoint, clients, letters⟩ := x
  cases hserver
  cases hwire
  obtain ⟨⟨e', c'⟩, rfl, rfl⟩ := List.map_eq_singleton_iff.mp hclients
  rfl

theorem pair_after_server (now : Time) (event : Event) (k : Conditions) :
    (pair s f e c wire).after ⟨.server, now, event, k⟩ =
      pair (Server.engine.step k now event s).1 f e c
        (wire ++ (Server.engine.step k now event s).2.filterMap (letter? f)) := rfl

theorem pair_after_client (now : Time) (event : Event) (k : Conditions) :
    (pair s f e c wire).after ⟨.client 0, now, event, k⟩ =
      pair s f e (Client.engine.step k now event c).1
        (wire ++ (Client.engine.step k now event c).2.filterMap (letter? e)) := rfl

theorem pair_stationAt?_client (hef : e ≠ f) :
    (pair s f e c wire).stationAt? e = some (.client 0) := by
  simp [stationAt?, pair, hef, List.findIdx?_cons]

theorem pair_stationAt?_nobody {g : Endpoint} (hf : g ≠ f) (he : g ≠ e) :
    (pair s f e c wire).stationAt? g = none := by
  simp [stationAt?, pair, hf, List.findIdx?_cons, he.symm]

theorem pair_turn_to_server (sender : Endpoint) (bytes : Bytes) (now : Time)
    (k : Station → Conditions) :
    (pair s f e c (⟨sender, f, bytes⟩ :: wire)).turn (.deliver 0 now k) =
      (pair s f e c wire).after ⟨.server, now, .datagram bytes sender, k .server⟩ := by
  apply turn_of_happening
  have hat := stationAt?_server (pair s f e c (⟨sender, f, bytes⟩ :: wire))
  simp only [pair] at hat
  simp only [happening?, pair, List.getElem?_cons_zero, Option.bind_some, hat]
  rfl

theorem pair_turn_to_client (hef : e ≠ f) (sender : Endpoint) (bytes : Bytes) (now : Time)
    (k : Station → Conditions) :
    (pair s f e c (⟨sender, e, bytes⟩ :: wire)).turn (.deliver 0 now k) =
      (pair s f e c wire).after ⟨.client 0, now, .datagram bytes sender, k (.client 0)⟩ := by
  apply turn_of_happening
  have hat : (pair s f e c (⟨sender, e, bytes⟩ :: wire)).stationAt? e = some (.client 0) :=
    pair_stationAt?_client hef
  simp only [pair] at hat
  simp only [happening?, pair, List.getElem?_cons_zero, Option.bind_some, hat]
  rfl

end PacketTunnel.Exchange
