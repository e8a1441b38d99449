import PacketTunnel.Route.Table

/-!
# The route to a destination

The search through a table goes once over its routes and keeps the better of the best so far and the
next. What it keeps is at every moment the best of the routes it has seen: the longest that covers
the destination, and the last of several of that length. There is only one such route.
-/
namespace PacketTunnel.RouteTable

/-- The best of some routes for a destination: the last of the longest that cover it, or none if
none does. -/
def Best (destination : Address) (routes : List Route) : Option Route → Prop
  | none => ∀ q ∈ routes, q.contains destination = false
  | some r => ∃ earlier later, routes = earlier ++ r :: later ∧ r.contains destination = true ∧
      (∀ q ∈ earlier, q.contains destination = true → q.length ≤ r.length) ∧
      (∀ q ∈ later, q.contains destination = true → q.length < r.length)

variable {destination : Address} {routes : List Route} {best best' : Option Route}

private theorem best_concat {q : Route} (hq : q.contains destination = true)
    (hlong : ∀ q' ∈ routes, q'.contains destination = true → q'.length ≤ q.length) :
    Best destination (routes ++ [q]) (some q) :=
  ⟨routes, [], rfl, hq, hlong, fun _ h => absurd h List.not_mem_nil⟩

theorem Best.length_le {r q : Route} (h : Best destination routes (some r)) (hq : q ∈ routes)
    (hcover : q.contains destination = true) : q.length ≤ r.length := by
  obtain ⟨earlier, later, rfl, -, hearlier, hlater⟩ := h
  rcases List.mem_append.mp hq with hq | hq
  · exact hearlier q hq hcover
  · rcases List.mem_cons.mp hq with rfl | hq
    · exact Nat.le_refl _
    · exact Nat.le_of_lt (hlater q hq hcover)

private theorem Best.concat {r q : Route} (h : Best destination routes (some r))
    (hq : q.contains destination = true → q.length < r.length) :
    Best destination (routes ++ [q]) (some r) := by
  obtain ⟨earlier, later, rfl, hr, hearlier, hlater⟩ := h
  refine ⟨earlier, later ++ [q], by simp, hr, hearlier, fun q' hq' hcover => ?_⟩
  rcases List.mem_append.mp hq' with hq' | hq'
  · exact hlater q' hq' hcover
  · rw [List.mem_singleton.mp hq'] at hcover ⊢
    exact hq hcover

/-- The search keeps the best of the routes it has seen. -/
theorem Best.step (h : Best destination routes best) (q : Route) :
    Best destination (routes ++ [q]) (better destination best q) := by
  unfold better
  split
  · rename_i hq
    cases best with
    | none =>
      refine best_concat hq fun q' hq' hcover => ?_
      rw [h q' hq'] at hcover
      cases hcover
    | some b =>
      dsimp only
      split
      · rename_i hle
        exact best_concat hq fun q' hq' hcover => Nat.le_trans (h.length_le hq' hcover) hle
      · rename_i hlt
        exact h.concat fun _ => Nat.not_le.mp hlt
  · rename_i hq
    cases best with
    | none =>
      intro q' hq'
      rcases List.mem_append.mp hq' with hq' | hq'
      · exact h q' hq'
      · rw [List.mem_singleton.mp hq']
        exact Bool.eq_false_iff.mpr hq
    | some b => exact h.concat fun hcover => absurd hcover hq

theorem Best.run (h : Best destination routes best) (rest : List Route) :
    Best destination (routes ++ rest) (rest.foldl (better destination) best) := by
  induction rest generalizing routes best with
  | nil => simpa using h
  | cons q rest ih =>
    have hrest := ih (h.step q)
    rwa [List.append_assoc] at hrest

theorem best_lookup? (t : RouteTable) (destination : Address) :
    Best destination t.routes (t.lookup? destination) := by
  have hnone : Best destination [] none := fun _ h => absurd h List.not_mem_nil
  exact hnone.run t.routes

private theorem Best.mem {r : Route} (h : Best destination routes (some r)) :
    r ∈ routes ∧ r.contains destination = true := by
  obtain ⟨earlier, later, rfl, hr, -, -⟩ := h
  exact ⟨List.mem_append_right _ List.mem_cons_self, hr⟩

theorem Best.unique (h : Best destination routes best) (h' : Best destination routes best') :
    best = best' := by
  cases best with
  | none =>
    cases best' with
    | none => rfl
    | some r' =>
      obtain ⟨hr', hcover⟩ := h'.mem
      rw [h r' hr'] at hcover
      cases hcover
  | some r =>
    cases best' with
    | none =>
      obtain ⟨hr, hcover⟩ := h.mem
      rw [h' r hr] at hcover
      cases hcover
    | some r' =>
      obtain ⟨earlier, later, rfl, hr, hearlier, hlater⟩ := h
      obtain ⟨earlier', later', heq, hr', hearlier', hlater'⟩ := h'
      rcases List.append_eq_append_iff.mp heq with ⟨between, rfl, hrest⟩ | ⟨between, rfl, hrest⟩
      · cases between with
        | nil => rw [(List.cons.inj hrest).1]
        | cons q between =>
          obtain ⟨rfl, rfl⟩ := List.cons.inj hrest
          have hle := hearlier' r (by simp) hr
          have hlt := hlater r' (by simp) hr'
          omega
      · cases between with
        | nil => rw [(List.cons.inj hrest).1]
        | cons q between =>
          obtain ⟨rfl, rfl⟩ := List.cons.inj hrest
          have hle := hearlier r' (by simp) hr'
          have hlt := hlater' r (by simp) hr
          omega

theorem lookup?_eq_iff {t : RouteTable} :
    t.lookup? destination = best ↔ Best destination t.routes best := by
  constructor
  · rintro rfl
    exact t.best_lookup? destination
  · exact (t.best_lookup? destination).unique

end PacketTunnel.RouteTable
