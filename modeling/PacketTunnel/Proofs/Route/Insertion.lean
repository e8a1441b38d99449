import Mathlib.Data.List.Dedup
import PacketTunnel.Route.Table

/-!
# Several insertions

Inserting routes one after the other makes a table the list of all that it held and all that was
inserted, each at its last place. So inserting the same routes again changes nothing. Which of them
were missing is told by their first places.
-/
namespace PacketTunnel.RouteTable

variable {t t' : RouteTable} {r q : Route}

theorem mem_insert : q ∈ (t.insert r).routes ↔ q ∈ t.routes ∨ q = r := by
  rw [insert, List.mem_append, List.mem_singleton]
  by_cases hq : q = r
  · simp [hq]
  · rw [List.mem_erase_of_ne hq]

theorem mem_insertAll {rs : List Route} : q ∈ (t.insertAll rs).routes ↔ q ∈ t.routes ∨ q ∈ rs := by
  induction rs generalizing t with
  | nil => simp [insertAll]
  | cons r rest ih =>
    rw [insertAll, List.foldl_cons, ← insertAll, ih, mem_insert, List.mem_cons, or_assoc]

theorem insertAll_append (t : RouteTable) (rs qs : List Route) :
    t.insertAll (rs ++ qs) = (t.insertAll rs).insertAll qs :=
  List.foldl_append

/-- A route moves to the end of a list without duplicates. -/
theorem erase_concat_eq_dedup {routes : List Route} (h : routes.Nodup) (r : Route) :
    routes.erase r ++ [r] = (routes ++ [r]).dedup := by
  induction routes with
  | nil => simp
  | cons q rest ih =>
    obtain ⟨hq, hrest⟩ := List.nodup_cons.mp h
    rw [List.cons_append]
    by_cases hr : q = r
    · subst hr
      have hlast : q ∈ rest ++ [q] := List.mem_append_right _ (List.mem_singleton.mpr rfl)
      rw [List.erase_cons_head, List.dedup_cons_of_mem hlast, ← ih hrest, List.erase_of_not_mem hq]
    · have hnew : q ∉ rest ++ [r] := by
        rw [List.mem_append, List.mem_singleton, not_or]
        exact ⟨hq, hr⟩
      rw [List.erase_cons_tail (by simpa using hr), List.cons_append, ih hrest,
        List.dedup_cons_of_notMem hnew]

theorem dedup_dedup_append (l m : List Route) : (l.dedup ++ m).dedup = (l ++ m).dedup := by
  induction l with
  | nil => rfl
  | cons q rest ih =>
    rw [List.cons_append]
    by_cases hq : q ∈ rest
    · rw [List.dedup_cons_of_mem hq, List.dedup_cons_of_mem (List.mem_append_left _ hq), ih]
    · rw [List.dedup_cons_of_notMem hq, List.cons_append]
      by_cases hm : q ∈ m
      · have hlast (l : List Route) : q ∈ l ++ m := List.mem_append_right l hm
        rw [List.dedup_cons_of_mem (hlast _), List.dedup_cons_of_mem (hlast _), ih]
      · have hrest : q ∉ rest ++ m := by simp [hq, hm]
        have hrest' : q ∉ rest.dedup ++ m := by simp [hq, hm]
        rw [List.dedup_cons_of_notMem hrest, List.dedup_cons_of_notMem hrest', ih]

theorem routes_insertAll (h : t.routes.Nodup) (rs : List Route) :
    (t.insertAll rs).routes = (t.routes ++ rs).dedup := by
  induction rs generalizing t with
  | nil => rw [List.append_nil, h.dedup]; rfl
  | cons r rest ih =>
    have hinsert : (t.insert r).routes = (t.routes ++ [r]).dedup := erase_concat_eq_dedup h r
    have hnodup : (t.insert r).routes.Nodup := by
      rw [hinsert]
      exact List.nodup_dedup _
    rw [insertAll, List.foldl_cons, ← insertAll, ih hnodup, hinsert, dedup_dedup_append,
      List.append_assoc, List.singleton_append]

theorem nodup_insertAll (h : t.routes.Nodup) (rs : List Route) : (t.insertAll rs).routes.Nodup := by
  rw [routes_insertAll h]
  exact List.nodup_dedup _

theorem insertAll_insertAll (h : t.routes.Nodup) (rs : List Route) :
    (t.insertAll rs).insertAll rs = t.insertAll rs := by
  have hall : rs ⊆ rs.dedup := List.subset_dedup rs
  have htwice : ((t.insertAll rs).insertAll rs).routes = (t.insertAll rs).routes := by
    rw [routes_insertAll (nodup_insertAll h rs), routes_insertAll h, dedup_dedup_append,
      List.append_assoc, List.dedup_append, List.dedup_append, List.Subset.union_eq_right hall,
      ← List.dedup_append]
  exact congrArg RouteTable.mk htwice

/-- The routes of a list that a table lacks, each at its first place. -/
def missing (t : RouteTable) (rs : List Route) : List Route := (rs.removeAll t.routes).eraseDups

theorem mem_missing {rs : List Route} : q ∈ t.missing rs ↔ q ∈ rs ∧ q ∉ t.routes := by
  simp [missing, List.removeAll]

theorem missing_append (t : RouteTable) (rs qs : List Route) :
    t.missing (rs ++ qs) = t.missing rs ++ (t.insertAll rs).missing qs := by
  have hlater : (qs.removeAll t.routes).removeAll (rs.removeAll t.routes) =
      qs.removeAll (t.insertAll rs).routes := by
    simp only [List.removeAll, List.filter_filter]
    refine List.filter_congr fun q _ => ?_
    have hmem : q ∈ (t.insertAll rs).routes ↔ q ∈ t.routes ∨ q ∈ rs := mem_insertAll
    by_cases ht : q ∈ t.routes <;> simp [hmem, ht]
  rw [missing, List.removeAll, List.filter_append, List.eraseDups_append]
  exact congrArg (fun later => t.missing rs ++ later.eraseDups) hlater

theorem missing_singleton (t : RouteTable) (r : Route) :
    t.missing [r] = if t.contains r = true then [] else [r] := by
  by_cases hr : r ∈ t.routes <;> simp [missing, contains, List.removeAll, List.eraseDups_cons, hr]

theorem missing_eq_nil {rs : List Route} (h : ∀ r ∈ rs, r ∈ t.routes) : t.missing rs = [] := by
  rw [List.eq_nil_iff_forall_not_mem]
  intro r hr
  obtain ⟨hmem, hlacks⟩ := mem_missing.mp hr
  exact hlacks (h r hmem)

end PacketTunnel.RouteTable
