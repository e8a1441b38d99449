import PacketTunnel.Proofs.Session.AddressIndex
import PacketTunnel.Server.Engine

/-!
# Settling a peer on its addresses

A login and an unknown sender's first packet change the session table in the same way: whoever else
holds one of the addresses is removed, the peer gets a session if it has none, and the addresses
become its own. `settle` is this change. On an indexed table the removed sessions are exactly the
other holders, up to two of them, and the outcome is indexed again although the assignment itself
overwrites the index without looking.
-/
namespace PacketTunnel.Server

open SessionTable

/-- The endpoints whose sessions hold one of the addresses. -/
def holders (t : SessionTable) (v : VirtualAddresses) : List Endpoint :=
  v.toList.filterMap t.endpointFor?

theorem mem_holders {t : SessionTable} {v : VirtualAddresses} {e : Endpoint} :
    e ∈ holders t v ↔ ∃ a, v.contains a = true ∧ t.endpointFor? a = some e := by
  simp only [holders, List.mem_filterMap, VirtualAddresses.mem_toList]

private theorem filterMap_remove {t : SessionTable} (ht : t.Indexed) (e : Endpoint)
    (as : List Address) :
    as.filterMap (t.remove e).endpointFor? = (as.filterMap t.endpointFor?).filter (· ≠ e) := by
  induction as with
  | nil => rfl
  | cons a rest ih =>
    rw [List.filterMap_cons, List.filterMap_cons, ht.endpointFor?_remove]
    by_cases ho : t.endpointFor? a = some e
    · simpa only [ho, if_true, ne_eq, not_true_eq_false, decide_false, Bool.false_eq_true,
        not_false_eq_true, List.filter_cons_of_neg] using ih
    · rw [if_neg ho]
      cases h : t.endpointFor? a with
      | none => exact ih
      | some holder =>
        have hne : holder ≠ e := fun he => ho (he ▸ h)
        rw [List.filter_cons_of_pos (by simpa using hne)]
        exact congrArg (holder :: ·) ih

private theorem foldl_evict {t : SessionTable} (ht : t.Indexed) (e : Endpoint) (as : List Address) :
    as.foldl (evict e) t = t.removeAll ((as.filterMap t.endpointFor?).filter (· ≠ e)) := by
  induction as generalizing t with
  | nil => rfl
  | cons a rest ih =>
    rw [List.foldl_cons, List.filterMap_cons]
    cases h : t.endpointFor? a with
    | none =>
      have hstep : evict e t a = t := by simp only [evict, h]
      rw [hstep]
      exact ih ht
    | some holder =>
      by_cases he : holder = e
      · have hstep : evict e t a = t := by simp only [evict, h, if_pos he]
        rw [hstep, List.filter_cons_of_neg (by simp [he])]
        exact ih ht
      · have hstep : evict e t a = t.remove holder := by simp only [evict, h, if_neg he]
        have hgone : (t.remove holder).find? holder = none := by rw [find?_remove, if_pos rfl]
        have hswap (es : List Endpoint) :
            (es.filter (· ≠ holder)).filter (· ≠ e) = (es.filter (· ≠ e)).filter (· ≠ holder) := by
          simp only [List.filter_filter, Bool.and_comm]
        rw [hstep, List.filter_cons_of_pos (by simpa using he), ih (ht.remove holder),
          filterMap_remove ht, hswap, removeAll_filter hgone]
        rfl

/-- Reclaiming addresses removes their holders, the peer itself apart. -/
theorem reclaim_eq_removeAll {t : SessionTable} (ht : t.Indexed) (v : VirtualAddresses)
    (e : Endpoint) :
    reclaim t v e = t.removeAll ((holders t v).filter (· ≠ e)) :=
  foldl_evict ht e v.toList

def settle (t : SessionTable) (now : Time) (e : Endpoint) (v : VirtualAddresses) : SessionTable :=
  ((reclaim t v e).ensure e now).setAddresses e v

/-- The session of a peer once it has settled: the one it had, or a new one, with the new addresses.
-/
def settled (t : SessionTable) (now : Time) (e : Endpoint) (v : VirtualAddresses) : Session :=
  { (t.find? e).getD (.start e now) with addresses := v }

section
variable {t : SessionTable} (ht : t.Indexed) (now : Time) (e : Endpoint) (v : VirtualAddresses)
include ht

theorem find?_reclaim (e' : Endpoint) :
    (reclaim t v e).find? e' = if e' ∈ holders t v ∧ e' ≠ e then none else t.find? e' := by
  rw [reclaim_eq_removeAll ht, find?_removeAll]
  simp only [List.mem_filter, decide_eq_true_eq]

theorem find?_settle (e' : Endpoint) :
    (settle t now e v).find? e' =
      if e' = e then some (settled t now e v) else if e' ∈ holders t v then none
        else t.find? e' := by
  rw [settle, find?_setAddresses, find?_ensure, find?_reclaim ht, find?_reclaim ht]
  by_cases he : e' = e
  · subst he
    simp [settled]
  · simp [he]

theorem indexed_settle : (settle t now e v).Indexed := by
  have hr : (reclaim t v e).Indexed := by
    rw [reclaim_eq_removeAll ht]
    exact ht.removeAll _
  refine (hr.ensure e now).setAddresses e ?_
  intro a e' hv ho
  rw [endpointFor?_ensure, reclaim_eq_removeAll ht, ht.endpointFor?_removeAll] at ho
  by_cases he : e' = e
  · exact he
  · exact absurd (List.mem_filter.mpr ⟨mem_holders.mpr ⟨a, hv, ho.1⟩, by simpa using he⟩) ho.2

end

end PacketTunnel.Server
