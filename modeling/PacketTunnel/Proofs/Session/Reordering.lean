import PacketTunnel.Proofs.Address.Text
import PacketTunnel.Proofs.Session.AddressIndex

/-!
# The order in which a table is gone through

Two tables are reorderings of each other when they hold the same entries in whatever order, which is
when every look-up gives the same. Hence removals may be done in any order, and of the operations
that go through all sessions the expiry takes the same ones whatever the order, and the report lists
them by the text of their endpoints, which is different for different endpoints.
-/
namespace PacketTunnel

namespace Directory

variable {κ α : Type} [DecidableEq κ] {d d' : Directory κ α}

omit [DecidableEq κ] in
def Reorders (d d' : Directory κ α) : Prop := d.entries.Perm d'.entries

omit [DecidableEq κ] in
theorem nodup_entries (d : Directory κ α) : d.entries.Nodup :=
  List.Pairwise.of_map Prod.fst (fun _ _ hne he => hne (congrArg Prod.fst he)) d.nodup

omit [DecidableEq κ] in
def backwards (d : Directory κ α) : Directory κ α where
  entries := d.entries.reverse
  nodup := by
    rw [List.map_reverse]
    exact (List.reverse_perm _).nodup_iff.mpr d.nodup

omit [DecidableEq κ] in
theorem reorders_backwards (d : Directory κ α) : d.Reorders d.backwards :=
  (List.reverse_perm d.entries).symm

/-- Look-ups are all that tells the entries apart from those of another directory. -/
theorem reorders_iff : d.Reorders d' ↔ ∀ k, d.find? k = d'.find? k := by
  constructor
  · intro h k
    apply Option.ext
    intro v
    rw [find?_eq_some_iff, find?_eq_some_iff]
    exact List.Perm.mem_iff h
  · intro h
    apply (List.perm_ext_iff_of_nodup d.nodup_entries d'.nodup_entries).mpr
    intro e
    rw [← find?_eq_some_iff, ← find?_eq_some_iff, h]

end Directory

namespace SessionTable

variable {t t' : SessionTable}

/-- The same sessions and the same index, in whatever order they are gone through. -/
structure Reorders (t t' : SessionTable) : Prop where
  sessions : t.sessions.Reorders t'.sessions
  owners : t.owners.Reorders t'.owners

theorem reorders_iff :
    t.Reorders t' ↔ (∀ e, t.find? e = t'.find? e) ∧ ∀ a, t.endpointFor? a = t'.endpointFor? a := by
  constructor
  · intro h
    exact ⟨Directory.reorders_iff.mp h.sessions, Directory.reorders_iff.mp h.owners⟩
  · rintro ⟨hsessions, howners⟩
    exact ⟨Directory.reorders_iff.mpr hsessions, Directory.reorders_iff.mpr howners⟩

namespace Reorders

theorem refl (t : SessionTable) : t.Reorders t := ⟨List.Perm.refl _, List.Perm.refl _⟩

theorem symm (h : t.Reorders t') : t'.Reorders t :=
  ⟨List.Perm.symm h.sessions, List.Perm.symm h.owners⟩

theorem trans {t'' : SessionTable} (h : t.Reorders t') (h' : t'.Reorders t'') : t.Reorders t'' :=
  ⟨List.Perm.trans h.sessions h'.sessions, List.Perm.trans h.owners h'.owners⟩

theorem find? (h : t.Reorders t') (e : Endpoint) : t.find? e = t'.find? e := (reorders_iff.mp h).1 e

theorem endpointFor? (h : t.Reorders t') (a : Address) : t.endpointFor? a = t'.endpointFor? a :=
  (reorders_iff.mp h).2 a

theorem indexed (h : t.Reorders t') (ht : t.Indexed) : t'.Indexed where
  endpoint_eq {e s} hs := ht.endpoint_eq (by rwa [h.find?])
  owner_iff {a e} := by
    rw [← h.endpointFor?, ht.owner_iff]
    simp only [h.find?]

theorem values (h : t.Reorders t') : t.sessions.values.Perm t'.sessions.values :=
  List.Perm.map _ h.sessions

theorem stale (h : t.Reorders t') (now : Time) (threshold : Duration) :
    (t.stale now threshold).Perm (t'.stale now threshold) := (h.values.filter _).map _

end Reorders

theorem Indexed.removeAll_perm (ht : t.Indexed) (h : t.Reorders t') {es es' : List Endpoint}
    (hes : es.Perm es') :
    (t.removeAll es).Reorders (t'.removeAll es') := by
  rw [reorders_iff]
  constructor
  · intro e
    simp only [find?_removeAll, hes.mem_iff, h.find?]
  · intro a
    apply Option.ext
    intro e
    rw [ht.endpointFor?_removeAll, (h.indexed ht).endpointFor?_removeAll, hes.mem_iff,
      h.endpointFor?]

theorem remove_modify (t : SessionTable) (e : Endpoint) {f : Session → Session}
    (hf : ∀ s, (f s).addresses = s.addresses) : (t.modify e f).remove e = t.remove e := by
  cases hs : t.find? e with
  | none => rw [modify_of_find?_eq_none hs]
  | some s =>
    have hs' : (t.modify e f).find? e = some (f s) := by
      rw [find?_modify, if_pos rfl, hs, Option.map_some]
    have herase : (t.sessions.modify e f).erase e = t.sessions.erase e := by
      apply Directory.ext
      simp only [Directory.erase, Directory.modify, List.filter_map]
      have hkept (entry : Endpoint × Session) (hentry : entry ∈ t.sessions.entries.filter
          fun e' => e'.1 ≠ e) : (if entry.1 = e then (entry.1, f entry.2) else entry) = entry :=
        if_neg (by simpa using (List.mem_filter.mp hentry).2)
      have hkeys :
          ((fun e' : Endpoint × Session => decide (e'.1 ≠ e)) ∘ fun e' => if e'.1 = e then
            (e'.1, f e'.2) else e') = fun e' => decide (e'.1 ≠ e) := by
        funext entry
        by_cases h : entry.1 = e <;> simp [h]
      rw [hkeys]
      exact (List.map_congr_left hkept).trans (List.map_id' _)
    simp only [remove, hs, hs', hf]
    exact congrArg (SessionTable.mk · _) herase

theorem Indexed.nodup_endpoints (ht : t.Indexed) :
    (t.sessions.values.map Session.endpoint).Nodup := by
  have hkeys : t.sessions.values.map Session.endpoint = t.sessions.keys := by
    rw [Directory.values, Directory.keys, List.map_map]
    apply List.map_congr_left
    intro e he
    exact ht.endpoint_eq (Directory.find?_eq_some_iff.mpr he)
  rw [hkeys]
  exact t.sessions.nodup

theorem inOrder_perm (t : SessionTable) : t.inOrder.Perm t.sessions.values :=
  List.mergeSort_perm _ _

theorem endpoints_perm (t : SessionTable) :
    t.endpoints.Perm (t.sessions.values.map Session.endpoint) :=
  t.inOrder_perm.map _

theorem Indexed.nodup_inOrder (ht : t.Indexed) : t.endpoints.Nodup :=
  t.endpoints_perm.nodup_iff.mpr ht.nodup_endpoints

theorem inOrder_pairwise (t : SessionTable) :
    t.inOrder.Pairwise fun x y => x.endpoint.toText ≤ y.endpoint.toText := by
  have hsorted : t.inOrder.Pairwise fun x y => decide (x.endpoint.toText ≤ y.endpoint.toText) =
      true := by
    refine List.pairwise_mergeSort (fun x y z hxy hyz => ?_) (fun x y => ?_) t.sessions.values
    · rw [decide_eq_true_eq] at hxy hyz ⊢
      exact String.le_trans hxy hyz
    · rw [Bool.or_eq_true, decide_eq_true_eq, decide_eq_true_eq]
      exact String.le_total _ _
  exact hsorted.imp fun h => by simpa using h

/-- The text of the endpoints tells the sessions apart. -/
theorem Indexed.inOrder_pairwise_lt (ht : t.Indexed) :
    t.inOrder.Pairwise fun x y => x.endpoint.toText < y.endpoint.toText := by
  have hdistinct : t.inOrder.Pairwise fun x y => x.endpoint ≠ y.endpoint :=
    List.Pairwise.of_map _ (fun _ _ h => h) ht.nodup_inOrder
  refine (t.inOrder_pairwise.and hdistinct).imp ?_
  rintro x y ⟨hle, hne⟩
  exact String.not_le.mp fun hge => hne (Endpoint.toText_injective (String.le_antisymm hle hge))

/-- The order by the text of endpoints leaves no choice. -/
theorem Reorders.inOrder (h : t.Reorders t') (ht : t.Indexed) : t.inOrder = t'.inOrder := by
  have hperm : t.inOrder.Perm t'.inOrder :=
    t.inOrder_perm.trans (h.values.trans t'.inOrder_perm.symm)
  refine hperm.eq_of_pairwise ?_ t.inOrder_pairwise t'.inOrder_pairwise
  intro x y hx hy hxy hyx
  have hendpoint : x.endpoint = y.endpoint := Endpoint.toText_injective (String.le_antisymm hxy hyx)
  have hfind {z : Session} (hz : z ∈ t.inOrder) : t.find? z.endpoint = some z := by
    obtain ⟨e, he⟩ := mem_values.mp (t.inOrder_perm.mem_iff.mp hz)
    rwa [ht.endpoint_eq he]
  have hsame := hfind hx
  rw [hendpoint, hfind (hperm.mem_iff.mpr hy)] at hsame
  exact (Option.some.inj hsame).symm

end SessionTable

end PacketTunnel
