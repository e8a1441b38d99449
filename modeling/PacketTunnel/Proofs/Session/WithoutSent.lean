import PacketTunnel.Proofs.Engine.Run
import PacketTunnel.Server.Basic

/-!
# Sessions without what was sent

What a session counts as sent is never read where sessions are looked up, started, given addresses
or removed: each of these commutes with leaving the counts out.
-/
namespace PacketTunnel

namespace Directory

variable {κ α β : Type} [DecidableEq κ]

omit [DecidableEq κ] in
def mapValues (f : α → β) (d : Directory κ α) : Directory κ β where
  entries := d.entries.map fun e => (e.1, f e.2)
  nodup := by
    rw [List.map_map]
    exact d.nodup

theorem find?_mapValues (f : α → β) (d : Directory κ α) (k : κ) :
    (d.mapValues f).find? k = (d.find? k).map f := by
  rw [find?, mapValues, List.find?_map, find?, Option.map_map, Option.map_map]
  rfl

omit [DecidableEq κ] in
theorem values_mapValues (f : α → β) (d : Directory κ α) :
    (d.mapValues f).values = d.values.map f := by
  simp only [values, mapValues, List.map_map]
  rfl

theorem mapValues_modify (f : α → β) (d : Directory κ α) (k : κ) (g : α → α) (g' : β → β)
    (h : ∀ v, f (g v) = g' (f v)) : (d.modify k g).mapValues f = (d.mapValues f).modify k g' := by
  apply Directory.ext
  simp only [modify, mapValues, List.map_map]
  apply List.map_congr_left
  intro e _
  by_cases hk : e.1 = k
  · simp [hk, h]
  · simp [hk]

theorem mapValues_erase (f : α → β) (d : Directory κ α) (k : κ) :
    (d.erase k).mapValues f = (d.mapValues f).erase k := by
  apply Directory.ext
  simp only [erase, mapValues, List.filter_map]
  rfl

theorem mapValues_insert (f : α → β) (d : Directory κ α) (k : κ) (v : α) :
    (d.insert k v).mapValues f = (d.mapValues f).insert k (f v) := by
  have hfind := find?_mapValues f d k
  unfold insert
  split
  · rename_i w h
    rw [h] at hfind
    split
    · exact mapValues_modify f d k _ _ fun _ => rfl
    · rename_i h'
      cases h'.symm.trans hfind
  · rename_i h
    rw [h] at hfind
    split
    · rename_i w h'
      cases h'.symm.trans hfind
    · apply Directory.ext
      simp only [mapValues, List.map_append, List.map_cons, List.map_nil]

end Directory

def Session.withoutSent (x : Session) : Session := x.recount fun _ => .zero

namespace SessionTable

def withoutSent (t : SessionTable) : SessionTable :=
  { t with sessions := t.sessions.mapValues Session.withoutSent }

variable (t : SessionTable) (e : Endpoint)

theorem find?_withoutSent : t.withoutSent.find? e = (t.find? e).map Session.withoutSent :=
  Directory.find?_mapValues _ _ _

theorem contains_withoutSent : t.withoutSent.contains e = t.contains e := by
  rw [contains, Directory.contains, ← find?, find?_withoutSent, Option.isSome_map]
  rfl

theorem endpointFor?_withoutSent (a : Address) : t.withoutSent.endpointFor? a = t.endpointFor? a :=
  rfl

theorem modify_withoutSent {f : Session → Session} (hf : ∀ x, (f x).withoutSent = f x.withoutSent) :
    t.withoutSent.modify e f = (t.modify e f).withoutSent := by
  rw [modify, modify, withoutSent, withoutSent, Directory.mapValues_modify _ _ _ f f hf]

/-- A change of nothing but the count of what was sent is not seen. -/
theorem withoutSent_modify {f : Session → Session} (hf : ∀ x, (f x).withoutSent = x.withoutSent) :
    (t.modify e f).withoutSent = t.withoutSent := by
  have hid : (t.sessions.mapValues Session.withoutSent).modify e id =
      t.sessions.mapValues Session.withoutSent := by
    apply Directory.ext
    simp [Directory.modify]
  rw [modify, withoutSent, withoutSent, Directory.mapValues_modify _ _ _ f id hf, hid]

theorem ensure_withoutSent (now : Time) :
    t.withoutSent.ensure e now = (t.ensure e now).withoutSent := by
  rw [ensure, ensure, contains_withoutSent]
  split
  · rfl
  · simp only [withoutSent, Directory.mapValues_insert]
    rfl

theorem setAddresses_withoutSent (v : VirtualAddresses) :
    t.withoutSent.setAddresses e v = (t.setAddresses e v).withoutSent := by
  rw [setAddresses, setAddresses, find?_withoutSent]
  cases t.find? e with
  | none => rfl
  | some x =>
    have hmodify :
        (t.sessions.modify e fun x => { x with addresses := v }).mapValues Session.withoutSent =
        (t.sessions.mapValues Session.withoutSent).modify e fun x => { x with addresses := v } :=
      Directory.mapValues_modify _ _ _ _ _ fun _ => rfl
    simp only [Option.map_some, withoutSent, hmodify]
    rfl

theorem remove_withoutSent : t.withoutSent.remove e = (t.remove e).withoutSent := by
  rw [remove, remove, find?_withoutSent]
  cases t.find? e with
  | none => rfl
  | some x =>
    simp only [Option.map_some, withoutSent, Directory.mapValues_erase]
    rfl

theorem removeEach_withoutSent (es : List Endpoint) :
    es.foldl remove t.withoutSent = (es.foldl remove t).withoutSent := by
  induction es generalizing t with
  | nil => rfl
  | cons e rest ih => rw [List.foldl_cons, remove_withoutSent, ih, List.foldl_cons]

theorem stale_withoutSent (now : Time) (threshold : Duration) :
    t.withoutSent.stale now threshold = t.stale now threshold := by
  simp only [stale, withoutSent, Directory.values_mapValues, List.filter_map, List.map_map]
  rfl

theorem expire_withoutSent (now : Time) (threshold : Duration) :
    t.withoutSent.expire now threshold = (t.expire now threshold).withoutSent := by
  rw [expire, expire, stale_withoutSent, removeEach_withoutSent]

theorem endpoints_withoutSent : t.withoutSent.endpoints = t.endpoints := by
  have hsort : t.withoutSent.inOrder = t.inOrder.map Session.withoutSent := by
    rw [inOrder, withoutSent, Directory.values_mapValues]
    exact (List.map_mergeSort (f := Session.withoutSent) fun _ _ _ _ => rfl).symm
  rw [endpoints, hsort, List.map_map]
  rfl

theorem reclaim_withoutSent (v : VirtualAddresses) :
    Server.reclaim t.withoutSent v e = (Server.reclaim t v e).withoutSent := by
  rw [Server.reclaim, Server.reclaim]
  generalize v.toList = addresses
  induction addresses generalizing t with
  | nil => rfl
  | cons a rest ih =>
    have hevict : Server.evict e t.withoutSent a = (Server.evict e t a).withoutSent := by
      rw [Server.evict, Server.evict, endpointFor?_withoutSent]
      split
      · split
        · rfl
        · exact remove_withoutSent t _
      · rfl
    rw [List.foldl_cons, hevict, ih, List.foldl_cons]

end SessionTable

end PacketTunnel
