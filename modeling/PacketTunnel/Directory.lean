/-!
# Directories

A directory maps keys to values and remembers the order in which keys were first inserted. Its
entries have distinct keys. Every operation is described by what it does to `find?`.
-/
namespace PacketTunnel

/-- A list of keyed values in which no key occurs twice. -/
structure Directory (κ α : Type) where
  entries : List (κ × α)
  nodup : (entries.map Prod.fst).Nodup

namespace Directory

variable {κ α : Type} [DecidableEq κ]

omit [DecidableEq κ] in
@[ext] theorem ext {d d' : Directory κ α} (h : d.entries = d'.entries) : d = d' := by
  cases d; cases d'; cases h; rfl

def empty : Directory κ α := ⟨[], List.nodup_nil⟩

def find? (d : Directory κ α) (k : κ) : Option α :=
  (d.entries.find? fun e => e.1 = k).map Prod.snd

def contains (d : Directory κ α) (k : κ) : Bool := (d.find? k).isSome

def keys (d : Directory κ α) : List κ := d.entries.map Prod.fst

def values (d : Directory κ α) : List α := d.entries.map Prod.snd

def size (d : Directory κ α) : Nat := d.entries.length

def modify (d : Directory κ α) (k : κ) (f : α → α) : Directory κ α where
  entries := d.entries.map fun e => if e.1 = k then (e.1, f e.2) else e
  nodup := by
    have same : (Prod.fst ∘ fun e : κ × α => if e.1 = k then (e.1, f e.2) else e) = Prod.fst := by
      funext e
      by_cases h : e.1 = k <;> simp [h]
    rw [List.map_map, same]
    exact d.nodup

def erase (d : Directory κ α) (k : κ) : Directory κ α where
  entries := d.entries.filter fun e => e.1 ≠ k
  nodup := (List.filter_sublist.map _).nodup d.nodup

theorem find?_eq_none_iff {d : Directory κ α} {k : κ} : d.find? k = none ↔ k ∉ d.keys := by
  simp only [find?, keys, Option.map_eq_none_iff, List.find?_eq_none, List.mem_map,
    decide_eq_true_eq]
  constructor
  · rintro h ⟨e, he, rfl⟩
    exact h e he rfl
  · intro h e he heq
    exact h ⟨e, he, heq⟩

/-- Give a key a value. A key that had one keeps its place. -/
def insert (d : Directory κ α) (k : κ) (v : α) : Directory κ α :=
  match h : d.find? k with
  | some _ => d.modify k fun _ => v
  | none =>
    { entries := d.entries ++ [(k, v)]
      nodup := by
        have hk := find?_eq_none_iff.mp h
        rw [List.map_append, List.nodup_append]
        refine ⟨d.nodup, by simp, ?_⟩
        rintro a ha b hb rfl
        simp only [List.map_cons, List.map_nil, List.mem_singleton] at hb
        exact hk (hb ▸ ha) }

private theorem find?_of_mem {entries : List (κ × α)} (hn : (entries.map Prod.fst).Nodup)
    {k : κ} {v : α} (h : (k, v) ∈ entries) :
    (entries.find? fun e => e.1 = k).map Prod.snd = some v := by
  induction entries with
  | nil => cases h
  | cons e rest ih =>
    rw [List.map_cons, List.nodup_cons] at hn
    rcases List.mem_cons.mp h with rfl | h
    · simp
    · have hne : e.1 ≠ k := by
        rintro rfl
        exact hn.1 (List.mem_map.mpr ⟨_, h, rfl⟩)
      rw [List.find?_cons_of_neg (by simpa using hne)]
      exact ih hn.2 h

theorem find?_eq_some_iff {d : Directory κ α} {k : κ} {v : α} :
    d.find? k = some v ↔ (k, v) ∈ d.entries := by
  constructor
  · intro h
    obtain ⟨⟨k', v'⟩, he, rfl⟩ := Option.map_eq_some_iff.mp h
    have hk : k' = k := by simpa using List.find?_some he
    exact hk ▸ List.mem_of_find?_eq_some he
  · exact find?_of_mem d.nodup

@[simp] theorem find?_empty (k : κ) : (empty : Directory κ α).find? k = none := rfl

theorem find?_modify (d : Directory κ α) (k : κ) (f : α → α) (k' : κ) :
    (d.modify k f).find? k' = if k' = k then (d.find? k').map f else d.find? k' := by
  cases h : d.find? k' with
  | none =>
    have hk := find?_eq_none_iff.mp h
    have hk' : (d.modify k f).find? k' = none := by
      rw [find?_eq_none_iff]
      intro hmem
      obtain ⟨e, he, heq⟩ := List.mem_map.mp hmem
      obtain ⟨e₀, he₀, rfl⟩ := List.mem_map.mp he
      refine hk (List.mem_map.mpr ⟨e₀, he₀, ?_⟩)
      by_cases hek : e₀.1 = k <;> simpa [hek] using heq
    rw [hk']
    split <;> rfl
  | some v =>
    have hmem := find?_eq_some_iff.mp h
    have himage : (if k' = k then (k', f v) else (k', v)) ∈ (d.modify k f).entries :=
      List.mem_map.mpr ⟨(k', v), hmem, by simp⟩
    by_cases hk : k' = k
    · rw [if_pos hk] at himage ⊢
      exact find?_eq_some_iff.mpr himage
    · rw [if_neg hk] at himage ⊢
      exact find?_eq_some_iff.mpr himage

theorem modify_modify (d : Directory κ α) (k : κ) (f g : α → α) :
    (d.modify k f).modify k g = d.modify k (g ∘ f) := by
  apply Directory.ext
  simp only [modify, List.map_map]
  apply List.map_congr_left
  intro e _
  by_cases h : e.1 = k <;> simp [h]

theorem modify_of_find?_eq_none {d : Directory κ α} {k : κ} (h : d.find? k = none) (f : α → α) :
    d.modify k f = d := by
  apply Directory.ext
  refine (List.map_congr_left fun e he => if_neg ?_).trans (List.map_id' _)
  rintro rfl
  exact find?_eq_none_iff.mp h (List.mem_map.mpr ⟨e, he, rfl⟩)

theorem find?_erase (d : Directory κ α) (k k' : κ) :
    (d.erase k).find? k' = if k' = k then none else d.find? k' := by
  by_cases hk : k' = k
  · rw [if_pos hk, find?_eq_none_iff]
    intro hmem
    obtain ⟨e, he, rfl⟩ := List.mem_map.mp hmem
    have := (List.mem_filter.mp he).2
    exact absurd hk (by simpa using this)
  · rw [if_neg hk]
    apply Option.ext
    intro v
    rw [find?_eq_some_iff, find?_eq_some_iff]
    simp [erase, hk]

theorem find?_insert (d : Directory κ α) (k : κ) (v : α) (k' : κ) :
    (d.insert k v).find? k' = if k' = k then some v else d.find? k' := by
  unfold insert
  split
  · rename_i w h
    rw [find?_modify]
    by_cases hk : k' = k
    · subst hk; simp [h]
    · simp [hk]
  · rename_i h
    by_cases hk : k' = k
    · subst hk
      rw [if_pos rfl, find?_eq_some_iff]
      simp
    · rw [if_neg hk]
      apply Option.ext
      intro w
      rw [find?_eq_some_iff, find?_eq_some_iff]
      simp [hk]

end Directory

end PacketTunnel
