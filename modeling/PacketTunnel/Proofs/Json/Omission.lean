import PacketTunnel.Proofs.Json.RoundTrip
import PacketTunnel.Status.Format

/-!
# Members left out

A document may come without some of its members: those whose value the reader takes for granted. A
reader tolerates it when it returns the same of the document with and without them. Lists and
records of tolerated readers are tolerated: what a record reads is field by field, and a field is
there in both documents, in neither, or left out.
-/
namespace PacketTunnel.JsonValue

section
variable (optional : List (Option (List Char) × JsonValue))

mutual

/-- A value with some of the optional members left out, at any depth. -/
inductive Omits : JsonValue → JsonValue → Prop
  | same (v : JsonValue) : Omits v v
  | inArray {items items' : List JsonValue} : OmitsItems items items' → Omits (array items)
      (array items')
  | inObject {members members' : List (Option (List Char) × JsonValue)} :
      OmitsMembers members members' → Omits (object members) (object members')

inductive OmitsItems : List JsonValue → List JsonValue → Prop
  | nil : OmitsItems [] []
  | cons {v v' : JsonValue} {items items' : List JsonValue} :
      Omits v v' → OmitsItems items items' → OmitsItems (v :: items) (v' :: items')

inductive OmitsMembers :
    List (Option (List Char) × JsonValue) → List (Option (List Char) × JsonValue) → Prop
  | nil : OmitsMembers [] []
  | keep {v v' : JsonValue} {members members' : List (Option (List Char) × JsonValue)}
      (key : Option (List Char)) : Omits v v' → OmitsMembers members members' →
        OmitsMembers ((key, v) :: members) ((key, v') :: members')
  | omit {m : Option (List Char) × JsonValue}
      {members members' : List (Option (List Char) × JsonValue)} :
      m ∈ optional → OmitsMembers members members' → OmitsMembers (m :: members) members'

end

end

variable {optional : List (Option (List Char) × JsonValue)} {v v' : JsonValue}
  {items items' : List JsonValue} {members members' : List (Option (List Char) × JsonValue)}

theorem OmitsItems.refl : ∀ items : List JsonValue, OmitsItems optional items items
  | [] => .nil
  | v :: items => .cons (.same v) (.refl items)

theorem OmitsMembers.refl :
    ∀ members : List (Option (List Char) × JsonValue), OmitsMembers optional members members
  | [] => .nil
  | (key, v) :: members => .keep key (.same v) (.refl members)

theorem Omits.of_array (h : Omits optional (array items) v') :
    ∃ items', v' = array items' ∧ OmitsItems optional items items' := by
  cases h with
  | same => exact ⟨items, rfl, .refl items⟩
  | inArray h => exact ⟨_, rfl, h⟩

theorem Omits.of_object (h : Omits optional (object members) v') :
    ∃ members', v' = object members' ∧ OmitsMembers optional members members' := by
  cases h with
  | same => exact ⟨members, rfl, .refl members⟩
  | inObject h => exact ⟨_, rfl, h⟩

mutual

theorem Omits.statable : ∀ {v v' : JsonValue}, Omits optional v v' → v.Statable → v'.Statable
  | _, _, .same _, h => h
  | _, _, .inArray hitems, h => hitems.statable h
  | _, _, .inObject hmembers, h => hmembers.statable h

theorem OmitsItems.statable : ∀ {items items' : List JsonValue}, OmitsItems optional items items' →
    StatableItems items → StatableItems items'
  | _, _, .nil, h => h
  | _, _, .cons hv hitems, h => ⟨hv.statable h.1, hitems.statable h.2⟩

theorem OmitsMembers.statable : ∀ {members members' : List (Option (List Char) × JsonValue)},
    OmitsMembers optional members members' → StatableMembers members → StatableMembers members'
  | _, _, .nil, h => h
  | _, _, .keep _ hv hmembers, h => ⟨h.1, hv.statable h.2.1, hmembers.statable h.2.2⟩
  | _, _, .omit _ hmembers, h => hmembers.statable h.2.2

end

/-- A reader returns of the smaller document what it returns of the greater one. -/
def Tolerates {α : Type} (optional : List (Option (List Char) × JsonValue))
    (item : JsonValue → Option α) : Prop :=
  ∀ v v' a, Omits optional v v' → item v = some a → item v' = some a

variable {α : Type} {item : JsonValue → Option α}

theorem tolerates_of_atoms (harray : ∀ items, item (array items) = none)
    (hobject : ∀ members, item (object members) = none) : Tolerates optional item := by
  intro v v' a h hread
  cases h with
  | same => exact hread
  | inArray _ => exact absurd ((harray _).symm.trans hread) nofun
  | inObject _ => exact absurd ((hobject _).symm.trans hread) nofun

theorem Tolerates.nullable? (hitem : Tolerates optional item) :
    Tolerates optional (nullable? item) := by
  intro v v' a h hread
  cases h with
  | same => exact hread
  | inArray hitems =>
    obtain ⟨b, hb, rfl⟩ := Option.map_eq_some_iff.mp hread
    exact Option.map_eq_some_iff.mpr ⟨b, hitem _ _ b (.inArray hitems) hb, rfl⟩
  | inObject hmembers =>
    obtain ⟨b, hb, rfl⟩ := Option.map_eq_some_iff.mp hread
    exact Option.map_eq_some_iff.mpr ⟨b, hitem _ _ b (.inObject hmembers) hb, rfl⟩

theorem Tolerates.mapM (hitem : Tolerates optional item) :
    ∀ {items items' : List JsonValue} {as : List α},
    OmitsItems optional items items' → items.mapM item = some as → items'.mapM item = some as
  | _, _, _, .nil, h => h
  | _, _, _, .cons hv hitems, h => by
    simp only [List.mapM_cons, Option.bind_eq_bind, Option.bind_eq_some_iff, Option.pure_def] at h ⊢
    obtain ⟨a, ha, as, has, hcons⟩ := h
    exact ⟨a, hitem _ _ a hv ha, as, hitem.mapM hitems has, hcons⟩

theorem Tolerates.list? (hitem : Tolerates optional item) : Tolerates optional (list? item) := by
  intro v v' as h hread
  cases h with
  | same => exact hread
  | inArray hitems => exact hitem.mapM hitems hread
  | inObject _ => cases hread

/-- A field of a record is missing in both documents, or there in both, or left out. -/
inductive OmitsField (optional : List (Option (List Char) × JsonValue)) (name : String) :
    Option JsonValue → Option JsonValue → Prop
  | missing : OmitsField optional name none none
  | kept {v v' : JsonValue} : Omits optional v v' → OmitsField optional name (some v) (some v')
  | omitted {v : JsonValue} : (some name.toList, v) ∈ optional → OmitsField optional name
      (some v) none

theorem membersNamed_cons (key : Option (List Char)) (v : JsonValue)
    (members : List (Option (List Char) × JsonValue)) (name : String) :
    membersNamed ((key, v) :: members) name =
      if key = some name.toList then v :: membersNamed members name
        else membersNamed members name := by
  rw [membersNamed, List.filterMap_cons]
  by_cases hkey : key = some name.toList
  · simp [hkey, membersNamed]
  · simp [hkey, membersNamed]

theorem OmitsMembers.length_le (name : String) :
    ∀ {members members' : List (Option (List Char) × JsonValue)},
    OmitsMembers optional members members' →
      (membersNamed members' name).length ≤ (membersNamed members name).length
  | _, _, .nil => Nat.le_refl _
  | _, _, .keep key _ hmembers => by
    rw [membersNamed_cons, membersNamed_cons]
    have ih := hmembers.length_le name
    split
    · exact Nat.succ_le_succ ih
    · exact ih
  | (key, v) :: _, _, .omit _ hmembers => by
    rw [membersNamed_cons]
    have ih := hmembers.length_le name
    split
    · exact Nat.le_succ_of_le ih
    · exact ih

theorem OmitsMembers.head? (name : String) :
    ∀ {members members' : List (Option (List Char) × JsonValue)},
    OmitsMembers optional members members' → (membersNamed members name).length ≤ 1 →
      OmitsField optional name (membersNamed members name).head? (membersNamed members' name).head?
  | _, _, .nil, _ => .missing
  | _, _, .keep key hv hmembers, hone => by
    rw [membersNamed_cons] at hone ⊢
    rw [membersNamed_cons]
    split
    · exact .kept hv
    · rename_i hkey
      rw [if_neg hkey] at hone
      exact hmembers.head? name hone
  | (key, v) :: members, members', .omit hm hmembers, hone => by
    rw [membersNamed_cons] at hone ⊢
    split
    · rename_i hkey
      subst hkey
      rw [if_pos rfl, List.length_cons] at hone
      have hnone : membersNamed members' name = [] :=
        List.length_eq_zero_iff.mp (by have hle := hmembers.length_le name; omega)
      rw [hnone]
      exact .omitted hm
    · rename_i hkey
      rw [if_neg hkey] at hone
      exact hmembers.head? name hone

theorem OmitsMembers.all_isSome : ∀ {members members' : List (Option (List Char) × JsonValue)},
    OmitsMembers optional members members' → members.all (fun m => m.1.isSome) = true →
      members'.all (fun m => m.1.isSome) = true
  | _, _, .nil, h => h
  | _, _, .keep _ _ hmembers, h => by
    simp only [List.all_cons, Bool.and_eq_true] at h ⊢
    exact ⟨h.1, hmembers.all_isSome h.2⟩
  | _, _, .omit _ hmembers, h => by
    simp only [List.all_cons, Bool.and_eq_true] at h
    exact hmembers.all_isSome h.2

theorem OmitsItems.length_eq : ∀ {items items' : List JsonValue}, OmitsItems optional items items' →
    items.length = items'.length
  | _, _, .nil => rfl
  | _, _, .cons _ hitems => congrArg (· + 1) hitems.length_eq

theorem OmitsItems.lookup (name : String) : ∀ (names : List String) {items items' : List JsonValue},
    OmitsItems optional items items' →
      OmitsField optional name ((names.zip items).lookup name) ((names.zip items').lookup name)
  | [], _, _, _ => by simpa using .missing
  | _ :: _, _, _, .nil => .missing
  | n :: names, _, _, .cons hv hitems => by
    simp only [List.zip_cons_cons, List.lookup_cons]
    split
    · exact .kept hv
    · exact hitems.lookup name names

/-- The fields of a record without the members are those of the record, some of them left out. -/
theorem fields?_omits {names : List String} {f : JsonFields} (h : Omits optional v v')
    (hf : fields? names v = some f) :
    ∃ f', fields? names v' = some f' ∧ ∀ name ∈ names,
      OmitsField optional name (f name) (f' name) := by
  cases v with
  | object members =>
    obtain ⟨members', rfl, hmembers⟩ := h.of_object
    simp only [fields?, Option.ite_none_right_eq_some, Bool.and_eq_true, List.all_eq_true,
      decide_eq_true_eq, Option.some.injEq] at hf ⊢
    obtain ⟨⟨hkeys, hone⟩, rfl⟩ := hf
    refine ⟨_, ⟨⟨?_, ?_⟩, rfl⟩, fun name hname => hmembers.head? name (hone name hname)⟩
    · exact List.all_eq_true.mp (hmembers.all_isSome (List.all_eq_true.mpr hkeys))
    · exact fun name hname => Nat.le_trans (hmembers.length_le name) (hone name hname)
  | array items =>
    obtain ⟨items', rfl, hitems⟩ := h.of_array
    simp only [fields?, Option.ite_none_right_eq_some, Option.some.injEq] at hf ⊢
    obtain ⟨hlength, rfl⟩ := hf
    exact ⟨_, ⟨hitems.length_eq ▸ hlength, rfl⟩, fun name _ => hitems.lookup name names⟩
  | null => cases hf
  | bool _ => cases hf
  | number _ => cases hf
  | string _ => cases hf

def ToleratesFields (optional : List (Option (List Char) × JsonValue)) (names : List String)
    (read : JsonFields → Option α) : Prop :=
  ∀ f f' a, (∀ name ∈ names, OmitsField optional name (f name) (f' name)) → read f = some a →
    read f' = some a

variable {names : List String}

theorem ToleratesFields.pure (a : α) : ToleratesFields optional names fun _ => some a :=
  fun _ _ _ _ h => h

theorem ToleratesFields.bind {β : Type} {read : JsonFields → Option α}
    {next : α → JsonFields → Option β} (hread : ToleratesFields optional names read)
    (hnext : ∀ a, ToleratesFields optional names (next a)) :
    ToleratesFields optional names fun f => (read f).bind fun a => next a f := by
  intro f f' b h hb
  obtain ⟨a, ha, hb⟩ := Option.bind_eq_some_iff.mp hb
  exact Option.bind_eq_some_iff.mpr ⟨a, hread f f' a h ha, hnext a f f' b h hb⟩

theorem toleratesFields_need {name : String} (hname : name ∈ names)
    (hrequired : ∀ m ∈ optional, m.1 ≠ some name.toList) (hitem : Tolerates optional item) :
    ToleratesFields optional names fun f => f.need name item := by
  intro f f' a h hread
  simp only [JsonFields.need] at hread ⊢
  have hfield := h name hname
  generalize f name = x, f' name = x' at hfield hread
  cases hfield with
  | missing => cases hread
  | kept hv => exact hitem _ _ _ hv hread
  | omitted hm => exact absurd rfl (hrequired _ hm)

theorem toleratesFields_orElse {name : String} {missing : α} (hname : name ∈ names)
    (hmissing : ∀ m ∈ optional, m.1 = some name.toList → item m.2 = some missing)
    (hitem : Tolerates optional item) :
    ToleratesFields optional names fun f => f.orElse name item missing := by
  intro f f' a h hread
  simp only [JsonFields.orElse] at hread ⊢
  have hfield := h name hname
  generalize f name = x, f' name = x' at hfield hread
  cases hfield with
  | missing => exact hread
  | kept hv => exact hitem _ _ _ hv hread
  | omitted hm => exact (hmissing _ hm rfl).symm.trans hread

theorem ToleratesFields.record {read : JsonFields → Option α}
    (h : ToleratesFields optional names read) :
    Tolerates optional fun v => (v.fields? names).bind read := by
  intro v v' a hv hread
  obtain ⟨f, hf, ha⟩ := Option.bind_eq_some_iff.mp hread
  obtain ⟨f', hf', hfields⟩ := fields?_omits hv hf
  exact Option.bind_eq_some_iff.mpr ⟨f', hf', h f f' a hfields ha⟩

end PacketTunnel.JsonValue
