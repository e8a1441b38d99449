import PacketTunnel.Session.Table

/-!
# The address index of a session table

Every operation on a session table is described by what it does to the two look-ups, `find?` by
endpoint and `endpointFor?` by virtual address. A table is indexed when each session stands under
its own endpoint and the index leads from an address to an endpoint exactly when the session there
holds the address. Removal keeps a table indexed without any condition; giving a session addresses
does so only when no other session holds them, since the index follows the last assignment.
-/
namespace PacketTunnel

theorem VirtualAddresses.contains_empty (a : Address) :
    VirtualAddresses.empty.contains a = false := by
  cases a <;> rfl

theorem VirtualAddresses.contains_single {a b : Address} :
    (VirtualAddresses.single a).contains b = true ↔ b = a := by
  cases a <;> cases b <;> simp [VirtualAddresses.single, VirtualAddresses.contains]
  · exact eq_comm
  · exact eq_comm

theorem VirtualAddresses.exists_contains {v : VirtualAddresses} (h : v.isEmpty = false) :
    ∃ a, v.contains a = true := by
  obtain ⟨v4, v6⟩ := v
  cases v4 with
  | some a => exact ⟨.v4 a, by simp [contains]⟩
  | none =>
    cases v6 with
    | some a => exact ⟨.v6 a, by simp [contains]⟩
    | none => cases h

namespace SessionTable

@[simp] theorem find?_empty (e : Endpoint) : empty.find? e = none := rfl

@[simp] theorem endpointFor?_empty (a : Address) : empty.endpointFor? a = none := rfl

theorem contains_eq_isSome (t : SessionTable) (e : Endpoint) : t.contains e = (t.find? e).isSome :=
  rfl

theorem contains_of_find? {t : SessionTable} {e : Endpoint} {s : Session} (h : t.find? e = some s) :
    t.contains e = true := by
  rw [contains_eq_isSome, h, Option.isSome_some]

theorem find?_modify (t : SessionTable) (e : Endpoint) (f : Session → Session) (e' : Endpoint) :
    (t.modify e f).find? e' = if e' = e then (t.find? e').map f else t.find? e' :=
  Directory.find?_modify t.sessions e f e'

@[simp] theorem endpointFor?_modify (t : SessionTable) (e : Endpoint) (f : Session → Session)
    (a : Address) :
    (t.modify e f).endpointFor? a = t.endpointFor? a := rfl

theorem modify_modify (t : SessionTable) (e : Endpoint) (f g : Session → Session) :
    (t.modify e f).modify e g = t.modify e (g ∘ f) := by
  simp only [modify, Directory.modify_modify]

theorem modify_of_find?_eq_none {t : SessionTable} {e : Endpoint} (h : t.find? e = none)
    (f : Session → Session) :
    t.modify e f = t := by
  rw [modify, Directory.modify_of_find?_eq_none h]

theorem find?_ensure (t : SessionTable) (e : Endpoint) (now : Time) (e' : Endpoint) :
    (t.ensure e now).find? e' =
      if e' = e then some ((t.find? e).getD (.start e now)) else t.find? e' := by
  unfold ensure
  rw [contains_eq_isSome]
  cases h : t.find? e with
  | none =>
    have hi := Directory.find?_insert t.sessions e (Session.start e now) e'
    simpa [find?] using hi
  | some s =>
    by_cases he : e' = e
    · subst he
      simp [h]
    · simp [he]

@[simp] theorem endpointFor?_ensure (t : SessionTable) (e : Endpoint) (now : Time) (a : Address) :
    (t.ensure e now).endpointFor? a = t.endpointFor? a := by
  unfold ensure
  split <;> rfl

theorem find?_release (e : Endpoint) (owners : Directory Address Endpoint) (b a : Address) :
    (release e owners b).find? a = if a = b ∧ owners.find? a = some e then none
      else owners.find? a := by
  unfold release
  split
  · rename_i h
    rw [Directory.find?_erase]
    by_cases hab : a = b
    · subst hab
      simp [h]
    · simp [hab]
  · rename_i h
    by_cases hab : a = b
    · subst hab
      simp [h]
    · simp [hab]

/-- Releasing several addresses frees those of them that belong to the endpoint. -/
theorem find?_releaseAll (e : Endpoint) (released : List Address)
    (owners : Directory Address Endpoint) (a : Address) :
    (released.foldl (release e) owners).find? a =
      if a ∈ released ∧ owners.find? a = some e then none else owners.find? a := by
  induction released generalizing owners with
  | nil => simp
  | cons b rest ih =>
    rw [List.foldl_cons, ih, find?_release]
    by_cases hab : a = b
    · subst hab
      by_cases ho : owners.find? a = some e <;> simp [ho]
    · simp [hab]

/-- Claiming several addresses gives them to the endpoint, whoever had them. -/
theorem find?_claimAll (e : Endpoint) (claimed : List Address) (owners : Directory Address Endpoint)
    (a : Address) :
    (claimed.foldl (claim e) owners).find? a = if a ∈ claimed then some e else owners.find? a := by
  induction claimed generalizing owners with
  | nil => simp
  | cons b rest ih =>
    rw [List.foldl_cons, ih, claim, Directory.find?_insert]
    by_cases hab : a = b
    · subst hab
      simp
    · simp [hab]

theorem setAddresses_of_find?_eq_none {t : SessionTable} {e : Endpoint} (h : t.find? e = none)
    (v : VirtualAddresses) : t.setAddresses e v = t := by
  simp only [setAddresses, h]

theorem setAddresses_of_find?_eq_some {t : SessionTable} {e : Endpoint} {s : Session}
    (h : t.find? e = some s) (v : VirtualAddresses) :
    t.setAddresses e v =
      { sessions := t.sessions.modify e fun s => { s with addresses := v }
        owners := v.toList.foldl (claim e) (s.addresses.toList.foldl (release e) t.owners) } := by
  simp only [setAddresses, h]

theorem find?_setAddresses (t : SessionTable) (e : Endpoint) (v : VirtualAddresses)
    (e' : Endpoint) :
    (t.setAddresses e v).find? e' =
      if e' = e then (t.find? e').map fun s => { s with addresses := v } else t.find? e' := by
  cases h : t.find? e with
  | none =>
    rw [setAddresses_of_find?_eq_none h]
    by_cases he : e' = e
    · subst he
      simp [h]
    · simp [he]
  | some s =>
    rw [setAddresses_of_find?_eq_some h]
    exact Directory.find?_modify t.sessions e (fun s => { s with addresses := v }) e'

/-- New addresses belong to the endpoint; of the old ones it loses those that were still its own. -/
theorem endpointFor?_setAddresses {t : SessionTable} {e : Endpoint} {s : Session}
    (h : t.find? e = some s) (v : VirtualAddresses) (a : Address) :
    (t.setAddresses e v).endpointFor? a =
      if v.contains a then some e
      else if s.addresses.contains a ∧ t.endpointFor? a = some e then none
      else t.endpointFor? a := by
  rw [setAddresses_of_find?_eq_some h]
  simp only [endpointFor?, find?_claimAll, find?_releaseAll, VirtualAddresses.mem_toList]
  rfl

theorem setAddresses_modify (t : SessionTable) (e : Endpoint) {f : Session → Session}
    (hf : ∀ s v, f { s with addresses := v } = { f s with addresses := v }) (v : VirtualAddresses) :
    (t.modify e f).setAddresses e v = (t.setAddresses e v).modify e f := by
  cases h : t.find? e with
  | none =>
    have hm : (t.modify e f).find? e = none := by rw [find?_modify, if_pos rfl, h]; rfl
    rw [setAddresses_of_find?_eq_none h, setAddresses_of_find?_eq_none hm]
  | some s =>
    have hm : (t.modify e f).find? e = some (f s) := by rw [find?_modify, if_pos rfl, h]; rfl
    have hkeep : (f s).addresses = s.addresses := by
      have hs := congrArg Session.addresses (hf s s.addresses)
      exact hs
    have hswap : (fun x : Session => { x with addresses := v }) ∘ f =
        f ∘ fun x => { x with addresses := v } := by
      funext x
      exact (hf x v).symm
    rw [setAddresses_of_find?_eq_some hm, setAddresses_of_find?_eq_some h, hkeep]
    simp only [modify, Directory.modify_modify, hswap]

theorem remove_of_find?_eq_none {t : SessionTable} {e : Endpoint} (h : t.find? e = none) :
    t.remove e = t := by
  simp only [remove, h]

theorem find?_remove (t : SessionTable) (e e' : Endpoint) :
    (t.remove e).find? e' = if e' = e then none else t.find? e' := by
  cases h : t.find? e with
  | none =>
    rw [remove_of_find?_eq_none h]
    by_cases he : e' = e
    · subst he
      simp [h]
    · simp [he]
  | some s =>
    simp only [remove, h]
    exact Directory.find?_erase t.sessions e e'

theorem endpointFor?_remove {t : SessionTable} {e : Endpoint} {s : Session} (h : t.find? e = some s)
    (a : Address) :
    (t.remove e).endpointFor? a =
      if s.addresses.contains a ∧ t.endpointFor? a = some e then none else t.endpointFor? a := by
  simp only [remove, h, endpointFor?, find?_releaseAll, VirtualAddresses.mem_toList]
  rfl

theorem mem_values {t : SessionTable} {s : Session} :
    s ∈ t.sessions.values ↔ ∃ e, t.find? e = some s := by
  simp only [find?, Directory.find?_eq_some_iff, Directory.values, List.mem_map]
  constructor
  · rintro ⟨entry, h, rfl⟩
    exact ⟨entry.1, h⟩
  · rintro ⟨e, h⟩
    exact ⟨(e, s), h, rfl⟩

def removeAll (t : SessionTable) (es : List Endpoint) : SessionTable := es.foldl remove t

theorem find?_removeAll (t : SessionTable) (es : List Endpoint) (e : Endpoint) :
    (t.removeAll es).find? e = if e ∈ es then none else t.find? e := by
  induction es generalizing t with
  | nil => simp [removeAll]
  | cons e' rest ih =>
    have hr := ih (t.remove e')
    simp only [removeAll, List.foldl_cons] at hr ⊢
    rw [hr, find?_remove]
    by_cases he : e = e' <;> simp [he]

theorem removeAll_filter {t : SessionTable} {e : Endpoint} (h : t.find? e = none)
    (es : List Endpoint) :
    t.removeAll (es.filter (· ≠ e)) = t.removeAll es := by
  induction es generalizing t with
  | nil => rfl
  | cons e' rest ih =>
    by_cases he : e' = e
    · subst he
      rw [List.filter_cons_of_neg (by simp), ih h]
      simp only [removeAll, List.foldl_cons, remove_of_find?_eq_none h]
    · have hrest : (t.remove e').find? e = none := by rw [find?_remove, h, ite_self]
      rw [List.filter_cons_of_pos (by simpa using he)]
      exact ih hrest

def Keeps (f : Session → Session) : Prop :=
  ∀ s, (f s).endpoint = s.endpoint ∧ (f s).addresses = s.addresses

/-- The index leads to nobody but sessions that hold the address; it leads to one of them at most,
even if others hold the address too. -/
structure Truthful (t : SessionTable) : Prop where
  endpoint_eq : ∀ {e : Endpoint} {s : Session}, t.find? e = some s → s.endpoint = e
  holder : ∀ {a : Address} {e : Endpoint},
    t.endpointFor? a = some e → ∃ s, t.find? e = some s ∧ s.addresses.contains a = true

theorem truthful_empty : empty.Truthful where
  endpoint_eq h := by cases h
  holder h := by cases h

namespace Truthful

variable {t : SessionTable}

theorem endpointFor?_ne (ht : t.Truthful) {e : Endpoint} (h : t.find? e = none) (a : Address) :
    t.endpointFor? a ≠ some e := by
  intro ho
  obtain ⟨s, hs, -⟩ := ht.holder ho
  cases h.symm.trans hs

theorem contains (ht : t.Truthful) {e : Endpoint} {s : Session} (hs : t.find? e = some s)
    {a : Address} (ho : t.endpointFor? a = some e) : s.addresses.contains a = true := by
  obtain ⟨s', hs', ha⟩ := ht.holder ho
  cases hs.symm.trans hs'
  exact ha

theorem endpointFor?_remove (ht : t.Truthful) (e : Endpoint) (a : Address) :
    (t.remove e).endpointFor? a = if t.endpointFor? a = some e then none else t.endpointFor? a := by
  cases h : t.find? e with
  | none => rw [remove_of_find?_eq_none h, if_neg (ht.endpointFor?_ne h a)]
  | some s => simp only [SessionTable.endpointFor?_remove h, and_iff_right_of_imp (ht.contains h)]

theorem remove (ht : t.Truthful) (e : Endpoint) : (t.remove e).Truthful where
  endpoint_eq {e' s} hs := by
    rw [find?_remove] at hs
    split at hs
    · cases hs
    · exact ht.endpoint_eq hs
  holder {a e'} ho := by
    rw [ht.endpointFor?_remove] at ho
    split at ho
    · cases ho
    · rename_i hne
      have he : e' ≠ e := by
        rintro rfl
        exact hne ho
      rw [find?_remove, if_neg he]
      exact ht.holder ho

theorem removeAll (ht : t.Truthful) (es : List Endpoint) : (t.removeAll es).Truthful := by
  induction es generalizing t with
  | nil => exact ht
  | cons e rest ih => exact ih (ht.remove e)

theorem endpointFor?_removeAll (ht : t.Truthful) (es : List Endpoint) {a : Address} {e : Endpoint} :
    (t.removeAll es).endpointFor? a = some e ↔ t.endpointFor? a = some e ∧ e ∉ es := by
  induction es generalizing t with
  | nil => simp [SessionTable.removeAll]
  | cons e' rest ih =>
    have hrest := ih (ht.remove e')
    rw [ht.endpointFor?_remove] at hrest
    refine hrest.trans ?_
    rw [List.mem_cons, not_or]
    by_cases ho : t.endpointFor? a = some e'
    · rw [if_pos ho, ho, Option.some.injEq]
      exact iff_of_false nofun fun ⟨he, hne, _⟩ => hne he.symm
    · rw [if_neg ho]
      have hne (he : t.endpointFor? a = some e) : e ≠ e' := fun hsame => ho (hsame ▸ he)
      exact ⟨fun ⟨he, hkept⟩ => ⟨he, hne he, hkept⟩, fun ⟨he, _, hkept⟩ => ⟨he, hkept⟩⟩

theorem modify (ht : t.Truthful) (e : Endpoint) {f : Session → Session} (hf : Keeps f) :
    (t.modify e f).Truthful where
  endpoint_eq {e' s} hs := by
    rw [find?_modify] at hs
    split at hs
    · obtain ⟨s₀, hs₀, rfl⟩ := Option.map_eq_some_iff.mp hs
      rw [(hf s₀).1]
      exact ht.endpoint_eq hs₀
    · exact ht.endpoint_eq hs
  holder {a e'} ho := by
    obtain ⟨s, hs, ha⟩ := ht.holder ho
    rw [find?_modify, hs]
    by_cases he : e' = e
    · rw [if_pos he]
      exact ⟨f s, rfl, by rwa [(hf s).2]⟩
    · rw [if_neg he]
      exact ⟨s, rfl, ha⟩

theorem ensure (ht : t.Truthful) (e : Endpoint) (now : Time) : (t.ensure e now).Truthful where
  endpoint_eq {e' s} hs := by
    rw [find?_ensure] at hs
    split at hs
    · rename_i he
      subst he
      cases h : t.find? e' with
      | none =>
        rw [h] at hs
        cases hs
        rfl
      | some s₀ =>
        rw [h] at hs
        cases hs
        exact ht.endpoint_eq h
    · exact ht.endpoint_eq hs
  holder {a e'} ho := by
    rw [endpointFor?_ensure] at ho
    obtain ⟨s, hs, ha⟩ := ht.holder ho
    rw [find?_ensure]
    by_cases he : e' = e
    · subst he
      rw [if_pos rfl, hs]
      exact ⟨s, rfl, ha⟩
    · rw [if_neg he]
      exact ⟨s, hs, ha⟩

/-- Any addresses may be given away, whoever holds them: the index then leads to the new holder. -/
theorem setAddresses (ht : t.Truthful) (e : Endpoint) (v : VirtualAddresses) :
    (t.setAddresses e v).Truthful := by
  cases h : t.find? e with
  | none =>
    rw [setAddresses_of_find?_eq_none h]
    exact ht
  | some s =>
    refine ⟨fun {e' s'} hs' => ?_, fun {a e'} ho => ?_⟩
    · rw [find?_setAddresses] at hs'
      split at hs'
      · obtain ⟨s₀, hs₀, rfl⟩ := Option.map_eq_some_iff.mp hs'
        have heq := ht.endpoint_eq hs₀
        exact heq
      · exact ht.endpoint_eq hs'
    · rw [endpointFor?_setAddresses h] at ho
      rw [find?_setAddresses]
      split at ho
      · rename_i hv
        cases ho
        rw [if_pos rfl, h]
        exact ⟨_, rfl, hv⟩
      · split at ho
        · cases ho
        · rename_i hv hfreed
          obtain ⟨s', hs', ha⟩ := ht.holder ho
          have he : e' ≠ e := by
            rintro rfl
            cases h.symm.trans hs'
            exact hfreed ⟨ha, ho⟩
          rw [if_neg he]
          exact ⟨s', hs', ha⟩

theorem mem_stale (ht : t.Truthful) {now : Time} {threshold : Duration} {e : Endpoint} :
    e ∈ t.stale now threshold ↔ ∃ s, t.find? e = some s ∧ s.isExpired now threshold = true := by
  simp only [stale, List.mem_map, List.mem_filter, mem_values]
  constructor
  · rintro ⟨s, ⟨⟨e', hs⟩, hx⟩, rfl⟩
    exact ⟨s, by rwa [ht.endpoint_eq hs], hx⟩
  · rintro ⟨s, hs, hx⟩
    exact ⟨s, ⟨⟨e, hs⟩, hx⟩, ht.endpoint_eq hs⟩

end Truthful

/-- The index is exact. -/
structure Indexed (t : SessionTable) : Prop where
  endpoint_eq : ∀ {e : Endpoint} {s : Session}, t.find? e = some s → s.endpoint = e
  owner_iff : ∀ {a : Address} {e : Endpoint},
    t.endpointFor? a = some e ↔ ∃ s, t.find? e = some s ∧ s.addresses.contains a = true

theorem indexed_empty : empty.Indexed where
  endpoint_eq h := by cases h
  owner_iff := by simp

namespace Indexed

variable {t : SessionTable}

theorem unique (ht : t.Indexed) {e e' : Endpoint} {s s' : Session} {a : Address}
    (hs : t.find? e = some s) (hs' : t.find? e' = some s')
    (ha : s.addresses.contains a = true) (ha' : s'.addresses.contains a = true) : e = e' := by
  have h := ht.owner_iff.mpr ⟨s, hs, ha⟩
  have h' := ht.owner_iff.mpr ⟨s', hs', ha'⟩
  exact Option.some.inj (h.symm.trans h')

theorem contains_iff (ht : t.Indexed) {e : Endpoint} {s : Session} (hs : t.find? e = some s)
    (a : Address) :
    s.addresses.contains a = true ↔ t.endpointFor? a = some e := by
  rw [ht.owner_iff]
  constructor
  · intro ha
    exact ⟨s, hs, ha⟩
  · rintro ⟨s', hs', ha⟩
    rw [hs] at hs'
    cases hs'
    exact ha

theorem truthful (ht : t.Indexed) : t.Truthful := ⟨ht.endpoint_eq, ht.owner_iff.mp⟩

theorem endpointFor?_remove (ht : t.Indexed) (e : Endpoint) (a : Address) :
    (t.remove e).endpointFor? a = if t.endpointFor? a = some e then none else t.endpointFor? a :=
  ht.truthful.endpointFor?_remove e a

theorem remove (ht : t.Indexed) (e : Endpoint) : (t.remove e).Indexed where
  endpoint_eq := (ht.truthful.remove e).endpoint_eq
  owner_iff {a e'} := by
    rw [ht.endpointFor?_remove, find?_remove]
    by_cases he : e' = e
    · subst he
      by_cases ho : t.endpointFor? a = some e' <;> simp [ho]
    · rw [if_neg he, ← ht.owner_iff]
      by_cases ho : t.endpointFor? a = some e
      · simp [ho, Ne.symm he]
      · rw [if_neg ho]

theorem removeAll (ht : t.Indexed) (es : List Endpoint) : (t.removeAll es).Indexed := by
  induction es generalizing t with
  | nil => exact ht
  | cons e rest ih => exact ih (ht.remove e)

/-- In an indexed table removal frees exactly the addresses of the removed sessions. -/
theorem endpointFor?_removeAll (ht : t.Indexed) (es : List Endpoint) {a : Address} {e : Endpoint} :
    (t.removeAll es).endpointFor? a = some e ↔ t.endpointFor? a = some e ∧ e ∉ es :=
  ht.truthful.endpointFor?_removeAll es

theorem modify (ht : t.Indexed) (e : Endpoint) {f : Session → Session} (hf : Keeps f) :
    (t.modify e f).Indexed where
  endpoint_eq := (ht.truthful.modify e hf).endpoint_eq
  owner_iff {a e'} := by
    rw [endpointFor?_modify, find?_modify, ht.owner_iff]
    by_cases he : e' = e
    · rw [if_pos he]
      constructor
      · rintro ⟨s, hs, ha⟩
        exact ⟨f s, by rw [hs]; rfl, by rwa [(hf s).2]⟩
      · rintro ⟨s, hs, ha⟩
        obtain ⟨s₀, hs₀, rfl⟩ := Option.map_eq_some_iff.mp hs
        exact ⟨s₀, hs₀, by rwa [(hf s₀).2] at ha⟩
    · rw [if_neg he]

theorem ensure (ht : t.Indexed) (e : Endpoint) (now : Time) : (t.ensure e now).Indexed where
  endpoint_eq := (ht.truthful.ensure e now).endpoint_eq
  owner_iff {a e'} := by
    rw [endpointFor?_ensure, find?_ensure, ht.owner_iff]
    by_cases he : e' = e
    · subst he
      rw [if_pos rfl]
      cases h : t.find? e' with
      | none =>
        have hstart : (Session.start e' now).addresses.contains a = false :=
          VirtualAddresses.contains_empty a
        simp [hstart]
      | some s => simp
    · rw [if_neg he]

/-- Addresses that no other session holds can be given away. -/
theorem setAddresses (ht : t.Indexed) (e : Endpoint) {v : VirtualAddresses}
    (hfree : ∀ a e', v.contains a = true → t.endpointFor? a = some e' → e' = e) :
    (t.setAddresses e v).Indexed := by
  cases h : t.find? e with
  | none =>
    rw [setAddresses_of_find?_eq_none h]
    exact ht
  | some s =>
    refine ⟨(ht.truthful.setAddresses e v).endpoint_eq, fun {a e'} => ?_⟩
    rw [endpointFor?_setAddresses h, find?_setAddresses]
    simp only [ht.contains_iff h, and_self]
    by_cases he : e' = e
    · subst he
      by_cases hv : v.contains a = true
      · simp [hv, h]
      · by_cases ho : t.endpointFor? a = some e' <;> simp [hv, ho, h]
    · rw [if_neg he, ← ht.owner_iff]
      by_cases hv : v.contains a = true
      · have hne : t.endpointFor? a ≠ some e' := fun ho => he (hfree a e' hv ho)
        simp [hv, hne, Ne.symm he]
      · by_cases ho : t.endpointFor? a = some e
        · simp [hv, ho, Ne.symm he]
        · simp [hv, ho]

theorem mem_stale (ht : t.Indexed) {now : Time} {threshold : Duration} {e : Endpoint} :
    e ∈ t.stale now threshold ↔ ∃ s, t.find? e = some s ∧ s.isExpired now threshold = true :=
  ht.truthful.mem_stale

theorem mem_endpoints (ht : t.Indexed) {e : Endpoint} :
    e ∈ t.endpoints ↔ ∃ s, t.find? e = some s := by
  simp only [endpoints, inOrder, List.mem_map, List.mem_mergeSort, mem_values]
  constructor
  · rintro ⟨s, ⟨e', hs⟩, rfl⟩
    exact ⟨s, by rwa [ht.endpoint_eq hs]⟩
  · rintro ⟨s, hs⟩
    exact ⟨s, ⟨e, hs⟩, ht.endpoint_eq hs⟩

end Indexed

end SessionTable

end PacketTunnel
