import PacketTunnel.Proofs.Session.AddressIndex

/-!
# The index and the history of a table

Sessions may be given any addresses, also such as others hold. Whom the index then leads to is said
here of the operations that made the table: an address belongs to the endpoint that it was last
given to, until the session there is removed, or expires, or is given addresses without it. What
becomes of a session that held the address before makes no difference.
-/
namespace PacketTunnel.SessionTable

/-- What is done to a table. A session may be changed in any way that leaves its endpoint and its
addresses. -/
inductive Operation where
  | ensure (e : Endpoint) (now : Time)
  | modify (e : Endpoint) (f : Session → Session) (keeps : Keeps f)
  | setAddresses (e : Endpoint) (v : VirtualAddresses)
  | remove (e : Endpoint)
  | expire (now : Time) (threshold : Duration)

def perform (t : SessionTable) : Operation → SessionTable
  | .ensure e now => t.ensure e now
  | .modify e f _ => t.modify e f
  | .setAddresses e v => t.setAddresses e v
  | .remove e => t.remove e
  | .expire now threshold => t.expire now threshold

def performAll (t : SessionTable) (ops : List Operation) : SessionTable := ops.foldl perform t

namespace Operation

/-- Whether an operation on a table gives an address to an endpoint. Only a session can be given
addresses. -/
def Gives (t : SessionTable) (a : Address) (e : Endpoint) : Operation → Prop
  | .setAddresses e' v => e' = e ∧ t.contains e = true ∧ v.contains a = true
  | _ => False

/-- Whether an operation on a table ends what an endpoint has of an address: the session is removed,
expires, or is given addresses without it. -/
def Ends (t : SessionTable) (a : Address) (e : Endpoint) : Operation → Prop
  | .setAddresses e' v => e' = e ∧ t.contains e = true ∧ v.contains a = false
  | .remove e' => e' = e
  | .expire now threshold => ∃ s, t.find? e = some s ∧ s.isExpired now threshold = true
  | _ => False

end Operation

def Undisturbed (a : Address) (e : Endpoint) : SessionTable → List Operation → Prop
  | _, [] => True
  | t, op :: later =>
    (∀ e', ¬ op.Gives t a e') ∧ ¬ op.Ends t a e ∧ Undisturbed a e (t.perform op) later

/-- Of the operations on a table the last one that gave an address gave it to the endpoint, and
nothing has ended that since. -/
def LastGiven (t : SessionTable) (ops : List Operation) (a : Address) (e : Endpoint) : Prop :=
  ∃ before op after, ops = before ++ op :: after ∧ op.Gives (t.performAll before) a e ∧
    Undisturbed a e ((t.performAll before).perform op) after

variable {t : SessionTable} {a : Address} {e : Endpoint}

namespace Truthful

theorem perform (ht : t.Truthful) (op : Operation) : (t.perform op).Truthful := by
  cases op with
  | ensure e now => exact ht.ensure e now
  | modify e f keeps => exact ht.modify e keeps
  | setAddresses e v => exact ht.setAddresses e v
  | remove e => exact ht.remove e
  | expire now threshold => exact ht.removeAll _

theorem performAll (ht : t.Truthful) (ops : List Operation) : (t.performAll ops).Truthful := by
  induction ops generalizing t with
  | nil => exact ht
  | cons op later ih => exact ih (ht.perform op)

/-- After an operation the index leads to an endpoint exactly if it gave the address to it, or it
led there before and the operation neither gave the address to anybody nor ended what the endpoint
has of it. -/
theorem endpointFor?_perform (ht : t.Truthful) (op : Operation) :
    (t.perform op).endpointFor? a = some e ↔
      op.Gives t a e ∨ t.endpointFor? a = some e ∧ (∀ e', ¬ op.Gives t a e') ∧ ¬ op.Ends t a e := by
  cases op with
  | ensure e' now => simp [SessionTable.perform, Operation.Gives, Operation.Ends]
  | modify e' f keeps => simp [SessionTable.perform, Operation.Gives, Operation.Ends]
  | remove e' =>
    have hremove : (t.perform (.remove e')).endpointFor? a = some e ↔ t.endpointFor? a = some e ∧
        e ∉ [e'] :=
      ht.endpointFor?_removeAll [e']
    rw [hremove]
    simp [Operation.Gives, Operation.Ends, eq_comm]
  | expire now threshold =>
    have hexpire : (t.perform (.expire now threshold)).endpointFor? a = some e ↔
        t.endpointFor? a = some e ∧ e ∉ t.stale now threshold := ht.endpointFor?_removeAll _
    rw [hexpire, ht.mem_stale]
    simp [Operation.Gives, Operation.Ends]
  | setAddresses e' v =>
    rw [SessionTable.perform]
    simp only [Operation.Gives, Operation.Ends, contains_eq_isSome]
    cases h : t.find? e' with
    | none =>
      rw [setAddresses_of_find?_eq_none h]
      grind
    | some s =>
      have hholds : t.endpointFor? a = some e' → s.addresses.contains a = true := ht.contains h
      rw [endpointFor?_setAddresses h]
      grind

end Truthful

theorem performAll_cons (t : SessionTable) (op : Operation) (ops : List Operation) :
    t.performAll (op :: ops) = (t.perform op).performAll ops := rfl

theorem lastGiven_cons {op : Operation} {ops : List Operation} :
    t.LastGiven (op :: ops) a e ↔
      op.Gives t a e ∧ Undisturbed a e (t.perform op) ops ∨ (t.perform op).LastGiven ops a e := by
  constructor
  · rintro ⟨before, given, after, heq, hgives, hafter⟩
    cases before with
    | nil =>
      obtain ⟨rfl, rfl⟩ := List.cons.inj heq
      exact .inl ⟨hgives, hafter⟩
    | cons first before =>
      obtain ⟨rfl, rfl⟩ := List.cons.inj heq
      exact .inr ⟨before, given, after, rfl, hgives, hafter⟩
  · rintro (⟨hgives, hafter⟩ | ⟨before, given, after, rfl, hgives, hafter⟩)
    · exact ⟨[], op, ops, rfl, hgives, hafter⟩
    · exact ⟨op :: before, given, after, rfl, hgives, hafter⟩

theorem Truthful.endpointFor?_performAll (ht : t.Truthful) (ops : List Operation) :
    (t.performAll ops).endpointFor? a = some e ↔
      t.LastGiven ops a e ∨ t.endpointFor? a = some e ∧ Undisturbed a e t ops := by
  induction ops generalizing t with
  | nil =>
    have hnone : ¬ t.LastGiven [] a e := by
      rintro ⟨before, given, after, heq, -⟩
      cases before <;> cases heq
    simp [SessionTable.performAll, Undisturbed, hnone]
  | cons op later ih =>
    rw [performAll_cons, ih (ht.perform op), lastGiven_cons, ht.endpointFor?_perform, Undisturbed]
    grind

/-- After any operations on an empty table the index leads from an address to an endpoint exactly if
the address was last given to it and that has not ended since; then there is a session at the
endpoint and it holds the address. Addresses that are given to an endpoint without a session change
nothing, and an address is taken if it leads to another endpoint. -/
theorem assignments_exact (ops : List Operation) (a : Address) :
    let t := empty.performAll ops
    (∀ e, t.endpointFor? a = some e ↔ empty.LastGiven ops a e) ∧
      (∀ e, t.endpointFor? a = some e → ∃ s, t.find? e = some s ∧ s.addresses.contains a = true) ∧
      (∀ e v, t.contains e = false → t.setAddresses e v = t) ∧
      ∀ e, t.isTaken a e = true ↔ ∃ e', t.endpointFor? a = some e' ∧ e' ≠ e := by
  intro t
  have ht : t.Truthful := truthful_empty.performAll ops
  refine ⟨fun e => ?_, fun e ho => ht.holder ho, fun e v hnone => ?_, fun e => ?_⟩
  · rw [truthful_empty.endpointFor?_performAll]
    simp
  · rw [contains_eq_isSome, Option.isSome_eq_false_iff, Option.isNone_iff_eq_none] at hnone
    exact setAddresses_of_find?_eq_none hnone v
  · rw [isTaken, Option.any_eq_true]
    simp

def at7 (port : UInt16) : Endpoint := .v4 0xc6336407 port

/-- Two endpoints are given 10.7.0.2 one after the other, and then the first session is removed. -/
def overridden : List Operation :=
  [.ensure (at7 1) 0, .ensure (at7 2) 0, .setAddresses (at7 1) (.single (.v4 0x0a070002)),
    .setAddresses (at7 2) (.single (.v4 0x0a070002)), .remove (at7 1)]

theorem assignments_exact_overridden :
    (empty.performAll overridden).endpointFor? (.v4 0x0a070002) = some (at7 2) ∧
      empty.LastGiven overridden (.v4 0x0a070002) (at7 2) ∧
      (empty.performAll overridden).contains (at7 1) = false ∧
      (empty.performAll overridden).setAddresses (at7 1) (.single (.v4 0x0a070003)) =
        empty.performAll overridden := by
  obtain ⟨hindex, -, hunknown, -⟩ := assignments_exact overridden (.v4 0x0a070002)
  have hfound : (empty.performAll overridden).endpointFor? (.v4 0x0a070002) = some (at7 2) := by
    decide
  have hgone : (empty.performAll overridden).contains (at7 1) = false := by decide
  exact ⟨hfound, (hindex _).mp hfound, hgone, hunknown _ _ hgone⟩

end PacketTunnel.SessionTable
