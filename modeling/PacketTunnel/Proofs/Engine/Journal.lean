import Mathlib.Algebra.Ring.Nat
import PacketTunnel.Proofs.Engine.Calls

/-!
# The journal of a run

A journal holds a record of every moment of a run, the latest first: the state before, what
happened, the state after and what was emitted. What an engine counts for itself is compared with
its journal: a counter with the number of the records it is about, and a session with the records
since it began, which are the latest ones after each of which it was there.
-/
namespace PacketTunnel

namespace Tally

def ofSizes (sizes : List Nat) : Tally := ⟨.ofNat sizes.length, .ofNat sizes.sum⟩

theorem foldl_add (t : Tally) (sizes : List Nat) :
    sizes.foldl add t = ⟨t.packets + .ofNat sizes.length, t.bytes + .ofNat sizes.sum⟩ := by
  induction sizes generalizing t with
  | nil => simp
  | cons size rest ih =>
    rw [List.foldl_cons, ih, List.length_cons, List.sum_cons, UInt64.ofNat_add, UInt64.ofNat_add,
      add]
    congr 1
    · rw [UInt64.add_assoc, UInt64.add_comm 1]
      rfl
    · rw [UInt64.add_assoc]

theorem foldl_add_ofSizes (later earlier : List Nat) :
    later.foldl add (ofSizes earlier) = ofSizes (later ++ earlier) := by
  rw [foldl_add, ofSizes, ofSizes, List.length_append, List.sum_append, UInt64.ofNat_add,
    UInt64.ofNat_add, UInt64.add_comm, UInt64.add_comm (UInt64.ofNat later.sum)]

/-- A tally shows the number and the total size of datagrams, as far as it can show these numbers.
-/
structure Counts (t : Tally) (sizes : List Nat) : Prop where
  packets : sizes.length < 2 ^ 64 → t.packets.toNat = sizes.length
  bytes : sizes.sum < 2 ^ 64 → t.bytes.toNat = sizes.sum

theorem counts_ofSizes (sizes : List Nat) : (ofSizes sizes).Counts sizes :=
  ⟨UInt64.toNat_ofNat_of_lt', UInt64.toNat_ofNat_of_lt'⟩

end Tally

def Event.isArrival : Event → Bool
  | .datagram .. => true
  | _ => false

namespace Emission

def isDatagram : Emission → Bool
  | .datagram .. => true
  | .packet _ => false

def sizesTo (e : Endpoint) : Emission → List Nat
  | .datagram _ bytes recipient => if recipient = e then [bytes.length] else []
  | .packet _ => []

end Emission

/-- What becomes of a datagram that arrives. -/
inductive Verdict where
  | decoded
  | malformed
  | unauthentic
  /-- From elsewhere than the only peer. -/
  | foreign
deriving DecidableEq, Repr

namespace Verdict

def ofDecoding : Except Rejection Message → Verdict
  | .ok _ => decoded
  | .error (.malformed _) => malformed
  | .error .unauthentic => unauthentic

def read (n : Counters) : Verdict → UInt64
  | decoded => n.datagramsIn
  | malformed => n.droppedFormat
  | unauthentic => n.droppedAuth
  | foreign => n.droppedUnknown

end Verdict

namespace Counters

def judge (n : Counters) : Verdict → Counters
  | .decoded => { n with datagramsIn := n.datagramsIn + 1 }
  | .malformed => { n with droppedFormat := n.droppedFormat + 1 }
  | .unauthentic => { n with droppedAuth := n.droppedAuth + 1 }
  | .foreign => { n with droppedUnknown := n.droppedUnknown + 1 }

theorem read_judge (n : Counters) (verdict? : Option Verdict) (v : Verdict) :
    v.read (verdict?.elim n n.judge) = v.read n + if verdict? = some v then 1 else 0 := by
  cases verdict? with
  | none => cases v <;> simp [Verdict.read]
  | some w => cases v <;> cases w <;> simp [Verdict.read, judge]

theorem credited_judge (n : Counters) (verdict? : Option Verdict) :
    (verdict?.elim n n.judge).datagramsOut = n.datagramsOut ∧
      (verdict?.elim n n.judge).deviceWrites = n.deviceWrites := by
  cases verdict? with
  | none => exact ⟨rfl, rfl⟩
  | some w => cases w <;> exact ⟨rfl, rfl⟩

def credit (n : Counters) : Emission → Counters
  | .datagram .. => { n with datagramsOut := n.datagramsOut + 1 }
  | .packet _ => { n with deviceWrites := n.deviceWrites + 1 }

theorem credits (n : Counters) (emissions : List Emission) :
    (emissions.foldl credit n).datagramsOut = n.datagramsOut +
      .ofNat (emissions.countP Emission.isDatagram) ∧
      (emissions.foldl credit n).deviceWrites = n.deviceWrites +
        .ofNat (emissions.countP (!·.isDatagram)) ∧
      ∀ v : Verdict, v.read (emissions.foldl credit n) = v.read n := by
  induction emissions generalizing n with
  | nil => simp
  | cons emission rest ih =>
    obtain ⟨hout, hwrites, hread⟩ := ih (n.credit emission)
    rw [List.foldl_cons, hout, hwrites]
    cases emission with
    | datagram m bytes e =>
      refine ⟨?_, rfl, fun v => (hread v).trans (by cases v <;> rfl)⟩
      rw [List.countP_cons_of_pos rfl, Nat.add_comm, UInt64.ofNat_add, ← UInt64.add_assoc]
      rfl
    | packet bytes =>
      refine ⟨rfl, ?_, fun v => (hread v).trans (by cases v <;> rfl)⟩
      rw [List.countP_cons_of_pos rfl, Nat.add_comm, UInt64.ofNat_add, ← UInt64.add_assoc]
      rfl

end Counters

namespace Engine

variable {σ : Type} {E : Engine σ} {s : σ}

structure Record (σ : Type) where
  before : σ
  moment : Moment
  after : σ
  emissions : List Emission

def record (E : Engine σ) (s : σ) (m : Moment) : Record σ :=
  ⟨s, m, (E.step m.conditions m.now m.event s).1, (E.step m.conditions m.now m.event s).2⟩

/-- The records of the calls, on top of earlier ones. -/
def journal (E : Engine σ) (s : σ) (past : List (Record σ)) : List Call → List (Record σ)
  | [] => past
  | .moment m :: rest =>
    E.journal (E.step m.conditions m.now m.event s).1 (E.record s m :: past) rest
  | .takeJobs :: rest => E.journal (E.takeJobs s).2 past rest

theorem map_moment_journal (past : List (Record σ)) (calls : List Call) :
    (E.journal s past calls).map Record.moment = (calls.filterMap Call.moment?).reverse ++
      past.map Record.moment := by
  induction calls generalizing s past with
  | nil => rfl
  | cons k rest ih =>
    cases k with
    | takeJobs => exact ih past
    | moment m =>
      refine (ih (E.record s m :: past)).trans ?_
      rw [List.map_cons, List.append_cons, ← List.reverse_cons]
      rfl

/-- What one moment preserves between a state and its journal, and the taking of jobs too, all calls
preserve. -/
theorem journal_preserves {P : σ → List (Record σ) → Prop}
    (hstep : ∀ s past m, P s past →
      P (E.step m.conditions m.now m.event s).1 (E.record s m :: past))
    (hjobs : ∀ s past, P s past → P (E.takeJobs s).2 past) {past : List (Record σ)} (h : P s past)
    (calls : List Call) : P (E.serve s calls).1 (E.journal s past calls) := by
  induction calls generalizing s past with
  | nil => exact h
  | cons k rest ih =>
    cases k with
    | moment m => exact ih (hstep s past m h)
    | takeJobs => exact ih (hjobs s past h)

def arrivals (past : List (Record σ)) : Nat := past.countP fun r => r.moment.event.isArrival

def sendings (past : List (Record σ)) : Nat :=
  (past.flatMap Record.emissions).countP Emission.isDatagram

def writings (past : List (Record σ)) : Nat :=
  (past.flatMap Record.emissions).countP (!·.isDatagram)

def judgements (verdict? : σ → Event → Option Verdict) (v : Verdict) (past : List (Record σ)) :
    Nat :=
  past.countP fun r => verdict? r.before r.moment.event = some v

/-- An engine counts what arrives by one of several verdicts, and what it is credited with. -/
structure Metered (E : Engine σ) (counters : σ → Counters) (verdicts : List Verdict)
    (verdict? : σ → Event → Option Verdict) : Prop where
  judged : ∀ s event, verdicts.countP (fun v => verdict? s event = some v) = if event.isArrival then
    1 else 0
  read : ∀ s now event, ∀ v ∈ verdicts, v.read (counters (E.react s now event).1) =
    v.read (counters s) + if verdict? s event = some v then 1 else 0
  out : ∀ s now event, (counters (E.react s now event).1).datagramsOut = (counters s).datagramsOut
  writes : ∀ s now event, (counters (E.react s now event).1).deviceWrites =
    (counters s).deviceWrites
  credit : ∀ s emission, counters (E.credit s emission) = (counters s).credit emission
  takeJobs : ∀ s, counters (E.takeJobs s).2 = counters s

/-- The counters show what the journal says, up to multiples of their size. -/
structure Agrees (n : Counters) (verdicts : List Verdict) (verdict? : σ → Event → Option Verdict)
    (past : List (Record σ)) : Prop where
  read : ∀ v ∈ verdicts, v.read n = .ofNat (judgements verdict? v past)
  out : n.datagramsOut = .ofNat (sendings past)
  writes : n.deviceWrites = .ofNat (writings past)

variable {counters : σ → Counters} {verdicts : List Verdict} {verdict? : σ → Event → Option Verdict}
  {past : List (Record σ)}

theorem Agrees.zero : Agrees .zero verdicts verdict? ([] : List (Record σ)) :=
  ⟨fun v _ => by cases v <;> rfl, rfl, rfl⟩

theorem sum_map_add_countP (f : Verdict → Nat) (p : Verdict → Bool) (verdicts : List Verdict) :
    (verdicts.map fun v => f v + if p v then 1 else 0).sum = (verdicts.map f).sum +
      verdicts.countP p := by
  induction verdicts with
  | nil => rfl
  | cons v rest ih =>
    simp only [List.map_cons, List.sum_cons, ih, List.countP_cons]
    omega

namespace Metered

variable (h : E.Metered counters verdicts verdict?)
include h

theorem credits (s : σ) (emissions : List Emission) :
    counters (emissions.foldl E.credit s) = emissions.foldl Counters.credit (counters s) := by
  induction emissions generalizing s with
  | nil => rfl
  | cons emission rest ih => rw [List.foldl_cons, ih, h.credit, List.foldl_cons]

theorem agrees_step (hs : Agrees (counters s) verdicts verdict? past) (m : Moment) :
    Agrees (counters (E.step m.conditions m.now m.event s).1) verdicts verdict?
      (E.record s m :: past) := by
  have hcredits := h.credits (E.react s m.now m.event).1 (E.record s m).emissions
  obtain ⟨hout, hwrites, hread⟩ :=
    Counters.credits (counters (E.react s m.now m.event).1) (E.record s m).emissions
  rw [← hcredits] at hout hwrites hread
  constructor
  · intro v hv
    refine (hread v).trans ?_
    rw [h.read s m.now m.event v hv, hs.read v hv, judgements, judgements, List.countP_cons,
      UInt64.ofNat_add]
    congr 1
    by_cases hjudged : verdict? s m.event = some v
    · simp [record, hjudged]
    · simp [record, hjudged]
  · refine hout.trans ?_
    rw [h.out, hs.out, sendings, sendings, List.flatMap_cons, List.countP_append, UInt64.ofNat_add,
      UInt64.add_comm]
  · refine hwrites.trans ?_
    rw [h.writes, hs.writes, writings, writings, List.flatMap_cons, List.countP_append,
      UInt64.ofNat_add, UInt64.add_comm]

theorem agrees_serve (hs : Agrees (counters s) verdicts verdict? past) (calls : List Call) :
    Agrees (counters (E.serve s calls).1) verdicts verdict? (E.journal s past calls) :=
  journal_preserves (P := fun s past => Agrees (counters s) verdicts verdict? past)
    (fun _ _ m hs => h.agrees_step hs m) (fun s _ hs => by rw [h.takeJobs s]; exact hs) hs calls

theorem sum_judgements (past : List (Record σ)) :
    (verdicts.map fun v => judgements verdict? v past).sum = arrivals past := by
  induction past with
  | nil => simp [judgements, arrivals, List.map_const']
  | cons r rest ih =>
    have hjudged := h.judged r.before r.moment.event
    simp only [judgements, arrivals, List.countP_cons] at ih ⊢
    rw [sum_map_add_countP, ih, hjudged]

end Metered

/-- The counters show how many datagrams have arrived with each verdict and in all, and how many
were sent and packets written, as far as they can show these numbers. -/
structure Shows (n : Counters) (verdicts : List Verdict) (verdict? : σ → Event → Option Verdict)
    (past : List (Record σ)) : Prop where
  judged : ∀ v ∈ verdicts, judgements verdict? v past < 2 ^ 64 →
    (v.read n).toNat = judgements verdict? v past
  arrived : (∀ v ∈ verdicts, judgements verdict? v past < 2 ^ 64) →
    (verdicts.map fun v => (v.read n).toNat).sum = arrivals past
  sent : sendings past < 2 ^ 64 → n.datagramsOut.toNat = sendings past
  written : writings past < 2 ^ 64 → n.deviceWrites.toNat = writings past

theorem Metered.shows (h : E.Metered counters verdicts verdict?)
    (hs : Agrees (counters s) verdicts verdict? past) :
    Shows (counters s) verdicts verdict? past := by
  have hjudged (v : Verdict) (hv : v ∈ verdicts) (hroom : judgements verdict? v past < 2 ^ 64) :
      (v.read (counters s)).toNat = judgements verdict? v past := by
    rw [hs.read v hv]
    exact UInt64.toNat_ofNat_of_lt' hroom
  refine ⟨hjudged, fun hroom => ?_, fun hroom => ?_, fun hroom => ?_⟩
  · rw [← h.sum_judgements past]
    exact congrArg List.sum (List.map_congr_left fun v hv => hjudged v hv (hroom v hv))
  · rw [hs.out]
    exact UInt64.toNat_ofNat_of_lt' hroom
  · rw [hs.writes]
    exact UInt64.toNat_ofNat_of_lt' hroom

/-- The sizes of the datagrams from an endpoint that decode: one or none at an event. -/
def sizesFrom (E : Engine σ) (s : σ) (e : Endpoint) : Event → List Nat
  | .datagram bytes sender =>
    if sender = e then ((E.codec s).decode bytes).toOption.toList.map fun _ => bytes.length else []
  | _ => []

theorem sizesFrom_of_decode {e : Endpoint} {bytes : Bytes} {m : Message}
    (hd : (E.codec s).decode bytes = .ok m) :
    E.sizesFrom s e (.datagram bytes e) = [bytes.length] := by
  rw [sizesFrom, if_pos rfl, hd]
  rfl

theorem sizesFrom_eq_nil {e : Endpoint} {event : Event}
    (h : ∀ bytes m, event = .datagram bytes e → (E.codec s).decode bytes ≠ .ok m) :
    E.sizesFrom s e event = [] := by
  cases event with
  | datagram bytes sender =>
    rw [sizesFrom]
    split
    · rename_i hsender
      subst hsender
      cases hd : (E.codec s).decode bytes with
      | ok m => exact absurd hd (h bytes m rfl)
      | error r => rfl
    · rfl
  | _ => rfl

namespace Record

def sizesFrom (E : Engine σ) (e : Endpoint) (r : Record σ) : List Nat :=
  E.sizesFrom r.before e r.moment.event

def sizesTo (e : Endpoint) (r : Record σ) : List Nat := r.emissions.flatMap (Emission.sizesTo e)

end Record

variable {session? : σ → Endpoint → Option Session} {e : Endpoint} {x : Session}

/-- The records since the session of an endpoint began: the latest ones, after each of which there
was one. -/
def since (session? : σ → Endpoint → Option Session) (e : Endpoint) (past : List (Record σ)) :
    List (Record σ) :=
  past.takeWhile fun r => (session? r.after e).isSome

/-- A session is as old as the earliest of the records, and has counted what came from its peer and
what went to it. -/
structure Totals (E : Engine σ) (e : Endpoint) (recent : List (Record σ)) (x : Session) : Prop where
  created : recent.getLast?.map (fun r => r.moment.now) = some x.created
  received : x.received = .ofSizes (recent.flatMap (Record.sizesFrom E e))
  sent : x.sent = .ofSizes (recent.flatMap (Record.sizesTo e))

structure Continues (E : Engine σ) (before : Option Session) (e : Endpoint) (r : Record σ)
    (x : Session) : Prop where
  created : x.created = before.elim r.moment.now Session.created
  received : x.received = (r.sizesFrom E e).foldl Tally.add (before.elim .zero Session.received)
  sent : x.sent = (r.sizesTo e).foldl Tally.add (before.elim .zero Session.sent)

theorem Continues.first {r : Record σ} (h : Continues E none e r x) : Totals E e [r] x where
  created := congrArg some h.created.symm
  received := by
    rw [h.received, List.flatMap_cons, List.flatMap_nil]
    exact Tally.foldl_add_ofSizes _ []
  sent := by
    rw [h.sent, List.flatMap_cons, List.flatMap_nil]
    exact Tally.foldl_add_ofSizes _ []

theorem Continues.next {r : Record σ} {x₀ : Session} {recent : List (Record σ)}
    (h : Continues E (some x₀) e r x) (hx₀ : Totals E e recent x₀) :
    Totals E e (r :: recent) x where
  created := by
    obtain ⟨first, hfirst, hcreated⟩ := Option.map_eq_some_iff.mp hx₀.created
    rw [List.getLast?_cons, hfirst, h.created]
    exact congrArg some hcreated
  received := by
    rw [h.received, List.flatMap_cons, ← Tally.foldl_add_ofSizes, ← hx₀.received]
    rfl
  sent := by
    rw [h.sent, List.flatMap_cons, ← Tally.foldl_add_ofSizes, ← hx₀.sent]
    rfl

/-- Every session whose records are steady has their totals, and there are no records since a
session where none is. -/
structure Balanced (E : Engine σ) (session? : σ → Endpoint → Option Session)
    (steady : Record σ → Prop) (s : σ) (past : List (Record σ)) : Prop where
  live : ∀ e x, session? s e = some x → (∀ r ∈ since session? e past, steady r) →
    Totals E e (since session? e past) x
  gone : ∀ e, session? s e = none → since session? e past = []

variable {steady : Record σ → Prop}

theorem Balanced.nil (h : ∀ e, session? s e = none) : Balanced E session? steady s [] where
  live e x hx := by
    rw [h e] at hx
    cases hx
  gone _ _ := rfl

theorem Balanced.step (h : Balanced E session? steady s past) (m : Moment)
    (hcontinues : ∀ e x, steady (E.record s m) → session? (E.record s m).after e = some x →
      Continues E (session? s e) e (E.record s m) x) :
    Balanced E session? steady (E.record s m).after (E.record s m :: past) where
  gone e hnone := by
    rw [since, List.takeWhile_cons, hnone, Option.isSome_none, if_neg Bool.false_ne_true]
  live e x hx hsteady := by
    have hsince : since session? e (E.record s m :: past) = E.record s m ::
        since session? e past := by
      rw [since, List.takeWhile_cons, hx, Option.isSome_some, if_pos rfl, since]
    rw [hsince] at hsteady ⊢
    have hcontinued := hcontinues e x (hsteady _ List.mem_cons_self) hx
    cases hbefore : session? s e with
    | none =>
      rw [hbefore] at hcontinued
      rw [h.gone e hbefore]
      exact hcontinued.first
    | some x₀ =>
      rw [hbefore] at hcontinued
      exact hcontinued.next (h.live e x₀ hbefore fun r hr => hsteady r (List.mem_cons_of_mem _ hr))

/-- A session shows the number and the total size of the datagrams that came from its peer and of
those that went to it since it began, as far as it can, and it began with the earliest of the
records. -/
structure Accounts (E : Engine σ) (e : Endpoint) (recent : List (Record σ)) (x : Session) :
    Prop where
  created : recent.getLast?.map (fun r => r.moment.now) = some x.created
  received : x.received.Counts (recent.flatMap (Record.sizesFrom E e))
  sent : x.sent.Counts (recent.flatMap (Record.sizesTo e))

theorem Totals.accounts {recent : List (Record σ)} (h : Totals E e recent x) :
    Accounts E e recent x where
  created := h.created
  received := by
    rw [h.received]
    exact Tally.counts_ofSizes _
  sent := by
    rw [h.sent]
    exact Tally.counts_ofSizes _

end Engine

end PacketTunnel
