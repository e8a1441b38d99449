import PacketTunnel.Proofs.Loop.Following

/-!
# Transcripts

A host and an engine can be made to note what they are asked for and what they give, each deed at
the end of a log. The loop over them follows the loop over those that do not, so that the log of a
run is one of what the loop really does. `Notes` says which deeds a computation adds to any log, and
is proved of a sequence of steps one step at a time.
-/
namespace PacketTunnel

/-- What the loop can do, with what comes of it. -/
inductive Deed where
  | asked (stopping : Bool)
  | clock (now : Time)
  | calendar (milliseconds : UInt64)
  | waited (duration : Duration) (ready : Readiness)
  | received (reading : Reading (Bytes × Endpoint))
  | read (reading : Reading Bytes)
  | finished (outcomes : List HostOutcome)
  | submitted (job : HostJob)
  | published (snapshot : Snapshot)
  | withdrawn
  | handled (now : Time) (event : Event)
  | took (jobs : List HostJob)
  | described (now : Time) (snapshot : Snapshot)

section

variable {m : Type → Type} [Monad m]

def noted {α : Type} (x : m α) (deed : α → Deed) : StateT (List Deed) m α := do
  let a ← x
  modify fun log => log ++ [deed a]
  pure a

def WorkerPort.noting (worker : WorkerPort m) : WorkerPort (StateT (List Deed) m) where
  finished := noted worker.finished .finished
  submit job := noted (worker.submit job) fun _ => .submitted job

def Host.noting (host : Host m) : Host (StateT (List Deed) m) where
  stopping := noted host.stopping .asked
  now := noted host.now .clock
  calendar := noted host.calendar .calendar
  wait duration := noted (host.wait duration) (.waited duration)
  receive := noted host.receive .received
  read := noted host.read .read
  worker := host.worker.map WorkerPort.noting
  publish snapshot := noted (host.publish snapshot) fun _ => .published snapshot
  withdraw := noted host.withdraw fun _ => .withdrawn

def Handler.noting (handler : Handler m) : Handler (StateT (List Deed) m) where
  handle now event := noted (handler.handle now event) fun _ => .handled now event
  takeJobs := noted handler.takeJobs .took
  snapshot now := noted (handler.snapshot now) (.described now)

end

variable {W α β : Type}

def AnyLog (_ : List Deed) : Prop := True

theorem follows_noted (x : StateM W α) (deed : α → Deed) : Follows AnyLog (noted x deed) x :=
  fun log _ w => ⟨log ++ [deed (x w).1], trivial, rfl⟩

theorem WorkerPort.follows_noting (worker : WorkerPort (StateM W)) :
    worker.noting.Follows AnyLog worker where
  finished := follows_noted _ _
  submit _ := follows_noted _ _

theorem Host.follows_noting (host : Host (StateM W)) : host.noting.Follows AnyLog host where
  stopping := follows_noted _ _
  now := follows_noted _ _
  calendar := follows_noted _ _
  wait _ := follows_noted _ _
  receive := follows_noted _ _
  read := follows_noted _ _
  worker := by
    change Option.Rel _ (host.worker.map WorkerPort.noting) host.worker
    cases host.worker with
    | none => exact .none
    | some worker => exact .some worker.follows_noting
  publish _ := follows_noted _ _
  withdraw := follows_noted _ _

theorem Handler.follows_noting (handler : Handler (StateM W)) :
    handler.noting.Follows AnyLog handler where
  handle _ _ := follows_noted _ _
  takeJobs := follows_noted _ _
  snapshot _ := follows_noted _ _

/-- Whatever the log and the world, deeds of which a property holds, together with the result, are
added to the log. -/
def Notes (x : StateT (List Deed) (StateM W) α) (P : α → List Deed → Prop) : Prop :=
  ∀ log w, ∃ deeds, (x log w).1.2 = log ++ deeds ∧ P (x log w).1.1 deeds

namespace Notes

variable {P : α → List Deed → Prop} {Q : β → List Deed → Prop}

theorem pure {a : α} (h : P a []) : Notes (W := W) (Pure.pure a) P :=
  fun log _ => ⟨[], (List.append_nil log).symm, h⟩

/-- Of what comes after a step, all that is left to show is about the deeds of both. -/
theorem bind {x : StateT (List Deed) (StateM W) α} {f : α → StateT (List Deed) (StateM W) β}
    (hx : Notes x P) (hf : ∀ a first, P a first → Notes (f a) fun b rest => Q b (first ++ rest)) :
    Notes (x >>= f) Q := by
  intro log w
  obtain ⟨first, hlog, hfirst⟩ := hx log w
  obtain ⟨rest, hlog', hrest⟩ := hf _ first hfirst (log ++ first) (x log w).2
  refine ⟨first ++ rest, ?_, ?_⟩
  · change (f (x log w).1.1 (x log w).1.2 (x log w).2).1.2 = _
    rw [hlog, hlog', List.append_assoc]
  · change Q (f (x log w).1.1 (x log w).1.2 (x log w).2).1.1 _
    rw [hlog]
    exact hrest

theorem mono {P' : α → List Deed → Prop} {x : StateT (List Deed) (StateM W) α} (hx : Notes x P)
    (h : ∀ a deeds, P a deeds → P' a deeds) : Notes x P' := by
  intro log w
  obtain ⟨deeds, hlog, hdeeds⟩ := hx log w
  exact ⟨deeds, hlog, h _ deeds hdeeds⟩

/-- A loop over a list that never breaks off adds what its steps add, one after the other. -/
theorem forIn {x : α → StateT (List Deed) (StateM W) (ForInStep PUnit)} {R : α → List Deed → Prop}
    {S : List α → List Deed → Prop}
    (hx : ∀ a, Notes (x a) fun step deeds => step = .yield .unit ∧ R a deeds) (hnil : S [] [])
    (hcons : ∀ a as first rest, R a first → S as rest → S (a :: as) (first ++ rest)) (as : List α) :
    Notes (ForIn.forIn as PUnit.unit fun a _ => x a) fun _ deeds => S as deeds := by
  induction as with
  | nil => exact pure hnil
  | cons a rest ih =>
    rw [List.forIn_cons]
    refine bind (hx a) fun step first hfirst => ?_
    obtain ⟨rfl, hfirst⟩ := hfirst
    exact mono ih fun _ deeds hdeeds => hcons a rest first deeds hfirst hdeeds

end Notes

theorem notes_noted (x : StateM W α) (deed : α → Deed) :
    Notes (noted x deed) fun a deeds => deeds = [deed a] :=
  fun _ w => ⟨[deed (x w).1], rfl, rfl⟩

theorem Notes.after {Q : β → List Deed → Prop} {x : StateM W α} {deed : α → Deed}
    {f : α → StateT (List Deed) (StateM W) β}
    (hf : ∀ a, Notes (f a) fun b rest => Q b (deed a :: rest)) :
    Notes (noted x deed >>= f) Q := by
  refine .bind (notes_noted x deed) fun a first hfirst => ?_
  rw [hfirst]
  exact hf a

end PacketTunnel
