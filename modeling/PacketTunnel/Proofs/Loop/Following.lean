import PacketTunnel.Loop.Buffer

/-!
# Loops that follow each other

A computation with a state of its own beside the world follows one without it if the two give the
same and leave the same world. The loop is made of such steps: over a host and an engine that follow
others, it follows the loop over those. So whatever a host remembers beside the world, a log or a
buffer, changes nothing as long as each of its operations follows the one that it stands for.
-/
namespace PacketTunnel

variable {σ W α β : Type}

/-- The same result and the same world, as long as the state on the side is as it should be, which
it stays. -/
def Follows (I : σ → Prop) (x : StateT σ (StateM W) α) (y : StateM W α) : Prop :=
  ∀ side, I side → ∀ w, ∃ side', I side' ∧ x side w = (((y w).1, side'), (y w).2)

namespace Follows

variable {I : σ → Prop}

theorem pure (a : α) : Follows I (Pure.pure a : StateT σ (StateM W) α) (Pure.pure a) :=
  fun side hside _ => ⟨side, hside, rfl⟩

theorem bind {x : StateT σ (StateM W) α} {y : StateM W α} {f : α → StateT σ (StateM W) β}
    {g : α → StateM W β} (hx : Follows I x y) (hf : ∀ a, Follows I (f a) (g a)) :
    Follows I (x >>= f) (y >>= g) := by
  intro side hside w
  obtain ⟨side', hside', hxy⟩ := hx side hside w
  obtain ⟨side'', hside'', hfg⟩ := hf (y w).1 side' hside' (y w).2
  refine ⟨side'', hside'', ?_⟩
  change f (x side w).1.1 (x side w).1.2 (x side w).2 = _
  rw [hxy]
  exact hfg

theorem ite {p : Prop} [Decidable p] {x x' : StateT σ (StateM W) α} {y y' : StateM W α}
    (hx : Follows I x y) (hx' : Follows I x' y') :
    Follows I (if p then x else x') (if p then y else y') := by
  split
  · exact hx
  · exact hx'

theorem lift (y : StateM W α) : Follows I (liftM y : StateT σ (StateM W) α) y :=
  fun side hside _ => ⟨side, hside, rfl⟩

theorem forIn {x : α → StateT σ (StateM W) PUnit} {y : α → StateM W PUnit}
    (h : ∀ a, Follows I (x a) (y a)) (as : List α) :
    Follows I (ForIn.forIn as PUnit.unit fun a _ => do x a; Pure.pure (ForInStep.yield PUnit.unit))
      (ForIn.forIn as PUnit.unit fun a _ => do y a; Pure.pure (ForInStep.yield PUnit.unit)) := by
  induction as with
  | nil => exact pure _
  | cons a rest ih =>
    simp only [List.forIn_cons]
    refine bind (bind (h a) fun _ => pure _) fun step => ?_
    cases step with
    | done u => exact pure u
    | yield u => exact ih

end Follows

structure WorkerPort.Follows (I : σ → Prop) (worker : WorkerPort (StateT σ (StateM W)))
    (other : WorkerPort (StateM W)) :
    Prop where
  finished : PacketTunnel.Follows I worker.finished other.finished
  submit : ∀ job, PacketTunnel.Follows I (worker.submit job) (other.submit job)

/-- Each operation of the host follows the other's, and both have a worker or neither. -/
structure Host.Follows (I : σ → Prop) (host : Host (StateT σ (StateM W)))
    (other : Host (StateM W)) :
    Prop where
  stopping : PacketTunnel.Follows I host.stopping other.stopping
  now : PacketTunnel.Follows I host.now other.now
  calendar : PacketTunnel.Follows I host.calendar other.calendar
  wait : ∀ duration, PacketTunnel.Follows I (host.wait duration) (other.wait duration)
  receive : PacketTunnel.Follows I host.receive other.receive
  read : PacketTunnel.Follows I host.read other.read
  worker : Option.Rel (WorkerPort.Follows I) host.worker other.worker
  publish : ∀ snapshot, PacketTunnel.Follows I (host.publish snapshot) (other.publish snapshot)
  withdraw : PacketTunnel.Follows I host.withdraw other.withdraw

structure Handler.Follows (I : σ → Prop) (handler : Handler (StateT σ (StateM W)))
    (other : Handler (StateM W)) :
    Prop where
  handle : ∀ now event, PacketTunnel.Follows I (handler.handle now event) (other.handle now event)
  takeJobs : PacketTunnel.Follows I handler.takeJobs other.takeJobs
  snapshot : ∀ now, PacketTunnel.Follows I (handler.snapshot now) (other.snapshot now)

namespace Loop

variable {I : σ → Prop}

theorem follows_drain {read : StateT σ (StateM W) (Reading α)} {read' : StateM W (Reading α)}
    {use : α → StateT σ (StateM W) Unit} {use' : α → StateM W Unit} (hread : Follows I read read')
    (huse : ∀ value, Follows I (use value) (use' value)) (budget : Nat) :
    Follows I (drain read use budget) (drain read' use' budget) := by
  induction budget with
  | zero => exact .pure _
  | succ budget ih =>
    refine .bind hread fun reading => ?_
    cases reading with
    | data value => exact .bind (huse value) fun _ => ih
    | nothing => exact .pure _
    | interrupted => exact ih
    | failed => exact .pure _

theorem follows_ifReady {attend : StateT σ (StateM W) Unit} {attend' : StateM W Unit}
    (h : Follows I attend attend') (ready : Bool) :
    Follows I (ifReady ready attend) (ifReady ready attend') := .ite h (.pure _)

variable {host : Host (StateT σ (StateM W))} {other : Host (StateM W)}
  {handler : Handler (StateT σ (StateM W))} {handler' : Handler (StateM W)}
  (hhost : host.Follows I other) (hhandler : handler.Follows I handler')

include hhost hhandler

theorem follows_collect : Follows I (collect host handler) (collect other handler') := by
  have hworker := hhost.worker
  unfold collect
  generalize host.worker = worker? at hworker
  generalize other.worker = worker?' at hworker
  cases hworker with
  | none => exact .pure _
  | some h =>
    refine .bind h.finished fun outcomes => .bind (.forIn (fun outcome => ?_) outcomes)
      fun _ => .pure _
    exact .bind hhost.now fun now => hhandler.handle now _

theorem follows_submit : Follows I (submit host handler) (submit other handler') := by
  have hworker := hhost.worker
  unfold submit
  generalize host.worker = worker? at hworker
  generalize other.worker = worker?' at hworker
  cases hworker with
  | none => exact .pure _
  | some h =>
    exact .bind hhandler.takeJobs fun jobs => .bind (.forIn h.submit jobs) fun _ => .pure _

theorem follows_tickIfDue (interval : Duration) (due : Time) :
    Follows I (tickIfDue host handler interval due) (tickIfDue other handler' interval due) := by
  refine .bind hhost.now fun now => .ite ?_ (.pure _)
  refine .bind hhost.calendar fun calendar => .bind (hhandler.handle now _) fun _ => ?_
  exact .bind (hhandler.snapshot now) fun snapshot => .bind (hhost.publish snapshot)
    fun _ => .pure _

theorem follows_readSocket : Follows I (readSocket host handler) (readSocket other handler') :=
  follows_drain hhost.receive (fun _ => .bind hhost.now fun now => hhandler.handle now _) _

theorem follows_readDevice : Follows I (readDevice host handler) (readDevice other handler') :=
  follows_drain hhost.read
    (fun _ => .ite (.bind hhost.now fun now => hhandler.handle now _) (.pure _)) _

theorem follows_iterate (interval : Duration) (due : Time) :
    Follows I (iterate host handler interval due) (iterate other handler' interval due) := by
  refine .bind hhost.now fun began => .bind (hhost.wait _) fun ready => ?_
  refine .bind (follows_ifReady (follows_readSocket hhost hhandler) _) fun _ => ?_
  refine .bind (follows_ifReady (follows_readDevice hhost hhandler) _) fun _ => ?_
  refine .bind (follows_collect hhost hhandler) fun _ =>
    .bind (follows_tickIfDue hhost hhandler interval due) fun next => ?_
  exact .bind (follows_submit hhost hhandler) fun _ => .pure _

theorem follows_runFrom (interval : Duration) (fuel : Nat) (due : Time) :
    Follows I (runFrom host handler interval fuel due)
      (runFrom other handler' interval fuel due) := by
  induction fuel generalizing due with
  | zero => exact .pure _
  | succ fuel ih =>
    refine .bind hhost.stopping fun stopping => .ite ?_ ?_
    · exact .bind hhost.now fun now => .bind (hhandler.handle now _) fun _ => .bind hhost.withdraw
        fun _ => .pure _
    · exact .bind (follows_iterate hhost hhandler interval due) fun next => ih next

/-- A loop over a host and an engine that follow others does what the loop over those does. -/
theorem follows_run (interval : Duration) (fuel : Nat) :
    Follows I (run host handler interval fuel) (run other handler' interval fuel) :=
  .bind hhost.now fun start => follows_runFrom hhost hhandler interval fuel start

end Loop

end PacketTunnel
