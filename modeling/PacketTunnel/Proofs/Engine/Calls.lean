import PacketTunnel.Proofs.Engine.Run

/-!
# Calls of an engine

The loop calls an engine at the moments of its life, and in between takes the jobs that it has
queued. What comes out, in order, is what the engine emits and the jobs that are taken from it.
Calls are padded when moments that bring junk stand between them; what is junk depends on the state
that it meets.
-/
namespace PacketTunnel.Engine

variable {σ τ : Type}

inductive Call where
  | moment (m : Moment)
  | takeJobs

def Call.moment? : Call → Option Moment
  | .moment m => some m
  | .takeJobs => none

inductive Output where
  | emission (emission : Emission)
  | job (job : HostJob)
deriving DecidableEq, Repr

def Output.job? : Output → Option HostJob
  | .emission _ => none
  | .job j => some j

@[simp] theorem Output.filterMap_job?_map_job (jobs : List HostJob) :
    (jobs.map Output.job).filterMap Output.job? = jobs := by
  rw [List.filterMap_map]
  exact List.filterMap_some

@[simp] theorem Output.filterMap_job?_map_emission (emissions : List Emission) :
    (emissions.map Output.emission).filterMap Output.job? = [] := by
  rw [List.filterMap_map, List.filterMap_eq_nil_iff]
  exact fun _ _ => rfl

def answer (E : Engine σ) (s : σ) : Call → σ × List Output
  | .moment m =>
    ((E.step m.conditions m.now m.event s).1, (E.step m.conditions m.now m.event s).2.map .emission)
  | .takeJobs => ((E.takeJobs s).2, (E.takeJobs s).1.map .job)

def serve (E : Engine σ) (s : σ) : List Call → σ × List Output
  | [] => (s, [])
  | k :: rest =>
    ((E.serve (E.answer s k).1 rest).1, (E.answer s k).2 ++ (E.serve (E.answer s k).1 rest).2)

/-- An engine does on the representations of states what another does on the states. -/
structure Represents (E : Engine σ) (F : Engine τ) (represent : σ → τ) : Prop where
  codec : ∀ s, F.codec (represent s) = E.codec s
  react : ∀ s now event, F.react (represent s) now event = (E.react s now event).map represent id
  credit : ∀ s emission, F.credit (represent s) emission = represent (E.credit s emission)
  takeJobs : ∀ s, F.takeJobs (represent s) = (E.takeJobs s).map id represent
  snapshot : ∀ s now, F.snapshot (represent s) now = E.snapshot s now

namespace Represents

variable {E : Engine σ} {F : Engine τ} {represent : σ → τ}

theorem credits (h : E.Represents F represent) (emissions : List Emission) (s : σ) :
    emissions.foldl F.credit (represent s) = represent (emissions.foldl E.credit s) := by
  induction emissions generalizing s with
  | nil => rfl
  | cons emission rest ih => rw [List.foldl_cons, h.credit, ih, List.foldl_cons]

theorem answer (h : E.Represents F represent) (k : Call) (s : σ) :
    F.answer (represent s) k = (E.answer s k).map represent id := by
  cases k with
  | takeJobs => simp [Engine.answer, h.takeJobs]
  | moment m => simp [Engine.answer, step, h.react, h.codec, h.credits]

/-- The two engines serve any calls alike. -/
theorem serve (h : E.Represents F represent) (calls : List Call) (s : σ) :
    F.serve (represent s) calls = (E.serve s calls).map represent id := by
  induction calls generalizing s with
  | nil => rfl
  | cons k rest ih => simp [Engine.serve, h.answer, ih]

end Represents

/-- The second calls, made from a state, are the first ones with junk put in anywhere. -/
inductive Padded (E : Engine σ) (junk : σ → Event → Prop) : σ → List Call → List Call → Prop
  | nil (s : σ) : Padded E junk s [] []
  | keep {s : σ} {ks ks' : List Call} (k : Call) (h : Padded E junk (E.answer s k).1 ks ks') :
      Padded E junk s (k :: ks) (k :: ks')
  | insert {s : σ} {ks ks' : List Call} (m : Moment) (hm : junk s m.event)
      (h : Padded E junk (E.answer s (.moment m)).1 ks ks') : Padded E junk s ks (.moment m :: ks')

/-- Whatever `cover` hides of a state, an engine does the same with it or without, and junk changes
nothing else and makes the engine do nothing. -/
structure Ignores (E : Engine σ) (cover : σ → σ) (junk : σ → Event → Prop) : Prop where
  codec : ∀ s, E.codec (cover s) = E.codec s
  react : ∀ s now event, cover (E.react (cover s) now event).1 = cover (E.react s now event).1 ∧
    (E.react (cover s) now event).2 = (E.react s now event).2
  credit : ∀ s emission, cover (E.credit (cover s) emission) = cover (E.credit s emission)
  takeJobs : ∀ s, cover (E.takeJobs (cover s)).2 = cover (E.takeJobs s).2 ∧
    (E.takeJobs (cover s)).1 = (E.takeJobs s).1
  junk : ∀ s now event, junk s event → cover (E.react s now event).1 = cover s ∧
    (E.react s now event).2 = []

variable {E : Engine σ} {cover : σ → σ} {junk : σ → Event → Prop} {s s' : σ}

theorem Ignores.credits (h : E.Ignores cover junk) (hs : cover s = cover s')
    (emissions : List Emission) :
    cover (emissions.foldl E.credit s) = cover (emissions.foldl E.credit s') := by
  induction emissions generalizing s s' with
  | nil => exact hs
  | cons emission rest ih =>
    apply ih
    rw [← h.credit s, hs, h.credit s']

theorem Ignores.answer (h : E.Ignores cover junk) (hs : cover s = cover s') (k : Call) :
    cover (E.answer s k).1 = cover (E.answer s' k).1 ∧ (E.answer s k).2 = (E.answer s' k).2 := by
  cases k with
  | takeJobs =>
    obtain ⟨hstate, hjobs⟩ := h.takeJobs s
    obtain ⟨hstate', hjobs'⟩ := h.takeJobs s'
    rw [Engine.answer, Engine.answer, ← hstate, ← hjobs, hs, hstate', hjobs']
    exact ⟨rfl, rfl⟩
  | moment m =>
    obtain ⟨hstate, hactions⟩ := h.react s m.now m.event
    obtain ⟨hstate', hactions'⟩ := h.react s' m.now m.event
    rw [hs] at hstate hactions
    have hemissions : (E.step m.conditions m.now m.event s).2 =
        (E.step m.conditions m.now m.event s').2 := by
      change Action.performAll (E.codec s) m.conditions (E.react s m.now m.event).2 =
        Action.performAll (E.codec s') m.conditions (E.react s' m.now m.event).2
      rw [← hactions, hactions', ← h.codec s, hs, h.codec s']
    refine ⟨?_, congrArg (List.map Output.emission) hemissions⟩
    have hcredits := h.credits (hstate.symm.trans hstate') (E.step m.conditions m.now m.event s).2
    exact hcredits.trans (by rw [hemissions]; rfl)

theorem Ignores.answer_junk (h : E.Ignores cover junk) (m : Moment) (hm : junk s m.event) :
    cover (E.answer s (.moment m)).1 = cover s ∧ (E.answer s (.moment m)).2 = [] := by
  obtain ⟨hstate, hactions⟩ := h.junk s m.now m.event hm
  have hsilent : E.react s m.now m.event = ((E.react s m.now m.event).1, []) :=
    Prod.ext rfl hactions
  rw [Engine.answer, step_of_silent hsilent]
  exact ⟨hstate, rfl⟩

theorem Padded.serve (hE : E.Ignores cover junk) {ks ks' : List Call} (h : Padded E junk s' ks ks')
    (hs : cover s' = cover s) :
    cover (E.serve s' ks').1 = cover (E.serve s ks).1 ∧ (E.serve s' ks').2 = (E.serve s ks).2 := by
  -- The two runs go through states that differ at most in what is covered; junk moves one of them
  -- alone.
  induction h generalizing s with
  | nil s' => exact ⟨hs, rfl⟩
  | keep k h ih =>
    obtain ⟨hnext, hout⟩ := hE.answer hs k
    obtain ⟨hend, hlater⟩ := ih hnext
    exact ⟨hend, by rw [Engine.serve, Engine.serve, hout, hlater]⟩
  | insert m hm h ih =>
    obtain ⟨hnext, hout⟩ := hE.answer_junk m hm
    rw [Engine.serve, hout, List.nil_append]
    exact ih (hnext.trans hs)

end PacketTunnel.Engine
