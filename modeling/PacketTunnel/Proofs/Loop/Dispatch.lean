import PacketTunnel.Loop.Rehearsal
import PacketTunnel.Proofs.Loop.Buffer
import PacketTunnel.Proofs.Loop.Transcript

/-!
# What a run of the loop does

A run is a sequence of rounds, of which each waits once, reads from the descriptors that are ready
until nothing waits, a read fails or the budget is spent, hands over what it read and what the
worker finished, ticks if that is due, and submits what the engine has queued. All of it stands in
the log, deed by deed, and in order.
-/
namespace PacketTunnel

namespace Deed

def received? : Deed → Option (Reading (Bytes × Endpoint))
  | received reading => some reading
  | _ => none

def read? : Deed → Option (Reading Bytes)
  | read reading => some reading
  | _ => none

def call? : Deed → Option Event
  | handled _ event => some event
  | _ => none

def tick? : Deed → Option Time
  | handled now (.tick _) => some now
  | _ => none

def drained? : Deed → Option (List HostOutcome)
  | finished outcomes => some outcomes
  | _ => none

def taken? : Deed → Option (List HostJob)
  | took jobs => some jobs
  | _ => none

def submitted? : Deed → Option HostJob
  | submitted job => some job
  | _ => none

end Deed

/-- What happened in a stretch of the log, by kind. -/
structure Account where
  datagrams : List (Reading (Bytes × Endpoint))
  packets : List (Reading Bytes)
  calls : List Event
  ticks : List Time
  /-- What the worker had finished, each time that it was asked. -/
  drains : List (List HostOutcome)
  /-- What the engine had queued, each time that it was asked. -/
  takes : List (List HostJob)
  submitted : List HostJob

namespace Account

def nothing : Account := ⟨[], [], [], [], [], [], []⟩

instance : Append Account where
  append a b := ⟨a.datagrams ++ b.datagrams, a.packets ++ b.packets, a.calls ++ b.calls,
    a.ticks ++ b.ticks, a.drains ++ b.drains, a.takes ++ b.takes, a.submitted ++ b.submitted⟩

def of (deeds : List Deed) : Account where
  datagrams := deeds.filterMap Deed.received?
  packets := deeds.filterMap Deed.read?
  calls := deeds.filterMap Deed.call?
  ticks := deeds.filterMap Deed.tick?
  drains := deeds.filterMap Deed.drained?
  takes := deeds.filterMap Deed.taken?
  submitted := deeds.filterMap Deed.submitted?

theorem append_def (a b : Account) : a ++ b =
    ⟨a.datagrams ++ b.datagrams, a.packets ++ b.packets, a.calls ++ b.calls, a.ticks ++ b.ticks,
      a.drains ++ b.drains, a.takes ++ b.takes, a.submitted ++ b.submitted⟩ := rfl

theorem of_append (first rest : List Deed) : of (first ++ rest) = of first ++ of rest := by
  simp only [of, List.filterMap_append]
  rfl

theorem of_clock (now : Time) (rest : List Deed) : of (.clock now :: rest) = of rest := rfl

theorem of_cons (deed : Deed) (rest : List Deed) : of (deed :: rest) = of [deed] ++ of rest :=
  of_append [deed] rest

end Account

def Reading.GoesOn {α : Type} (reading : Reading α) : Prop :=
  (∃ value, reading = .data value) ∨ reading = .interrupted

/-- Reads that end only when nothing waits, one of them fails, or the budget is spent. -/
def Exhausted {α : Type} (budget : Nat) (readings : List (Reading α)) : Prop :=
  ∃ going ending, readings = going ++ ending ∧ (∀ reading ∈ going, reading.GoesOn) ∧
    ((ending = [] ∧ going.length = budget) ∨
      (going.length < budget ∧ (ending = [.nothing] ∨ ending = [.failed])))

theorem Exhausted.length_le {α : Type} {budget : Nat} {readings : List (Reading α)}
    (h : Exhausted budget readings) :
    readings.length ≤ budget := by
  obtain ⟨going, ending, rfl, -, ⟨rfl, hlength⟩ | ⟨hlength, rfl | rfl⟩⟩ := h <;> simp <;> omega

theorem Exhausted.cons {α : Type} {budget : Nat} {reading : Reading α} {readings : List (Reading α)}
    (hreading : reading.GoesOn) (h : Exhausted budget readings) :
    Exhausted (budget + 1) (reading :: readings) := by
  obtain ⟨going, ending, rfl, hgoing, hending⟩ := h
  refine ⟨reading :: going, ending, rfl, List.forall_mem_cons.mpr ⟨hreading, hgoing⟩, ?_⟩
  simpa using hending

/-- The deeds of reads, and of the use of what was read. -/
inductive Drained {α : Type} (note : Reading α → Deed) (uses : α → List Deed → Prop) :
    List (Reading α) → List Deed → Prop
  | done : Drained note uses [] []
  | data {value : α} {used : List Deed} {readings : List (Reading α)} {deeds : List Deed}
      (h : uses value used) (rest : Drained note uses readings deeds) :
      Drained note uses (.data value :: readings) (note (.data value) :: (used ++ deeds))
  | idle {reading : Reading α} {readings : List (Reading α)} {deeds : List Deed}
      (h : ∀ value, reading ≠ .data value) (rest : Drained note uses readings deeds) :
      Drained note uses (reading :: readings) (note reading :: deeds)

def datagramCalls : Reading (Bytes × Endpoint) → List Event
  | .data (bytes, sender) => [.datagram bytes sender]
  | _ => []

/-- What the engine is called with for a read from the device: nothing for an empty packet. -/
def packetCalls : Reading Bytes → List Event
  | .data bytes => if bytes.isEmpty then [] else [.packet bytes]
  | _ => []

def HandsDatagram (value : Bytes × Endpoint) (deeds : List Deed) : Prop :=
  ∃ now, deeds = [.clock now, .handled now (.datagram value.1 value.2)]

def HandsPacket (bytes : Bytes) (deeds : List Deed) : Prop :=
  if bytes.isEmpty then deeds = [] else ∃ now, deeds = [.clock now, .handled now (.packet bytes)]

theorem Drained.account_socket {readings : List (Reading (Bytes × Endpoint))} {deeds : List Deed}
    (h : Drained .received HandsDatagram readings deeds) :
    Account.of deeds = ⟨readings, [], readings.flatMap datagramCalls, [], [], [], []⟩ := by
  induction h with
  | done => rfl
  | data hused rest ih =>
    obtain ⟨now, rfl⟩ := hused
    rw [Account.of_cons, Account.of_append, ih]
    rfl
  | @idle reading readings deeds hidle rest ih =>
    rw [Account.of_cons, ih, List.flatMap_cons]
    cases reading with
    | data value => exact absurd rfl (hidle value)
    | _ => rfl

theorem Drained.account_device {readings : List (Reading Bytes)} {deeds : List Deed}
    (h : Drained .read HandsPacket readings deeds) :
    Account.of deeds = ⟨[], readings, readings.flatMap packetCalls, [], [], [], []⟩ := by
  induction h with
  | done => rfl
  | @data bytes used readings deeds hused rest ih =>
    rw [Account.of_cons, Account.of_append, ih, List.flatMap_cons, packetCalls]
    rw [HandsPacket] at hused
    split at hused
    · rename_i hempty
      rw [hused, if_pos hempty]
      rfl
    · rename_i hfull
      obtain ⟨now, rfl⟩ := hused
      rw [if_neg hfull]
      rfl
  | @idle reading readings deeds hidle rest ih =>
    rw [Account.of_cons, ih, List.flatMap_cons]
    cases reading with
    | data value => exact absurd rfl (hidle value)
    | _ => rfl

def handing (outcomes : List (Time × HostOutcome)) : List Deed :=
  outcomes.flatMap fun o => [.clock o.1, .handled o.1 (.outcome o.2)]

/-- Take what the worker has finished, once, and hand it over; without a worker nothing is taken. -/
def collecting (worker : Bool) (outcomes : List (Time × HostOutcome)) : List Deed :=
  if worker then .finished (outcomes.map Prod.snd) :: handing outcomes else []

/-- Submit what was taken from the engine; without a worker nothing is taken. -/
def submitting (worker : Bool) (jobs : List HostJob) : List Deed :=
  if worker then .took jobs :: jobs.map .submitted else []

/-- The engine is called with a tick exactly when that is due, and its report is published. -/
def TicksIfDue (due now : Time) (deeds : List Deed) : Prop :=
  if due ≤ now then ∃ calendar snapshot, deeds = [.calendar calendar, .handled now (.tick calendar),
    .described now snapshot, .published snapshot]
  else deeds = []

def nextDue (interval : Duration) (due now : Time) : Time :=
  if due ≤ now then now + interval else due

/-- One round of the loop. -/
structure Round where
  due : Time
  began : Time
  ready : Readiness
  /-- What comes of the reads from the socket, and the deeds of reading and handing over. -/
  datagrams : List (Reading (Bytes × Endpoint))
  atSocket : List Deed
  packets : List (Reading Bytes)
  atDevice : List Deed
  /-- What the worker has finished, with the times at which it is handed over. -/
  outcomes : List (Time × HostOutcome)
  /-- When the round looks whether a tick is due. -/
  now : Time
  ticking : List Deed
  jobs : List HostJob

namespace Round

def deeds (worker : Bool) (r : Round) : List Deed :=
  .clock r.began :: .waited (Time.since r.due r.began) r.ready ::
    (r.atSocket ++ (r.atDevice ++ (collecting worker r.outcomes ++
      .clock r.now :: (r.ticking ++ submitting worker r.jobs))))

/-- What a round of the loop is like. -/
structure Orderly (r : Round) : Prop where
  /-- There are at most 64 reads from the socket, and none unless it is ready. -/
  socket : if r.ready.socket then Exhausted Loop.readBudget r.datagrams else r.datagrams = []
  device : if r.ready.device then Exhausted Loop.readBudget r.packets else r.packets = []
  atSocket : Drained .received HandsDatagram r.datagrams r.atSocket
  atDevice : Drained .read HandsPacket r.packets r.atDevice
  ticks : TicksIfDue r.due r.now r.ticking

end Round

section

variable {W α : Type}

theorem notes_drain {read : StateM W (Reading α)} {note : Reading α → Deed}
    {use : α → StateT (List Deed) (StateM W) Unit} {uses : α → List Deed → Prop}
    (huse : ∀ value, Notes (use value) fun _ deeds => uses value deeds) (budget : Nat) :
    Notes (Loop.drain (noted read note) use budget) fun _ deeds =>
      ∃ readings, Exhausted budget readings ∧ Drained note uses readings deeds := by
  induction budget with
  | zero => exact .pure ⟨[], ⟨[], [], rfl, by simp, .inl ⟨rfl, rfl⟩⟩, .done⟩
  | succ budget ih =>
    refine .after fun reading => ?_
    cases reading with
    | data value =>
      refine .bind (huse value) fun _ used hused => .mono ih fun _ deeds hdeeds => ?_
      obtain ⟨readings, hexhausted, hdrained⟩ := hdeeds
      exact ⟨_, hexhausted.cons (.inl ⟨value, rfl⟩), .data hused hdrained⟩
    | interrupted =>
      refine .mono ih fun _ deeds hdeeds => ?_
      obtain ⟨readings, hexhausted, hdrained⟩ := hdeeds
      exact ⟨_, hexhausted.cons (.inr rfl), .idle (by simp) hdrained⟩
    | nothing =>
      exact .pure ⟨[.nothing], ⟨[], [.nothing], rfl, by simp, .inr ⟨by simp, .inl rfl⟩⟩,
        .idle (by simp) .done⟩
    | failed =>
      exact .pure ⟨[.failed], ⟨[], [.failed], rfl, by simp, .inr ⟨by simp, .inr rfl⟩⟩,
        .idle (by simp) .done⟩

variable (host : Host (StateM W)) (handler : Handler (StateM W))

theorem notes_readSocket (ready : Bool) :
    Notes (Loop.ifReady ready (Loop.readSocket host.noting handler.noting)) fun _ deeds =>
      ∃ readings, (if ready then Exhausted Loop.readBudget readings else readings = []) ∧
        Drained .received HandsDatagram readings deeds := by
  cases ready with
  | false => exact .pure ⟨[], rfl, .done⟩
  | true =>
    have huse (value : Bytes × Endpoint) :
        Notes (do handler.noting.handle (← host.noting.now) (.datagram value.1 value.2))
        fun _ deeds => HandsDatagram value deeds :=
      .after fun now => .mono (notes_noted _ _) fun _ _ h => ⟨now, by rw [h]⟩
    exact notes_drain huse Loop.readBudget

theorem notes_readDevice (ready : Bool) :
    Notes (Loop.ifReady ready (Loop.readDevice host.noting handler.noting)) fun _ deeds =>
      ∃ readings, (if ready then Exhausted Loop.readBudget readings else readings = []) ∧
        Drained .read HandsPacket readings deeds := by
  cases ready with
  | false => exact .pure ⟨[], rfl, .done⟩
  | true =>
    have huse (bytes : Bytes) :
        Notes (if !bytes.isEmpty then do handler.noting.handle (← host.noting.now) (.packet bytes)
          else pure ()) fun _ deeds => HandsPacket bytes deeds := by
      cases hempty : bytes.isEmpty with
      | true => exact .pure (by simp [HandsPacket, hempty])
      | false =>
        refine .after fun now => .mono (notes_noted _ _) fun _ _ h => ?_
        rw [HandsPacket, hempty]
        exact ⟨now, by rw [h]⟩
    exact notes_drain huse Loop.readBudget

theorem notes_collect : Notes (Loop.collect host.noting handler.noting) fun _ deeds =>
    ∃ outcomes, deeds = collecting host.worker.isSome outcomes := by
  cases hworker : host.worker with
  | none =>
    simp only [Loop.collect, Host.noting, hworker, Option.map_none]
    exact .pure ⟨[], rfl⟩
  | some worker =>
    simp only [Loop.collect, Host.noting, hworker, Option.map_some]
    refine .after fun outcomes => .bind
      (P := fun _ deeds => ∃ timed, timed.map Prod.snd = outcomes ∧ deeds = handing timed)
      ?_ fun _ deeds hdeeds => .pure ?_
    · refine .forIn
        (R := fun outcome deeds => ∃ now, deeds = [.clock now, .handled now (.outcome outcome)])
        (S := fun outcomes deeds => ∃ timed, timed.map Prod.snd = outcomes ∧ deeds = handing timed)
        (fun outcome => ?_) ⟨[], rfl, rfl⟩ ?_ outcomes
      · exact .after fun now => .after fun _ => .pure ⟨rfl, now, rfl⟩
      · rintro outcome rest first deeds ⟨now, rfl⟩ ⟨timed, rfl, rfl⟩
        exact ⟨(now, outcome) :: timed, rfl, rfl⟩
    · obtain ⟨timed, rfl, rfl⟩ := hdeeds
      exact ⟨timed, by rw [List.append_nil]; rfl⟩

theorem notes_submit : Notes (Loop.submit host.noting handler.noting) fun _ deeds =>
    ∃ jobs, deeds = submitting host.worker.isSome jobs := by
  cases hworker : host.worker with
  | none =>
    simp only [Loop.submit, Host.noting, hworker, Option.map_none]
    exact .pure ⟨[], rfl⟩
  | some worker =>
    simp only [Loop.submit, Host.noting, hworker, Option.map_some]
    refine .after fun jobs => .bind (P := fun _ deeds => deeds = jobs.map .submitted) ?_
      fun _ deeds hdeeds => .pure ⟨jobs, ?_⟩
    · refine .forIn (R := fun job deeds => deeds = [.submitted job])
        (S := fun js deeds => deeds = js.map .submitted) (fun job => ?_) rfl ?_ jobs
      · exact .after fun _ => .pure ⟨rfl, rfl⟩
      · rintro job rest first deeds rfl rfl
        rfl
    · rw [hdeeds, List.append_nil]
      rfl

theorem notes_tickIfDue (interval : Duration) (due : Time) :
    Notes (Loop.tickIfDue host.noting handler.noting interval due) fun next deeds =>
      ∃ now ticking, deeds = .clock now :: ticking ∧ TicksIfDue due now ticking ∧
        next = nextDue interval due now := by
  refine .after fun now => ?_
  by_cases hdue : due ≤ now
  · rw [if_pos hdue]
    refine .after fun calendar => .after fun _ => .after fun snapshot => .after fun _ => .pure ?_
    exact ⟨now, _, rfl, by rw [TicksIfDue, if_pos hdue]; exact ⟨calendar, snapshot, rfl⟩,
      by rw [nextDue, if_pos hdue]⟩
  · rw [if_neg hdue]
    exact .pure ⟨now, [], rfl, by rw [TicksIfDue, if_neg hdue], by rw [nextDue, if_neg hdue]⟩

theorem notes_iterate (interval : Duration) (due : Time) :
    Notes (Loop.iterate host.noting handler.noting interval due) fun next deeds =>
      ∃ r : Round, r.due = due ∧ r.Orderly ∧ deeds = r.deeds host.worker.isSome ∧
        next = nextDue interval due r.now := by
  refine .after fun began => .after fun ready => ?_
  refine .bind (notes_readSocket host handler _) fun _ atSocket hsocket => ?_
  refine .bind (notes_readDevice host handler _) fun _ atDevice hdevice => ?_
  refine .bind (notes_collect host handler) fun _ collecting hcollect => ?_
  refine .bind (notes_tickIfDue host handler interval due) fun next ticks hticks => ?_
  refine .bind (notes_submit host handler) fun _ closing hclosing => .pure ?_
  obtain ⟨datagrams, hexhausted, hdatagrams⟩ := hsocket
  obtain ⟨packets, hexhausted', hpackets⟩ := hdevice
  obtain ⟨outcomes, rfl⟩ := hcollect
  obtain ⟨now, ticking, rfl, hticking, hnext⟩ := hticks
  obtain ⟨jobs, rfl⟩ := hclosing
  refine ⟨⟨due, began, ready, datagrams, atSocket, packets, atDevice, outcomes, now, ticking, jobs⟩,
    rfl, ⟨hexhausted, hexhausted', hdatagrams, hpackets, hticking⟩, ?_, hnext⟩
  simp [Round.deeds]

/-- Rounds of which each knows from those before when a tick is due. -/
def Linked (interval : Duration) : Time → List Round → Prop
  | _, [] => True
  | due, r :: rest => r.due = due ∧ Linked interval (nextDue interval due r.now) rest

/-- The deeds of several rounds. Before each of them the loop asks whether to stop. -/
def roundsLog (worker : Bool) (rounds : List Round) : List Deed :=
  rounds.flatMap fun r => .asked false :: r.deeds worker

/-- The loop ends when it is asked to: it tells the engine, and takes its report away. Else all
rounds were made that were allowed. -/
def Closes (fuel : Nat) (ended : Bool) (rounds : List Round) (closing : List Deed) : Prop :=
  if ended then ∃ now, closing = [.asked true, .clock now, .handled now .shutdown, .withdrawn]
  else closing = [] ∧ rounds.length = fuel

theorem notes_runFrom (interval : Duration) (fuel : Nat) (due : Time) :
    Notes (Loop.runFrom host.noting handler.noting interval fuel due) fun ended deeds =>
      ∃ rounds closing, deeds = roundsLog host.worker.isSome rounds ++ closing ∧
        Linked interval due rounds ∧
        (∀ r ∈ rounds, r.Orderly) ∧ Closes fuel ended rounds closing := by
  induction fuel generalizing due with
  | zero => exact .pure ⟨[], [], rfl, trivial, by simp, rfl, rfl⟩
  | succ fuel ih =>
    refine .after fun stopping => ?_
    cases stopping with
    | true =>
      refine .after fun now => .after fun _ => .after fun _ => .pure ?_
      exact ⟨[], _, rfl, trivial, by simp, now, rfl⟩
    | false =>
      refine .bind (notes_iterate host handler interval due) fun next deeds hround => ?_
      obtain ⟨r, hdue, horderly, rfl, rfl⟩ := hround
      refine .mono (ih (nextDue interval due r.now)) fun ended rest hrest => ?_
      obtain ⟨rounds, closing, rfl, hlinked, horderlies, hcloses⟩ := hrest
      refine ⟨r :: rounds, closing, by simp [roundsLog], ⟨hdue, hlinked⟩,
        List.forall_mem_cons.mpr ⟨horderly, horderlies⟩, ?_⟩
      rw [Closes] at hcloses ⊢
      cases ended with
      | true => exact hcloses
      | false => exact ⟨hcloses.1, by simpa using hcloses.2⟩

theorem notes_run (interval : Duration) (fuel : Nat) :
    Notes (Loop.run host.noting handler.noting interval fuel) fun ended deeds =>
      ∃ start rounds closing,
        deeds = .clock start :: (roundsLog host.worker.isSome rounds ++ closing) ∧
        Linked interval start rounds ∧ (∀ r ∈ rounds, r.Orderly) ∧
        Closes fuel ended rounds closing := by
  refine .after fun start => .mono (notes_runFrom host handler interval fuel start)
    fun ended deeds hdeeds => ?_
  obtain ⟨rounds, closing, rfl, hrun⟩ := hdeeds
  exact ⟨start, rounds, closing, rfl, hrun⟩

end

theorem Account.of_collecting (worker : Bool) (outcomes : List (Time × HostOutcome)) :
    Account.of (collecting worker outcomes) =
      if worker then
        ⟨[], [], outcomes.map fun o => .outcome o.2, [], [outcomes.map Prod.snd], [], []⟩
      else .nothing := by
  cases worker with
  | false => rfl
  | true =>
    have hhanding : Account.of (handing outcomes) =
        ⟨[], [], outcomes.map fun o => .outcome o.2, [], [], [], []⟩ := by
      induction outcomes with
      | nil => rfl
      | cons o rest ih =>
        rw [handing, List.flatMap_cons, Account.of_append, ← handing, ih]
        rfl
    rw [collecting, if_pos rfl, Account.of_cons, hhanding]
    rfl

theorem Account.of_submitting (worker : Bool) (jobs : List HostJob) :
    Account.of (submitting worker jobs) =
      if worker then ⟨[], [], [], [], [], [jobs], jobs⟩ else .nothing := by
  cases worker with
  | false => rfl
  | true =>
    have hsubmitted : Account.of (jobs.map .submitted) = ⟨[], [], [], [], [], [], jobs⟩ := by
      induction jobs with
      | nil => rfl
      | cons job rest ih =>
        rw [List.map_cons, Account.of_cons, ih]
        rfl
    rw [submitting, if_pos rfl, Account.of_cons, hsubmitted]
    rfl

theorem TicksIfDue.account {due now : Time} {deeds : List Deed} (h : TicksIfDue due now deeds) :
    ∃ calendar, Account.of deeds = if due ≤ now then ⟨[], [], [.tick calendar], [now], [], [], []⟩
      else .nothing := by
  rw [TicksIfDue] at h
  split at h
  · rename_i hdue
    obtain ⟨calendar, snapshot, rfl⟩ := h
    exact ⟨calendar, by rw [if_pos hdue]; rfl⟩
  · rename_i hdue
    exact ⟨0, by rw [if_neg hdue, h]; rfl⟩

theorem Round.Orderly.account (worker : Bool) {r : Round} (h : r.Orderly) :
    ∃ calendar, Account.of (r.deeds worker) =
      ⟨r.datagrams, r.packets,
        r.datagrams.flatMap datagramCalls ++ r.packets.flatMap packetCalls ++
          (if worker then r.outcomes.map fun o => .outcome o.2 else []) ++
          (if r.due ≤ r.now then [.tick calendar] else []),
        if r.due ≤ r.now then [r.now] else [],
        if worker then [r.outcomes.map Prod.snd] else [],
        if worker then [r.jobs] else [], if worker then r.jobs else []⟩ := by
  obtain ⟨calendar, hticking⟩ := h.ticks.account
  have hparts : Account.of (r.deeds worker) =
      Account.of r.atSocket ++
        (Account.of r.atDevice ++ (Account.of (collecting worker r.outcomes) ++
        (Account.of r.ticking ++ Account.of (submitting worker r.jobs)))) := by
    change Account.of (r.atSocket ++ _) = _
    simp only [Account.of_append, Account.of_clock]
  refine ⟨calendar, ?_⟩
  rw [hparts, h.atSocket.account_socket, h.atDevice.account_device, Account.of_collecting, hticking,
    Account.of_submitting]
  by_cases hdue : r.due ≤ r.now <;> cases worker <;>
    simp [hdue, Account.append_def, Account.nothing]

def Round.calls (worker : Bool) (r : Round) : List Event := (Account.of (r.deeds worker)).calls

theorem account_roundsLog_cons (worker : Bool) (r : Round) (rest : List Round) :
    Account.of (roundsLog worker (r :: rest)) = Account.of (r.deeds worker) ++
      Account.of (roundsLog worker rest) := by
  calc Account.of (roundsLog worker (r :: rest))
      = Account.of (r.deeds worker ++ roundsLog worker rest) := by
        rw [roundsLog, List.flatMap_cons, List.cons_append]
        rfl
    _ = _ := Account.of_append _ _

theorem calls_roundsLog (worker : Bool) (rounds : List Round) :
    (Account.of (roundsLog worker rounds)).calls = rounds.flatMap (Round.calls worker) := by
  induction rounds with
  | nil => rfl
  | cons r rest ih =>
    rw [account_roundsLog_cons, Account.append_def, List.flatMap_cons, ← ih]
    rfl

/-- With a worker, each round drains it once, takes once what the engine has queued, and submits
that and nothing else. -/
theorem work_roundsLog (worker : Bool) {rounds : List Round} (h : ∀ r ∈ rounds, r.Orderly) :
    (Account.of (roundsLog worker rounds)).drains =
        (if worker then rounds.map fun r => r.outcomes.map Prod.snd else []) ∧
      (Account.of (roundsLog worker rounds)).takes =
        (if worker then rounds.map Round.jobs else []) ∧
      (Account.of (roundsLog worker rounds)).submitted =
        (if worker then rounds.flatMap Round.jobs else []) := by
  induction rounds with
  | nil => cases worker <;> exact ⟨rfl, rfl, rfl⟩
  | cons r rest ih =>
    obtain ⟨calendar, hround⟩ := (h r List.mem_cons_self).account worker
    obtain ⟨hdrains, htakes, hsubmitted⟩ := ih fun r' hr' => h r' (List.mem_cons_of_mem r hr')
    rw [account_roundsLog_cons, Account.append_def, hdrains, htakes, hsubmitted, hround]
    cases worker <;> exact ⟨rfl, rfl, rfl⟩

theorem ticks_roundsLog {worker : Bool} {interval : Duration} {due : Time} {rounds : List Round}
    (hlinked : Linked interval due rounds) (h : ∀ r ∈ rounds, r.Orderly) :
    (∀ t ∈ (Account.of (roundsLog worker rounds)).ticks, due ≤ t) ∧
      (Account.of (roundsLog worker rounds)).ticks.Pairwise fun s t => s + interval ≤ t := by
  induction rounds generalizing due with
  | nil =>
    refine ⟨?_, List.Pairwise.nil⟩
    rintro t ⟨⟩
  | cons r rest ih =>
    obtain ⟨rfl, hrest⟩ := hlinked
    obtain ⟨calendar, hround⟩ := (h r List.mem_cons_self).account worker
    obtain ⟨hge, hpairwise⟩ := ih hrest fun r' hr' => h r' (List.mem_cons_of_mem r hr')
    rw [account_roundsLog_cons, Account.append_def, hround]
    rw [nextDue] at hge
    by_cases hdue : r.due ≤ r.now
    · simp only [if_pos hdue, List.singleton_append, List.forall_mem_cons,
        List.pairwise_cons] at hge ⊢
      exact ⟨⟨hdue, fun t ht => Nat.le_trans hdue (Nat.le_trans (Nat.le_add_right _ _) (hge t ht))⟩,
        hge, hpairwise⟩
    · simp only [if_neg hdue, List.nil_append] at hge ⊢
      exact ⟨hge, hpairwise⟩

theorem shutdown_notMem_calls (worker : Bool) {r : Round} (h : r.Orderly) :
    .shutdown ∉ r.calls worker := by
  obtain ⟨calendar, hround⟩ := h.account worker
  rw [Round.calls, hround]
  intro hshutdown
  simp only [List.mem_append, List.mem_flatMap] at hshutdown
  rcases hshutdown with
    ((⟨reading, -, hreading⟩ | ⟨reading, -, hreading⟩) | houtcome) | htick
  · cases reading with
    | data value => exact absurd hreading (by simp [datagramCalls])
    | _ => cases hreading
  · cases reading with
    | data bytes =>
      rw [packetCalls] at hreading
      split at hreading <;> simp at hreading
    | _ => cases hreading
  · split at houtcome <;> simp at houtcome
  · split at htick <;> simp at htick

theorem Round.Orderly.length_le {r : Round} (h : r.Orderly) :
    r.datagrams.length ≤ Loop.readBudget ∧ r.packets.length ≤ Loop.readBudget := by
  have hbounded {α : Type} {ready : Bool} {readings : List (Reading α)}
      (hreadings : if ready then Exhausted Loop.readBudget readings else readings = []) :
      readings.length ≤ Loop.readBudget := by
    split at hreadings
    · exact hreadings.length_le
    · rw [hreadings]
      exact Nat.zero_le _
  exact ⟨hbounded h.socket, hbounded h.device⟩

theorem Closes.account {fuel : Nat} {ended : Bool} {rounds : List Round} {closing : List Deed}
    (h : Closes fuel ended rounds closing) :
    Account.of closing = ⟨[], [], if ended then [.shutdown] else [], [], [], [], []⟩ := by
  rw [Closes] at h
  cases ended with
  | true =>
    obtain ⟨now, rfl⟩ := h
    rfl
  | false =>
    rw [h.1]
    rfl

/-- What the log of a run tells: that of rounds, of which each makes at most 64 reads from a
descriptor that is ready and none from another, and calls the engine with each datagram it read,
then with each packet that is not empty, then with each outcome, and then with a tick exactly when
that is due. Ticks are an interval apart. Where there is a worker, each round drains it once, and
submits what the engine has queued by its end, once and in order. If the loop was asked to stop, it
called the engine with that once, after a whole round, and never again. -/
def Dispatched (worker : Bool) (interval : Duration) (fuel : Nat) (ended : Bool)
    (log : List Deed) : Prop :=
  ∃ start rounds closing, log = .clock start :: (roundsLog worker rounds ++ closing) ∧
    Linked interval start rounds ∧ Closes fuel ended rounds closing ∧
    (∀ r ∈ rounds, r.Orderly ∧ r.datagrams.length ≤ 64 ∧ r.packets.length ≤ 64 ∧
      .shutdown ∉ r.calls worker ∧
      ∃ calendar, r.calls worker =
        r.datagrams.flatMap datagramCalls ++ r.packets.flatMap packetCalls ++
          (if worker then r.outcomes.map fun o => .outcome o.2 else []) ++
          if r.due ≤ r.now then [.tick calendar] else []) ∧
    (Account.of log).calls =
      rounds.flatMap (Round.calls worker) ++ (if ended then [.shutdown] else []) ∧
    (Account.of log).ticks.Pairwise (fun s t => s + interval ≤ t) ∧
    (Account.of log).drains = (if worker then rounds.map fun r => r.outcomes.map Prod.snd else []) ∧
    (Account.of log).takes = (if worker then rounds.map Round.jobs else []) ∧
    (Account.of log).submitted = (Account.of log).takes.flatten

theorem dispatched_of_rounds {worker : Bool} {interval : Duration} {fuel : Nat} {ended : Bool}
    {start : Time} {rounds : List Round} {closing : List Deed}
    (hlinked : Linked interval start rounds) (horderly : ∀ r ∈ rounds, r.Orderly)
    (hcloses : Closes fuel ended rounds closing) :
    Dispatched worker interval fuel ended
      (.clock start :: (roundsLog worker rounds ++ closing)) := by
  have haccount : Account.of (.clock start :: (roundsLog worker rounds ++ closing)) =
      Account.of (roundsLog worker rounds) ++ Account.of closing := Account.of_append _ _
  rw [hcloses.account, Account.append_def] at haccount
  obtain ⟨hdrains, htakes, hsubmitted⟩ := work_roundsLog worker horderly
  refine ⟨start, rounds, closing, rfl, hlinked, hcloses, fun r hr => ?_, ?_, ?_, ?_, ?_, ?_⟩
  · obtain ⟨calendar, hround⟩ := (horderly r hr).account worker
    obtain ⟨hdatagrams, hpackets⟩ := (horderly r hr).length_le
    exact ⟨horderly r hr, hdatagrams, hpackets, shutdown_notMem_calls worker (horderly r hr),
      calendar, by rw [Round.calls, hround]⟩
  · rw [haccount, calls_roundsLog]
  · rw [haccount]
    simpa using (ticks_roundsLog hlinked horderly).2
  · simp only [haccount, hdrains, List.append_nil]
  · simp only [haccount, htakes, List.append_nil]
  · simp only [haccount, htakes, hsubmitted, List.append_nil]
    cases worker <;> simp [List.flatMap_def]

namespace Loop

variable {W : Type} (host : Host (StateM W)) (handler : Handler (StateM W)) (interval : Duration)

theorem runFrom_of_ended (more : Nat) {fuel : Nat} {due : Time} {w : W}
    (hended : (runFrom host handler interval fuel due w).1 = true) :
    runFrom host handler interval (fuel + more) due w =
      runFrom host handler interval fuel due w := by
  induction fuel generalizing due w with
  | zero => cases hended
  | succ fuel ih =>
    have hunfold (n : Nat) : runFrom host handler interval (n + 1) due w =
        (if (host.stopping w).1 then do
            handler.handle (← host.now) .shutdown
            host.withdraw
            pure true
          else do
            let next ← iterate host handler interval due
            runFrom host handler interval n next) (host.stopping w).2 := rfl
    rw [Nat.add_right_comm fuel 1 more, hunfold, hunfold]
    rw [hunfold] at hended
    split at hended
    · rename_i hstop
      rw [if_pos hstop, if_pos hstop]
    · rename_i hstop
      rw [if_neg hstop, if_neg hstop]
      exact ih hended

/-- A noted run does what one that is not noted does, and its log tells it. -/
theorem exists_log (fuel : Nat) (w : W) :
    ∃ log, run host.noting handler.noting interval fuel [] w =
        (((run host handler interval fuel w).1, log), (run host handler interval fuel w).2) ∧
      Dispatched host.worker.isSome interval fuel (run host handler interval fuel w).1 log := by
  obtain ⟨log, -, hrun⟩ :=
    follows_run host.follows_noting handler.follows_noting interval fuel [] trivial w
  obtain ⟨deeds, hlog, start, rounds, closing, hdeeds, hlinked, horderly, hcloses⟩ :=
    notes_run host handler interval fuel [] w
  rw [hrun] at hlog hcloses
  obtain rfl : log = deeds := hlog
  rw [hdeeds] at hrun
  exact ⟨_, hrun, dispatched_of_rounds hlinked horderly hcloses⟩

/-- A run through the buffer does what one without it does, where only what is too long for the
buffer is cut. Once it has ended, more rounds would change nothing. And it goes round by round, as
its log tells. -/
theorem dispatch (fuel : Nat) (w : W) :
    (∀ buffer, Sized buffer → ∃ buffer', run host.buffered handler.buffered interval fuel buffer w =
      (((run host.cut handler interval fuel w).1, buffer'),
        (run host.cut handler interval fuel w).2)) ∧
    ((run host.cut handler interval fuel w).1 = true →
      ∀ more, run host.cut handler interval (fuel + more) w =
        run host.cut handler interval fuel w) ∧
    ∃ log, run host.cut.noting handler.noting interval fuel [] w =
        (((run host.cut handler interval fuel w).1, log),
          (run host.cut handler interval fuel w).2) ∧
      Dispatched host.worker.isSome interval fuel (run host.cut handler interval fuel w).1 log := by
  refine ⟨fun buffer hbuffer => ?_, fun hended more => ?_,
    exists_log host.cut handler interval fuel w⟩
  · obtain ⟨buffer', -, hrun⟩ :=
      follows_run host.follows_buffered handler.follows_buffered interval fuel buffer hbuffer w
    exact ⟨buffer', hrun⟩
  · exact runFrom_of_ended host.cut handler interval more hended

def errand : Route := ⟨.v4 ⟨0x0a080001, Fin.last 32⟩, .v4 0x0a070001⟩

def shortSetting : Setting where
  interval := 1000
  stopped := false
  publishes := true
  echo := false
  connected := true
  worker := some ⟨fun _ => .ok (), .literal⟩

/-- A long packet, an empty one and a short one, and a datagram that comes in meanwhile; after its
first tick the engine wants a route installed. -/
def shortStage : Stage where
  script :=
    [.packet [1, 2, 3, 4], .packet [], .interrupted, .datagrams [5] 7 1, .packet [9], .nothing]
  stopping := false
  inbox := []
  planned := [⟨1, .installRoute errand⟩]
  finished := []
  published := none
  ticks := 0
  outcomes := 0
  notes := []

def shortRun : Bool × Stage :=
  run (Rehearsal.host shortSetting).cut (Rehearsal.handler shortSetting) 1000 5 shortStage

def shortLog : List Deed :=
  (run (Rehearsal.host shortSetting).cut.noting (Rehearsal.handler shortSetting).noting 1000 5 []
    shortStage).1.2

theorem dispatch_shortRun :
    Sized emptyBuffer ∧ shortRun.1 = true ∧
      shortRun.2.notes = [.packet [1, 2, 3, 4], .packet [9], .tick 1, .datagram [5] 7,
        .outcome (.routeInstalled errand), .shutdown] ∧
      (∃ buffer, run (Rehearsal.host shortSetting).buffered
          (Rehearsal.handler shortSetting).buffered 1000 5 emptyBuffer shortStage =
        ((shortRun.1, buffer), shortRun.2)) ∧
      Dispatched true 1000 5 true shortLog ∧
      (Account.of shortLog).drains = [[], [.routeInstalled errand]] ∧
      (Account.of shortLog).submitted = [.installRoute errand] := by
  have h :=
    dispatch (Rehearsal.host shortSetting) (Rehearsal.handler shortSetting) 1000 5 shortStage
  have hended : shortRun.1 = true := by decide +kernel
  obtain ⟨log, hlog, hdispatched⟩ := h.2.2
  have hsame : shortLog = log := by rw [shortLog, hlog]
  have hrun : Dispatched true 1000 5 shortRun.1 log := hdispatched
  rw [hended] at hrun
  exact ⟨sized_emptyBuffer, hended, by decide +kernel, h.1 emptyBuffer sized_emptyBuffer,
    hsame ▸ hrun, by decide +kernel, by decide +kernel⟩

end Loop

end PacketTunnel
