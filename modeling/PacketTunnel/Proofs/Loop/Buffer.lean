import PacketTunnel.Proofs.Loop.Following

/-!
# What the buffer hands on

A read through the buffer hands on the bytes that were read, and none that an earlier and longer
read left behind them. Only what is too long for the buffer is cut. Hence a loop that reads through
a buffer follows one that reads without it.
-/
namespace PacketTunnel

namespace Loop

theorem length_fill (bytes buffer : Bytes) : (fill bytes buffer).length = buffer.length := by
  rw [fill, List.length_append, List.length_take, List.length_drop]
  omega

theorem fst_passThrough (bytes buffer : Bytes) :
    (passThrough bytes buffer).1 = bytes.take buffer.length := by
  rw [passThrough, fill]
  exact List.take_left' (by rw [List.length_take, Nat.min_comm])

def cut (bytes : Bytes) : Bytes := bytes.take bufferSize

def Sized (buffer : Bytes) : Prop := buffer.length = bufferSize

theorem sized_emptyBuffer : Sized emptyBuffer := List.length_replicate

end Loop

variable {W : Type}

/-- The host without a buffer, with everything cut that is too long for one. -/
def Host.cut (host : Host (StateM W)) : Host (StateM W) :=
  { host with
    receive := do (← host.receive).mapM fun (bytes, sender) => pure (Loop.cut bytes, sender)
    read := do (← host.read).mapM fun bytes => pure (Loop.cut bytes) }

theorem Reading.follows_mapM {σ α β : Type} {I : σ → Prop} {f : α → StateT σ (StateM W) β}
    {g : α → StateM W β} (h : ∀ a, Follows I (f a) (g a)) (reading : Reading α) :
    Follows I (reading.mapM f) (reading.mapM g) := by
  cases reading with
  | data value => exact .bind (h value) fun _ => .pure _
  | nothing => exact .pure _
  | interrupted => exact .pure _
  | failed => exact .pure _

theorem Loop.follows_passThrough (bytes : Bytes) :
    Follows (W := W) Loop.Sized (modifyGet (Loop.passThrough bytes)) (pure (Loop.cut bytes)) := by
  intro buffer hbuffer w
  refine ⟨Loop.fill bytes buffer, (Loop.length_fill bytes buffer).trans hbuffer, ?_⟩
  have hbytes : (Loop.passThrough bytes buffer).1 = Loop.cut bytes := by
    rw [Loop.fst_passThrough, hbuffer, Loop.cut]
  change (((Loop.passThrough bytes buffer).1, Loop.fill bytes buffer), w) =
    ((Loop.cut bytes, Loop.fill bytes buffer), w)
  rw [hbytes]

theorem WorkerPort.follows_buffered (worker : WorkerPort (StateM W)) :
    worker.buffered.Follows Loop.Sized worker where
  finished := .lift _
  submit _ := .lift _

theorem Host.follows_buffered (host : Host (StateM W)) :
    host.buffered.Follows Loop.Sized host.cut where
  stopping := .lift _
  now := .lift _
  calendar := .lift _
  wait _ := .lift _
  receive := by
    refine .bind (.lift _) fun reading => Reading.follows_mapM (fun value => ?_) reading
    exact .bind (Loop.follows_passThrough value.1) fun _ => .pure _
  read := .bind (.lift _) fun reading => Reading.follows_mapM Loop.follows_passThrough reading
  worker := by
    change Option.Rel _ (host.worker.map WorkerPort.buffered) host.worker
    cases host.worker with
    | none => exact .none
    | some worker => exact .some worker.follows_buffered
  publish _ := .lift _
  withdraw := .lift _

theorem Handler.follows_buffered (handler : Handler (StateM W)) :
    handler.buffered.Follows Loop.Sized handler where
  handle _ _ := .lift _
  takeJobs := .lift _
  snapshot _ := .lift _

end PacketTunnel
